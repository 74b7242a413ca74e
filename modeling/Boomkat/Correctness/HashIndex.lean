import Boomkat.Collections.Collection
import Boomkat.Correctness.KeyEquality

/-! The hash index of a collection: what it says of the entries, and a lookup by it. -/

namespace Boomkat.Correctness

open Foundation Collections

variable {heap : HeapData} {coll coll' : Coll} {ci ci' : CollHashInfo} {cls : CollClass}
  {i j start stop : Nat} {key : TVal}

-----------------------------------------------------------------------------------------
-- Positions
-----------------------------------------------------------------------------------------

theorem stride_positive (cls : CollClass) : 0 < cls.stride := by cases cls <;> decide

/-- The positions between two that begin entries are the multiples of the stride. -/
theorem mem_positions (first : cls.stride ∣ start) (last : cls.stride ∣ stop)
    : i ∈ positions cls.stride start stop ↔ start ≤ i ∧ i < stop ∧ cls.stride ∣ i := by
  simp only [positions, List.mem_range']
  cases cls <;> simp only [CollClass.stride, one_dvd, and_true] at first last ⊢
  all_goals
    constructor
    · rintro ⟨n, small, rfl⟩
      omega
    · intro within
      first
        | exact ⟨i - start, by omega, by omega⟩
        | exact ⟨(i - start) / 2, by omega, by omega⟩

/-- The position begins an entry. -/
def IsEntry (coll : Coll) (i : Nat) : Prop := i < coll.arrayUsed ∧ coll.cls.stride ∣ i

theorem positions_sorted (stride start stop : Nat) (positive : 0 < stride)
    : (positions stride start stop).Pairwise (· < ·) :=
  List.pairwise_lt_range' _ positive

-----------------------------------------------------------------------------------------
-- Entering positions
-----------------------------------------------------------------------------------------

/-- The slots hold positions within reach of their hashes, with an empty slot left. -/
structure Probed (ci : CollHashInfo) (hash : Nat → Nat) : Prop where
  power : PowerOfTwo ci.slots.length
  reach : InReach ci.slots hash
  filled : filled ci.slots ≤ ci.used
  room : ci.used < ci.slots.length

/-- New positions are entered, and nothing else changes in the index. -/
theorem Probed.indexEntries {free : List (Slot Nat) → Nat → Nat → Option Nat} {hash : Nat → Nat}
    (finds : FindsVacant free) (probed : Probed ci hash) {entered : List Nat}
    (distinct : entered.Nodup) (new : ∀ i ∈ entered, Slot.entry i ∉ ci.slots)
    (room : ci.used + entered.length < ci.slots.length)
    : ∃ ci', indexEntries free hash entered ci = some ci' ∧ Probed ci' hash
      ∧ ci'.slots.length = ci.slots.length ∧ ci'.used = ci.used + entered.length
      ∧ ci'.built = ci.built
      ∧ ∀ i, Slot.entry i ∈ ci'.slots ↔ i ∈ entered ∨ Slot.entry i ∈ ci.slots := by
  induction entered generalizing ci with
  | nil => exact ⟨ci, rfl, probed, rfl, rfl, rfl, by simp⟩
  | cons i entered ih =>
      have inside : firstSlot ci.slots.length (hash i) < ci.slots.length :=
        firstSlot_lt (Nat.ne_of_gt probed.power.positive) _
      obtain ⟨use, found, vacant⟩ := finds ci.slots _ probed.power inside
        (Nat.lt_of_le_of_lt probed.filled probed.room)
      obtain ⟨within, unused⟩ := vacant.free
      have added : ∀ other, Slot.entry other ∈ ci.slots.set use (.entry i)
          ↔ other = i ∨ Slot.entry other ∈ ci.slots := fun other => mem_set_entry unused within
      rw [List.length_cons] at room
      have probed' : Probed { ci with slots := ci.slots.set use (.entry i), used := ci.used + 1 }
          hash := by
        refine ⟨?_, probed.reach.insert (new i (List.mem_cons_self ..)) vacant, ?_, ?_⟩
        · rw [List.length_set]
          exact probed.power
        · exact Nat.le_trans (filled_set ..) (Nat.succ_le_succ probed.filled)
        · rw [List.length_set]
          show ci.used + 1 < ci.slots.length
          omega
      have new' : ∀ j ∈ entered, Slot.entry j ∉ ci.slots.set use (.entry i) := by
        intro j member present
        rcases (added j).mp present with rfl | old
        · exact (List.nodup_cons.mp distinct).1 member
        · exact new j (List.mem_cons_of_mem _ member) old
      have roomRest : ci.used + 1 + entered.length < (ci.slots.set use (.entry i)).length := by
        rw [List.length_set]
        omega
      obtain ⟨ci', entersRest, probed'', size, used, built, members⟩ :=
        ih probed' (List.nodup_cons.mp distinct).2 new' roomRest
      refine ⟨ci', ?_, probed'', size.trans List.length_set, ?_, built, ?_⟩
      · rw [Collections.indexEntries, found]
        exact entersRest
      · rw [used, List.length_cons]
        show ci.used + 1 + entered.length = _
        omega
      · intro other
        rw [members, added, List.mem_cons]
        exact ⟨fun either => either.elim (fun later => .inl (.inr later))
            (fun earlier => earlier.elim (fun same => .inl (.inl same)) .inr),
          fun either => either.elim (fun entry => entry.elim (fun same => .inr (.inl same)) .inl)
            (fun old => .inr (.inr old))⟩

-----------------------------------------------------------------------------------------
-- The invariant
-----------------------------------------------------------------------------------------

/-- The entries fill the dense part up to `arrayUsed`, and no two live keys are the same. -/
structure EntriesFit (heap : HeapData) (coll : Coll) : Prop where
  whole : coll.cls.stride ∣ coll.arrayUsed
  inside : coll.arrayUsed ≤ coll.arrayPart.length
  bounded : coll.arrayUsed < 2 ^ 31
  spare : ∀ i, coll.arrayUsed ≤ i → coll.slot i = .undefined
  once : ∀ i j m, IsEntry coll i → IsEntry coll j → meaning heap (coll.slot i) = some m →
    meaning heap (coll.slot j) = some m → i = j
  weak : coll.cls.isWeak = true → ∀ i, IsEntry coll i → coll.slot i ≠ .deleted

/-- The index has the live entries up to `built`, which are all but the last at most. A position
stays in it when its entry is deleted.
-/
structure Indexed (heap : HeapData) (coll : Coll) (ci : CollHashInfo) : Prop where
  least : 8 * coll.cls.stride ≤ ci.built
  whole : coll.cls.stride ∣ ci.built
  behind : ci.built ≤ coll.arrayUsed ∧ coll.arrayUsed ≤ ci.built + coll.cls.stride
  large : 16 ≤ ci.slots.length
  small : ci.built = 8 * coll.cls.stride → ci.slots.length = 16
  weak : coll.cls.isWeak = true → ci.used * coll.cls.stride = ci.built
  probed : ∃ hash, Probed ci hash
    ∧ (∀ i, Slot.entry i ∈ ci.slots → i < ci.built ∧ coll.cls.stride ∣ i)
    ∧ ∀ i, i < ci.built → coll.cls.stride ∣ i → coll.slot i ≠ .deleted →
      Slot.entry i ∈ ci.slots ∧ hash i = coll.hashAt heap i

/-- The index is replaced before the next lookup by it. -/
def Outdated (coll : Coll) (ci : CollHashInfo) : Prop :=
  ci.mask < ci.used * 2
    ∨ coll.arrayUsed < ci.built ∧ 8 * coll.cls.stride < ci.built

/-- A collection as its operations leave it. -/
structure CollSound (heap : HeapData) (coll : Coll) : Prop where
  fits : EntriesFit heap coll
  index : ∀ ci, coll.collHash = some ci → Indexed heap coll ci ∨ Outdated coll ci

/-- The two have the same entries. -/
structure SameEntries (coll coll' : Coll) : Prop where
  cls : coll'.cls = coll.cls
  part : coll'.arrayPart = coll.arrayPart
  used : coll'.arrayUsed = coll.arrayUsed

theorem SameEntries.slot (same : SameEntries coll coll') (i : Nat) : coll'.slot i = coll.slot i := by
  rw [Coll.slot, Coll.slot, same.part]

theorem SameEntries.isEntry (same : SameEntries coll coll') : IsEntry coll' i ↔ IsEntry coll i := by
  rw [IsEntry, IsEntry, same.cls, same.used]

theorem SameEntries.entriesFit (same : SameEntries coll coll') (fits : EntriesFit heap coll)
    : EntriesFit heap coll' where
  whole := by
    rw [same.cls, same.used]
    exact fits.whole
  inside := by
    rw [same.part, same.used]
    exact fits.inside
  bounded := by
    rw [same.used]
    exact fits.bounded
  spare i beyond := by
    rw [same.slot]
    exact fits.spare i (same.used ▸ beyond)
  once i j m left right meansI meansJ := by
    rw [same.slot] at meansI meansJ
    exact fits.once i j m (same.isEntry.mp left) (same.isEntry.mp right) meansI meansJ
  weak isWeak i entry := by
    rw [same.slot]
    exact fits.weak (same.cls ▸ isWeak) i (same.isEntry.mp entry)

theorem SameEntries.findInArrayPart (same : SameEntries coll coll')
    : findInArrayPart heap coll' key = findInArrayPart heap coll key := by
  simp only [Collections.findInArrayPart, same.cls, same.used, same.slot]

theorem SameEntries.trans {coll'' : Coll} (first : SameEntries coll coll')
    (second : SameEntries coll' coll'')
    : SameEntries coll coll'' :=
  ⟨second.cls.trans first.cls, second.part.trans first.part, second.used.trans first.used⟩

-----------------------------------------------------------------------------------------
-- The linear scan
-----------------------------------------------------------------------------------------

/-- The scan finds the only entry whose key is the same. -/
theorem findInArrayPart_eq_some (fit : KeysFit heap) (fits : EntriesFit heap coll)
    : findInArrayPart heap coll key = some i
      ↔ IsEntry coll i ∧ sameValueZero heap (coll.slot i) key = true := by
  constructor
  · intro found
    have member := List.mem_of_find?_eq_some found
    have same : sameValueZero heap (coll.slot i) key = true := by
      simpa only using List.find?_some found
    rw [mem_positions (Nat.dvd_zero _) fits.whole] at member
    exact ⟨member.2, same⟩
  · rintro ⟨entry, same⟩
    obtain ⟨m, meansI, meansKey⟩ := (sameValueZero_iff fit).mp same
    have member : i ∈ positions coll.cls.stride 0 coll.arrayUsed :=
      (mem_positions (Nat.dvd_zero _) fits.whole).mpr ⟨Nat.zero_le _, entry⟩
    cases found : findInArrayPart heap coll key with
    | none => exact absurd same (List.find?_eq_none.mp found i member)
    | some j =>
        have member' := List.mem_of_find?_eq_some found
        rw [mem_positions (Nat.dvd_zero _) fits.whole] at member'
        have same' : sameValueZero heap (coll.slot j) key = true := by
          simpa only using List.find?_some found
        obtain ⟨m', meansJ, meansKey'⟩ := (sameValueZero_iff fit).mp same'
        obtain rfl := Option.some.inj (meansKey.symm.trans meansKey')
        rw [fits.once i j m entry member'.2 meansI meansJ]

theorem findInArrayPart_eq_none (fits : EntriesFit heap coll)
    : findInArrayPart heap coll key = none
      ↔ ∀ i, IsEntry coll i → sameValueZero heap (coll.slot i) key = false := by
  rw [findInArrayPart, List.find?_eq_none]
  constructor
  · intro none i entry
    have member := (mem_positions (Nat.dvd_zero _) fits.whole).mpr ⟨Nat.zero_le i, entry⟩
    simpa using none i member
  · intro none i member
    rw [mem_positions (Nat.dvd_zero _) fits.whole] at member
    simp [none i member.2]

-----------------------------------------------------------------------------------------
-- Lookups by the index
-----------------------------------------------------------------------------------------

/-- A lookup by an index that is up to date is the linear scan. -/
theorem Indexed.probe (fit : KeysFit heap) (fits : EntriesFit heap coll)
    (indexed : Indexed heap coll ci) (current : ci.built = coll.arrayUsed)
    : probeEntry ci.slots
        (fun i => decide (i < coll.arrayUsed) && sameValueZero heap (coll.slot i) key)
        ci.slots.length (firstSlot ci.slots.length (collHashKey heap key).toNat)
      = some (findInArrayPart heap coll key) := by
  obtain ⟨hash, probed, positioned, present⟩ := indexed.probed
  have inside : firstSlot ci.slots.length (collHashKey heap key).toNat < ci.slots.length :=
    firstSlot_lt (Nat.ne_of_gt probed.power.positive) _
  rw [probeEntry_eq probed.power inside (Nat.lt_of_le_of_lt probed.filled probed.room)]
  congr 1
  cases scanned : findInArrayPart heap coll key with
  | none =>
      have absent := (findInArrayPart_eq_none fits).mp scanned
      refine Option.eq_none_iff_forall_ne_some.mpr fun i found => ?_
      obtain ⟨member, isWanted⟩ := findEntry_sound found
      simp only [Bool.and_eq_true, decide_eq_true_eq] at isWanted
      have entry : IsEntry coll i := ⟨isWanted.1, (positioned i member).2⟩
      simp [absent i entry] at isWanted
  | some i =>
      obtain ⟨entry, same⟩ := (findInArrayPart_eq_some fit fits).mp scanned
      obtain ⟨m, meansI, meansKey⟩ := (sameValueZero_iff fit).mp same
      have live : coll.slot i ≠ .deleted := by
        intro deleted
        simp [deleted, meaning] at meansI
      obtain ⟨member, hashed⟩ := present i (current ▸ entry.1) entry.2 live
      have start : (collHashKey heap key).toNat = hash i := by
        rw [hashed, Coll.hashAt, collHashKey_eq meansI meansKey]
      rw [start]
      refine probed.reach.find member (by simp [entry.1, same]) fun j member' isWanted => ?_
      simp only [Bool.and_eq_true, decide_eq_true_eq] at isWanted
      have found := (findInArrayPart_eq_some fit fits).mpr
        ⟨⟨isWanted.1, (positioned j member').2⟩, isWanted.2⟩
      exact Option.some.inj (found.symm.trans scanned)

end Boomkat.Correctness
