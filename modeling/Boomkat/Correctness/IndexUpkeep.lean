import Boomkat.Correctness.HashIndex

/-! How the hash index is built and caught up, and that a lookup comes to what the linear scan
finds.
-/

namespace Boomkat.Correctness

open Foundation Collections

variable {heap : HeapData} {coll coll' : Coll} {ci ci' : CollHashInfo} {cls : CollClass}
  {i j start stop : Nat} {key : TVal}

-----------------------------------------------------------------------------------------
-- Doubled sizes
-----------------------------------------------------------------------------------------

theorem doubleUpTo_spec {limit target fuel size n : Nat}
    (doubled : doubleUpTo limit target fuel size = some n)
    : target ≤ n ∧ size ≤ n ∧ (PowerOfTwo size → PowerOfTwo n) ∧ (target ≤ size → n = size) := by
  induction fuel generalizing size with
  | zero => cases doubled
  | succ fuel ih =>
      simp only [doubleUpTo] at doubled
      split at doubled
      · rename_i enough
        cases doubled
        exact ⟨enough, Nat.le_refl _, id, fun _ => rfl⟩
      · rename_i small
        split at doubled
        · cases doubled
        · obtain ⟨reached, grown, power, -⟩ := ih doubled
          refine ⟨reached, by omega, ?_, fun enough => absurd enough small⟩
          rintro ⟨k, rfl⟩
          exact power ⟨k + 1, rfl⟩

/-- A target within the limit is reached. -/
theorem doubleUpTo_exists {limit target fuel size : Nat} (within : target ≤ limit)
    (enough : target ≤ size * 2 ^ fuel)
    : ∃ n, doubleUpTo limit target (fuel + 1) size = some n := by
  induction fuel generalizing size with
  | zero => exact ⟨size, by simp only [doubleUpTo, if_pos (show target ≤ size by omega)]⟩
  | succ fuel ih =>
      rw [doubleUpTo]
      split
      · exact ⟨size, rfl⟩
      · rw [if_neg (by omega)]
        exact ih (by rwa [Nat.mul_assoc, ← Nat.pow_succ'])

-----------------------------------------------------------------------------------------
-- Live positions
-----------------------------------------------------------------------------------------

theorem positions_length (first : cls.stride ∣ start) (last : cls.stride ∣ stop)
    : (positions cls.stride start stop).length * cls.stride = stop - start := by
  rw [positions, List.length_range']
  cases cls <;> simp only [CollClass.stride] at first last ⊢ <;> omega

theorem mem_livePositions (fits : EntriesFit heap coll) (first : coll.cls.stride ∣ start)
    : i ∈ coll.livePositions start
      ↔ start ≤ i ∧ IsEntry coll i ∧ coll.slot i ≠ .deleted := by
  rw [Coll.livePositions, List.mem_filter, mem_positions first fits.whole, bne_iff_ne, IsEntry]
  constructor
  · rintro ⟨⟨behind, within, begins⟩, live⟩
    exact ⟨behind, ⟨within, begins⟩, live⟩
  · rintro ⟨behind, ⟨within, begins⟩, live⟩
    exact ⟨⟨behind, within, begins⟩, live⟩

theorem livePositions_nodup (coll : Coll) (start : Nat) : (coll.livePositions start).Nodup :=
  (positions_sorted _ start _ (stride_positive coll.cls)).imp Nat.ne_of_lt |>.filter _

/-- There are at most as many live entries as entries, and in a weak collection as many. -/
theorem livePositions_length (fits : EntriesFit heap coll) (first : coll.cls.stride ∣ start)
    : (coll.livePositions start).length * coll.cls.stride ≤ coll.arrayUsed - start
      ∧ (coll.cls.isWeak = true →
        (coll.livePositions start).length * coll.cls.stride = coll.arrayUsed - start) := by
  have total := positions_length first fits.whole
  constructor
  · rw [← total]
    exact Nat.mul_le_mul_right _ (List.length_filter_le ..)
  · intro isWeak
    rw [← total]
    congr 2
    refine List.filter_eq_self.mpr fun i member => ?_
    rw [mem_positions first fits.whole] at member
    exact bne_iff_ne.mpr (fits.weak isWeak i member.2)

theorem indexEntries_congr {free : List (Slot Nat) → Nat → Nat → Option Nat} {hash hash' : Nat → Nat}
    {entered : List Nat} (same : ∀ i ∈ entered, hash i = hash' i)
    : indexEntries free hash entered ci = indexEntries free hash' entered ci := by
  induction entered generalizing ci with
  | nil => rfl
  | cons i entered ih =>
      rw [indexEntries, indexEntries, same i (List.mem_cons_self ..)]
      congr 1
      funext slot
      exact ih fun j member => same j (List.mem_cons_of_mem _ member)

-----------------------------------------------------------------------------------------
-- A new index
-----------------------------------------------------------------------------------------

/-- The index of the collection, if any, is up to date. -/
def UpToDate (heap : HeapData) (coll : Coll) : Prop :=
  ∀ ci, coll.collHash = some ci → Indexed heap coll ci ∧ ci.built = coll.arrayUsed

theorem entries_mul (fits : EntriesFit heap coll)
    : coll.entries * coll.cls.stride = coll.arrayUsed :=
  Nat.div_mul_cancel fits.whole

/-- A new index has all live entries, at a load of one half at most. -/
theorem collHashBuild_spec (fits : EntriesFit heap coll) (many : 8 ≤ coll.entries)
    (allocates : Bool)
    : ∃ coll', collHashBuild heap coll allocates = some coll' ∧ SameEntries coll coll'
      ∧ UpToDate heap coll' := by
  have total := entries_mul fits
  have bounded := fits.bounded
  have short : coll.entries ≤ coll.arrayUsed := Nat.div_le_self ..
  have wraps : coll.entries * 2 % 2 ^ 32 = coll.entries * 2 := Nat.mod_eq_of_lt (by omega)
  have start : coll.cls.stride ∣ 0 := Nat.dvd_zero _
  rw [collHashBuild, wraps]
  split
  · rename_i cap doubled
    obtain ⟨reached, large, power, least⟩ := doubleUpTo_spec doubled
    simp only
    split
    · exact ⟨_, rfl, ⟨rfl, rfl, rfl⟩, nofun⟩
    · have live := livePositions_length fits start
      rw [Nat.sub_zero, ← total] at live
      have few : (coll.livePositions 0).length ≤ coll.entries :=
        Nat.le_of_mul_le_mul_right live.1 (stride_positive coll.cls)
      have empty : Probed ⟨List.replicate cap .empty, 0, coll.arrayUsed⟩ (coll.hashAt heap) := by
        refine ⟨?_, InReach.empty cap _, ?_, ?_⟩
        · simpa using power ⟨4, rfl⟩
        · rw [filled_replicate]
        · simpa using Nat.lt_of_lt_of_le (by decide : 0 < 16) large
      have none : ∀ i ∈ coll.livePositions 0, Slot.entry i ∉ List.replicate cap Slot.empty := by
        intro i _ present
        cases (List.mem_replicate.mp present).2
      have room : 0 + (coll.livePositions 0).length
          < (List.replicate cap (Slot.empty (α := Nat))).length := by
        rw [List.length_replicate]
        omega
      obtain ⟨ci, entered, probed, size, used, built, members⟩ :=
        empty.indexEntries findsVacant_emptySlot (livePositions_nodup coll 0) none room
      rw [List.length_replicate] at size
      rw [entered]
      refine ⟨_, rfl, ⟨rfl, rfl, rfl⟩, fun new isNew => ?_⟩
      obtain rfl : ci = new := Option.some.inj isNew
      refine ⟨⟨?_, ?_, ?_, ?_, ?_, ?_, coll.hashAt heap, probed, ?_, ?_⟩, built⟩
      · rw [built, ← total]
        exact Nat.mul_le_mul_right _ many
      · rw [built]
        exact fits.whole
      · rw [built]
        exact ⟨Nat.le_refl _, Nat.le_add_right ..⟩
      · rw [size]
        exact large
      · intro eight
        rw [built, ← total] at eight
        have exactly : coll.entries = 8 := Nat.eq_of_mul_eq_mul_right (stride_positive coll.cls) eight
        rw [size, least (by omega)]
      · intro isWeak
        rw [used, built, Nat.zero_add, ← total]
        exact live.2 isWeak
      · intro i present
        rcases (members i).mp present with entry | old
        · rw [built]
          exact ((mem_livePositions fits start).mp entry).2.1
        · cases (List.mem_replicate.mp old).2
      · intro i within begins live
        rw [built] at within
        have entry := (mem_livePositions fits start).mpr ⟨Nat.zero_le i, ⟨within, begins⟩, live⟩
        exact ⟨(members i).mpr (.inl entry), rfl⟩
  · exact ⟨_, rfl, ⟨rfl, rfl, rfl⟩, nofun⟩

-----------------------------------------------------------------------------------------
-- Catching up
-----------------------------------------------------------------------------------------

/-- An index that lacks the last entry, at a low load, gets it. -/
theorem Indexed.catchUp (fits : EntriesFit heap coll) (indexed : Indexed heap coll ci)
    (lacks : ci.built < coll.arrayUsed) (low : ci.used * 2 ≤ ci.mask)
    : ∃ ci', indexEntries vacantSlot (coll.hashAt heap) (coll.livePositions ci.built) ci = some ci'
      ∧ Indexed heap { coll with collHash := some { ci' with built := coll.arrayUsed } }
        { ci' with built := coll.arrayUsed } := by
  obtain ⟨hash, probed, positioned, present⟩ := indexed.probed
  have positive := stride_positive coll.cls
  have last : ci.built + coll.cls.stride = coll.arrayUsed := by
    obtain ⟨m, begins⟩ := indexed.whole
    obtain ⟨n, ends⟩ := fits.whole
    have behind := indexed.behind
    rw [begins, ends] at lacks behind ⊢
    have above : m < n := Nat.lt_of_mul_lt_mul_left lacks
    have below : n ≤ m + 1 := Nat.le_of_mul_le_mul_left (by rw [Nat.mul_succ]; exact behind.2) positive
    rw [show n = m + 1 by omega, Nat.mul_succ]
  let hash' : Nat → Nat := fun i => if i < ci.built then hash i else coll.hashAt heap i
  have earlier : ∀ i, i < ci.built → hash' i = hash i := fun i within => if_pos within
  have later : ∀ i, ci.built ≤ i → hash' i = coll.hashAt heap i :=
    fun i behind => if_neg (Nat.not_lt.mpr behind)
  have probed' : Probed ci hash' :=
    ⟨probed.power,
      probed.reach.congr fun i member => (earlier i (positioned i member).1).symm,
      probed.filled, probed.room⟩
  have live := livePositions_length fits indexed.whole
  rw [← last, Nat.add_sub_cancel_left] at live
  have one : (coll.livePositions ci.built).length ≤ 1 := by
    by_contra several
    have more := Nat.mul_le_mul_right coll.cls.stride (Nat.lt_of_not_le several)
    omega
  have new : ∀ i ∈ coll.livePositions ci.built, Slot.entry i ∉ ci.slots := by
    intro i member old
    have behind := ((mem_livePositions fits indexed.whole).mp member).1
    exact absurd (positioned i old).1 (Nat.not_lt.mpr behind)
  have large := indexed.large
  obtain ⟨ci', entered, probed'', size, used, built, members⟩ :=
    probed'.indexEntries findsVacant_vacantSlot (livePositions_nodup coll _) new
      (by rw [CollHashInfo.mask] at low; omega)
  rw [← indexEntries_congr (fun i member =>
    later i ((mem_livePositions fits indexed.whole).mp member).1)]
  refine ⟨ci', entered, ⟨?_, fits.whole, ⟨Nat.le_refl _, Nat.le_add_right ..⟩, size ▸ large, ?_, ?_,
    hash', ⟨probed''.power, probed''.reach, probed''.filled, probed''.room⟩, ?_, ?_⟩⟩
  · exact Nat.le_trans indexed.least (Nat.le_of_lt lacks)
  · intro eight
    have least := indexed.least
    simp only at eight
    omega
  · intro isWeak
    simp only
    rw [used, Nat.add_mul, indexed.weak isWeak, live.2 isWeak, last]
  · intro i member
    rcases (members i).mp member with entry | old
    · exact ((mem_livePositions fits indexed.whole).mp entry).2.1
    · exact ⟨Nat.lt_trans (positioned i old).1 lacks, (positioned i old).2⟩
  · intro i within begins alive
    by_cases before : i < ci.built
    · obtain ⟨member, hashed⟩ := present i before begins alive
      exact ⟨(members i).mpr (.inr member), (earlier i before).trans hashed⟩
    · have entry := (mem_livePositions fits indexed.whole).mpr
        ⟨Nat.le_of_not_lt before, ⟨within, begins⟩, alive⟩
      exact ⟨(members i).mpr (.inl entry), later i (Nat.le_of_not_lt before)⟩

/-- Catching up leaves the index up to date or as it was. -/
theorem CollSound.catchUp (sound : CollSound heap coll)
    : ∃ coll', coll.catchUp heap = some coll' ∧ SameEntries coll coll' ∧ CollSound heap coll' := by
  rw [Coll.catchUp]
  split
  · rename_i ci found
    split
    · rename_i needed
      obtain ⟨lacks, low, -⟩ := needed
      rcases sound.index ci found with indexed | high | ⟨beyond, -⟩
      · obtain ⟨ci', entered, indexed'⟩ := indexed.catchUp sound.fits lacks low
        rw [entered]
        have same : SameEntries coll
            { coll with collHash := some { ci' with built := coll.arrayUsed } } := ⟨rfl, rfl, rfl⟩
        refine ⟨_, rfl, same, same.entriesFit sound.fits, fun new isNew => ?_⟩
        obtain rfl := Option.some.inj isNew
        exact .inl indexed'
      · omega
      · omega
    · exact ⟨coll, rfl, ⟨rfl, rfl, rfl⟩, sound⟩
  · exact ⟨coll, rfl, ⟨rfl, rfl, rfl⟩, sound⟩

-----------------------------------------------------------------------------------------
-- A lookup
-----------------------------------------------------------------------------------------

/-- After a lookup the entries are as before. The index is up to date, or it is outdated while
there are too few entries for one.
-/
structure LookedUp (heap : HeapData) (coll coll' : Coll) : Prop where
  same : SameEntries coll coll'
  index : ∀ ci, coll'.collHash = some ci →
    Indexed heap coll' ci ∧ ci.built = coll'.arrayUsed
      ∨ Outdated coll' ci ∧ coll'.arrayUsed < 8 * coll'.cls.stride

/-- A lookup comes to what the linear scan finds, whether it goes by the index or not. -/
theorem CollSound.collFind (fit : KeysFit heap) (sound : CollSound heap coll) (key : TVal)
    (allocates : Bool)
    : ∃ coll', collFind heap coll key allocates = some (coll', findInArrayPart heap coll key)
      ∧ LookedUp heap coll coll' := by
  have total := entries_mul sound.fits
  have positive := stride_positive coll.cls
  rw [Collections.collFind]
  split
  · rename_i few
    refine ⟨coll, rfl, ⟨rfl, rfl, rfl⟩, fun ci found => ?_⟩
    have short : coll.arrayUsed < 8 * coll.cls.stride := by
      rw [← total]
      exact Nat.mul_lt_mul_of_pos_right few positive
    refine .inr ⟨(sound.index ci found).resolve_left fun indexed => ?_, short⟩
    have least := indexed.least
    have behind := indexed.behind
    omega
  · rename_i many
    rw [collHashMinEntries] at many
    obtain ⟨caught, catchesUp, sameCaught, soundCaught⟩ := sound.catchUp
    have manyCaught : 8 ≤ caught.entries := by
      rw [Coll.entries, sameCaught.used, sameCaught.cls]
      exact Nat.le_of_not_lt many
    obtain ⟨built, builds, sameBuilt, current⟩ : ∃ built,
        caught.refresh heap allocates = some built
        ∧ SameEntries caught built ∧ UpToDate heap built := by
      rw [Coll.refresh]
      split
      · exact collHashBuild_spec soundCaught.fits manyCaught allocates
      · rename_i serves
        refine ⟨caught, rfl, ⟨rfl, rfl, rfl⟩, fun ci found => ?_⟩
        simp only [Coll.needsBuild, found, Bool.or_eq_true, bne_iff_ne, decide_eq_true_eq, not_or,
          Decidable.not_not, Nat.not_lt] at serves
        refine ⟨(soundCaught.index ci found).resolve_right ?_, serves.1⟩
        rintro (high | ⟨beyond, -⟩) <;> omega
    have same : SameEntries coll built := sameCaught.trans sameBuilt
    have fits : EntriesFit heap built := same.entriesFit sound.fits
    refine ⟨built, ?_, same, fun ci found => .inl (current ci found)⟩
    simp only [catchesUp, builds, Option.bind_eq_bind, Option.bind_some]
    cases found : built.collHash with
    | none => simp only [same.findInArrayPart]
    | some ci =>
        have nonempty : built.arrayPart ≠ [] := by
          intro empty
          have inside := fits.inside
          rw [empty, List.length_nil, same.used, ← total] at inside
          have few : coll.entries * coll.cls.stride = 0 := Nat.le_zero.mp inside
          rcases Nat.mul_eq_zero.mp few with none | none <;> omega
        obtain ⟨indexed, upTo⟩ := current ci found
        simp only [if_neg nonempty, indexed.probe fit fits upTo, Option.map_some,
          same.findInArrayPart]

end Boomkat.Correctness
