import Boomkat.Correctness.IndexUpkeep

/-! The entries and the index of a collection through each of its operations. -/

namespace Boomkat.Correctness

open Foundation Collections

variable {heap : HeapData} {coll coll' : Coll} {ci : CollHashInfo} {cls : CollClass}
  {i j : Nat} {key value : TVal}

-----------------------------------------------------------------------------------------
-- Writes to the dense part
-----------------------------------------------------------------------------------------

theorem getD_set (part : List TVal) (i j : Nat) (val : TVal)
    : (part.set i val).getD j .undefined
      = if i = j ∧ i < part.length then val else part.getD j .undefined := by
  simp only [List.getD_eq_getElem?_getD, List.getElem?_set]
  by_cases same : i = j
  · subst same
    by_cases inside : i < part.length
    · simp [inside]
    · simp [inside]
  · simp [same]

/-- One value is written to a range of slots. -/
theorem getD_fill (part : List TVal) (val : TVal) (start n j : Nat)
    : ((List.range' start n).foldl (fun part i => part.set i val) part).getD j .undefined
        = (if start ≤ j ∧ j < start + n ∧ j < part.length then val
          else part.getD j .undefined)
      ∧ ((List.range' start n).foldl (fun part i => part.set i val) part).length = part.length := by
  induction n generalizing part start with
  | zero => exact ⟨(if_neg (by omega)).symm, rfl⟩
  | succ n ih =>
      obtain ⟨value, length⟩ := ih (part.set start val) (start + 1)
      rw [List.length_set] at value length
      refine ⟨?_, length⟩
      rw [List.range'_succ, List.foldl_cons, value, getD_set]
      split <;> split <;> first | rfl | (split <;> first | rfl | omega) | omega

/-- A range of slots is moved down. -/
theorem getD_shift (part : List TVal) (stride start n j : Nat) (positive : 0 < stride)
    (inside : start + n ≤ part.length)
    : ((List.range' start n).foldl
          (fun part i => part.set i (part.getD (i + stride) .undefined)) part).getD j .undefined
        = (if start ≤ j ∧ j < start + n then part.getD (j + stride) .undefined
          else part.getD j .undefined)
      ∧ ((List.range' start n).foldl
          (fun part i => part.set i (part.getD (i + stride) .undefined)) part).length
        = part.length := by
  induction n generalizing part start with
  | zero => exact ⟨(if_neg (by omega)).symm, rfl⟩
  | succ n ih =>
      obtain ⟨value, length⟩ := ih (part.set start (part.getD (start + stride) .undefined)) (start + 1)
        (by rw [List.length_set]; omega)
      rw [List.length_set] at length
      refine ⟨?_, length⟩
      have next := getD_set part start (j + stride) (part.getD (start + stride) .undefined)
      have same := getD_set part start j (part.getD (start + stride) .undefined)
      rw [List.range'_succ, List.foldl_cons, value, next, same]
      by_cases within : start + 1 ≤ j ∧ j < start + 1 + n
      · rw [if_pos within, if_neg (show ¬(start = j + stride ∧ start < part.length) by omega),
          if_pos (show start ≤ j ∧ j < start + (n + 1) by omega)]
      · rw [if_neg within]
        by_cases first : start = j
        · subst first
          rw [if_pos ⟨rfl, by omega⟩, if_pos (by omega)]
        · rw [if_neg (fun both => first both.1), if_neg (by omega)]

/-- A value is in its slot, and `arrayUsed` counts it unless it is `undefined`. -/
structure Stored (coll coll' : Coll) (idx : Nat) (val : TVal) : Prop where
  cls : coll'.cls = coll.cls
  hash : coll'.collHash = coll.collHash
  inside : idx < coll'.arrayPart.length
  grows : coll.arrayPart.length ≤ coll'.arrayPart.length
  slot : ∀ j, coll'.slot j = if j = idx then val else coll.slot j
  used : coll.slot idx = .undefined →
    coll'.arrayUsed = if val = .undefined then coll.arrayUsed else coll.arrayUsed + 1

theorem slot_append_undefined (part : List TVal) (n j : Nat)
    : (part ++ List.replicate n TVal.undefined).getD j .undefined = part.getD j .undefined := by
  simp only [List.getD_eq_getElem?_getD, List.getElem?_append]
  split
  · rfl
  · rw [List.getElem?_replicate, List.getElem?_eq_none (by omega)]
    split <;> rfl

/-- The dense part grows to a slot below 2^31 where the allocator has memory. -/
theorem reserve_spec (coll : Coll) {idx : Nat} (within : idx < 2 ^ 31)
    : (coll.reserve idx true).cls = coll.cls ∧ (coll.reserve idx true).collHash = coll.collHash
      ∧ (coll.reserve idx true).arrayUsed = coll.arrayUsed
      ∧ (∀ j, (coll.reserve idx true).slot j = coll.slot j)
      ∧ idx < (coll.reserve idx true).arrayPart.length
      ∧ coll.arrayPart.length ≤ (coll.reserve idx true).arrayPart.length := by
  have start : 1 ≤ if coll.arrayPart.length = 0 then arrayInitialSize
      else coll.arrayPart.length := by
    split
    · decide
    · omega
  have target : idx + 1 ≤ (if coll.arrayPart.length = 0 then arrayInitialSize
      else coll.arrayPart.length) * 2 ^ 32 :=
    Nat.le_trans (by omega) (Nat.mul_le_mul_right (2 ^ 32) start)
  have limit : idx + 1 ≤ 0x80000000 := by omega
  obtain ⟨newSize, doubled⟩ := doubleUpTo_exists limit target
  obtain ⟨reached, -⟩ := doubleUpTo_spec doubled
  simp only [Coll.reserve]
  split
  · rename_i inside
    exact ⟨rfl, rfl, rfl, fun _ => rfl, inside, Nat.le_refl _⟩
  · rename_i beyond
    rw [doubled]
    simp only [Coll.growArray, not_true_eq_false, or_false]
    rw [if_neg (by omega)]
    refine ⟨rfl, rfl, rfl, fun j => slot_append_undefined .., ?_, ?_⟩
    · rw [List.length_append, List.length_replicate]
      omega
    · rw [List.length_append]
      omega

/-- A write to a slot below 2^31 succeeds where the allocator has memory. -/
theorem setArrayIdx_stored (coll : Coll) {idx : Nat} (val : TVal) (within : idx < 2 ^ 31)
    : Stored coll (coll.setArrayIdx idx val true) idx val := by
  obtain ⟨cls, hash, used, slots, inside, grows⟩ := reserve_spec coll within
  simp only [Coll.setArrayIdx]
  rw [if_pos inside]
  refine ⟨cls, hash, ?_, ?_, fun j => ?_, fun hole => ?_⟩
  · rwa [List.length_set]
  · rwa [List.length_set]
  · rw [Coll.slot, getD_set, ← slots j]
    by_cases same : idx = j
    · rw [if_pos ⟨same, inside⟩, if_pos same.symm]
    · rw [if_neg (fun both => same both.1), if_neg (fun other => same other.symm)]
      rfl
  · simp only [slots, hole, used, true_and, ne_eq, not_true_eq_false, false_and, if_false]
    split <;> simp_all

-----------------------------------------------------------------------------------------
-- A new entry
-----------------------------------------------------------------------------------------

/-- An entry with the key is appended. -/
structure Appended (coll coll' : Coll) (key : TVal) : Prop where
  cls : coll'.cls = coll.cls
  hash : coll'.collHash = coll.collHash
  used : coll'.arrayUsed = coll.arrayUsed + coll.cls.stride
  inside : coll'.arrayUsed ≤ coll'.arrayPart.length
  before : ∀ i < coll.arrayUsed, coll'.slot i = coll.slot i
  last : coll'.slot coll.arrayUsed = key
  spare : ∀ i, coll'.arrayUsed ≤ i → coll'.slot i = .undefined

/-- The key and the value are in the first two spare slots. -/
theorem appendEntry_spec (fits : EntriesFit heap coll) {memory : Memory}
    (first : memory.firstWrite = true) (second : memory.secondWrite = true)
    (bounded : coll.arrayUsed + 2 < 2 ^ 31)
    : (coll.appendEntry key value memory).cls = coll.cls
      ∧ (coll.appendEntry key value memory).collHash = coll.collHash
      ∧ (coll.appendEntry key value memory).arrayUsed = coll.arrayUsed + 2
      ∧ coll.arrayUsed + 2 ≤ (coll.appendEntry key value memory).arrayPart.length
      ∧ ∀ j, (coll.appendEntry key value memory).slot j
        = if j = coll.arrayUsed + 1 then value
          else if j = coll.arrayUsed then key else coll.slot j := by
  have keyed : Stored coll (coll.setArrayIdx coll.arrayUsed key true) coll.arrayUsed key :=
    setArrayIdx_stored coll key (by omega)
  have valued : Stored (coll.setArrayIdx coll.arrayUsed key true)
      ((coll.setArrayIdx coll.arrayUsed key true).setArrayIdx (coll.arrayUsed + 1) value true)
      (coll.arrayUsed + 1) value := setArrayIdx_stored _ value (by omega)
  have hole : coll.slot coll.arrayUsed = .undefined := fits.spare _ (Nat.le_refl _)
  have hole' : (coll.setArrayIdx coll.arrayUsed key true).slot (coll.arrayUsed + 1)
      = .undefined := by
    rw [keyed.slot, if_neg (by omega)]
    exact fits.spare _ (by omega)
  have used := keyed.used hole
  have used' := valued.used hole'
  obtain ⟨total, cls, hash, part⟩ : (coll.appendEntry key value memory).arrayUsed
        = coll.arrayUsed + 2
      ∧ (coll.appendEntry key value memory).cls = coll.cls
      ∧ (coll.appendEntry key value memory).collHash = coll.collHash
      ∧ (coll.appendEntry key value memory).arrayPart
        = ((coll.setArrayIdx coll.arrayUsed key true).setArrayIdx (coll.arrayUsed + 1)
          value true).arrayPart := by
    rw [Coll.appendEntry, first, second]
    split
    · exact ⟨rfl, valued.cls.trans keyed.cls, valued.hash.trans keyed.hash, rfl⟩
    · rename_i counted
      refine ⟨?_, valued.cls.trans keyed.cls, valued.hash.trans keyed.hash, rfl⟩
      have atMost : ((coll.setArrayIdx coll.arrayUsed key true).setArrayIdx (coll.arrayUsed + 1)
          value true).arrayUsed ≤ coll.arrayUsed + 2 := by
        rw [used', used]
        split <;> split <;> omega
      omega
  refine ⟨cls, hash, total, ?_, fun j => ?_⟩
  · rw [part]
    exact valued.inside
  · rw [Coll.slot, part]
    exact (valued.slot j).trans (by rw [keyed.slot])

theorem appendEntry_appended (fits : EntriesFit heap coll) (pair : coll.cls.stride = 2)
    {memory : Memory} (first : memory.firstWrite = true) (second : memory.secondWrite = true)
    (bounded : coll.arrayUsed + 2 < 2 ^ 31)
    : Appended coll (coll.appendEntry key value memory) key := by
  obtain ⟨cls, hash, total, inside, slots⟩ : _ ∧ _ ∧ _ ∧ _
      ∧ ∀ j, (coll.appendEntry key value memory).slot j = _ :=
    appendEntry_spec fits first second bounded
  refine ⟨cls, hash, total.trans (by rw [pair]), ?_, fun i within => ?_, ?_, fun i beyond => ?_⟩
  · rwa [total]
  · rw [slots, if_neg (by omega), if_neg (by omega)]
  · rw [slots, if_neg (by omega), if_pos rfl]
  · rw [total] at beyond
    rw [slots, if_neg (by omega), if_neg (by omega)]
    exact fits.spare i (by omega)

/-- A value alone is appended. In a weak collection it is not `undefined`. -/
theorem addValue_appended (value : TVal) (fits : EntriesFit heap coll)
    (alone : coll.cls.stride = 1)
    (bounded : coll.arrayUsed + 1 < 2 ^ 31)
    (known : coll.cls.isWeak = true → value ≠ .undefined)
    : Appended coll
        (if ¬(coll.setArrayIdx coll.arrayUsed value true).cls.isWeak
            ∧ (coll.setArrayIdx coll.arrayUsed value true).arrayUsed ≤ coll.arrayUsed then
          { coll.setArrayIdx coll.arrayUsed value true with arrayUsed := coll.arrayUsed + 1 }
        else coll.setArrayIdx coll.arrayUsed value true)
        value := by
  have stored : Stored coll (coll.setArrayIdx coll.arrayUsed value true) coll.arrayUsed value :=
    setArrayIdx_stored coll value (by omega)
  have used := stored.used (fits.spare _ (Nat.le_refl _))
  obtain ⟨result, isResult, cls, hash, part, total⟩ : ∃ result : Coll,
      (if ¬(coll.setArrayIdx coll.arrayUsed value true).cls.isWeak
          ∧ (coll.setArrayIdx coll.arrayUsed value true).arrayUsed ≤ coll.arrayUsed then
        { coll.setArrayIdx coll.arrayUsed value true with arrayUsed := coll.arrayUsed + 1 }
      else coll.setArrayIdx coll.arrayUsed value true) = result
      ∧ result.cls = coll.cls ∧ result.collHash = coll.collHash
      ∧ result.arrayPart = (coll.setArrayIdx coll.arrayUsed value true).arrayPart
      ∧ result.arrayUsed = coll.arrayUsed + 1 := by
    split
    · exact ⟨_, rfl, stored.cls, stored.hash, rfl, rfl⟩
    · rename_i counted
      refine ⟨_, rfl, stored.cls, stored.hash, rfl, ?_⟩
      rw [used] at counted ⊢
      split
      · rename_i hole
        rw [stored.cls, if_pos hole] at counted
        exact absurd ⟨fun isWeak => known isWeak hole, Nat.le_refl _⟩ counted
      · rfl
  rw [isResult]
  have slots : ∀ j, result.slot j = if j = coll.arrayUsed then value else coll.slot j := by
    intro j
    rw [Coll.slot, part]
    exact stored.slot j
  refine ⟨cls, hash, total.trans (by rw [alone]), ?_, fun i within => ?_, ?_, fun i beyond => ?_⟩
  · rw [total, part]
    exact stored.inside
  · rw [slots, if_neg (by omega)]
  · rw [slots, if_pos rfl]
  · rw [slots, if_neg (by omega)]
    exact fits.spare i (by omega)

/-- A new entry whose key is not there yet. It is the one behind those that the index has. -/
theorem Appended.sound {before : Coll} (fit : KeysFit heap) (fits : EntriesFit heap before)
    (looked : LookedUp heap before coll) (appended : Appended coll coll' key)
    (absent : findInArrayPart heap before key = none) (script : key ≠ .deleted)
    (bounded : coll.arrayUsed + coll.cls.stride < 2 ^ 31)
    : CollSound heap coll' := by
  have fits := looked.same.entriesFit fits
  have positive := stride_positive coll.cls
  rw [← looked.same.findInArrayPart] at absent
  have new := (findInArrayPart_eq_none fits).mp absent
  have entries : ∀ i, IsEntry coll' i → IsEntry coll i ∧ coll'.slot i = coll.slot i
      ∨ i = coll.arrayUsed ∧ coll'.slot i = key := by
    rintro i ⟨within, begins⟩
    rw [appended.cls] at begins
    rw [appended.used] at within
    by_cases old : i < coll.arrayUsed
    · exact .inl ⟨⟨old, begins⟩, appended.before i old⟩
    · obtain ⟨m, rfl⟩ := begins
      obtain ⟨n, whole⟩ := fits.whole
      rw [whole] at within old
      have above : n ≤ m := Nat.le_of_mul_le_mul_left (Nat.le_of_not_lt old) positive
      have below : m < n + 1 := Nat.lt_of_mul_lt_mul_left (by rwa [Nat.mul_succ])
      obtain rfl : m = n := by omega
      exact .inr ⟨whole.symm, whole ▸ appended.last⟩
  have apart : ∀ i m, IsEntry coll i → meaning heap (coll.slot i) = some m →
      meaning heap key = some m → False := by
    intro i m entry meansI meansKey
    have same := (sameValueZero_iff fit).mpr ⟨m, meansI, meansKey⟩
    exact Bool.false_ne_true ((new i entry).symm.trans same)
  refine ⟨⟨?_, appended.inside, ?_, appended.spare, ?_, ?_⟩, ?_⟩
  · rw [appended.cls, appended.used]
    exact Nat.dvd_add fits.whole (Nat.dvd_refl _)
  · rwa [appended.used]
  · intro i j m left right meansI meansJ
    rcases entries i left with ⟨entryI, slotI⟩ | ⟨lastI, slotI⟩ <;>
      rcases entries j right with ⟨entryJ, slotJ⟩ | ⟨lastJ, slotJ⟩ <;>
      rw [slotI] at meansI <;> rw [slotJ] at meansJ
    · exact fits.once i j m entryI entryJ meansI meansJ
    · exact absurd meansJ fun means => apart i m entryI meansI means
    · exact absurd meansI fun means => apart j m entryJ meansJ means
    · rw [lastI, lastJ]
  · intro isWeak i entry
    rw [appended.cls] at isWeak
    rcases entries i entry with ⟨entryI, slotI⟩ | ⟨-, slotI⟩ <;> rw [slotI]
    · exact fits.weak isWeak i entryI
    · exact script
  · intro ci found
    rw [appended.hash] at found
    rcases looked.index ci found with ⟨indexed, current⟩ | ⟨high | ⟨beyond, large⟩, few⟩
    · obtain ⟨hash, probed, positioned, present⟩ := indexed.probed
      refine .inl ⟨?_, ?_, ?_, indexed.large, ?_, ?_, hash, probed, ?_, ?_⟩
      · rw [appended.cls]
        exact indexed.least
      · rw [appended.cls]
        exact indexed.whole
      · rw [appended.used, appended.cls, current]
        exact ⟨Nat.le_add_right .., Nat.le_refl _⟩
      · rw [appended.cls]
        exact indexed.small
      · rw [appended.cls]
        exact indexed.weak
      · rw [appended.cls]
        exact positioned
      · intro i within begins live
        rw [appended.cls] at begins
        have slot := appended.before i (current ▸ within)
        rw [slot] at live
        obtain ⟨member, hashed⟩ := present i within begins live
        exact ⟨member, hashed.trans (by rw [Coll.hashAt, Coll.hashAt, slot])⟩
    · exact .inr (.inl high)
    · refine .inr (.inr ?_)
      obtain ⟨n, whole⟩ := fits.whole
      rw [appended.cls, appended.used]
      rw [whole] at few ⊢
      have fewer : n < 8 := Nat.lt_of_mul_lt_mul_right (by rwa [Nat.mul_comm])
      have next : coll.cls.stride * n + coll.cls.stride ≤ 8 * coll.cls.stride := by
        rw [← Nat.mul_succ, Nat.mul_comm]
        exact Nat.mul_le_mul_right _ fewer
      exact ⟨Nat.lt_of_le_of_lt next large, large⟩

-----------------------------------------------------------------------------------------
-- Entries that change or go
-----------------------------------------------------------------------------------------

theorem LookedUp.sound {before : Coll} (fits : EntriesFit heap before)
    (looked : LookedUp heap before coll)
    : CollSound heap coll :=
  ⟨looked.same.entriesFit fits, fun ci found => (looked.index ci found).imp And.left And.left⟩

/-- The keys are as before, but for those that are deleted. -/
structure Fewer (coll coll' : Coll) : Prop where
  cls : coll'.cls = coll.cls
  hash : coll'.collHash = coll.collHash
  used : coll'.arrayUsed = coll.arrayUsed
  length : coll'.arrayPart.length = coll.arrayPart.length
  slot : ∀ i, coll'.slot i = coll.slot i ∨ i < coll.arrayUsed
    ∧ (coll.cls.stride ∣ i → coll'.slot i = .deleted ∧ coll.cls.isWeak = false)

theorem Fewer.sound (fewer : Fewer coll coll') (sound : CollSound heap coll)
    : CollSound heap coll' := by
  have fits := sound.fits
  have entries : ∀ {i}, IsEntry coll' i ↔ IsEntry coll i := by
    intro i
    rw [IsEntry, IsEntry, fewer.cls, fewer.used]
  have keys : ∀ {i m}, IsEntry coll i → meaning heap (coll'.slot i) = some m →
      meaning heap (coll.slot i) = some m := by
    intro i m entry means
    rcases fewer.slot i with same | ⟨-, gone⟩
    · rwa [← same]
    · rw [(gone entry.2).1] at means
      cases means
  refine ⟨⟨?_, ?_, ?_, ?_, ?_, ?_⟩, ?_⟩
  · rw [fewer.cls, fewer.used]
    exact fits.whole
  · rw [fewer.used, fewer.length]
    exact fits.inside
  · rw [fewer.used]
    exact fits.bounded
  · intro i beyond
    rw [fewer.used] at beyond
    rcases fewer.slot i with same | ⟨within, -⟩
    · rw [same]
      exact fits.spare i beyond
    · omega
  · intro i j m left right meansI meansJ
    have entryI := entries.mp left
    have entryJ := entries.mp right
    exact fits.once i j m entryI entryJ (keys entryI meansI) (keys entryJ meansJ)
  · intro isWeak i entry
    rw [fewer.cls] at isWeak
    rcases fewer.slot i with same | ⟨-, gone⟩
    · rw [same]
      exact fits.weak isWeak i (entries.mp entry)
    · have strong := (gone (entries.mp entry).2).2
      exact absurd (isWeak.symm.trans strong) Bool.noConfusion
  · intro ci found
    rw [fewer.hash] at found
    rcases sound.index ci found with indexed | outdated
    · obtain ⟨hash, probed, positioned, present⟩ := indexed.probed
      refine .inl ⟨?_, ?_, ?_, indexed.large, ?_, ?_, hash, probed, ?_, ?_⟩
      · rw [fewer.cls]
        exact indexed.least
      · rw [fewer.cls]
        exact indexed.whole
      · rw [fewer.used, fewer.cls]
        exact indexed.behind
      · rw [fewer.cls]
        exact indexed.small
      · rw [fewer.cls]
        exact indexed.weak
      · rw [fewer.cls]
        exact positioned
      · intro i within begins live
        rw [fewer.cls] at begins
        rcases fewer.slot i with same | ⟨-, gone⟩
        · rw [same] at live
          obtain ⟨member, hashed⟩ := present i within begins live
          exact ⟨member, hashed.trans (by rw [Coll.hashAt, Coll.hashAt, same])⟩
        · exact absurd (gone begins).1 live
    · rw [Outdated, fewer.cls, fewer.used]
      exact .inr outdated

/-- The value of an entry is no key. -/
theorem overwrite_fewer (pair : coll.cls.stride = 2) (entry : IsEntry coll i)
    (fits : EntriesFit heap coll)
    : Fewer coll (coll.overwrite i value) := by
  refine ⟨rfl, rfl, rfl, List.length_set, fun j => ?_⟩
  rw [Coll.slot, Coll.overwrite, getD_set]
  split
  · rename_i isValue
    obtain ⟨rfl, -⟩ := isValue
    have whole := fits.whole
    have begins := entry.2
    have within := entry.1
    rw [pair] at whole begins ⊢
    exact .inr ⟨by omega, fun even => by omega⟩
  · exact .inl rfl

theorem bury_fewer (fits : EntriesFit heap coll) (strong : coll.cls.isWeak = false)
    (entry : IsEntry coll i)
    : Fewer coll (coll.bury i) := by
  have inside := fits.inside
  refine ⟨rfl, rfl, rfl, (getD_fill coll.arrayPart .deleted i coll.cls.stride 0).2, fun j => ?_⟩
  rw [Coll.slot, Coll.bury, (getD_fill ..).1]
  split
  · rename_i buried
    obtain ⟨m, begins⟩ := entry.2
    obtain ⟨n, whole⟩ := fits.whole
    have within := entry.1
    rw [begins, whole] at within
    have next : m + 1 ≤ n := Nat.lt_of_mul_lt_mul_left within
    have last := Nat.mul_le_mul_left coll.cls.stride next
    rw [Nat.mul_succ] at last
    exact .inr ⟨by omega, fun _ => ⟨rfl, strong⟩⟩
  · exact .inl rfl

/-- The entries of a weak collection after one of them move down, and an index is outdated. -/
theorem compact_sound {before : Coll} (fits : EntriesFit heap before)
    (looked : LookedUp heap before coll) (isWeak : coll.cls.isWeak = true)
    (entry : IsEntry coll i)
    : CollSound heap (coll.compact i) := by
  have fits := looked.same.entriesFit fits
  have inside := fits.inside
  have positive := stride_positive coll.cls
  obtain ⟨within, begins⟩ := entry
  obtain ⟨n, whole⟩ := fits.whole
  have room : i + coll.cls.stride ≤ coll.arrayUsed := by
    obtain ⟨m, rfl⟩ := begins
    rw [whole] at within ⊢
    rw [← Nat.mul_succ]
    exact Nat.mul_le_mul_left _ (Nat.lt_of_mul_lt_mul_left within)
  have slots : ∀ j, (coll.compact i).slot j
      = if coll.arrayUsed - coll.cls.stride ≤ j then .undefined
        else if i ≤ j then coll.slot (j + coll.cls.stride) else coll.slot j := by
    intro j
    have shift := getD_shift coll.arrayPart coll.cls.stride i
      (coll.arrayUsed - coll.cls.stride - i) j positive (by omega)
    rw [Coll.slot, Coll.compact, (getD_fill ..).1, shift.1, shift.2]
    by_cases last : coll.arrayUsed - coll.cls.stride ≤ j
    · rw [if_pos last]
      by_cases old : j < coll.arrayUsed
      · rw [if_pos ⟨last, by omega, by omega⟩]
      · rw [if_neg (by omega), if_neg (by omega)]
        exact fits.spare j (Nat.le_of_not_lt old)
    · rw [if_neg last, if_neg (by omega)]
      by_cases moved : i ≤ j
      · rw [if_pos moved, if_pos (by omega)]
        rfl
      · rw [if_neg moved, if_neg (by omega)]
        rfl
  have length : (coll.compact i).arrayPart.length = coll.arrayPart.length := by
    have shift := getD_shift coll.arrayPart coll.cls.stride i
      (coll.arrayUsed - coll.cls.stride - i) 0 positive (by omega)
    exact ((getD_fill _ .undefined (coll.arrayUsed - coll.cls.stride) coll.cls.stride 0).2).trans
      shift.2
  have used : (coll.compact i).arrayUsed = coll.arrayUsed - coll.cls.stride := rfl
  -- Where an entry was before.
  let origin : Nat → Nat := fun j => if i ≤ j then j + coll.cls.stride else j
  have origins : ∀ j, IsEntry (coll.compact i) j →
      IsEntry coll (origin j) ∧ (coll.compact i).slot j = coll.slot (origin j) := by
    rintro j ⟨short, starts⟩
    have starts : coll.cls.stride ∣ j := starts
    rw [used] at short
    rw [slots, if_neg (by omega)]
    by_cases moved : i ≤ j
    · rw [show origin j = j + coll.cls.stride from if_pos moved, if_pos moved]
      exact ⟨⟨by omega, Nat.dvd_add starts (Nat.dvd_refl _)⟩, rfl⟩
    · rw [show origin j = j from if_neg moved, if_neg moved]
      exact ⟨⟨by omega, starts⟩, rfl⟩
  refine ⟨⟨?_, ?_, ?_, ?_, ?_, ?_⟩, ?_⟩
  · rw [used]
    exact Nat.dvd_sub fits.whole (Nat.dvd_refl _)
  · rw [used, length]
    omega
  · have bounded := fits.bounded
    rw [used]
    omega
  · intro j beyond
    rw [used] at beyond
    rw [slots, if_pos beyond]
  · intro j k m left right meansJ meansK
    obtain ⟨entryJ, slotJ⟩ := origins j left
    obtain ⟨entryK, slotK⟩ := origins k right
    rw [slotJ] at meansJ
    rw [slotK] at meansK
    have same := fits.once _ _ m entryJ entryK meansJ meansK
    simp only [origin] at same
    split at same <;> split at same <;> omega
  · intro _ j starts
    obtain ⟨entryJ, slotJ⟩ := origins j starts
    rw [slotJ]
    exact fits.weak isWeak _ entryJ
  · intro ci found
    rcases looked.index ci found with ⟨indexed, current⟩ | ⟨high | ⟨beyond, large⟩, few⟩
    · refine .inr ?_
      by_cases eight : ci.built = 8 * coll.cls.stride
      · have size := indexed.small eight
        have loaded := indexed.weak isWeak
        rw [eight] at loaded
        have full : ci.used = 8 := Nat.eq_of_mul_eq_mul_right positive loaded
        exact .inl (by rw [CollHashInfo.mask, size, full]; decide)
      · have least := indexed.least
        refine .inr ⟨?_, ?_⟩
        · rw [used]
          omega
        · show 8 * coll.cls.stride < ci.built
          omega
    · exact .inr (.inl high)
    · refine .inr (.inr ⟨?_, large⟩)
      rw [used]
      omega

/-- An index that is built over exactly eight entries is not outdated by a `clear` unless its load
is high.
-/
theorem collClear_sound (sound : CollSound heap coll)
    (orderly : ∀ ci, coll.collHash = some ci → ci.built = 8 * coll.cls.stride →
      ci.mask < ci.used * 2)
    : CollSound heap (collClear coll) := by
  have fits := sound.fits
  have positive := stride_positive coll.cls
  have fill := getD_fill coll.arrayPart .undefined 0 coll.arrayUsed
  rw [← List.range_eq_range'] at fill
  have none : ∀ {i}, ¬IsEntry (collClear coll) i := fun entry => Nat.not_lt_zero _ entry.1
  refine ⟨⟨Nat.dvd_zero _, Nat.zero_le _, Nat.two_pow_pos 31, ?_, ?_, ?_⟩, ?_⟩
  · intro i _
    rw [Coll.slot, collClear, (fill i).1]
    split
    · rfl
    · rename_i kept
      by_cases within : i < coll.arrayPart.length
      · exact fits.spare i (by omega)
      · rw [List.getD_eq_getElem?_getD, List.getElem?_eq_none (Nat.le_of_not_lt within)]
        rfl
  · exact fun i j m entry => absurd entry none
  · exact fun _ i entry => absurd entry none
  · intro ci found
    have found : coll.collHash = some ci := found
    refine .inr ?_
    rcases sound.index ci found with indexed | high | ⟨beyond, large⟩
    · by_cases eight : ci.built = 8 * coll.cls.stride
      · exact .inl (orderly ci found eight)
      · have least := indexed.least
        have more : 8 * coll.cls.stride < ci.built := by omega
        exact .inr ⟨Nat.lt_of_le_of_lt (Nat.zero_le _) more, more⟩
    · exact .inl high
    · exact .inr ⟨Nat.lt_of_le_of_lt (Nat.zero_le _) beyond, large⟩

end Boomkat.Correctness
