import Boomkat.Collections.Iterator
import Boomkat.Correctness.CollectionRun

/-! The slots of a map or a set as cells of an entry list, behind the cells that a `clear` left. -/

namespace Boomkat.Correctness

open Foundation Collections

variable {heap : HeapData} {coll coll' : Coll} {cells : List (Option (TVal × TVal))}
  {base i k : Nat} {key value : TVal} {memory : Memory}

/-- The entry with a number. -/
def cellAt (coll : Coll) (k : Nat) : Option (TVal × TVal) :=
  if coll.slot (k * coll.cls.stride) = .deleted then none
  else some (coll.entryAt (k * coll.cls.stride))

/-- Behind `base` empty cells there are the entries of the collection. -/
structure Cells (coll : Coll) (cells : List (Option (TVal × TVal))) (base : Nat) : Prop where
  length : cells.length = base + coll.entries
  gone : ∀ s < base, cells[s]? = some none
  cell : ∀ k < coll.entries, cells[base + k]? = some (cellAt coll k)

theorem isEntry_iff (fits : EntriesFit heap coll)
    : IsEntry coll i ↔ ∃ k < coll.entries, i = k * coll.cls.stride := by
  have positive := stride_positive coll.cls
  rw [IsEntry, ← entries_mul fits]
  constructor
  · rintro ⟨within, k, rfl⟩
    rw [Nat.mul_comm] at within ⊢
    exact ⟨k, Nat.lt_of_mul_lt_mul_right within, rfl⟩
  · rintro ⟨k, few, rfl⟩
    exact ⟨Nat.mul_lt_mul_of_pos_right few positive, Nat.dvd_mul_left ..⟩

theorem cellAt_eq_some {entry : TVal × TVal} (found : cellAt coll k = some entry)
    : coll.slot (k * coll.cls.stride) ≠ .deleted ∧ entry = coll.entryAt (k * coll.cls.stride) := by
  rw [cellAt] at found
  split at found
  · cases found
  · exact ⟨‹_›, (Option.some.inj found).symm⟩

/-- A cell is made of the slots of its entry. -/
theorem cellAt_congr (cls : coll'.cls = coll.cls)
    (same : ∀ j, k * coll.cls.stride ≤ j → j < k * coll.cls.stride + coll.cls.stride →
      coll'.slot j = coll.slot j)
    : cellAt coll' k = cellAt coll k := by
  have positive := stride_positive coll.cls
  simp only [cellAt, Coll.entryAt, cls]
  rw [same _ (Nat.le_refl _) (by omega)]
  split
  · rfl
  · split
    · rw [same _ (Nat.le_succ _) (by omega)]
    · rfl

/-- The slots of two entries are apart. -/
theorem entries_apart {j : Nat} (stride : Nat) (other : j ≠ k)
    : j * stride + stride ≤ k * stride ∨ k * stride + stride ≤ j * stride := by
  rw [← Nat.succ_mul, ← Nat.succ_mul]
  rcases Nat.lt_or_gt_of_ne other with before | behind
  · exact .inl (Nat.mul_le_mul_right _ before)
  · exact .inr (Nat.mul_le_mul_right _ behind)

theorem Cells.same (filled : Cells coll cells base) (same : SameEntries coll coll')
    : Cells coll' cells base := by
  have entries : coll'.entries = coll.entries := by
    rw [Coll.entries, Coll.entries, same.cls, same.used]
  have cell : ∀ k, cellAt coll' k = cellAt coll k := by
    intro k
    simp only [cellAt, Coll.entryAt, same.cls, same.slot]
  refine ⟨entries ▸ filled.length, filled.gone, fun k few => ?_⟩
  rw [cell]
  exact filled.cell k (entries ▸ few)

-----------------------------------------------------------------------------------------
-- Lookups
-----------------------------------------------------------------------------------------

/-- A cell has the key exactly if the scan comes to its entry. -/
theorem findKey_eq (fit : KeysFit heap) (fits : EntriesFit heap coll)
    (filled : Cells coll cells base)
    : findKey heap cells key
      = (findInArrayPart heap coll key).map fun i => base + i / coll.cls.stride := by
  have positive := stride_positive coll.cls
  have has : ∀ s : Nat, (∃ cell, cells[s]? = some cell
      ∧ cell.any (fun entry => sameValueZero heap entry.1 key) = true)
      ↔ ∃ k < coll.entries, s = base + k
        ∧ sameValueZero heap (coll.slot (k * coll.cls.stride)) key = true := by
    intro s
    constructor
    · rintro ⟨cell, at_s, same⟩
      have within : s < cells.length := (List.getElem?_eq_some_iff.mp at_s).1
      rw [filled.length] at within
      have behind : base ≤ s := by
        by_contra before
        rw [filled.gone s (Nat.lt_of_not_le before)] at at_s
        cases at_s
        cases same
      refine ⟨s - base, by omega, by omega, ?_⟩
      have at_k := filled.cell (s - base) (by omega)
      rw [Nat.add_sub_cancel' behind, at_s] at at_k
      cases cell with
      | none => cases same
      | some entry =>
          obtain ⟨-, rfl⟩ := cellAt_eq_some (Option.some.inj at_k).symm
          exact same
    · rintro ⟨k, few, rfl, same⟩
      refine ⟨_, filled.cell k few, ?_⟩
      rw [cellAt, if_neg]
      · exact same
      · intro deleted
        obtain ⟨m, means, -⟩ := (sameValueZero_iff fit).mp same
        rw [deleted] at means
        cases means
  cases scanned : findInArrayPart heap coll key with
  | none =>
      have absent := (findInArrayPart_eq_none fits).mp scanned
      refine List.findIdx?_eq_none_iff.mpr fun cell member => ?_
      obtain ⟨s, at_s⟩ := List.mem_iff_getElem?.mp member
      by_contra same
      obtain ⟨k, few, -, same⟩ := (has s).mp ⟨cell, at_s, by simpa using same⟩
      have entry : IsEntry coll (k * coll.cls.stride) := (isEntry_iff fits).mpr ⟨k, few, rfl⟩
      exact Bool.false_ne_true ((absent _ entry).symm.trans same)
  | some i =>
      obtain ⟨entry, same⟩ := (findInArrayPart_eq_some fit fits).mp scanned
      obtain ⟨k, few, rfl⟩ := (isEntry_iff fits).mp entry
      obtain ⟨cell, at_k, holds⟩ := (has (base + k)).mpr ⟨k, few, rfl, same⟩
      have within : base + k < cells.length := (List.getElem?_eq_some_iff.mp at_k).1
      rw [Option.map_some, Nat.mul_div_cancel _ positive, findKey,
        List.findIdx?_eq_some_iff_getElem]
      refine ⟨within, ?_, fun s before => ?_⟩
      · rwa [(List.getElem?_eq_some_iff.mp at_k).2]
      · have inside : s < cells.length := Nat.lt_trans before within
        intro other
        obtain ⟨j, few', rfl, same'⟩ :=
          (has s).mp ⟨cells[s], List.getElem?_eq_getElem inside, other⟩
        have entry' : IsEntry coll (j * coll.cls.stride) := (isEntry_iff fits).mpr ⟨j, few', rfl⟩
        have scanned' := (findInArrayPart_eq_some fit fits).mpr ⟨entry', same'⟩
        have equal := Option.some.inj (scanned.symm.trans scanned')
        have number := Nat.eq_of_mul_eq_mul_right positive equal
        omega

-----------------------------------------------------------------------------------------
-- Changes
-----------------------------------------------------------------------------------------

/-- A cell for an appended entry. -/
theorem Cells.append (fits : EntriesFit heap coll) (filled : Cells coll cells base)
    (appended : Appended coll coll' key) (script : key ≠ .deleted)
    (paired : coll'.entryAt coll.arrayUsed = (key, value))
    : Cells coll' (cells ++ [some (key, value)]) base := by
  have positive := stride_positive coll.cls
  have total := entries_mul fits
  have entries : coll'.entries = coll.entries + 1 := by
    rw [Coll.entries, appended.used, appended.cls, Nat.add_div_right _ positive]
    rfl
  have old : ∀ k < coll.entries, cellAt coll' k = cellAt coll k := by
    intro k few
    have within : k * coll.cls.stride + coll.cls.stride ≤ coll.arrayUsed := by
      rw [← total, ← Nat.succ_mul]
      exact Nat.mul_le_mul_right _ few
    exact cellAt_congr appended.cls fun j _ short => appended.before j (by omega)
  refine ⟨?_, fun s before => ?_, fun k few => ?_⟩
  · rw [List.length_append, filled.length, entries]
    rfl
  · rw [List.getElem?_append_left (by rw [filled.length]; omega)]
    exact filled.gone s before
  · rw [entries] at few
    rcases Nat.lt_or_eq_of_le (Nat.le_of_lt_succ few) with earlier | rfl
    · rw [List.getElem?_append_left (by rw [filled.length]; omega), filled.cell k earlier,
        old k earlier]
    · rw [List.getElem?_append_right (by rw [filled.length]), filled.length, Nat.sub_self, cellAt,
        appended.cls, total, appended.last, if_neg script, paired]
      rfl

/-- One cell changes with its entry. -/
theorem Cells.assign (filled : Cells coll cells base) (few : k < coll.entries)
    (cls : coll'.cls = coll.cls) (used : coll'.arrayUsed = coll.arrayUsed)
    (others : ∀ j < coll.entries, j ≠ k → cellAt coll' j = cellAt coll j)
    : Cells coll' (cells.set (base + k) (cellAt coll' k)) base := by
  have entries : coll'.entries = coll.entries := by rw [Coll.entries, Coll.entries, cls, used]
  refine ⟨?_, fun s before => ?_, fun j within => ?_⟩
  · rw [List.length_set, filled.length, entries]
  · rw [List.getElem?_set_ne (by omega)]
    exact filled.gone s before
  · rw [entries] at within
    by_cases same : j = k
    · subst same
      rw [List.getElem?_set_self (by rw [filled.length]; omega)]
    · rw [List.getElem?_set_ne (by omega), filled.cell j within, others j within same]

/-- A value that is overwritten. -/
theorem Cells.overwrite (filled : Cells coll cells base) (value : TVal)
    (fits : EntriesFit heap coll)
    (pair : coll.cls.stride = 2) (few : k < coll.entries)
    (live : coll.slot (k * coll.cls.stride) ≠ .deleted)
    : Cells (coll.overwrite (k * coll.cls.stride) value)
      (cells.set (base + k) (some (coll.slot (k * coll.cls.stride), value))) base := by
  have inside := fits.inside
  have within : k * coll.cls.stride + coll.cls.stride ≤ coll.arrayUsed := by
    rw [← entries_mul fits, ← Nat.succ_mul]
    exact Nat.mul_le_mul_right _ few
  have slots : ∀ j, (coll.overwrite (k * coll.cls.stride) value).slot j
      = if j = k * coll.cls.stride + 1 then value else coll.slot j := by
    intro j
    rw [Coll.slot, Coll.overwrite, getD_set]
    by_cases same : k * coll.cls.stride + 1 = j
    · rw [if_pos ⟨same, by omega⟩, if_pos same.symm]
    · rw [if_neg (fun both => same both.1), if_neg (fun equal => same equal.symm)]
      rfl
  have cls : (coll.overwrite (k * coll.cls.stride) value).cls = coll.cls := rfl
  have cell : cellAt (coll.overwrite (k * coll.cls.stride) value) k
      = some (coll.slot (k * coll.cls.stride), value) := by
    have key := slots (k * coll.cls.stride)
    have next := slots (k * coll.cls.stride + 1)
    rw [if_neg (by omega)] at key
    rw [if_pos rfl] at next
    rw [cellAt, Coll.entryAt, cls, key, next, if_neg live, if_pos pair]
  rw [← cell]
  refine filled.assign few rfl rfl fun j _ other => cellAt_congr cls fun i behind before => ?_
  rw [slots, if_neg]
  rcases entries_apart coll.cls.stride other with earlier | later <;> omega

/-- An entry that is deleted. -/
theorem Cells.bury (fits : EntriesFit heap coll) (filled : Cells coll cells base)
    (few : k < coll.entries)
    : Cells (coll.bury (k * coll.cls.stride)) (cells.set (base + k) none) base := by
  have positive := stride_positive coll.cls
  have inside := fits.inside
  have last : k * coll.cls.stride + coll.cls.stride ≤ coll.arrayUsed := by
    rw [← entries_mul fits, ← Nat.succ_mul]
    exact Nat.mul_le_mul_right _ few
  have slots : ∀ j, (coll.bury (k * coll.cls.stride)).slot j
      = if k * coll.cls.stride ≤ j ∧ j < k * coll.cls.stride + coll.cls.stride then .deleted
        else coll.slot j := by
    intro j
    rw [Coll.slot, Coll.bury, (getD_fill ..).1]
    by_cases within : k * coll.cls.stride ≤ j ∧ j < k * coll.cls.stride + coll.cls.stride
    · rw [if_pos within, if_pos ⟨within.1, within.2, by omega⟩]
    · rw [if_neg within, if_neg (fun all => within ⟨all.1, all.2.1⟩)]
      rfl
  have cls : (coll.bury (k * coll.cls.stride)).cls = coll.cls := rfl
  have key := slots (k * coll.cls.stride)
  rw [if_pos (by omega)] at key
  have cell : cellAt (coll.bury (k * coll.cls.stride)) k = none := by
    rw [cellAt, cls, if_pos key]
  rw [← cell]
  refine filled.assign few rfl rfl fun j _ other => cellAt_congr cls fun i behind before => ?_
  rw [slots, if_neg]
  rcases entries_apart coll.cls.stride other with earlier | later <;> omega

/-- Nothing is left, and the cells stay. -/
theorem Cells.clear (filled : Cells coll cells base)
    : Cells (collClear coll) (cells.map fun _ => none) (base + coll.entries) := by
  have entries : (collClear coll).entries = 0 := Nat.zero_div _
  refine ⟨?_, fun s before => ?_, fun k few => ?_⟩
  · rw [List.length_map, filled.length, entries]
    rfl
  · rw [← filled.length] at before
    rw [List.getElem?_map, List.getElem?_eq_getElem before]
    rfl
  · rw [entries] at few
    exact absurd few (Nat.not_lt_zero k)

end Boomkat.Correctness
