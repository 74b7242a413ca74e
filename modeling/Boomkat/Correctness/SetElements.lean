import Boomkat.Collections.SetAlgebra
import Boomkat.Correctness.CollectionRun
import Boomkat.Correctness.LiveIteration
import Boomkat.Foundation.ListSets

/-! The elements of a set as a list, and what walks, lookups and changes of a set come to on it. -/

namespace Boomkat.Correctness

open Foundation Collections

variable {heap : HeapData} {set other result : Coll} {v : TVal} {i j : Nat}

-----------------------------------------------------------------------------------------
-- Elements
-----------------------------------------------------------------------------------------

/-- The positions in a range of slots that are not marked as deleted. -/
def liveFrom (set : Coll) (i j : Nat) : List Nat :=
  (List.range' i (j - i)).filter fun k => set.slot k != .deleted

/-- The values in a range of slots. -/
def slotsFrom (set : Coll) (i j : Nat) : List TVal := (liveFrom set i j).map set.slot

/-- The live elements, in the order of their insertion. -/
def elements (set : Coll) : List TVal := slotsFrom set 0 set.arrayUsed

/-- What the iterator of a set yields, without the sign of a zero. -/
def keys (set : Coll) : List TVal := (elements set).map setNormalizeNegZero

theorem liveFrom_empty (set : Coll) (above : j ≤ i) : liveFrom set i j = [] := by
  rw [liveFrom, Nat.sub_eq_zero_of_le above]
  rfl

theorem liveFrom_step (set : Coll) (below : i < j)
    : liveFrom set i j
      = if set.slot i = .deleted then liveFrom set (i + 1) j else i :: liveFrom set (i + 1) j := by
  obtain ⟨n, rfl⟩ : ∃ n, j = i + 1 + n := ⟨j - (i + 1), by omega⟩
  rw [liveFrom, liveFrom, show i + 1 + n - i = n + 1 by omega, Nat.add_sub_cancel_left,
    List.range'_succ, List.filter_cons]
  by_cases gone : set.slot i = .deleted
  · rw [if_pos gone, gone]
    rfl
  · rw [if_neg gone, if_pos (by simpa using gone)]

theorem slotsFrom_empty (set : Coll) (above : j ≤ i) : slotsFrom set i j = [] := by
  rw [slotsFrom, liveFrom_empty set above]
  rfl

theorem slotsFrom_gone (below : i < j) (gone : set.slot i = .deleted)
    : slotsFrom set i j = slotsFrom set (i + 1) j := by
  rw [slotsFrom, liveFrom_step set below, if_pos gone]
  rfl

theorem slotsFrom_live (below : i < j) (live : set.slot i ≠ .deleted)
    : slotsFrom set i j = set.slot i :: slotsFrom set (i + 1) j := by
  rw [slotsFrom, liveFrom_step set below, if_neg live]
  rfl

theorem slotsFrom_split (set : Coll) {k : Nat} (left : i ≤ k) (right : k ≤ j)
    : slotsFrom set i j = slotsFrom set i k ++ slotsFrom set k j := by
  rw [slotsFrom, slotsFrom, slotsFrom, ← List.map_append, liveFrom, liveFrom, liveFrom,
    ← List.filter_append, show j - i = (k - i) + (j - k) by omega, ← List.range'_append_1,
    Nat.add_sub_of_le left]

theorem mem_liveFrom {k : Nat}
    : k ∈ liveFrom set i j ↔ i ≤ k ∧ k < j ∧ set.slot k ≠ .deleted := by
  have range : i ≤ k ∧ k < i + (j - i) ↔ i ≤ k ∧ k < j := by omega
  rw [liveFrom, List.mem_filter, List.mem_range'_1, bne_iff_ne, range, and_assoc]

theorem mem_elements : v ∈ elements set ↔ ∃ k < set.arrayUsed, set.slot k = v ∧ v ≠ .deleted := by
  rw [elements, slotsFrom, List.mem_map]
  constructor
  · rintro ⟨k, member, rfl⟩
    obtain ⟨-, within, live⟩ := mem_liveFrom.mp member
    exact ⟨k, within, rfl, live⟩
  · rintro ⟨k, within, rfl, live⟩
    exact ⟨k, mem_liveFrom.mpr ⟨Nat.zero_le _, within, live⟩, rfl⟩

theorem setLiveCount_eq (set : Coll) : setLiveCount set = (elements set).length := by
  rw [setLiveCount, elements, slotsFrom, List.length_map, liveFrom, List.countP_eq_length_filter,
    Nat.sub_zero, List.range_eq_range']

theorem setLiveCount_le (set : Coll) : setLiveCount set ≤ set.arrayUsed := by
  rw [setLiveCount]
  exact Nat.le_trans List.countP_le_length (Nat.le_of_eq List.length_range)

-----------------------------------------------------------------------------------------
-- Keys
-----------------------------------------------------------------------------------------

/-- The sign of a zero does not matter to a key. -/
theorem meaning_normalize (heap : HeapData) (v : TVal)
    : meaning heap (setNormalizeNegZero v) = meaning heap v := by
  unfold setNormalizeNegZero
  split
  · rename_i d
    split
    · rename_i zero
      have isZero := (Bool.and_eq_true_iff.mp zero).1
      have fastint : ofFastint 0 = 0 := by decide
      have same : sameDouble false d (ofFastint 0) = true := by
        have number : Machine.Double.isNan 0 = false := by decide
        rw [fastint, sameDouble, number, Bool.and_false, Bool.false_and]
        exact isZero
      exact congrArg some (sameDouble_iff.mp same).symm
    · rfl
  · rfl

theorem sameValueZero_comm (fit : KeysFit heap) (a b : TVal)
    : sameValueZero heap a b = sameValueZero heap b a := by
  rw [Bool.eq_iff_iff, sameValueZero_iff fit, sameValueZero_iff fit]
  exact exists_congr fun m => And.comm

theorem sameValueZero_normalize (fit : KeysFit heap) (a b : TVal)
    : sameValueZero heap a (setNormalizeNegZero b) = sameValueZero heap a b := by
  rw [Bool.eq_iff_iff, sameValueZero_iff fit, sameValueZero_iff fit, meaning_normalize]

/-- Whether the value is an element of a set. -/
def isElement (heap : HeapData) (set : Coll) (v : TVal) : Bool :=
  Among (sameValueZero heap) (elements set) v

theorem isElement_normalize (fit : KeysFit heap) (set : Coll) (v : TVal)
    : isElement heap set (setNormalizeNegZero v) = isElement heap set v := by
  simp only [isElement, Among, sameValueZero_normalize fit]

/-- The values of the iterator that are the same as a value. -/
theorem any_keys (fit : KeysFit heap) (set : Coll) (v : TVal)
    : ((keys set).any fun b => sameValueZero heap v b) = isElement heap set v := by
  rw [keys, List.any_map, isElement, Among]
  congr 1
  funext b
  rw [Function.comp_apply, sameValueZero_normalize fit, sameValueZero_comm fit]

-----------------------------------------------------------------------------------------
-- Sound sets
-----------------------------------------------------------------------------------------

/-- A set whose entries and index fit. -/
structure SetSound (heap : HeapData) (set : Coll) : Prop where
  sound : CollSound heap set
  cls : set.cls = .set

theorem SetSound.isEntry (sound : SetSound heap set) : IsEntry set i ↔ i < set.arrayUsed := by
  rw [IsEntry, sound.cls]
  exact and_iff_left (Nat.one_dvd i)

theorem SetSound.part (sound : SetSound heap set) (some : 0 < set.arrayUsed)
    : set.arrayPart ≠ [] := by
  intro none
  have inside := sound.sound.fits.inside
  rw [none, List.length_nil] at inside
  omega

/-- Two elements in different slots are not the same. -/
theorem SetSound.distinct (fit : KeysFit heap) (sound : SetSound heap set)
    : Distinct (sameValueZero heap) (elements set) := by
  rw [Distinct, elements, slotsFrom, List.pairwise_map]
  have sorted : (liveFrom set 0 set.arrayUsed).Pairwise (· < ·) :=
    List.Pairwise.sublist List.filter_sublist List.pairwise_lt_range'
  refine List.Pairwise.imp_of_mem ?_ sorted
  intro a b left right before
  rw [← Bool.not_eq_true]
  intro same
  obtain ⟨m, meansA, meansB⟩ := (sameValueZero_iff fit).mp same
  have once := sound.sound.fits.once a b m (sound.isEntry.mpr (mem_liveFrom.mp left).2.1)
    (sound.isEntry.mpr (mem_liveFrom.mp right).2.1) meansA meansB
  omega

theorem SetSound.distinct_keys (fit : KeysFit heap) (sound : SetSound heap set)
    : Distinct (sameValueZero heap) (keys set) := by
  rw [Distinct, keys, List.pairwise_map]
  refine List.Pairwise.imp ?_ (sound.distinct fit)
  intro a b apart
  rw [sameValueZero_normalize fit, sameValueZero_comm fit, sameValueZero_normalize fit,
    sameValueZero_comm fit, apart]

/-- The scan finds a value exactly if it is an element. -/
theorem SetSound.found_iff (fit : KeysFit heap) (sound : SetSound heap set) (v : TVal)
    : (findInArrayPart heap set v).isSome = isElement heap set v := by
  have deleted : ∀ a, sameValueZero heap .deleted a = false := by
    intro a
    rw [← Bool.not_eq_true]
    intro same
    obtain ⟨m, means, -⟩ := (sameValueZero_iff fit).mp same
    cases means
  cases found : findInArrayPart heap set v with
  | some i =>
      obtain ⟨entry, same⟩ := (findInArrayPart_eq_some fit sound.sound.fits).mp found
      refine (List.any_eq_true.mpr ⟨set.slot i, mem_elements.mpr ⟨i, entry.1, rfl, ?_⟩, same⟩).symm
      intro gone
      rw [gone, deleted] at same
      cases same
  | none =>
      refine (List.any_eq_false.mpr fun a member => ?_).symm
      obtain ⟨k, within, rfl, -⟩ := mem_elements.mp member
      have absent := (findInArrayPart_eq_none sound.sound.fits).mp found k (sound.isEntry.mpr within)
      rw [absent]
      exact Bool.false_ne_true

theorem SameEntries.elements (same : SameEntries set other) : elements other = elements set := by
  have live : liveFrom other 0 other.arrayUsed = liveFrom set 0 set.arrayUsed := by
    rw [liveFrom, liveFrom, same.used]
    congr 1
    funext k
    rw [same.slot]
  rw [Correctness.elements, Correctness.elements, slotsFrom, slotsFrom, live]
  exact List.map_congr_left fun k _ => same.slot k

/-- A lookup leaves the elements. -/
theorem SetSound.find (fit : KeysFit heap) (sound : SetSound heap set) (v : TVal)
    (allocates : Bool)
    : ∃ set', collFind heap set v allocates = some (set', findInArrayPart heap set v)
      ∧ LookedUp heap set set' ∧ SetSound heap set' ∧ elements set' = elements set := by
  obtain ⟨set', finds, looked⟩ := sound.sound.collFind fit v allocates
  exact ⟨set', finds, looked, ⟨looked.sound sound.sound.fits, looked.same.cls.trans sound.cls⟩,
    looked.same.elements⟩

-----------------------------------------------------------------------------------------
-- Changes
-----------------------------------------------------------------------------------------

theorem setResultAppend_appended (sound : SetSound heap set) (bounded : set.arrayUsed + 1 < 2 ^ 31)
    (v : TVal)
    : Appended set (setResultAppend set v true) v := by
  have appended := addValue_appended v sound.sound.fits (by rw [sound.cls]; rfl) bounded
    (fun isWeak => absurd (sound.cls ▸ isWeak) (by decide))
  have cls : (set.setArrayIdx set.arrayUsed v true).cls = .set :=
    (setArrayIdx_stored set v (by omega)).cls.trans sound.cls
  have strong : (set.setArrayIdx set.arrayUsed v true).cls.isWeak = false := by
    rw [cls]
    rfl
  simp only [strong, Bool.false_eq_true, not_false_eq_true, true_and] at appended
  exact appended

theorem Appended.elements (appended : Appended set result v) (cls : set.cls = .set)
    (live : v ≠ .deleted)
    : elements result = elements set ++ [v] := by
  have used : result.arrayUsed = set.arrayUsed + 1 := by
    rw [appended.used, cls]
    rfl
  have before : slotsFrom result 0 set.arrayUsed = slotsFrom set 0 set.arrayUsed := by
    have live : liveFrom result 0 set.arrayUsed = liveFrom set 0 set.arrayUsed := by
      refine List.filter_congr fun k member => ?_
      rw [appended.before k (by have := List.mem_range'_1.mp member; omega)]
    rw [slotsFrom, slotsFrom, live]
    refine List.map_congr_left fun k member => ?_
    exact appended.before k (mem_liveFrom.mp member).2.1
  rw [Correctness.elements, used, slotsFrom_split result (Nat.zero_le _) (Nat.le_succ _), before,
    slotsFrom_live (Nat.lt_succ_self _) (by rw [appended.last]; exact live), appended.last,
    slotsFrom_empty result (Nat.le_refl _)]
  rfl

/-- A new value comes behind the elements. -/
theorem SetSound.append (fit : KeysFit heap) (sound : SetSound heap set)
    (looked : LookedUp heap set other) (absent : isElement heap set v = false)
    (live : v ≠ .deleted) (bounded : set.arrayUsed + 1 < 2 ^ 31)
    : SetSound heap (setResultAppend other v true)
      ∧ elements (setResultAppend other v true) = elements set ++ [v]
      ∧ (setResultAppend other v true).arrayUsed = set.arrayUsed + 1 := by
  have sound' : SetSound heap other :=
    ⟨looked.sound sound.sound.fits, looked.same.cls.trans sound.cls⟩
  have bounded' : other.arrayUsed + 1 < 2 ^ 31 := by rwa [looked.same.used]
  have appended := setResultAppend_appended sound' bounded' v
  have none : findInArrayPart heap set v = none := by
    rw [← Option.not_isSome_iff_eq_none, sound.found_iff fit, absent]
    exact Bool.false_ne_true
  refine ⟨⟨appended.sound fit sound.sound.fits looked none live ?_, appended.cls.trans sound'.cls⟩,
    ?_, ?_⟩
  · rw [sound'.cls]
    exact bounded'
  · rw [appended.elements sound'.cls live, looked.same.elements]
  · rw [appended.used, sound'.cls, looked.same.used]
    rfl

/-- Marking the entry of a value leaves the other elements. -/
theorem SetSound.bury (fit : KeysFit heap) (sound : SetSound heap set)
    (sound' : SetSound heap other) (entries : SameEntries set other)
    (found : findInArrayPart heap set v = some i)
    : SetSound heap (other.bury i)
      ∧ elements (other.bury i) = without (sameValueZero heap) (elements set) v
      ∧ (other.bury i).arrayUsed = set.arrayUsed := by
  obtain ⟨entry, same⟩ := (findInArrayPart_eq_some fit sound.sound.fits).mp found
  have entry' := entries.isEntry.mpr entry
  have inside := sound'.sound.fits.inside
  have fewer := bury_fewer sound'.sound.fits (by rw [sound'.cls]; rfl) entry'
  have slot : ∀ k, (other.bury i).slot k = if k = i then .deleted else set.slot k := by
    intro k
    rw [← entries.slot k, Coll.slot, Coll.bury, (getD_fill ..).1, sound'.cls]
    have one : CollClass.set.stride = 1 := rfl
    rw [one]
    by_cases here : k = i
    · rw [if_pos here, if_pos ⟨by omega, by omega, by have := entry'.1; omega⟩]
    · rw [if_neg here, if_neg (by omega)]
      rfl
  have only : ∀ k ∈ liveFrom set 0 set.arrayUsed,
      sameValueZero heap (set.slot k) v = decide (k = i) := by
    intro k member
    rw [Bool.eq_iff_iff, decide_eq_true_eq]
    constructor
    · intro same'
      obtain ⟨m, meansI, meansV⟩ := (sameValueZero_iff fit).mp same
      obtain ⟨m', meansK, meansV'⟩ := (sameValueZero_iff fit).mp same'
      obtain rfl := Option.some.inj (meansV.symm.trans meansV')
      exact sound.sound.fits.once k i m (sound.isEntry.mpr (mem_liveFrom.mp member).2.1) entry
        meansK meansI
    · intro here
      rw [here]
      exact same
  refine ⟨⟨fewer.sound sound'.sound, fewer.cls.trans sound'.cls⟩, ?_,
    fewer.used.trans entries.used⟩
  have positions : liveFrom (other.bury i) 0 set.arrayUsed
      = (liveFrom set 0 set.arrayUsed).filter fun k => !decide (k = i) := by
    rw [liveFrom, liveFrom, List.filter_filter]
    refine List.filter_congr fun k _ => ?_
    rw [slot]
    by_cases here : k = i
    · rw [if_pos here, decide_eq_true here]
      rfl
    · rw [if_neg here, decide_eq_false here, Bool.not_false, Bool.true_and]
  rw [elements, fewer.used.trans entries.used, slotsFrom, positions, without, elements,
    slotsFrom, List.filter_map]
  have kept : (liveFrom set 0 set.arrayUsed).filter (fun k => !decide (k = i))
      = (liveFrom set 0 set.arrayUsed).filter
        ((fun a => !sameValueZero heap a v) ∘ set.slot) := by
    refine List.filter_congr fun k member => ?_
    rw [Function.comp_apply, only k member]
  rw [kept]
  refine List.map_congr_left fun k member => ?_
  rw [slot, if_neg]
  intro here
  have away := (List.mem_filter.mp member).2
  rw [Function.comp_apply, here, same] at away
  cases away

end Boomkat.Correctness
