import Boomkat.Correctness.SetElements

/-! The loops of the methods that combine two sets, as loops over lists of elements. The walk over
raw slots ends before the last element where marks of deleted ones are in front of it.
-/

namespace Boomkat.Correctness

open Foundation Strings Collections

variable {heap : HeapData} {set other : Coll} {σ β : Type}

-----------------------------------------------------------------------------------------
-- Loops
-----------------------------------------------------------------------------------------

/-- The turns of a loop for the values of a list. -/
def foldTurns (turn : σ → TVal → Option (Turn σ)) : List TVal → σ → Option (Turn σ)
  | [], state => some (.onward state)
  | v :: vs, state =>
      match turn state v with
      | none => none
      | some (.answer b) => some (.answer b)
      | some (.onward state) => foldTurns turn vs state

/-- The next element of a walk over raw slots. -/
theorem setLiveWalkNext_spec (sound : SetSound heap set) (w : SetLiveWalk)
    (within : w.thisSize ≤ set.arrayUsed)
    : (setLiveWalkNext set w = none → slotsFrom set w.index w.thisSize = [])
      ∧ ∀ e w', setLiveWalkNext set w = some (e, w') → w'.thisSize = w.thisSize
        ∧ slotsFrom set w.index w.thisSize = e :: slotsFrom set w'.index w.thisSize := by
  induction w using setLiveWalkNext.induct set with
  | case1 w small ends =>
      have some := sound.part (Nat.lt_of_le_of_lt (Nat.zero_le _) (Nat.lt_of_lt_of_le small within))
      rcases ends with none | above
      · exact absurd none some
      · omega
  | case2 w small inside e live =>
      have found : setLiveWalkNext set w = some (e, { w with index := w.index + 1 }) := by
        rw [setLiveWalkNext, if_pos small, if_neg inside]
        exact if_pos live
      refine ⟨fun none => (by cases found.symm.trans none), fun e' w' next => ?_⟩
      cases found.symm.trans next
      exact ⟨rfl, slotsFrom_live small live⟩
  | case3 w small inside e w' gone ih =>
      have onward : setLiveWalkNext set w = setLiveWalkNext set w' := by
        conv => lhs; rw [setLiveWalkNext, if_pos small, if_neg inside]
        exact if_neg gone
      rw [onward, slotsFrom_gone small (not_not.mp gone)]
      exact ih within
  | case4 w large =>
      have none : setLiveWalkNext set w = none := by rw [setLiveWalkNext, if_neg large]
      refine ⟨fun _ => slotsFrom_empty set (Nat.not_lt.mp large), fun e w' next => ?_⟩
      cases none.symm.trans next

/-- The walk over raw slots ends at the number of elements, not at the last of them. -/
theorem liveLoop_eq (sound : SetSound heap set) (turn : σ → TVal → Option (Turn σ))
    {n : Nat} (w : SetLiveWalk) (size : w.thisSize = setLiveCount set)
    (left : set.arrayUsed - w.index ≤ n) (state : σ)
    : liveLoop set turn w state
      = foldTurns turn (slotsFrom set w.index (setLiveCount set)) state := by
  obtain ⟨ends, goes⟩ := setLiveWalkNext_spec sound w (size ▸ setLiveCount_le set)
  rw [size] at ends goes
  induction n generalizing w state with
  | zero =>
      rw [liveLoop]
      split
      · rename_i none
        rw [ends none]
        rfl
      · rename_i e w' next
        have onward : w.index < w'.index ∧ w'.index ≤ set.arrayUsed := setLiveWalkNext_onward next
        omega
  | succ n ih =>
      rw [liveLoop]
      split
      · rename_i none
        rw [ends none]
        rfl
      · rename_i e w' next
        have onward : w.index < w'.index ∧ w'.index ≤ set.arrayUsed := setLiveWalkNext_onward next
        obtain ⟨ends', goes'⟩ := setLiveWalkNext_spec sound (setLiveWalkResample set w')
          (setLiveCount_le set)
        rw [(goes e w' next).2, foldTurns]
        cases turn state e with
        | none => rfl
        | some turned =>
            cases turned with
            | answer b => rfl
            | onward state =>
                exact ih (setLiveWalkResample set w') rfl
                  (by change set.arrayUsed - w'.index ≤ n; omega) state ends' goes'

theorem slotsFrom_skip {p q j : Nat} (above : p ≤ q) (within : q ≤ j)
    (skipped : ∀ k, p ≤ k → k < q → set.slot k = .deleted)
    : slotsFrom set p j = slotsFrom set q j := by
  obtain ⟨n, rfl⟩ : ∃ n, q = p + n := ⟨q - p, by omega⟩
  induction n generalizing p with
  | zero => rfl
  | succ n ih =>
      rw [slotsFrom_gone (by omega) (skipped p (Nat.le_refl p) (by omega)),
        ih (p := p + 1) (by omega) (by omega) fun k above below => skipped k (by omega) (by omega)]
      congr 1
      omega

/-- The iterator yields the next live slot. -/
theorem iteratorNext_set (sound : SetSound heap other) (index : Nat)
    : (∃ q, other.iteratorNext true index = (.iterator true (q + 1), some q)
        ∧ slotsFrom other index other.arrayUsed
          = other.slot q :: slotsFrom other (q + 1) other.arrayUsed)
      ∨ other.iteratorNext true index = (.iterator false index, none)
        ∧ slotsFrom other index other.arrayUsed = [] := by
  have one : other.cls.stride = 1 := by
    rw [sound.cls]
    rfl
  have entries : other.entries = other.arrayUsed := by rw [Coll.entries, one, Nat.div_one]
  have start : index * other.cls.stride = index := by rw [one, Nat.mul_one]
  rcases Nat.lt_or_ge other.arrayUsed index with beyond | inside
  · have stays : other.skipDeleted other.arrayUsed (other.arrayUsed + 1) index = index := by
      rw [Coll.skipDeleted, if_neg (by omega)]
    refine .inr ⟨?_, slotsFrom_empty other (Nat.le_of_lt beyond)⟩
    simp only [Coll.iteratorNext, start, stays, not_true_eq_false, if_false]
    rw [if_neg (by omega)]
  · obtain ⟨q, ends, above, skipped, stops⟩ : ∃ q,
        other.skipDeleted other.arrayUsed (other.arrayUsed + 1) (index * other.cls.stride)
          = q * other.cls.stride ∧ index ≤ q
        ∧ (∀ k, index ≤ k → k < q → k < other.entries
          ∧ other.slot (k * other.cls.stride) = .deleted)
        ∧ (q < other.entries → other.slot (q * other.cls.stride) ≠ .deleted) :=
      skipDeleted_spec other (fun q => by rw [one, Nat.mul_one, entries]) (by omega)
    simp only [one, Nat.mul_one, entries] at ends skipped stops
    have front : q ≤ other.arrayUsed := by
      by_contra beyond
      have last := skipped other.arrayUsed inside (by omega)
      omega
    have same : slotsFrom other index other.arrayUsed = slotsFrom other q other.arrayUsed :=
      slotsFrom_skip above front fun k behind before => (skipped k behind before).2
    rcases Nat.lt_or_eq_of_le front with live | last
    · refine .inl ⟨q, ?_, same.trans (slotsFrom_live live (stops live))⟩
      have part := sound.part (by omega)
      simp only [Coll.iteratorNext, one, Nat.mul_one, ends, not_true_eq_false, if_false]
      rw [if_pos ⟨live, part⟩, Nat.div_one]
    · refine .inr ⟨?_, same.trans (slotsFrom_empty other (Nat.le_of_eq last.symm))⟩
      simp only [Coll.iteratorNext, one, Nat.mul_one, ends, not_true_eq_false, if_false]
      rw [if_neg (by omega)]

/-- The loop over the iterator takes all elements. -/
theorem keysLoop_eq (sound : SetSound heap other) (turn : σ → TVal → Option (Turn σ)) {n : Nat}
    (index : Nat) (left : other.arrayUsed - index ≤ n) (state : σ)
    : keysLoop other turn index state
      = foldTurns turn ((slotsFrom other index other.arrayUsed).map setNormalizeNegZero) state := by
  have one : other.cls.stride = 1 := by
    rw [sound.cls]
    rfl
  induction n generalizing index state with
  | zero =>
      rcases iteratorNext_set sound index with ⟨q, next, -⟩ | ⟨next, none⟩
      · have onward := iteratorNext_onward next
        omega
      · rw [keysLoop, none]
        split
        · rename_i found
          rw [next] at found
          cases found
        · rfl
  | succ n ih =>
      rcases iteratorNext_set sound index with ⟨q, next, some⟩ | ⟨next, none⟩
      · have onward := iteratorNext_onward next
        rw [keysLoop, some, List.map_cons, foldTurns]
        split
        · rename_i found
          rw [next] at found
          cases found
          simp only [Coll.entryAt]
          cases turn state (setNormalizeNegZero (other.slot q)) with
          | none => rfl
          | some turned =>
              cases turned with
              | answer b => rfl
              | onward state => exact ih (q + 1) (by omega) state
        · rename_i ends
          exact absurd next (ends _ _ _)
      · rw [keysLoop, none]
        split
        · rename_i found
          rw [next] at found
          cases found
        · rfl

theorem keysLoop_keys (sound : SetSound heap other) (turn : σ → TVal → Option (Turn σ)) (state : σ)
    : keysLoop other turn 0 state = foldTurns turn (keys other) state :=
  keysLoop_eq sound turn 0 (Nat.le_refl _) state

/-- The elements in the slots below the number of elements. -/
def early (set : Coll) : List TVal := slotsFrom set 0 (setLiveCount set)

/-- The elements in the other slots. -/
def missed (set : Coll) : List TVal := slotsFrom set (setLiveCount set) set.arrayUsed

theorem elements_split (set : Coll) : elements set = early set ++ missed set :=
  slotsFrom_split set (Nat.zero_le _) (setLiveCount_le set)

theorem liveLoop_early (sound : SetSound heap set) (turn : σ → TVal → Option (Turn σ)) (state : σ)
    : liveLoop set turn (setLiveWalkStart set) state = foldTurns turn (early set) state :=
  liveLoop_eq sound turn (setLiveWalkStart set) rfl (Nat.le_refl _) state

/-- What every turn preserves, with one turn less to go, holds at the end of a loop that does not
return.
-/
theorem foldTurns_foldl (Inv : Nat → σ → β → Prop) (f : β → TVal → β)
    (turn : σ → TVal → Option (Turn σ)) (vs : List TVal)
    (turns : ∀ k state b v, v ∈ vs → Inv (k + 1) state b →
      ∃ state', turn state v = some (.onward state') ∧ Inv k state' (f b v))
    (state : σ) {b : β} (start : Inv vs.length state b)
    : ∃ state', foldTurns turn vs state = some (.onward state') ∧ Inv 0 state' (vs.foldl f b) := by
  induction vs generalizing state b with
  | nil => exact ⟨state, rfl, start⟩
  | cons v vs ih =>
      obtain ⟨state', turned, kept⟩ := turns _ state b v List.mem_cons_self start
      rw [foldTurns, turned]
      exact ih (fun k state b v member => turns k state b v (List.mem_cons_of_mem _ member))
        state' kept

/-- A loop that returns `false` at the first value without a property. -/
theorem foldTurns_all (Inv : σ → Prop) (p : TVal → Bool) (turn : σ → TVal → Option (Turn σ))
    (vs : List TVal)
    (turns : ∀ state v, Inv state →
      ∃ state', turn state v = some (if p v then .onward state' else .answer false) ∧ Inv state')
    (state : σ) (start : Inv state)
    : ∃ state', foldTurns turn vs state
      = some (if vs.all p then .onward state' else .answer false) := by
  induction vs generalizing state with
  | nil => exact ⟨state, rfl⟩
  | cons v vs ih =>
      obtain ⟨state', turned, kept⟩ := turns state v start
      rw [foldTurns, turned, List.all_cons]
      cases p v with
      | true =>
          rw [if_pos rfl, Bool.true_and]
          exact ih state' kept
      | false => exact ⟨state', rfl⟩

end Boomkat.Correctness
