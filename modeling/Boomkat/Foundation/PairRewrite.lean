import Mathlib.Data.List.Basic
import Mathlib.Tactic.Common

/-! Passes that walk a list once from left to right and replace two of its slots wherever a
decision about the list as edited so far says so.
-/

namespace Boomkat.Foundation

variable {α : Type*}

/-- New words for the slot of a decision and for a later slot. -/
structure PairEdit (α : Type*) where
  head : α
  slot : Nat
  tail : α
  deriving DecidableEq

/-- Apply the edit decided at slot `i`, if any. -/
def applyEdit (decision : List α → Nat → Option (PairEdit α)) (code : List α) (i : Nat)
    : List α :=
  match decision code i with
  | none => code
  | some edit => (code.set i edit.head).set edit.slot edit.tail

/-- The list when the walk arrives at slot `n`. -/
def editedBefore (decision : List α → Nat → Option (PairEdit α)) (code : List α) (n : Nat)
    : List α :=
  (List.range n).foldl (applyEdit decision) code

/-- Decide and edit at every slot in turn. -/
def rewritePairs (decision : List α → Nat → Option (PairEdit α)) (code : List α) : List α :=
  editedBefore decision code code.length

/-- The edit the walk makes at slot `i`. -/
def editAt (decision : List α → Nat → Option (PairEdit α)) (code : List α) (i : Nat)
    : Option (PairEdit α) :=
  decision (editedBefore decision code i) i

theorem editedBefore_succ (decision : List α → Nat → Option (PairEdit α)) (code : List α)
    (n : Nat)
    : editedBefore decision code (n + 1)
      = applyEdit decision (editedBefore decision code n) n := by
  simp [editedBefore, List.range_succ]

/-- Decisions that start at a head word, find no head word up to the later slot they edit,
and leave none there.
-/
structure PairDecision (decision : List α → Nat → Option (PairEdit α))
    (IsHead : α → Prop) : Prop where
  head : ∀ {code : List α} {i : Nat} {edit : PairEdit α}, decision code i = some edit →
    ∃ word, code[i]? = some word ∧ IsHead word
  later : ∀ {code : List α} {i : Nat} {edit : PairEdit α}, decision code i = some edit →
    i < edit.slot ∧ edit.slot < code.length
  between : ∀ {code : List α} {i : Nat} {edit : PairEdit α}, decision code i = some edit →
    ∀ (j : Nat) (word : α), i < j → j ≤ edit.slot → code[j]? = some word → ¬IsHead word
  tail : ∀ {code : List α} {i : Nat} {edit : PairEdit α}, decision code i = some edit →
    ¬IsHead edit.tail

/-- What the walk has done when it arrives at slot `n`. -/
structure Rewritten (edits : Nat → Option (PairEdit α)) (IsHead : α → Prop) (code : List α)
    (n : Nat) (code' : List α) : Prop where
  length : code'.length = code.length
  edited : ∀ {i : Nat} {edit : PairEdit α}, i < n → edits i = some edit →
    code'[i]? = some edit.head ∧ code'[edit.slot]? = some edit.tail
  kept : ∀ {s : Nat}, (∀ (i : Nat) (edit : PairEdit α), i < n → edits i = some edit →
    i ≠ s ∧ edit.slot ≠ s) → code'[s]? = code[s]?
  covered : ∀ {i : Nat} {edit : PairEdit α}, i < n → edits i = some edit →
    ∀ (j : Nat) (word : α), i < j → j ≤ edit.slot → code'[j]? = some word → ¬IsHead word

variable {decision : List α → Nat → Option (PairEdit α)} {IsHead : α → Prop}

/-- An edit is made past every slot edited before. -/
theorem Rewritten.apart {edits : Nat → Option (PairEdit α)} {code code' : List α} {n : Nat}
    (done : Rewritten edits IsHead code n code') {word : α} (here : code'[n]? = some word)
    (isHead : IsHead word) {i : Nat} {edit : PairEdit α} (before : i < n)
    (decided : edits i = some edit)
    : edit.slot < n := by
  by_contra overlap
  exact done.covered before decided n word before (by omega) here isHead

/-- The walk at slot `n`.
Witness: an edit lies past the earlier ones, so it leaves what they did alone.
-/
theorem Rewritten.step (rule : PairDecision decision IsHead) {code : List α} {n : Nat}
    (done : Rewritten (editAt decision code) IsHead code n (editedBefore decision code n))
    : Rewritten (editAt decision code) IsHead code (n + 1)
        (editedBefore decision code (n + 1)) := by
  rw [editedBefore_succ]
  unfold applyEdit
  cases decided : decision (editedBefore decision code n) n with
  | none =>
      have nothing : editAt decision code n = none := decided
      have earlier : ∀ {i edit}, i < n + 1 → editAt decision code i = some edit → i < n := by
        intro i edit before decidedAt
        rcases Nat.lt_succ_iff_lt_or_eq.mp before with earlier | rfl
        · exact earlier
        · rw [nothing] at decidedAt
          cases decidedAt
      refine ⟨done.length, ?_, ?_, ?_⟩
      · intro i edit before decidedAt
        exact done.edited (earlier before decidedAt) decidedAt
      · intro s free
        exact done.kept fun i edit before => free i edit (by omega)
      · intro i edit before decidedAt
        exact done.covered (earlier before decidedAt) decidedAt
  | some edit =>
      have here : editAt decision code n = some edit := decided
      obtain ⟨word, wordEq, isHead⟩ := rule.head decided
      obtain ⟨order, inside⟩ := rule.later decided
      refine ⟨by simpa using done.length, ?_, ?_, ?_⟩
      · intro i edit' before decidedAt
        rcases Nat.lt_succ_iff_lt_or_eq.mp before with earlier | rfl
        · obtain ⟨headAt, tailAt⟩ := done.edited earlier decidedAt
          have apart := done.apart wordEq isHead earlier decidedAt
          rw [List.getElem?_set_ne (by omega), List.getElem?_set_ne (by omega),
            List.getElem?_set_ne (by omega), List.getElem?_set_ne (by omega)]
          exact ⟨headAt, tailAt⟩
        · obtain rfl : edit = edit' := by simpa [here] using decidedAt
          rw [List.getElem?_set_ne (by omega), List.getElem?_set_self (by omega),
            List.getElem?_set_self (by simpa using inside)]
          exact ⟨rfl, rfl⟩
      · intro s free
        obtain ⟨apart, apart'⟩ := free n edit (Nat.lt_succ_self n) here
        rw [List.getElem?_set_ne apart', List.getElem?_set_ne apart]
        exact done.kept fun i edit' before => free i edit' (by omega)
      · intro i edit' before decidedAt j word' low high wordEq'
        rcases Nat.lt_succ_iff_lt_or_eq.mp before with earlier | rfl
        · have apart := done.apart wordEq isHead earlier decidedAt
          rw [List.getElem?_set_ne (by omega), List.getElem?_set_ne (by omega)] at wordEq'
          exact done.covered earlier decidedAt j word' low high wordEq'
        · obtain rfl : edit = edit' := by simpa [here] using decidedAt
          rcases Nat.lt_or_eq_of_le high with between | rfl
          · rw [List.getElem?_set_ne (by omega), List.getElem?_set_ne (by omega)] at wordEq'
            exact rule.between decided j word' low high wordEq'
          · rw [List.getElem?_set_self (by simpa using inside)] at wordEq'
            cases wordEq'
            exact rule.tail decided

/-- The walk in closed form.
Witness: induction on the slots visited.
-/
theorem editedBefore_rewritten (rule : PairDecision decision IsHead) (code : List α) (n : Nat)
    : Rewritten (editAt decision code) IsHead code n (editedBefore decision code n) := by
  induction n with
  | zero =>
      refine ⟨rfl, ?_, fun _ => rfl, ?_⟩
      · exact fun before => absurd before (Nat.not_lt_zero _)
      · exact fun before => absurd before (Nat.not_lt_zero _)
  | succ n ih => exact ih.step rule

/-- Edited pairs do not overlap. -/
theorem editAt_disjoint (rule : PairDecision decision IsHead) {code : List α} {i j : Nat}
    {edit edit' : PairEdit α} (first : editAt decision code i = some edit)
    (second : editAt decision code j = some edit') (order : i < j)
    : edit.slot < j := by
  obtain ⟨word, slot, isHead⟩ := rule.head second
  exact (editedBefore_rewritten rule code j).apart slot isHead order first

/-- Where an edit is made, the list from there on is still the original. -/
theorem editedBefore_suffix (rule : PairDecision decision IsHead) {code : List α} {i : Nat}
    {edit : PairEdit α} (decided : editAt decision code i = some edit) {s : Nat} (from_ : i ≤ s)
    : (editedBefore decision code i)[s]? = code[s]? := by
  apply (editedBefore_rewritten rule code i).kept
  intro j edit' before decidedAt
  have apart := editAt_disjoint rule decidedAt decided before
  omega

/-- An edit is made inside the list. -/
theorem editAt_inside (rule : PairDecision decision IsHead) {code : List α} {i : Nat}
    {edit : PairEdit α} (decided : editAt decision code i = some edit)
    : i < edit.slot ∧ edit.slot < code.length := by
  rw [← (editedBefore_rewritten rule code i).length]
  exact rule.later decided

-----------------------------------------------------------------------------------------
-- Decisions that look forward only
-----------------------------------------------------------------------------------------

/-- A decision that looks at the slots from its own one on does not see earlier edits.
Witness: an earlier edit either ends before the slot, or covers it without a head word.
-/
theorem editAt_forward (rule : PairDecision decision IsHead)
    (forward : ∀ {code code' : List α} {i : Nat}, code.length = code'.length →
      (∀ s, i ≤ s → code[s]? = code'[s]?) → decision code i = decision code' i)
    (code : List α) (n : Nat)
    : editAt decision code n = decision code n := by
  have done := editedBefore_rewritten rule code n
  by_cases covered : ∃ i edit, i < n ∧ editAt decision code i = some edit ∧ n ≤ edit.slot
  · obtain ⟨i, edit, before, decided, covers⟩ := covered
    have current : editAt decision code n = none := by
      cases atSlot : editAt decision code n with
      | none => rfl
      | some edit' => exact absurd (editAt_disjoint rule decided atSlot before) (by omega)
    rw [current]
    cases original : decision code n with
    | none => rfl
    | some edit' =>
        obtain ⟨word, slot, isHead⟩ := rule.head original
        rw [← editedBefore_suffix rule decided (Nat.le_of_lt before)] at slot
        exact absurd isHead (rule.between decided n word before covers slot)
  · refine forward done.length fun s far => done.kept ?_
    intro i edit before decided
    refine ⟨by omega, ?_⟩
    intro same
    exact covered ⟨i, edit, before, decided, by omega⟩

-----------------------------------------------------------------------------------------
-- Walks that step over what they edit
-----------------------------------------------------------------------------------------

/-- The list after the visits to the slots before `n`, and the slot where a walk goes on that
leaves out every slot up to the later one of an edit.
-/
def editedSkipping (decision : List α → Nat → Option (PairEdit α)) (code : List α)
    : Nat → List α × Nat
  | 0 => (code, 0)
  | n + 1 =>
      let (current, resume) := editedSkipping decision code n
      if n < resume then (current, resume)
      else
        match decision current n with
        | none => (current, resume)
        | some edit => ((current.set n edit.head).set edit.slot edit.tail, edit.slot + 1)

/-- Decide and edit at every slot that no earlier edit covers. -/
def rewriteSkipping (decision : List α → Nat → Option (PairEdit α)) (code : List α) : List α :=
  (editedSkipping decision code code.length).1

/-- The edit that the walk makes at slot `i`. -/
def skipEditAt (decision : List α → Nat → Option (PairEdit α)) (code : List α) (i : Nat)
    : Option (PairEdit α) :=
  let (current, resume) := editedSkipping decision code i
  if i < resume then none else decision current i

/-- What such a walk has done when it arrives at slot `n`. -/
structure Skipped (decision : List α → Nat → Option (PairEdit α)) (code : List α) (n : Nat)
    : Prop where
  done : Rewritten (skipEditAt decision code) (fun _ => False) code n
    (editedSkipping decision code n).1
  past : ∀ {i : Nat} {edit : PairEdit α}, i < n → skipEditAt decision code i = some edit →
    i < edit.slot ∧ edit.slot < (editedSkipping decision code n).2

/-- From the slot where the walk goes on, the list is still the original. -/
theorem Skipped.suffix {code : List α} {n : Nat} (skipped : Skipped decision code n) {s : Nat}
    (from_ : (editedSkipping decision code n).2 ≤ s)
    : (editedSkipping decision code n).1[s]? = code[s]? := by
  apply skipped.done.kept
  intro i edit before decided
  obtain ⟨order, past⟩ := skipped.past before decided
  omega

/-- The walk at slot `n`. -/
theorem Skipped.step
    (later : ∀ (code : List α) (i : Nat) (edit : PairEdit α), decision code i = some edit →
      i < edit.slot ∧ edit.slot < code.length)
    {code : List α} {n : Nat} (skipped : Skipped decision code n)
    : Skipped decision code (n + 1) := by
  have nothing : skipEditAt decision code n = none →
      editedSkipping decision code (n + 1) = editedSkipping decision code n →
      Skipped decision code (n + 1) := by
    intro undecided same
    have earlier : ∀ {i edit}, i < n + 1 → skipEditAt decision code i = some edit → i < n := by
      intro i edit before decided
      rcases Nat.lt_succ_iff_lt_or_eq.mp before with earlier | rfl
      · exact earlier
      · rw [undecided] at decided
        cases decided
    refine ⟨⟨?_, ?_, ?_, ?_⟩, ?_⟩
    · rw [same]
      exact skipped.done.length
    · intro i edit before decided
      rw [same]
      exact skipped.done.edited (earlier before decided) decided
    · intro s free
      rw [same]
      exact skipped.done.kept fun i edit before => free i edit (by omega)
    · exact fun _ _ _ _ _ _ _ absurd => absurd
    · intro i edit before decided
      rw [same]
      exact skipped.past (earlier before decided) decided
  by_cases covered : n < (editedSkipping decision code n).2
  · exact nothing (by simp [skipEditAt, covered]) (by simp [editedSkipping, covered])
  · cases decided : decision (editedSkipping decision code n).1 n with
    | none =>
        exact nothing (by simp [skipEditAt, covered, decided])
          (by simp [editedSkipping, covered, decided])
    | some edit =>
        have here : skipEditAt decision code n = some edit := by
          simp [skipEditAt, covered, decided]
        have next : editedSkipping decision code (n + 1)
            = ((((editedSkipping decision code n).1.set n edit.head).set edit.slot edit.tail),
              edit.slot + 1) := by
          simp [editedSkipping, covered, decided]
        obtain ⟨order, inside⟩ := later _ _ _ decided
        refine ⟨⟨?_, ?_, ?_, ?_⟩, ?_⟩
        · rw [next]
          simpa using skipped.done.length
        · intro i edit' before decidedAt
          rw [next]
          rcases Nat.lt_succ_iff_lt_or_eq.mp before with earlier | rfl
          · obtain ⟨order', past⟩ := skipped.past earlier decidedAt
            rw [List.getElem?_set_ne (by omega), List.getElem?_set_ne (by omega),
              List.getElem?_set_ne (by omega), List.getElem?_set_ne (by omega)]
            exact skipped.done.edited earlier decidedAt
          · obtain rfl : edit = edit' := by simpa [here] using decidedAt
            rw [List.getElem?_set_ne (by omega), List.getElem?_set_self (by omega),
              List.getElem?_set_self (by simpa using inside)]
            exact ⟨rfl, rfl⟩
        · intro s free
          rw [next]
          obtain ⟨apart, apart'⟩ := free n edit (Nat.lt_succ_self n) here
          rw [List.getElem?_set_ne apart', List.getElem?_set_ne apart]
          exact skipped.done.kept fun i edit' before => free i edit' (by omega)
        · exact fun _ _ _ _ _ _ _ absurd => absurd
        · intro i edit' before decidedAt
          rw [next]
          rcases Nat.lt_succ_iff_lt_or_eq.mp before with earlier | rfl
          · obtain ⟨order', past⟩ := skipped.past earlier decidedAt
            simp only
            omega
          · obtain rfl : edit = edit' := by simpa [here] using decidedAt
            exact ⟨order, Nat.lt_succ_self _⟩

section Skipping

variable (later : ∀ (code : List α) (i : Nat) (edit : PairEdit α),
  decision code i = some edit → i < edit.slot ∧ edit.slot < code.length)

include later

/-- Such a walk in closed form.
Witness: induction on the slots visited.
-/
theorem editedSkipping_skipped (code : List α) (n : Nat) : Skipped decision code n := by
  induction n with
  | zero =>
      refine ⟨⟨rfl, ?_, fun _ => rfl, ?_⟩, ?_⟩ <;>
        exact fun before => absurd before (Nat.not_lt_zero _)
  | succ n ih => exact ih.step later

/-- Edited pairs do not overlap. -/
theorem skipEditAt_disjoint {code : List α} {i j : Nat} {edit edit' : PairEdit α}
    (first : skipEditAt decision code i = some edit)
    (second : skipEditAt decision code j = some edit') (order : i < j)
    : edit.slot < j := by
  obtain ⟨_, past⟩ := (editedSkipping_skipped later code j).past order first
  have visited : (editedSkipping decision code j).2 ≤ j := by
    by_contra covered
    simp [skipEditAt, Nat.not_le.mp covered] at second
  omega

/-- Where an edit is made, it is decided on a list that is the original from there on. -/
theorem skipEditAt_suffix {code : List α} {i : Nat} {edit : PairEdit α}
    (decided : skipEditAt decision code i = some edit)
    : ∃ current : List α, decision current i = some edit ∧ current.length = code.length
        ∧ ∀ s, i ≤ s → current[s]? = code[s]? := by
  have skipped := editedSkipping_skipped later code i
  by_cases covered : i < (editedSkipping decision code i).2
  · simp [skipEditAt, covered] at decided
  · refine ⟨_, by simpa [skipEditAt, covered] using decided, skipped.done.length, ?_⟩
    intro s from_
    exact skipped.suffix (by omega)

end Skipping

end Boomkat.Foundation
