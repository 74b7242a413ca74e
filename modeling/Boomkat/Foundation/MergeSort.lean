import Boomkat.Foundation.Programs
import Boomkat.Foundation.StableSorting
import Mathlib.Algebra.Group.Nat.Defs
import Mathlib.Data.List.Perm.Basic
import Mathlib.Data.Nat.Choose.Basic
import Mathlib.Data.Nat.Log

/-! Sorting of lists with a comparator that is a program: the bottom-up merge sort and the sort that
swaps neighbours. Whatever the comparator does they permute the list; where it agrees with an order
test they sort stably.
-/

namespace Boomkat.MergeSort

open Programs StableSorting

variable {ε σ α : Type}

-----------------------------------------------------------------------------------------
-- The algorithms
-----------------------------------------------------------------------------------------

/-- The merge of two runs, from the left one where the comparator does not say otherwise. -/
def merge (compare : α → α → EStateM ε σ Int) : List α → List α → EStateM ε σ (List α)
  | [], right => pure right
  | left, [] => pure left
  | a :: left, b :: right => do
      let cmp ← compare a b
      if cmp ≤ 0 then do
        let rest ← merge compare left (b :: right)
        return a :: rest
      else do
        let rest ← merge compare (a :: left) right
        return b :: rest
termination_by left right => left.length + right.length

/-- One pass, which merges neighbouring runs of a width. -/
def mergeRuns (compare : α → α → EStateM ε σ Int) (width : Nat) (l : List α)
    : EStateM ε σ (List α) :=
  if 0 < l.length ∧ 0 < width then do
    let merged ← merge compare (l.take width) ((l.drop width).take width)
    let rest ← mergeRuns compare width (l.drop (2 * width))
    return merged ++ rest
  else pure l
termination_by l.length
decreasing_by
  rw [List.length_drop]
  omega

/-- The passes over a list of `n` values, from runs of a width on. -/
def mergePasses (compare : α → α → EStateM ε σ Int) (n width : Nat) (l : List α)
    : EStateM ε σ (List α) :=
  if width < n ∧ 0 < width then do
    let merged ← mergeRuns compare width l
    mergePasses compare n (2 * width) merged
  else pure l
termination_by n - width

/-- Carries the greater value of each comparison to the end. -/
def sink (compare : α → α → EStateM ε σ Int) : α → List α → EStateM ε σ (List α × α)
  | a, [] => pure ([], a)
  | a, b :: l => do
      let cmp ← compare a b
      if cmp > 0 then do
        let sunk ← sink compare a l
        return (b :: sunk.1, sunk.2)
      else do
        let sunk ← sink compare b l
        return (a :: sunk.1, sunk.2)

/-- Sinks the greatest of the first `n` values, then of the `n - 1` values before it, and so on. -/
def sinkAll (compare : α → α → EStateM ε σ Int) : Nat → List α → EStateM ε σ (List α)
  | 0, l => pure l
  | _ + 1, [] => pure []
  | n + 1, a :: l => do
      let sunk ← sink compare a l
      let sorted ← sinkAll compare n sunk.1
      return sorted ++ [sunk.2]

-----------------------------------------------------------------------------------------
-- Any comparator
-----------------------------------------------------------------------------------------

/-- Each comparison of two of the values leads from a state after `n` comparisons to one after
`n + 1`, with a result as told, or it is the comparison `n + 1` that throws.
-/
def Compares (member : α → Prop) (after : Nat → σ → Prop) (result : α → α → Int → Prop)
    (threw : Nat → ε → σ → Prop) (compare : α → α → EStateM ε σ Int)
    : Prop :=
  ∀ a b n, member a → member b →
    Triple (after n) (compare a b) (fun cmp s => after (n + 1) s ∧ result a b cmp) (threw (n + 1))

/-- A state after `n` comparisons is one after more. -/
def Monotone (after : Nat → σ → Prop) : Prop := ∀ m n s, m ≤ n → after m s → after n s

/-- What was thrown within `n` comparisons was thrown within more. -/
def ThrowsMonotone (threw : Nat → ε → σ → Prop) : Prop :=
  ∀ m n e s, m ≤ n → threw m e s → threw n e s

variable {member : α → Prop} {after : Nat → σ → Prop} {result : α → α → Int → Prop}
  {threw : Nat → ε → σ → Prop} {X : ε → σ → Prop} {compare : α → α → EStateM ε σ Int} {le : α → α → Bool}

/-- The states after a number of comparisons of such values. -/
inductive Compared (compare : α → α → EStateM ε σ Int) (member : α → Prop) (start : σ)
    : Nat → σ → Prop
  | start : Compared compare member start 0 start
  | next {n : Nat} {s s' : σ} {a b : α} {cmp : Int} (before : Compared compare member start n s)
      (left : member a) (right : member b) (compared : compare a b s = .ok cmp s')
      : Compared compare member start (n + 1) s'

/-- At most a number of comparisons were made. -/
def ComparedWithin (compare : α → α → EStateM ε σ Int) (member : α → Prop) (start : σ) (n : Nat)
    (s : σ)
    : Prop :=
  ∃ k ≤ n, Compared compare member start k s

/-- One of the first `n` comparisons threw. -/
def ComparisonThrew (compare : α → α → EStateM ε σ Int) (member : α → Prop) (start : σ) (n : Nat)
    (e : ε) (s' : σ)
    : Prop :=
  ∃ k < n, ∃ s a b, Compared compare member start k s ∧ member a ∧ member b
    ∧ compare a b s = .error e s'

theorem comparedWithin_mono (compare : α → α → EStateM ε σ Int) (member : α → Prop) (start : σ)
    : Monotone (ComparedWithin compare member start) := by
  intro m n s more within
  obtain ⟨k, few, compared⟩ := within
  exact ⟨k, few.trans more, compared⟩

theorem comparisonThrew_mono (compare : α → α → EStateM ε σ Int) (member : α → Prop) (start : σ)
    : ThrowsMonotone (ComparisonThrew compare member start) := by
  intro m n e s more threw
  obtain ⟨k, few, thrown⟩ := threw
  exact ⟨k, few.trans_le more, thrown⟩

theorem comparedWithin_start (compare : α → α → EStateM ε σ Int) (member : α → Prop) (start : σ)
    : ∀ s, s = start → ComparedWithin compare member start 0 s := by
  intro s same
  rw [same]
  exact ⟨0, Nat.le_refl 0, .start⟩

/-- One comparison. -/
theorem comparedWithin_next {start s : σ} {n : Nat} {a b : α}
    (within : ComparedWithin compare member start n s) (left : member a) (right : member b)
    : match compare a b s with
      | .ok _ s' => ComparedWithin compare member start (n + 1) s'
      | .error e s' => ComparisonThrew compare member start (n + 1) e s' := by
  obtain ⟨k, few, compared⟩ := within
  cases result : compare a b s with
  | ok cmp s' => exact ⟨k + 1, Nat.succ_le_succ few, compared.next left right result⟩
  | error e s' => exact ⟨k, Nat.lt_succ_of_le few, s, a, b, compared, left, right, result⟩

theorem compares_within (compare : α → α → EStateM ε σ Int) (member : α → Prop) (start : σ)
    : Compares member (ComparedWithin compare member start) (fun _ _ _ => True)
        (ComparisonThrew compare member start) compare := by
  intro a b n left right s within
  have next := comparedWithin_next within left right
  cases result : compare a b s with
  | ok cmp s' =>
      rw [result] at next
      exact ⟨next, trivial⟩
  | error e s' =>
      rw [result] at next
      exact next

/-- A comparison in a longer program. -/
theorem Compares.within (compares : Compares member after result threw compare)
    (throwsMono : ThrowsMonotone threw) {a b : α} (left : member a) (right : member b)
    {n total : Nat} (room : n < total)
    : Triple (after n) (compare a b) (fun cmp s => after (n + 1) s ∧ result a b cmp)
        (threw total) :=
  (compares a b n left right).throws fun e s => throwsMono _ _ e s room

theorem merge_perm (compares : Compares member after result threw compare)
    (mono : Monotone after) (throwsMono : ThrowsMonotone threw) {left right : List α}
    (inLeft : ∀ a ∈ left, member a) (inRight : ∀ a ∈ right, member a) (n : Nat)
    : Triple (after n) (merge compare left right)
        (fun out s => after (n + (left.length + right.length)) s ∧ out.Perm (left ++ right))
        (threw (n + (left.length + right.length))) := by
  induction left, right using merge.induct generalizing n with
  | case1 right =>
      rw [merge]
      exact Triple.pure fun s here => ⟨mono _ _ s (Nat.le_add_right n _) here, .refl _⟩
  | case2 left nonempty =>
      rw [merge]
      · rw [List.append_nil]
        exact Triple.pure fun s here => ⟨mono _ _ s (Nat.le_add_right n _) here, .refl _⟩
      · exact nonempty
  | case3 a left b right ihLeft ihRight =>
      rw [merge]
      have here := compares.within throwsMono (inLeft a List.mem_cons_self)
        (inRight b List.mem_cons_self)
        (show n < n + ((a :: left).length + (b :: right).length) by
          simp only [List.length_cons]
          omega)
      refine here.bind fun cmp => ?_
      by_cases below : cmp ≤ 0
      · rw [if_pos below]
        have later := ihLeft (fun c inside => inLeft c (List.mem_cons_of_mem a inside)) inRight
          (n + 1)
        have count : n + 1 + (left.length + (b :: right).length)
            = n + ((a :: left).length + (b :: right).length) := by
          simp only [List.length_cons]
          omega
        rw [count] at later
        exact (later.before fun s known => known.1).bind fun rest =>
          Triple.pure fun s known => ⟨known.1, known.2.cons a⟩
      · rw [if_neg below]
        have later := ihRight inLeft (fun c inside => inRight c (List.mem_cons_of_mem b inside))
          (n + 1)
        have count : n + 1 + ((a :: left).length + right.length)
            = n + ((a :: left).length + (b :: right).length) := by
          simp only [List.length_cons]
          omega
        rw [count] at later
        exact (later.before fun s known => known.1).bind fun rest =>
          Triple.pure fun s known => ⟨known.1, (known.2.cons b).trans List.perm_middle.symm⟩

/-- A part of a list before the rest of it. -/
theorem take_take_drop (l : List α) (width : Nat)
    : l.take width ++ ((l.drop width).take width ++ l.drop (2 * width)) = l := by
  rw [Nat.two_mul, ← List.drop_drop, List.take_append_drop, List.take_append_drop]

theorem mergeRuns_perm (compares : Compares member after result threw compare)
    (mono : Monotone after) (throwsMono : ThrowsMonotone threw) (width : Nat) {l : List α}
    (inside : ∀ a ∈ l, member a) (n : Nat)
    : Triple (after n) (mergeRuns compare width l)
        (fun out s => after (n + l.length) s ∧ out.Perm l) (threw (n + l.length)) := by
  induction l using mergeRuns.induct width generalizing n with
  | case1 l live ih =>
      rw [mergeRuns, if_pos live]
      have whole := take_take_drop l width
      have lengths := congrArg List.length whole
      rw [List.length_append, List.length_append] at lengths
      have inFirst : ∀ a ∈ l.take width, member a := fun a within =>
        inside a (List.mem_of_mem_take within)
      have inSecond : ∀ a ∈ (l.drop width).take width, member a := fun a within =>
        inside a (List.mem_of_mem_drop (List.mem_of_mem_take within))
      have first := (merge_perm compares mono throwsMono inFirst inSecond n).throws
        fun e s => throwsMono _ (n + l.length) e s (by omega)
      refine first.bind fun merged => ?_
      have second := ih (fun a within => inside a (List.mem_of_mem_drop within))
        (n + ((l.take width).length + ((l.drop width).take width).length))
      have both : Triple
          (fun s => after (n + ((l.take width).length + ((l.drop width).take width).length)) s
            ∧ merged.Perm (l.take width ++ (l.drop width).take width))
          (mergeRuns compare width (l.drop (2 * width)))
          (fun rest s => after (n + l.length) s ∧ (merged ++ rest).Perm l)
          (threw (n + l.length)) := by
        intro s known
        refine (second.mono (fun _ known => known) (fun rest s' known' => ⟨?_, ?_⟩)
          (fun e s' => throwsMono _ _ e s' (by omega))) s known.1
        · exact mono _ _ s' (by omega) known'.1
        · have joined := known.2.append known'.2
          rwa [List.append_assoc, whole] at joined
      exact both.bind fun rest => Triple.pure fun _ known => known
  | case2 l live =>
      rw [mergeRuns, if_neg live]
      exact Triple.pure fun s here => ⟨mono _ _ s (Nat.le_add_right n _) here, .refl _⟩

/-- Runs of `2 ^ j` values leave `clog₂ n - j` passes. -/
theorem mergePasses_perm (compares : Compares member after result threw compare)
    (mono : Monotone after) (throwsMono : ThrowsMonotone threw) {l : List α}
    (inside : ∀ a ∈ l, member a) (j n : Nat)
    : Triple (after n) (mergePasses compare l.length (2 ^ j) l)
        (fun out s => after (n + l.length * (Nat.clog 2 l.length - j)) s ∧ out.Perm l)
        (threw (n + l.length * (Nat.clog 2 l.length - j))) := by
  induction left : Nat.clog 2 l.length - j generalizing j n l with
  | zero =>
      have wide : ¬(2 ^ j < l.length ∧ 0 < 2 ^ j) := fun narrow =>
        absurd ((Nat.clog_le_iff_le_pow Nat.one_lt_two).mp (Nat.sub_eq_zero_iff_le.mp left))
          (Nat.not_le.mpr narrow.1)
      rw [mergePasses, if_neg wide]
      exact Triple.pure fun s here => ⟨here, .refl _⟩
  | succ k ih =>
      have narrow : 2 ^ j < l.length := by
        rw [← Nat.not_le, ← Nat.clog_le_iff_le_pow Nat.one_lt_two]
        omega
      rw [mergePasses, if_pos ⟨narrow, Nat.two_pow_pos j⟩]
      have count : n + l.length + l.length * k = n + l.length * (k + 1) := by
        rw [Nat.mul_succ, Nat.add_comm (l.length * k), ← Nat.add_assoc]
      have pass := (mergeRuns_perm compares mono throwsMono (2 ^ j) inside n).throws
        fun e s => throwsMono _ (n + l.length * (k + 1)) e s (count ▸ Nat.le_add_right _ _)
      refine pass.bind fun merged s known => ?_
      have length := known.2.length_eq
      have later := ih (l := merged) (fun a within => inside a (known.2.mem_iff.mp within)) (j + 1)
        (n + l.length) (by rw [length]; omega)
      rw [length, count] at later
      rw [← Nat.pow_succ']
      exact (later.mono (fun _ known => known)
        (fun out s' known' => ⟨known'.1, known'.2.trans known.2⟩) (fun _ _ thrown => thrown)) s
        known.1

theorem sink_perm (compares : Compares member after result threw compare)
    (throwsMono : ThrowsMonotone threw) {a : α} {l : List α} (first : member a)
    (inside : ∀ b ∈ l, member b) (n : Nat)
    : Triple (after n) (sink compare a l)
        (fun out s => after (n + l.length) s ∧ (out.1 ++ [out.2]).Perm (a :: l))
        (threw (n + l.length)) := by
  induction l generalizing a n with
  | nil =>
      rw [sink]
      exact Triple.pure fun s here => ⟨here, .refl _⟩
  | cons b l ih =>
      rw [sink]
      have second := inside b List.mem_cons_self
      have others : ∀ c ∈ l, member c := fun c within => inside c (List.mem_cons_of_mem b within)
      have count : n + (b :: l).length = n + 1 + l.length := by
        rw [List.length_cons]
        omega
      rw [count]
      have here := compares.within throwsMono first second
        (show n < n + 1 + l.length by omega)
      refine here.bind fun cmp => ?_
      by_cases above : cmp > 0
      · rw [if_pos above]
        refine ((ih first others (n + 1)).before fun s known => known.1).bind fun sunk =>
          Triple.pure fun s known => ⟨known.1, ?_⟩
        exact (known.2.cons b).trans (.swap a b l)
      · rw [if_neg above]
        refine ((ih second others (n + 1)).before fun s known => known.1).bind fun sunk =>
          Triple.pure fun s known => ⟨known.1, ?_⟩
        exact known.2.cons a

theorem sinkAll_perm (compares : Compares member after result threw compare)
    (throwsMono : ThrowsMonotone threw) {l : List α} (inside : ∀ a ∈ l, member a) (n : Nat)
    : Triple (after n) (sinkAll compare l.length l)
        (fun out s => after (n + l.length.choose 2) s ∧ out.Perm l)
        (threw (n + l.length.choose 2)) := by
  induction length : l.length generalizing l n with
  | zero =>
      rw [List.eq_nil_of_length_eq_zero length, sinkAll]
      exact Triple.pure fun s here => ⟨here, .refl _⟩
  | succ k ih =>
      cases l with
      | nil => cases length
      | cons a l =>
          rw [List.length_cons, Nat.add_right_cancel_iff] at length
          rw [sinkAll]
          have count : n + l.length + k.choose 2 = n + (k + 1).choose 2 := by
            rw [Nat.choose_succ_succ, Nat.choose_one_right, ← Nat.add_assoc, length]
          have first := (sink_perm compares throwsMono (inside a List.mem_cons_self)
            (fun b within => inside b (List.mem_cons_of_mem a within)) n).throws
            fun e s => throwsMono _ (n + (k + 1).choose 2) e s (count ▸ Nat.le_add_right _ _)
          refine first.bind fun sunk s known => ?_
          have shorter : sunk.1.length = k := by
            have lengths := known.2.length_eq
            rw [List.length_append, List.length_cons, List.length_cons] at lengths
            simp only [List.length_nil] at lengths
            omega
          have later := ih (l := sunk.1) (fun b within =>
            inside b (known.2.mem_iff.mp (List.mem_append_left _ within))) (n + l.length) shorter
          rw [count] at later
          exact (later.bind fun sorted => Triple.pure fun s' known' =>
            ⟨known'.1, (known'.2.append_right [sunk.2]).trans known.2⟩) s known.1

-----------------------------------------------------------------------------------------
-- Consistent comparators
-----------------------------------------------------------------------------------------

/-- The results of the comparator agree with the order test. -/
def agrees (le : α → α → Bool) (a b : α) (cmp : Int) : Prop := cmp ≤ 0 ↔ le a b = true

theorem merge_sorts (ranks : Ranks le) {I : σ → Prop}
    (compares : Compares member (fun _ => I) (agrees le) (fun _ => X) compare) {left right : List α}
    (inLeft : ∀ a ∈ left, member a) (inRight : ∀ a ∈ right, member a)
    (leftOrdered : Ordered le left) (rightOrdered : Ordered le right)
    : Triple I (merge compare left right)
        (fun out s => I s ∧ StablySorts le (left ++ right) out) X := by
  induction left, right using merge.induct with
  | case1 right =>
      rw [merge]
      exact Triple.pure fun s here => ⟨here, .refl rightOrdered⟩
  | case2 left nonempty =>
      rw [merge]
      · rw [List.append_nil]
        exact Triple.pure fun s here => ⟨here, .refl leftOrdered⟩
      · exact nonempty
  | case3 a left b right ihLeft ihRight =>
      rw [merge]
      have here := compares a b 0 (inLeft a List.mem_cons_self) (inRight b List.mem_cons_self)
      refine here.bind fun cmp s known => ?_
      by_cases below : cmp ≤ 0
      · rw [if_pos below]
        have later := ihLeft (fun c inside => inLeft c (List.mem_cons_of_mem a inside)) inRight
          leftOrdered.tail rightOrdered
        exact (later.bind fun rest => Triple.pure fun s' known' => ⟨known'.1,
          known'.2.cons_left ranks leftOrdered rightOrdered (known.2.mp below)⟩) s known.1
      · rw [if_neg below]
        have later := ihRight inLeft (fun c inside => inRight c (List.mem_cons_of_mem b inside))
          leftOrdered rightOrdered.tail
        have above : le a b = false := Bool.eq_false_iff.mpr fun test => below (known.2.mpr test)
        exact (later.bind fun rest => Triple.pure fun s' known' => ⟨known'.1,
          known'.2.cons_right ranks leftOrdered rightOrdered above⟩) s known.1

/-- Every run of the width is ordered. -/
def RunsOrdered (le : α → α → Bool) (width : Nat) (l : List α) : Prop :=
  ∀ i, Ordered le ((l.drop (i * width)).take width)

theorem runsOrdered_one (le : α → α → Bool) (l : List α) : RunsOrdered le 1 l := by
  intro i
  have short : ((l.drop (i * 1)).take 1).length ≤ 1 := by
    rw [List.length_take]
    exact Nat.min_le_left _ _
  generalize (l.drop (i * 1)).take 1 = run at short ⊢
  cases run with
  | nil => exact .nil
  | cons a run =>
      cases run with
      | nil => exact List.pairwise_singleton _ a
      | cons b run => exact absurd short (by simp)

theorem RunsOrdered.drop {width : Nat} {l : List α} (runs : RunsOrdered le width l)
    : RunsOrdered le width (l.drop (2 * width)) := by
  intro i
  rw [List.drop_drop, ← Nat.add_mul, Nat.add_comm 2 i]
  exact runs (i + 2)

/-- A merged pair of runs before runs of twice the width. -/
theorem RunsOrdered.cons {width : Nat} {merged rest : List α} (first : Ordered le merged)
    (full : merged.length = 2 * width ∨ rest = []) (short : merged.length ≤ 2 * width)
    (runs : RunsOrdered le (2 * width) rest)
    : RunsOrdered le (2 * width) (merged ++ rest) := by
  intro i
  rcases full with full | rfl
  · cases i with
    | zero =>
        rw [Nat.zero_mul, List.drop_zero, List.take_left' full]
        exact first
    | succ i =>
        have behind : (i + 1) * (2 * width) = 2 * width + i * (2 * width) := by
          rw [Nat.add_comm (2 * width), ← Nat.succ_mul]
        rw [behind, ← List.drop_drop, List.drop_left' full]
        exact runs i
  · rw [List.append_nil]
    cases i with
    | zero =>
        rw [Nat.zero_mul, List.drop_zero, List.take_of_length_le short]
        exact first
    | succ i =>
        rw [List.drop_eq_nil_of_le (short.trans (Nat.le_mul_of_pos_left _ (Nat.succ_pos i))),
          List.take_nil]
        exact .nil

theorem mergeRuns_sorts (ranks : Ranks le) {I : σ → Prop}
    (compares : Compares member (fun _ => I) (agrees le) (fun _ => X) compare) {width : Nat} {l : List α}
    (positive : 0 < width) (inside : ∀ a ∈ l, member a) (runs : RunsOrdered le width l)
    : Triple I (mergeRuns compare width l)
        (fun out s => I s ∧ RunsOrdered le (2 * width) out ∧ SameTies le l out
          ∧ out.length = l.length) X := by
  induction l using mergeRuns.induct width with
  | case1 l live ih =>
      rw [mergeRuns, if_pos live]
      have whole := take_take_drop l width
      have inFirst : ∀ a ∈ l.take width, member a := fun a within =>
        inside a (List.mem_of_mem_take within)
      have inSecond : ∀ a ∈ (l.drop width).take width, member a := fun a within =>
        inside a (List.mem_of_mem_drop (List.mem_of_mem_take within))
      have firstRun : Ordered le (l.take width) := by
        have run := runs 0
        rwa [Nat.zero_mul, List.drop_zero] at run
      have secondRun : Ordered le ((l.drop width).take width) := by
        have run := runs 1
        rwa [Nat.one_mul] at run
      have permutes := merge_perm compares (fun _ _ _ _ here => here) (fun _ _ _ _ _ thrown => thrown)
        inFirst inSecond 0
      have sorted := merge_sorts ranks compares inFirst inSecond firstRun secondRun
      refine (sorted.and permutes).bind fun merged s known => ?_
      obtain ⟨⟨here, sorts⟩, -, perm⟩ := known
      have lengths := perm.length_eq
      rw [List.length_append, List.length_take, List.length_take, List.length_drop] at lengths
      refine ((ih (fun a within => inside a (List.mem_of_mem_drop within)) runs.drop).bind
        fun rest => Triple.pure fun s' known' => ?_) s here
      obtain ⟨here', runs', ties', length'⟩ := known'
      rw [List.length_drop] at length'
      refine ⟨here', RunsOrdered.cons sorts.ordered ?_ (by omega) runs', ?_, ?_⟩
      · by_cases short : l.length < 2 * width
        · exact .inr (List.eq_nil_of_length_eq_zero (by omega))
        · exact .inl (by omega)
      · have joined := sorts.ties.append ties'
        rwa [List.append_assoc, whole] at joined
      · rw [List.length_append]
        omega
  | case2 l live =>
      rw [mergeRuns, if_neg live]
      refine Triple.pure fun s here => ⟨here, fun i => ?_, .refl l, rfl⟩
      have empty : l = [] := List.eq_nil_of_length_eq_zero (by omega)
      rw [empty, List.drop_nil, List.take_nil]
      exact .nil

theorem mergePasses_sorts (ranks : Ranks le) {I : σ → Prop}
    (compares : Compares member (fun _ => I) (agrees le) (fun _ => X) compare) {width : Nat} {l : List α}
    (positive : 0 < width) (inside : ∀ a ∈ l, member a) (runs : RunsOrdered le width l)
    : Triple I (mergePasses compare l.length width l)
        (fun out s => I s ∧ StablySorts le l out) X := by
  induction left : l.length - width using Nat.strongRecOn generalizing width l with
  | ind k ih =>
      by_cases narrow : width < l.length ∧ 0 < width
      · rw [mergePasses, if_pos narrow]
        refine (mergeRuns_sorts ranks compares positive inside runs).bind fun merged s known => ?_
        obtain ⟨here, runs', ties, length⟩ := known
        have inside' : ∀ a ∈ merged, member a := fun a within =>
          inside a ((ties.mem_iff ranks).mp within)
        have later := ih (merged.length - 2 * width) (by omega)
          (Nat.mul_pos Nat.two_pos positive) inside' runs' rfl
        rw [length] at later
        exact (later.mono (fun _ here => here)
          (fun out s' known' => ⟨known'.1, known'.2.ordered, ties.trans known'.2.ties⟩)
          (fun _ _ thrown => thrown)) s here
      · rw [mergePasses, if_neg narrow]
        refine Triple.pure fun s here => ⟨here, .refl ?_⟩
        have run := runs 0
        rwa [Nat.zero_mul, List.drop_zero, List.take_of_length_le (by omega)] at run

theorem sink_sorts (ranks : Ranks le) {I : σ → Prop}
    (compares : Compares member (fun _ => I) (agrees le) (fun _ => X) compare) {a : α} {l : List α}
    (first : member a) (inside : ∀ b ∈ l, member b)
    : Triple I (sink compare a l)
        (fun out s => I s ∧ SameTies le (a :: l) (out.1 ++ [out.2])
          ∧ (∀ b ∈ out.1, le b out.2 = true) ∧ le a out.2 = true) X := by
  induction l generalizing a with
  | nil =>
      rw [sink]
      refine Triple.pure fun s here => ⟨here, .refl [a], fun b within => ?_, ranks.refl a⟩
      cases within
  | cons b l ih =>
      rw [sink]
      have second := inside b List.mem_cons_self
      have others : ∀ c ∈ l, member c := fun c within => inside c (List.mem_cons_of_mem b within)
      refine (compares a b 0 first second).bind fun cmp s known => ?_
      by_cases above : cmp > 0
      · rw [if_pos above]
        have strict : le a b = false :=
          Bool.eq_false_iff.mpr fun test => absurd (known.2.mpr test) (Int.not_le.mpr above)
        refine ((ih first others).bind fun sunk => Triple.pure fun s' known' => ?_) s known.1
        obtain ⟨here, ties, greatest, top⟩ := known'
        refine ⟨here, (sameTies_swap ranks strict).trans (ties.cons b), fun c within => ?_, top⟩
        rcases List.mem_cons.mp within with rfl | later
        · exact ranks.trans c a _ (ranks.flip strict) top
        · exact greatest c later
      · rw [if_neg above]
        have below : le a b = true := known.2.mp (Int.not_lt.mp above)
        refine ((ih second others).bind fun sunk => Triple.pure fun s' known' => ?_) s known.1
        obtain ⟨here, ties, greatest, top⟩ := known'
        have top' := ranks.trans a b _ below top
        refine ⟨here, ties.cons a, fun c within => ?_, top'⟩
        rcases List.mem_cons.mp within with rfl | later
        · exact top'
        · exact greatest c later

theorem sinkAll_sorts (ranks : Ranks le) {I : σ → Prop}
    (compares : Compares member (fun _ => I) (agrees le) (fun _ => X) compare) {l : List α}
    (inside : ∀ a ∈ l, member a)
    : Triple I (sinkAll compare l.length l)
        (fun out s => I s ∧ StablySorts le l out) X := by
  induction length : l.length generalizing l with
  | zero =>
      rw [List.eq_nil_of_length_eq_zero length, sinkAll]
      exact Triple.pure fun s here => ⟨here, .refl .nil⟩
  | succ k ih =>
      cases l with
      | nil => cases length
      | cons a l =>
          rw [List.length_cons, Nat.add_right_cancel_iff] at length
          rw [sinkAll]
          have first := inside a List.mem_cons_self
          have others : ∀ b ∈ l, member b := fun b within =>
            inside b (List.mem_cons_of_mem a within)
          have permutes := sink_perm compares (fun _ _ _ _ _ thrown => thrown) first others 0
          refine ((sink_sorts ranks compares first others).and permutes).bind
            fun sunk s known => ?_
          obtain ⟨⟨here, ties, greatest, -⟩, -, perm⟩ := known
          have shorter : sunk.1.length = k := by
            have lengths := perm.length_eq
            rw [List.length_append, List.length_cons, List.length_cons, List.length_nil]
              at lengths
            omega
          have later := ih (l := sunk.1)
            (fun b within => inside b (perm.mem_iff.mp (List.mem_append_left _ within))) shorter
          refine (later.bind fun sorted => Triple.pure fun s' known' => ⟨known'.1, ?_, ?_⟩) s here
          · refine List.pairwise_append.mpr
              ⟨known'.2.ordered, List.pairwise_singleton _ _, fun b within c last => ?_⟩
            rw [List.mem_singleton.mp last]
            exact greatest b ((known'.2.ties.mem_iff ranks).mp within)
          · exact ties.trans (known'.2.ties.append (.refl [sunk.2]))

end Boomkat.MergeSort
