import Mathlib.Data.Finset.Card
import Mathlib.Logic.Function.Basic
import Mathlib.Logic.Relation
import Mathlib.Tactic.Common

/-! Tracing a graph: nodes are marked from some of them on, with a stack of the marked nodes whose
successors are still to be marked. Leaves are marked without being stacked.
-/

namespace Boomkat.Tracing

variable {α : Type*} {successors : α → List α} {isLeaf : α → Bool} {roots busy : α → Prop} {a b : α}

/-- A path leads from a root to the node. -/
def Accessible (successors : α → List α) (roots : α → Prop) (a : α) : Prop :=
  ∃ root, roots root ∧ Relation.ReflTransGen (fun a b => b ∈ successors a) root a

theorem Accessible.root (isRoot : roots a) : Accessible successors roots a := ⟨a, isRoot, .refl⟩

theorem Accessible.step (reached : Accessible successors roots a) (edge : b ∈ successors a)
    : Accessible successors roots b := by
  obtain ⟨root, isRoot, path⟩ := reached
  exact ⟨root, isRoot, path.tail edge⟩

/-- A set that has the roots, and the successors of what it has, has all that is reached. -/
theorem Accessible.induct {P : α → Prop} (base : ∀ a, roots a → P a)
    (closed : ∀ a, P a → ∀ b ∈ successors a, P b) (reached : Accessible successors roots a) : P a := by
  obtain ⟨root, isRoot, path⟩ := reached
  induction path with
  | refl => exact base root isRoot
  | tail _ edge ih => exact closed _ ih _ edge

-----------------------------------------------------------------------------------------
-- Marking
-----------------------------------------------------------------------------------------

variable [DecidableEq α]

/-- The marks of the nodes, and the stack. -/
structure Marking (α : Type*) where
  marked : α → Bool
  gray : List α

variable {m : Marking α}

def Marking.mark (isLeaf : α → Bool) (m : Marking α) (a : α) : Marking α :=
  if isLeaf a then { m with marked := Function.update m.marked a true }
  else if m.marked a then m
  else { marked := Function.update m.marked a true, gray := a :: m.gray }

def Marking.markAll (isLeaf : α → Bool) (m : Marking α) (nodes : List α) : Marking α :=
  nodes.foldl (Marking.mark isLeaf) m

/-- The successors of the node on top of the stack are marked. -/
def Marking.scan (successors : α → List α) (isLeaf : α → Bool) (m : Marking α) : Marking α :=
  match m.gray with
  | [] => m
  | a :: gray => Marking.markAll isLeaf { m with gray := gray } (successors a)

def Marking.drain (successors : α → List α) (isLeaf : α → Bool) : Nat → Marking α → Marking α
  | 0, m => m
  | fuel + 1, m => Marking.drain successors isLeaf fuel (m.scan successors isLeaf)

theorem Marking.mark_self (m : Marking α) (a : α) : (m.mark isLeaf a).marked a = true := by
  rw [Marking.mark]
  split
  · exact Function.update_self ..
  split
  · assumption
  · exact Function.update_self ..

theorem Marking.mark_marked_of_ne (m : Marking α) (other : b ≠ a)
    : (m.mark isLeaf a).marked b = m.marked b := by
  rw [Marking.mark]
  split
  · exact Function.update_of_ne other ..
  split
  · rfl
  · exact Function.update_of_ne other ..

theorem Marking.mark_keeps (a : α) (marked : m.marked b = true)
    : (m.mark isLeaf a).marked b = true := by
  by_cases same : b = a
  · rw [same, m.mark_self a]
  · rw [m.mark_marked_of_ne same]
    exact marked

/-- Only an unmarked node is stacked. -/
theorem Marking.mem_mark_gray (a : α)
    : b ∈ (m.mark isLeaf a).gray
      ↔ b ∈ m.gray ∨ b = a ∧ isLeaf a = false ∧ m.marked a = false := by
  rw [Marking.mark]
  split
  · rename_i leaf
    simp [leaf]
  split
  · rename_i marked
    simp [marked]
  · rename_i inner unmarked
    simp only [List.mem_cons, Bool.eq_false_iff.mpr inner, Bool.eq_false_iff.mpr unmarked, and_self,
      and_true]
    exact or_comm

theorem Marking.markAll_keeps (nodes : List α) (marked : m.marked b = true)
    : (m.markAll isLeaf nodes).marked b = true := by
  induction nodes generalizing m with
  | nil => exact marked
  | cons a nodes ih => exact ih (Marking.mark_keeps a marked)

theorem Marking.markAll_marks {nodes : List α} (member : b ∈ nodes)
    : (m.markAll isLeaf nodes).marked b = true := by
  induction nodes generalizing m with
  | nil => cases member
  | cons a nodes ih =>
      rcases List.mem_cons.mp member with same | member
      · exact Marking.markAll_keeps nodes (by rw [same, m.mark_self a])
      · exact ih member

theorem Marking.drain_keeps (fuel : Nat) (marked : m.marked b = true)
    : (m.drain successors isLeaf fuel).marked b = true := by
  induction fuel generalizing m with
  | zero => exact marked
  | succ fuel ih =>
      refine ih ?_
      rw [Marking.scan]
      split
      · exact marked
      · exact Marking.markAll_keeps _ marked

-----------------------------------------------------------------------------------------
-- The invariant
-----------------------------------------------------------------------------------------

/-- Marked nodes are reached, and the successors of those that are not stacked are marked. The
nodes that are being scanned are left out.
-/
structure Traced (successors : α → List α) (isLeaf : α → Bool) (roots busy : α → Prop)
    (m : Marking α) : Prop where
  sound : ∀ a, m.marked a = true → Accessible successors roots a
  stacked : ∀ a ∈ m.gray, m.marked a = true ∧ isLeaf a = false
  nodup : m.gray.Nodup
  closed
    : ∀ a, m.marked a = true → isLeaf a = false → a ∉ m.gray → ¬busy a
        → ∀ b ∈ successors a, m.marked b = true

theorem Traced.mark (traced : Traced successors isLeaf roots busy m)
    (reached : Accessible successors roots a)
    : Traced successors isLeaf roots busy (m.mark isLeaf a) where
  sound b marked := by
    by_cases same : b = a
    · exact same ▸ reached
    · rw [m.mark_marked_of_ne same] at marked
      exact traced.sound b marked
  stacked b member := by
    rcases (Marking.mem_mark_gray a).mp member with old | ⟨rfl, inner, -⟩
    · exact (traced.stacked b old).imp_left (Marking.mark_keeps a)
    · exact ⟨m.mark_self b, inner⟩
  nodup := by
    rw [Marking.mark]
    split
    · exact traced.nodup
    split
    · exact traced.nodup
    · rename_i unmarked
      exact List.nodup_cons.mpr ⟨fun old => unmarked (traced.stacked a old).1, traced.nodup⟩
  closed b marked inner unstacked idle c edge := by
    rw [Marking.mem_mark_gray, not_or] at unstacked
    refine Marking.mark_keeps a (traced.closed b ?_ inner unstacked.1 idle c edge)
    by_cases same : b = a
    · subst same
      have old := mt (fun unmarked => ⟨rfl, inner, unmarked⟩) unstacked.2
      exact Bool.of_not_eq_false old
    · rwa [m.mark_marked_of_ne same] at marked

theorem Traced.markAll {nodes : List α} (traced : Traced successors isLeaf roots busy m)
    (reached : ∀ a ∈ nodes, Accessible successors roots a)
    : Traced successors isLeaf roots busy (m.markAll isLeaf nodes) := by
  induction nodes generalizing m with
  | nil => exact traced
  | cons a nodes ih =>
      exact ih (traced.mark (reached a List.mem_cons_self))
        fun b member => reached b (List.mem_cons_of_mem _ member)

/-- A node that is scanned leaves the stack when its successors are marked. -/
theorem Traced.scan (traced : Traced successors isLeaf roots (fun _ => False) m)
    : Traced successors isLeaf roots (fun _ => False) (m.scan successors isLeaf) := by
  rw [Marking.scan]
  split
  · exact traced
  · rename_i a gray stack
    have onTop : a ∈ m.gray := by rw [stack]; exact List.mem_cons_self
    have popped : Traced successors isLeaf roots (· = a) { m with gray := gray } := {
      sound := traced.sound
      stacked := fun b member => traced.stacked b (by rw [stack]; exact List.mem_cons_of_mem _ member)
      nodup := by
        have nodup := traced.nodup
        rw [stack] at nodup
        exact (List.nodup_cons.mp nodup).2
      closed := fun b marked inner unstacked idle => by
        refine traced.closed b marked inner ?_ not_false
        rw [stack, List.mem_cons, not_or]
        exact ⟨idle, unstacked⟩ }
    have reached : ∀ b ∈ successors a, Accessible successors roots b := fun b edge =>
      (traced.sound a (traced.stacked a onTop).1).step edge
    have scanned := popped.markAll reached
    refine { scanned with closed := fun b marked inner unstacked _ c edge => ?_ }
    by_cases same : b = a
    · exact Marking.markAll_marks (same ▸ edge)
    · exact scanned.closed b marked inner unstacked same c edge

theorem Traced.drain (fuel : Nat) (traced : Traced successors isLeaf roots (fun _ => False) m)
    : Traced successors isLeaf roots (fun _ => False) (m.drain successors isLeaf fuel) := by
  induction fuel generalizing m with
  | zero => exact traced
  | succ fuel ih => exact ih traced.scan

-----------------------------------------------------------------------------------------
-- The stack runs empty
-----------------------------------------------------------------------------------------

/-- A node whose successors have been marked stays so. -/
theorem Marking.scanned_markAll {nodes : List α} (scanned : m.marked b = true ∧ b ∉ m.gray)
    : (m.markAll isLeaf nodes).marked b = true ∧ b ∉ (m.markAll isLeaf nodes).gray := by
  induction nodes generalizing m with
  | nil => exact scanned
  | cons a nodes ih =>
      refine ih ⟨Marking.mark_keeps a scanned.1, ?_⟩
      rw [Marking.mem_mark_gray, not_or]
      refine ⟨scanned.2, fun ⟨same, _, unmarked⟩ => ?_⟩
      rw [← same, scanned.1] at unmarked
      cases unmarked

/-- The nodes of a set that have not been scanned. -/
def Marking.unscanned (m : Marking α) (within : Finset α) : Finset α :=
  within.filter fun a => ¬(m.marked a = true ∧ a ∉ m.gray)

theorem Traced.scan_fewer {within : Finset α} {gray : List α}
    (traced : Traced successors isLeaf roots busy m) (stack : m.gray = a :: gray)
    (inside : a ∈ within)
    : ((m.scan successors isLeaf).unscanned within).card < (m.unscanned within).card := by
  have onTop : a ∈ m.gray := by rw [stack]; exact List.mem_cons_self
  have nodup := traced.nodup
  rw [stack] at nodup
  have scan : m.scan successors isLeaf
      = Marking.markAll isLeaf { m with gray := gray } (successors a) := by
    rw [Marking.scan, stack]
  have popped : m.marked a = true ∧ a ∉ gray :=
    ⟨(traced.stacked a onTop).1, (List.nodup_cons.mp nodup).1⟩
  refine Finset.card_lt_card (Finset.ssubset_iff_of_subset ?_ |>.mpr ⟨a, ?_, ?_⟩)
  · intro b member
    rw [Marking.unscanned, Finset.mem_filter] at member ⊢
    refine ⟨member.1, fun ⟨marked, unstacked⟩ => member.2 ?_⟩
    rw [scan]
    refine Marking.scanned_markAll ⟨marked, fun old => unstacked ?_⟩
    rw [stack]
    exact List.mem_cons_of_mem _ old
  · exact Finset.mem_filter.mpr ⟨inside, fun scanned => scanned.2 onTop⟩
  · rw [Marking.unscanned, Finset.mem_filter, scan]
    exact fun member => member.2 (Marking.scanned_markAll popped)

theorem Marking.drain_empty (fuel : Nat) (empty : m.gray = [])
    : m.drain successors isLeaf fuel = m := by
  induction fuel with
  | zero => rfl
  | succ fuel ih =>
      have scan : m.scan successors isLeaf = m := by rw [Marking.scan, empty]
      rw [Marking.drain, scan, ih]

/-- As many turns as there are nodes in reach empty the stack. -/
theorem Traced.drain_gray {within : Finset α} {fuel : Nat}
    (traced : Traced successors isLeaf roots (fun _ => False) m)
    (inside : ∀ a, Accessible successors roots a → isLeaf a = false → a ∈ within)
    (enough : (m.unscanned within).card ≤ fuel)
    : (m.drain successors isLeaf fuel).gray = [] := by
  have stacked : ∀ {m : Marking α} {a gray}, Traced successors isLeaf roots (fun _ => False) m
      → m.gray = a :: gray → a ∈ within := fun {m a gray} traced stack => by
    have onTop := traced.stacked a (by rw [stack]; exact List.mem_cons_self)
    exact inside a (traced.sound a onTop.1) onTop.2
  induction fuel generalizing m with
  | zero =>
      cases stack : m.gray with
      | nil => exact stack
      | cons a gray =>
          have none : m.unscanned within = ∅ := Finset.card_eq_zero.mp (Nat.le_zero.mp enough)
          have unscanned : a ∈ m.unscanned within := by
            refine Finset.mem_filter.mpr ⟨stacked traced stack, fun scanned => scanned.2 ?_⟩
            rw [stack]
            exact List.mem_cons_self
          rw [none] at unscanned
          exact absurd unscanned (Finset.notMem_empty a)
  | succ fuel ih =>
      cases stack : m.gray with
      | nil => rw [Marking.drain_empty _ stack, stack]
      | cons a gray =>
          have fewer := traced.scan_fewer stack (stacked traced stack)
          exact ih traced.scan (by omega)

omit [DecidableEq α] in
/-- When the stack has run empty exactly what is reached from the roots is marked. -/
theorem Traced.marked_iff (traced : Traced successors isLeaf roots (fun _ => False) m)
    (leaves : ∀ a, isLeaf a = true → successors a = []) (marks : ∀ a, roots a → m.marked a = true)
    (empty : m.gray = []) : m.marked a = true ↔ Accessible successors roots a := by
  refine ⟨traced.sound a, fun reached =>
    Accessible.induct (P := fun a => m.marked a = true) marks (fun b marked c edge => ?_) reached⟩
  cases inner : isLeaf b with
  | true =>
      rw [leaves b inner] at edge
      cases edge
  | false =>
      exact traced.closed b marked inner (by rw [empty]; exact List.not_mem_nil) not_false c edge

end Boomkat.Tracing
