import Mathlib.Logic.Relation

/-! What holds of a node of a graph and of each node that can be reached from it. -/

namespace Boomkat.Foundation

open Relation

variable {α : Type*}

/-- The property holds of the node and of every node that can be reached from it. -/
def Throughout (edge : α → α → Prop) (P : α → Prop) (a : α) : Prop :=
  ∀ b, ReflTransGen edge a b → P b

variable {edge edge' : α → α → Prop} {P P' Q : α → Prop} {a b : α}

theorem Throughout.self (throughout : Throughout edge P a) : P a := throughout a .refl

theorem Throughout.next (throughout : Throughout edge P a) (linked : edge a b)
    : Throughout edge P b :=
  fun c reached => throughout c (.head linked reached)

theorem Throughout.mono (throughout : Throughout edge P a) (implied : ∀ b, P b → P' b)
    : Throughout edge P' a :=
  fun b reached => implied b (throughout b reached)

/-- A set of nodes that no edge leaves, by induction over the path. -/
theorem Throughout.of_closed (closed : ∀ b, Q b → P b ∧ ∀ c, edge b c → Q c) (start : Q a)
    : Throughout edge P a := by
  intro b reached
  have kept : Q b := by
    induction reached with
    | refl => exact start
    | tail _ linked ih => exact (closed _ ih).2 _ linked
  exact (closed b kept).1

/-- The same property holds throughout the same graph. -/
theorem throughout_congr (edges : ∀ a b, edge a b ↔ edge' a b) (same : ∀ b, P b ↔ P' b)
    : Throughout edge P a ↔ Throughout edge' P' a := by
  obtain rfl : edge = edge' := funext₂ fun a b => propext (edges a b)
  exact ⟨fun throughout => throughout.mono fun b => (same b).mp,
    fun throughout => throughout.mono fun b => (same b).mpr⟩

-----------------------------------------------------------------------------------------
-- Finite graphs
-----------------------------------------------------------------------------------------

section Decision

variable [DecidableEq α] {next : α → List α} {nodes all : List α} {n : Nat}

/-- The nodes that no edge leads out from. -/
def staying (next : α → List α) (nodes : List α) : List α :=
  nodes.filter fun a => decide (∀ b ∈ next a, b ∈ nodes)

/-- Nodes are dropped that an edge leads out from, for a number of rounds. -/
def prune (next : α → List α) : Nat → List α → List α
  | 0, nodes => nodes
  | n + 1, nodes => prune next n (staying next nodes)

theorem mem_staying : a ∈ staying next nodes ↔ a ∈ nodes ∧ ∀ b ∈ next a, b ∈ nodes := by
  rw [staying, List.mem_filter, decide_eq_true_iff]

theorem prune_subset (member : a ∈ prune next n nodes) : a ∈ nodes := by
  induction n generalizing nodes with
  | zero => exact member
  | succ n ih => exact (mem_staying.mp (ih member)).1

theorem prune_fixed (fixed : staying next nodes = nodes) : prune next n nodes = nodes := by
  induction n with
  | zero => rfl
  | succ n ih => rw [prune, fixed, ih]

/-- No edge leads out after as many rounds as there are nodes: a round that drops none changes nothing
any more.
-/
theorem prune_closed (rounds : nodes.length ≤ n) (member : a ∈ prune next n nodes)
    (linked : b ∈ next a)
    : b ∈ prune next n nodes := by
  induction n generalizing nodes with
  | zero =>
      rw [List.length_eq_zero_iff.mp (Nat.le_zero.mp rounds)] at member
      cases member
  | succ n ih =>
      by_cases fixed : staying next nodes = nodes
      · rw [prune_fixed fixed] at member ⊢
        rw [← fixed] at member
        exact (mem_staying.mp member).2 b linked
      · have shorter : (staying next nodes).length < nodes.length :=
          Nat.lt_of_le_of_ne (List.length_filter_le _ _) fun same =>
            fixed (List.filter_eq_self.mpr (List.length_filter_eq_length_iff.mp same))
        exact ih (Nat.le_of_lt_succ (Nat.lt_of_lt_of_le shorter rounds)) member

/-- Nodes stay from which only nodes of the list can be reached. -/
theorem mem_prune (edges : ∀ a b, edge a b ↔ b ∈ next a) (throughout : Throughout edge (· ∈ nodes) a)
    : a ∈ prune next n nodes := by
  induction n generalizing nodes with
  | zero => exact throughout.self
  | succ n ih =>
      refine ih fun b reached => mem_staying.mpr ⟨throughout b reached, fun c linked => ?_⟩
      exact throughout c (reached.tail ((edges b c).mpr linked))

theorem throughout_iff_prune [DecidablePred P] (edges : ∀ a b, edge a b ↔ b ∈ next a)
    (inside : a ∈ all) (leads : ∀ a b, edge a b → b ∈ all)
    : Throughout edge P a ↔ a ∈ prune next all.length (all.filter P) := by
  constructor
  · refine fun throughout => mem_prune edges fun b reached => ?_
    refine List.mem_filter.mpr ⟨?_, decide_eq_true (throughout b reached)⟩
    cases reached with
    | refl => exact inside
    | tail _ linked => exact leads _ b linked
  · refine fun member => Throughout.of_closed (fun b kept => ⟨?_, fun c linked => ?_⟩) member
    · exact of_decide_eq_true (List.mem_filter.mp (prune_subset kept)).2
    · exact prune_closed (List.length_filter_le _ _) kept ((edges b c).mp linked)

/-- Whether something holds throughout a finite graph can be decided. -/
def Throughout.decidable [DecidablePred P] (all : List α) (edges : ∀ a b, edge a b ↔ b ∈ next a)
    (inside : a ∈ all) (leads : ∀ a b, edge a b → b ∈ all)
    : Decidable (Throughout edge P a) :=
  decidable_of_iff _ (throughout_iff_prune edges inside leads).symm

end Decision

end Boomkat.Foundation
