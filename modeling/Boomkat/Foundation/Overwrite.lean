import Mathlib.Data.Set.Function
import Mathlib.Tactic.Common

/-! Functions changed at listed points, and agreement of two functions off a set. -/

namespace Boomkat.Foundation

variable {ι α : Type*} [DecidableEq ι]

/-- `f` after the assignments of `writes`, in order. -/
def overwrite (f : ι → α) (writes : List (ι × α)) : ι → α :=
  writes.foldl (fun f write => Function.update f write.1 write.2) f

@[simp] theorem overwrite_nil (f : ι → α) : overwrite f [] = f := rfl

@[simp] theorem overwrite_cons (f : ι → α) (i : ι) (x : α) (writes : List (ι × α))
    : overwrite f ((i, x) :: writes) = overwrite (Function.update f i x) writes := rfl

@[simp] theorem overwrite_append (f : ι → α) (writes writes' : List (ι × α))
    : overwrite f (writes ++ writes') = overwrite (overwrite f writes) writes' :=
  List.foldl_append

/-- A point that is not assigned keeps its value. -/
theorem overwrite_of_notMem {f : ι → α} {writes : List (ι × α)} {i : ι}
    (unwritten : i ∉ writes.map Prod.fst)
    : overwrite f writes i = f i := by
  induction writes generalizing f with
  | nil => rfl
  | cons write writes ih =>
      simp only [List.map_cons, List.mem_cons, not_or] at unwritten
      rw [overwrite_cons, ih unwritten.2, Function.update_of_ne unwritten.1]

/-- The value of an assigned point does not depend on the function before. -/
theorem overwrite_of_mem (f g : ι → α) {writes : List (ι × α)} {i : ι}
    (written : i ∈ writes.map Prod.fst)
    : overwrite f writes i = overwrite g writes i := by
  induction writes generalizing f g with
  | nil => simp at written
  | cons write writes ih =>
      by_cases later : i ∈ writes.map Prod.fst
      · exact ih _ _ later
      · have head : i = write.1 := by simpa [later] using written
        rw [overwrite_cons, overwrite_cons, overwrite_of_notMem later,
          overwrite_of_notMem later, head, Function.update_self, Function.update_self]

/-- Equal assignments repair agreement at the points they assign. -/
theorem overwrite_eqOn {f g : ι → α} {off : Set ι} (agree : Set.EqOn f g offᶜ)
    (writes : List (ι × α))
    : Set.EqOn (overwrite f writes) (overwrite g writes)
        {i | i ∈ off ∧ i ∉ writes.map Prod.fst}ᶜ := by
  intro i outside
  by_cases written : i ∈ writes.map Prod.fst
  · exact overwrite_of_mem f g written
  · have inside : i ∉ off := fun stale => outside ⟨stale, written⟩
    rw [overwrite_of_notMem written, overwrite_of_notMem written]
    exact agree inside

/-- Assignments on one side only cost agreement at the points they assign. -/
theorem eqOn_overwrite_left {f g : ι → α} {off : Set ι} (agree : Set.EqOn f g offᶜ)
    (writes : List (ι × α))
    : Set.EqOn (overwrite f writes) g {i | i ∈ off ∨ i ∈ writes.map Prod.fst}ᶜ := by
  intro i outside
  simp only [Set.mem_compl_iff, Set.mem_ofPred_eq, not_or] at outside
  rw [overwrite_of_notMem outside.2]
  exact agree outside.1

end Boomkat.Foundation
