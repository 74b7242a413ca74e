import Mathlib.Order.Compare
import Mathlib.Tactic.Common

/-! The lexicographic order of lists under an encoding: where the encodings of two letters differ at
a first position that both have, encoded words are in the order of the words.
-/

namespace Boomkat.Foundation

variable {α β : Type*} [Ord α] [Std.LawfulEqOrd α] [Std.OrientedOrd α] [Ord β]

/-- The order as a number. -/
def orderSign : Ordering → Int
  | .lt => -1
  | .eq => 0
  | .gt => 1

/-- There is a first position at which the lists differ, and there the left one is below. -/
def Separated (xs ys : List β) : Prop :=
  ∃ shared x y xs' ys', xs = shared ++ x :: xs' ∧ ys = shared ++ y :: ys' ∧ compare x y = .lt

theorem separated_here {x y : β} (below : compare x y = .lt) (xs ys : List β)
    : Separated (x :: xs) (y :: ys) :=
  ⟨[], x, y, xs, ys, rfl, rfl, below⟩

theorem Separated.cons {xs ys : List β} (x : β) (separated : Separated xs ys)
    : Separated (x :: xs) (x :: ys) := by
  obtain ⟨shared, y, z, left, right, rfl, rfl, below⟩ := separated
  exact ⟨x :: shared, y, z, left, right, rfl, rfl, below⟩

theorem compare_prefix [Std.ReflOrd β] (shared xs ys : List β)
    : compare (shared ++ xs) (shared ++ ys) = compare xs ys := by
  induction shared with
  | nil => rfl
  | cons x shared ih =>
      rw [List.cons_append, List.cons_append, List.compare_cons_cons, ih, Std.ReflOrd.compare_self]
      rfl

theorem Separated.compare_lt [Std.ReflOrd β] {xs ys : List β} (separated : Separated xs ys)
    (xs' ys' : List β)
    : compare (xs ++ xs') (ys ++ ys') = .lt := by
  obtain ⟨shared, x, y, left, right, rfl, rfl, below⟩ := separated
  rw [List.append_assoc, List.append_assoc, compare_prefix, List.cons_append, List.cons_append,
    List.compare_cons_cons, below]
  rfl

theorem Separated.compare_gt [Std.OrientedOrd β] {xs ys : List β} (separated : Separated xs ys)
    (xs' ys' : List β)
    : compare (ys ++ ys') (xs ++ xs') = .gt := by
  rw [Std.OrientedOrd.eq_swap, separated.compare_lt xs' ys']
  rfl

/-- Encoded words are in the order of the words. -/
theorem compare_flatMap [Std.OrientedOrd β] {encode : α → List β} {as bs : List α}
    (nonempty : ∀ a, encode a ≠ [])
    (separates : ∀ a ∈ as ++ bs, ∀ b ∈ as ++ bs, compare a b = .lt →
      Separated (encode a) (encode b))
    : compare (as.flatMap encode) (bs.flatMap encode) = compare as bs := by
  induction as generalizing bs with
  | nil =>
      cases bs with
      | nil => rfl
      | cons b bs =>
          obtain ⟨y, ys, is⟩ := List.exists_cons_of_ne_nil (nonempty b)
          rw [List.flatMap_cons, is]
          rfl
  | cons a as ih =>
      cases bs with
      | nil =>
          obtain ⟨x, xs, is⟩ := List.exists_cons_of_ne_nil (nonempty a)
          rw [List.flatMap_cons, is]
          rfl
      | cons b bs =>
          have left : a ∈ a :: as ++ b :: bs := by simp
          have right : b ∈ a :: as ++ b :: bs := by simp
          rw [List.flatMap_cons, List.flatMap_cons, List.compare_cons_cons]
          cases order : compare a b with
          | lt => exact (separates a left b right order).compare_lt _ _
          | gt =>
              have below : compare b a = .lt := by
                rw [Std.OrientedOrd.eq_swap, order]
                rfl
              exact (separates b right a left below).compare_gt _ _
          | eq =>
              rw [Std.LawfulEqOrd.eq_of_compare order, compare_prefix]
              refine ih fun a' left' b' right' => separates a' ?_ b' ?_
              · simp only [List.mem_append, List.mem_cons] at left' ⊢
                tauto
              · simp only [List.mem_append, List.mem_cons] at right' ⊢
                tauto

end Boomkat.Foundation
