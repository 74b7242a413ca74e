import Mathlib.Data.List.Basic
import Mathlib.Tactic.Common

/-! Lists as sets up to a test for sameness: what loops that insert, remove and look up come to. -/

namespace Boomkat.Foundation

variable {α : Type*} (same : α → α → Bool)

/-- An element that is the same is in the list. -/
def Among (l : List α) (x : α) : Bool := l.any fun a => same a x

/-- No two elements are the same. -/
def Distinct (l : List α) : Prop := l.Pairwise fun a b => same a b = false

def insertNew (l : List α) (x : α) : List α := if Among same l x then l else l ++ [x]

/-- Without the elements that are the same. -/
def without (l : List α) (x : α) : List α := l.filter fun a => !same a x

variable {same} {l m : List α} {x : α}

theorem among_append : Among same (l ++ m) x = (Among same l x || Among same m x) := List.any_append

theorem among_filter_le {p : α → Bool} (absent : Among same l x = false)
    : Among same (l.filter p) x = false := by
  rw [Among, List.any_eq_false] at absent ⊢
  intro a member
  exact absent a (List.mem_of_mem_filter member)

theorem Distinct.not_among (distinct : Distinct same (l ++ x :: m)) : Among same l x = false := by
  rw [Among, List.any_eq_false]
  intro a member
  rw [(List.pairwise_append.mp distinct).2.2 a member x List.mem_cons_self]
  exact Bool.false_ne_true

/-- The insertions of a union, one after the other. -/
theorem foldl_insertNew (distinct : Distinct same m)
    : m.foldl (insertNew same) l = l ++ m.filter fun x => !Among same l x := by
  suffices further : ∀ done rest, m = done ++ rest →
      rest.foldl (insertNew same) (l ++ done.filter fun x => !Among same l x)
        = l ++ m.filter fun x => !Among same l x by
    simpa using further [] m rfl
  intro done rest
  induction rest generalizing done with
  | nil =>
      intro whole
      rw [whole, List.append_nil]
      rfl
  | cons x rest ih =>
      intro whole
      have fresh : Among same done x = false := (whole ▸ distinct).not_among
      have onward := ih (done ++ [x]) (by rw [whole, List.append_assoc]; rfl)
      rw [List.foldl_cons, insertNew, among_append, among_filter_le fresh, Bool.or_false]
      cases present : Among same l x with
      | true =>
          rw [List.filter_append, List.filter_cons_of_neg (by simp [present]), List.filter_nil,
            List.append_nil] at onward
          rw [if_pos rfl, onward]
      | false =>
          rw [List.filter_append, List.filter_cons_of_pos (by simp [present]), List.filter_nil]
            at onward
          rw [if_neg Bool.false_ne_true, List.append_assoc, onward]

/-- The removals of a difference, one after the other. -/
theorem foldl_without
    : m.foldl (without same) l = l.filter fun a => !m.any fun x => same a x := by
  induction m generalizing l with
  | nil => simp
  | cons x m ih =>
      rw [List.foldl_cons, ih, without, List.filter_filter]
      congr 1
      funext a
      rw [List.any_cons, Bool.not_or, Bool.and_comm]

/-- The insertions of an intersection. -/
theorem foldl_insertNew_if (distinct : Distinct same m) (p : α → Bool)
    : m.foldl (fun l x => if p x then insertNew same l x else l) [] = m.filter p := by
  suffices further : ∀ done rest, m = done ++ rest →
      rest.foldl (fun l x => if p x then insertNew same l x else l) (done.filter p)
        = m.filter p by
    simpa using further [] m rfl
  intro done rest
  induction rest generalizing done with
  | nil =>
      intro whole
      rw [whole, List.append_nil]
      rfl
  | cons x rest ih =>
      intro whole
      have fresh : Among same done x = false := (whole ▸ distinct).not_among
      have onward := ih (done ++ [x]) (by rw [whole, List.append_assoc]; rfl)
      rw [List.foldl_cons]
      cases kept : p x with
      | true =>
          rw [List.filter_append, List.filter_cons_of_pos kept, List.filter_nil] at onward
          rw [if_pos rfl, insertNew, among_filter_le fresh, if_neg Bool.false_ne_true, onward]
      | false =>
          rw [List.filter_append, List.filter_cons_of_neg (by simp [kept]), List.filter_nil,
            List.append_nil] at onward
          rw [if_neg Bool.false_ne_true, onward]

/-- The removals and insertions of a symmetric difference, by whether the first list has the
element.
-/
theorem foldl_toggle (distinct : Distinct same m)
    : m.foldl (fun acc x => if Among same l x then without same acc x else insertNew same acc x) l
      = (l.filter fun a => !m.any fun x => same a x) ++ m.filter fun x => !Among same l x := by
  suffices further : ∀ done rest, m = done ++ rest →
      rest.foldl (fun acc x => if Among same l x then without same acc x else insertNew same acc x)
          ((l.filter fun a => !done.any fun x => same a x) ++ done.filter fun x => !Among same l x)
        = (l.filter fun a => !m.any fun x => same a x) ++ m.filter fun x => !Among same l x by
    simpa using further [] m rfl
  intro done rest
  induction rest generalizing done with
  | nil =>
      intro whole
      rw [whole, List.append_nil]
      rfl
  | cons x rest ih =>
      intro whole
      have fresh : Among same done x = false := (whole ▸ distinct).not_among
      have onward := ih (done ++ [x]) (by rw [whole, List.append_assoc]; rfl)
      have later : (fun a => !(done ++ [x]).any fun y => same a y)
          = fun a => !same a x && !done.any fun y => same a y := by
        funext a
        rw [List.any_append, Bool.not_or, Bool.and_comm, List.any_cons, List.any_nil, Bool.or_false]
      rw [List.foldl_cons]
      cases present : Among same l x with
      | true =>
          have kept : without same (done.filter fun x => !Among same l x) x
              = done.filter fun x => !Among same l x := by
            refine List.filter_eq_self.mpr fun a member => ?_
            rw [Among, List.any_eq_false] at fresh
            simpa using fresh a (List.mem_of_mem_filter member)
          rw [List.filter_append, List.filter_cons_of_neg (by simp [present]), List.filter_nil,
            List.append_nil, later, ← List.filter_filter] at onward
          rw [if_pos rfl, without, List.filter_append, ← without, ← without, kept]
          exact onward
      | false =>
          have absent : ∀ a ∈ l, same a x = false := by
            rw [Among, List.any_eq_false] at present
            intro a member
            simpa using present a member
          have same' : (l.filter fun a => !(done ++ [x]).any fun y => same a y)
              = l.filter fun a => !done.any fun y => same a y := by
            refine List.filter_congr fun a member => ?_
            rw [congrFun later a, absent a member, Bool.not_false, Bool.true_and]
          rw [List.filter_append, List.filter_cons_of_pos (by simp [present]), List.filter_nil,
            same', ← List.append_assoc] at onward
          rw [if_neg Bool.false_ne_true, insertNew, among_append, among_filter_le present,
            among_filter_le fresh, Bool.or_false, if_neg Bool.false_ne_true, onward]

end Boomkat.Foundation
