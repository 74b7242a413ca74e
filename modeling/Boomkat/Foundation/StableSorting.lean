import Mathlib.Tactic.Common

/-! Stable sorting of lists by an order test that may tie distinct values. The stable sort of a list
is unique, so algorithms that sort stably agree.
-/

namespace Boomkat.StableSorting

variable {α : Type*} {le : α → α → Bool} {a b c : α} {l l' r r' left right : List α}

/-- The test is total and transitive. -/
structure Ranks (le : α → α → Bool) : Prop where
  total : ∀ a b, le a b = true ∨ le b a = true
  trans : ∀ a b c, le a b = true → le b c = true → le a c = true

/-- Neither value is strictly before the other. -/
def tied (le : α → α → Bool) (a b : α) : Bool := le a b && le b a

def Ordered (le : α → α → Bool) (l : List α) : Prop := l.Pairwise fun a b => le a b = true

/-- The values that are tied with any one value are the same, in the same order. -/
def SameTies (le : α → α → Bool) (l r : List α) : Prop :=
  ∀ a, r.filter (tied le a) = l.filter (tied le a)

/-- The right list is the left one, stably sorted. -/
structure StablySorts (le : α → α → Bool) (l r : List α) : Prop where
  ordered : Ordered le r
  ties : SameTies le l r

theorem Ranks.refl (ranks : Ranks le) (a : α) : le a a = true := by
  rcases ranks.total a a with holds | holds <;> exact holds

theorem Ranks.flip (ranks : Ranks le) (above : le a b = false) : le b a = true := by
  rcases ranks.total a b with holds | holds
  · rw [above] at holds
    cases holds
  · exact holds

theorem Ranks.tied_self (ranks : Ranks le) (a : α) : tied le a a = true := by
  rw [tied, ranks.refl a]
  rfl

-----------------------------------------------------------------------------------------
-- Ties
-----------------------------------------------------------------------------------------

theorem SameTies.refl (l : List α) : SameTies le l l := fun _ => rfl

theorem SameTies.trans (first : SameTies le l r) (second : SameTies le r r') : SameTies le l r' :=
  fun a => (second a).trans (first a)

theorem SameTies.append (first : SameTies le l r) (second : SameTies le l' r')
    : SameTies le (l ++ l') (r ++ r') := by
  intro a
  rw [List.filter_append, List.filter_append, first a, second a]

theorem SameTies.cons (ties : SameTies le l r) (b : α) : SameTies le (b :: l) (b :: r) :=
  SameTies.append (.refl [b]) ties

theorem SameTies.mem_iff (ranks : Ranks le) (ties : SameTies le l r) : a ∈ r ↔ a ∈ l := by
  have tied := ranks.tied_self a
  constructor
  · intro member
    have filtered := List.mem_filter.mpr ⟨member, tied⟩
    rw [ties a] at filtered
    exact (List.mem_filter.mp filtered).1
  · intro member
    have filtered := List.mem_filter.mpr ⟨member, tied⟩
    rw [← ties a] at filtered
    exact (List.mem_filter.mp filtered).1

/-- A value that is strictly before all others may come before them. -/
theorem sameTies_middle (ranks : Ranks le) (before : ∀ a ∈ left, le a b = false)
    : SameTies le (left ++ b :: right) (b :: (left ++ right)) := by
  intro c
  rw [List.filter_append, List.filter_cons, List.filter_cons, List.filter_append]
  by_cases same : tied le c b = true
  · have none : left.filter (tied le c) = [] := by
      rw [List.filter_eq_nil_iff]
      intro a member tied
      simp only [StableSorting.tied, Bool.and_eq_true] at same tied
      have below := ranks.trans a c b tied.2 same.1
      rw [before a member] at below
      cases below
    rw [if_pos same, if_pos same, none, List.nil_append, List.nil_append]
  · rw [if_neg same, if_neg same]

/-- Two neighbours out of order may be swapped. -/
theorem sameTies_swap (ranks : Ranks le) (above : le a b = false)
    : SameTies le (a :: b :: l) (b :: a :: l) := by
  have before : ∀ c ∈ [a], le c b = false := by
    intro c member
    rw [List.mem_singleton.mp member]
    exact above
  exact sameTies_middle ranks before

-----------------------------------------------------------------------------------------
-- Merging
-----------------------------------------------------------------------------------------

theorem Ordered.head (ordered : Ordered le (a :: l)) : ∀ b ∈ l, le a b = true :=
  (List.pairwise_cons.mp ordered).1

theorem Ordered.tail (ordered : Ordered le (a :: l)) : Ordered le l :=
  (List.pairwise_cons.mp ordered).2

theorem StablySorts.refl (ordered : Ordered le l) : StablySorts le l l := ⟨ordered, .refl l⟩

/-- The merge goes on with the head of the left run where it is not above the right one's. -/
theorem StablySorts.cons_left (ranks : Ranks le) (leftOrdered : Ordered le (a :: left))
    (rightOrdered : Ordered le (b :: right)) (below : le a b = true)
    (rest : StablySorts le (left ++ b :: right) r)
    : StablySorts le (a :: left ++ b :: right) (a :: r) := by
  refine ⟨List.pairwise_cons.mpr ⟨fun c member => ?_, rest.ordered⟩, rest.ties.cons a⟩
  rcases List.mem_append.mp ((rest.ties.mem_iff ranks).mp member) with inLeft | inRight
  · exact leftOrdered.head c inLeft
  · rcases List.mem_cons.mp inRight with rfl | later
    · exact below
    · exact ranks.trans a b c below (rightOrdered.head c later)

/-- The merge goes on with the head of the right run where it is below the left one's, and then
below all of the left run.
-/
theorem StablySorts.cons_right (ranks : Ranks le) (leftOrdered : Ordered le (a :: left))
    (rightOrdered : Ordered le (b :: right)) (above : le a b = false)
    (rest : StablySorts le (a :: left ++ right) r)
    : StablySorts le (a :: left ++ b :: right) (b :: r) := by
  have below := ranks.flip above
  have first : ∀ c ∈ a :: left, le b c = true := by
    intro c member
    rcases List.mem_cons.mp member with rfl | later
    · exact below
    · exact ranks.trans b a c below (leftOrdered.head c later)
  have strict : ∀ c ∈ a :: left, le c b = false := by
    intro c member
    cases test : le c b with
    | false => rfl
    | true =>
        have reached : le a c = true := by
          rcases List.mem_cons.mp member with rfl | later
          · exact ranks.refl c
          · exact leftOrdered.head c later
        exact (ranks.trans a c b reached test).symm.trans above
  refine ⟨List.pairwise_cons.mpr ⟨fun c member => ?_, rest.ordered⟩,
    (sameTies_middle ranks strict).trans (rest.ties.cons b)⟩
  rcases List.mem_append.mp ((rest.ties.mem_iff ranks).mp member) with inLeft | inRight
  · exact first c inLeft
  · exact rightOrdered.head c inRight

-----------------------------------------------------------------------------------------
-- Uniqueness
-----------------------------------------------------------------------------------------

/-- The stable sort of a list is unique, by induction: the heads are tied, and each is the first of
the values tied with it.
-/
theorem ordered_unique (ranks : Ranks le) (ordered : Ordered le r) (ordered' : Ordered le r')
    (ties : SameTies le r r')
    : r' = r := by
  induction r generalizing r' with
  | nil =>
      cases r' with
      | nil => rfl
      | cons a r' => cases (ties.mem_iff ranks).mp List.mem_cons_self
  | cons a r ih =>
      cases r' with
      | nil => cases (ties.mem_iff ranks).mpr List.mem_cons_self
      | cons b r' =>
          have least : le a b = true := by
            rcases List.mem_cons.mp ((ties.mem_iff ranks).mp List.mem_cons_self) with rfl | later
            · exact ranks.refl b
            · exact ordered.head b later
          have least' : le b a = true := by
            rcases List.mem_cons.mp ((ties.mem_iff ranks).mpr List.mem_cons_self) with rfl | later
            · exact ranks.refl a
            · exact ordered'.head a later
          have tiedHeads : tied le a b = true := by
            rw [tied, least, least']
            rfl
          have firsts := ties a
          rw [List.filter_cons_of_pos tiedHeads, List.filter_cons_of_pos (ranks.tied_self a)]
            at firsts
          obtain ⟨rfl, -⟩ := List.cons.inj firsts
          congr 1
          apply ih ordered.tail ordered'.tail
          intro c
          have all := ties c
          rw [List.filter_cons, List.filter_cons] at all
          by_cases same : tied le c b = true
          · rw [if_pos same, if_pos same] at all
            exact (List.cons.inj all).2
          · rwa [if_neg same, if_neg same] at all

theorem StablySorts.unique (ranks : Ranks le) (sorts : StablySorts le l r)
    (sorts' : StablySorts le l r')
    : r' = r :=
  ordered_unique ranks sorts.ordered sorts'.ordered fun a =>
    (sorts'.ties a).trans (sorts.ties a).symm

end Boomkat.StableSorting
