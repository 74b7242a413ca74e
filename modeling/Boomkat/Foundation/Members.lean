import Mathlib.Data.List.Basic
import Mathlib.Tactic.Common

/-! Members with names: storing one after the other, and what is there in the end. -/

namespace Boomkat.Foundation

variable {κ α β γ : Type*} [DecidableEq κ] [DecidableEq β]

/-- Overwrite the value of a name where it is, or append the member. -/
def updateOrAppend : List (κ × α) → κ → α → List (κ × α)
  | [], name, value => [(name, value)]
  | member :: members, name, value =>
      if member.1 = name then (name, value) :: members
      else member :: updateOrAppend members name value

/-- The last value of a name, which a value precedes. -/
def lastValue (name : κ) (value : α) (members : List (κ × α)) : α :=
  members.foldl (fun value member => if member.1 = name then member.2 else value) value

/-- Every name where it comes first, with the value that comes last. -/
def lastWins : List (κ × α) → List (κ × α)
  | [] => []
  | (name, value) :: members =>
      (name, lastValue name value members) :: (lastWins members).filter fun member => member.1 ≠ name

theorem lastValue_filter {name other : κ} (apart : name ≠ other) (value : α)
    (members : List (κ × α))
    : lastValue name value (members.filter fun member => member.1 ≠ other)
      = lastValue name value members := by
  induction members generalizing value with
  | nil => rfl
  | cons member members ih =>
      by_cases here : member.1 = other
      · rw [List.filter_cons_of_neg (by simpa using here), ih]
        rw [lastValue, lastValue, List.foldl_cons, if_neg (by rw [here]; exact apart.symm)]
      · rw [List.filter_cons_of_pos (by simpa using here), lastValue, List.foldl_cons]
        exact ih _

theorem lastWins_filter (other : κ) (members : List (κ × α))
    : lastWins (members.filter fun member => member.1 ≠ other)
      = (lastWins members).filter fun member => member.1 ≠ other := by
  induction members with
  | nil => rfl
  | cons member members ih =>
      obtain ⟨name, value⟩ := member
      by_cases here : name = other
      · subst here
        rw [List.filter_cons_of_neg (by simp), ih, lastWins, List.filter_cons_of_neg (by simp),
          List.filter_filter]
        simp
      · rw [List.filter_cons_of_pos (by simpa using here), lastWins, lastWins, ih,
          lastValue_filter here, List.filter_cons_of_pos (by simpa using here), List.filter_filter,
          List.filter_filter]
        simp only [Bool.and_comm]

/-- Members behind one with a name. -/
theorem foldl_updateOrAppend_cons (name : κ) (value : α) (stored members : List (κ × α))
    : members.foldl (fun stored member => updateOrAppend stored member.1 member.2)
        ((name, value) :: stored)
      = (name, lastValue name value members)
        :: (members.filter fun member => member.1 ≠ name).foldl
          (fun stored member => updateOrAppend stored member.1 member.2) stored := by
  induction members generalizing value stored with
  | nil => rfl
  | cons member members ih =>
      rw [List.foldl_cons, updateOrAppend, lastValue, List.foldl_cons]
      by_cases here : member.1 = name
      · rw [if_pos here.symm, if_pos here, List.filter_cons_of_neg (by simpa using here), here, ih,
          lastValue]
      · rw [if_neg fun same => here same.symm, if_neg here,
          List.filter_cons_of_pos (by simpa using here), ih, lastValue, List.foldl_cons]

/-- Storing the members one after the other. -/
theorem foldl_updateOrAppend (members : List (κ × α))
    : members.foldl (fun stored member => updateOrAppend stored member.1 member.2) []
      = lastWins members := by
  obtain ⟨n, small⟩ : ∃ n, members.length ≤ n := ⟨_, Nat.le_refl _⟩
  induction n generalizing members with
  | zero =>
      rw [List.length_eq_zero_iff.mp (Nat.le_zero.mp small)]
      rfl
  | succ n ih =>
      cases members with
      | nil => rfl
      | cons member members =>
          rw [List.foldl_cons]
          refine (foldl_updateOrAppend_cons member.1 member.2 [] members).trans ?_
          have shorter := List.length_filter_le (fun member' => member'.1 ≠ member.1) members
          rw [List.length_cons] at small
          rw [ih _ (by omega), lastWins_filter, lastWins]

theorem name_of_lastWins {members : List (κ × α)} {member : κ × α}
    (inside : member ∈ lastWins members) : ∃ value, (member.1, value) ∈ members := by
  induction members with
  | nil => cases inside
  | cons first members ih =>
      obtain ⟨name, value⟩ := first
      rw [lastWins, List.mem_cons] at inside
      rcases inside with rfl | later
      · exact ⟨value, List.mem_cons_self⟩
      · obtain ⟨value', there⟩ := ih (List.mem_of_mem_filter later)
        exact ⟨value', List.mem_cons_of_mem _ there⟩

theorem lastValue_mem (name : κ) (value : α) (members : List (κ × α))
    : lastValue name value members = value
      ∨ (name, lastValue name value members) ∈ members := by
  induction members generalizing value with
  | nil => exact .inl rfl
  | cons member members ih =>
      rw [lastValue, List.foldl_cons]
      rcases ih (if member.1 = name then member.2 else value) with kept | later
      · change (List.foldl _ _ members) = _ at kept
        rw [kept]
        split
        · rename_i same
          exact .inr (by rw [← same]; exact List.mem_cons_self)
        · exact .inl rfl
      · exact .inr (List.mem_cons_of_mem _ later)

/-- What is there in the end was among the members. -/
theorem mem_of_lastWins {members : List (κ × α)} {member : κ × α}
    (inside : member ∈ lastWins members) : member ∈ members := by
  induction members with
  | nil => cases inside
  | cons first members ih =>
      rw [lastWins, List.mem_cons] at inside
      rcases inside with is | later
      · rw [is]
        rcases lastValue_mem first.1 first.2 members with kept | there
        · rw [kept]
          exact List.mem_cons_self
        · exact List.mem_cons_of_mem _ there
      · exact List.mem_cons_of_mem _ (ih (List.mem_of_mem_filter later))

theorem lastValue_map {f : κ → β} (g : α → γ) {name : κ} (value : α) {members : List (κ × α)}
    (injective : ∀ member ∈ members, f member.1 = f name → member.1 = name)
    : lastValue (f name) (g value) (members.map fun member => (f member.1, g member.2))
      = g (lastValue name value members) := by
  induction members generalizing value with
  | nil => rfl
  | cons member members ih =>
      have rest := ih (if member.1 = name then member.2 else value)
        fun other inside => injective other (List.mem_cons_of_mem _ inside)
      have same : f member.1 = f name ↔ member.1 = name :=
        ⟨injective member List.mem_cons_self, congrArg f⟩
      rw [List.map_cons, lastValue, List.foldl_cons, lastValue, List.foldl_cons]
      simp only [same, ← apply_ite g]
      exact rest

/-- Other names and values in the place of the members' own. -/
theorem lastWins_map {f : κ → β} (g : α → γ) {members : List (κ × α)}
    (injective : ∀ a ∈ members, ∀ b ∈ members, f a.1 = f b.1 → a.1 = b.1)
    : lastWins (members.map fun member => (f member.1, g member.2))
      = (lastWins members).map fun member => (f member.1, g member.2) := by
  induction members with
  | nil => rfl
  | cons member members ih =>
      obtain ⟨name, value⟩ := member
      have rest := ih fun a left b right =>
        injective a (List.mem_cons_of_mem _ left) b (List.mem_cons_of_mem _ right)
      rw [List.map_cons, lastWins, lastWins, List.map_cons, rest, List.filter_map,
        lastValue_map g value fun other inside =>
          injective other (List.mem_cons_of_mem _ inside) _ List.mem_cons_self]
      congr 2
      refine List.filter_congr fun other inside => ?_
      obtain ⟨value', there⟩ := name_of_lastWins inside
      have same : f other.1 = f name ↔ other.1 = name :=
        ⟨injective _ (List.mem_cons_of_mem _ there) _ List.mem_cons_self, congrArg f⟩
      simp [same]

end Boomkat.Foundation
