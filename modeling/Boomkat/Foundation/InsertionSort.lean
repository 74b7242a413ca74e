import Boomkat.Foundation.MergeSort

/-! The insertion sort of a list with a comparator that is a program. The sorted run is held in
reverse, as it is searched from its end.
-/

namespace Boomkat.InsertionSort

open Programs StableSorting
open MergeSort (Compares ThrowsMonotone agrees)

variable {ε σ α : Type}

/-- The insertion of a value behind the values that do not compare above it. -/
def insertBehind (compare : α → α → EStateM ε σ Int) (key : α) : List α → EStateM ε σ (List α)
  | [] => pure [key]
  | a :: before => do
      let cmp ← compare a key
      if cmp ≤ 0 then pure (key :: a :: before)
      else do
        let rest ← insertBehind compare key before
        return a :: rest

/-- The insertion of one value after the other. -/
def insertAll (compare : α → α → EStateM ε σ Int) : List α → List α → EStateM ε σ (List α)
  | run, [] => pure run
  | run, key :: rest => do
      let longer ← insertBehind compare key run
      insertAll compare longer rest

variable {member : α → Prop} {after : Nat → σ → Prop} {result : α → α → Int → Prop}
  {threw : Nat → ε → σ → Prop} {X : ε → σ → Prop} {compare : α → α → EStateM ε σ Int}
  {le : α → α → Bool} {key : α} {run rest : List α}

-----------------------------------------------------------------------------------------
-- Any comparator
-----------------------------------------------------------------------------------------

theorem insertBehind_perm (compares : Compares member after result threw compare)
    (mono : MergeSort.Monotone after) (throwsMono : ThrowsMonotone threw) (inKey : member key)
    (inRun : ∀ a ∈ run, member a) (n : Nat)
    : Triple (after n) (insertBehind compare key run)
        (fun out s => after (n + run.length) s ∧ out.Perm (key :: run))
        (threw (n + run.length)) := by
  induction run generalizing n with
  | nil =>
      rw [insertBehind]
      exact Triple.pure fun s here => ⟨here, .refl _⟩
  | cons a run ih =>
      rw [insertBehind]
      have count : n + (a :: run).length = n + 1 + run.length := by
        rw [List.length_cons]
        omega
      rw [count]
      have here := compares.within throwsMono (inRun a List.mem_cons_self) inKey
        (show n < n + 1 + run.length by omega)
      refine here.bind fun cmp => ?_
      by_cases below : cmp ≤ 0
      · rw [if_pos below]
        exact Triple.pure fun s known => ⟨mono _ _ s (Nat.le_add_right _ _) known.1, .refl _⟩
      · rw [if_neg below]
        have later := ih (fun b inside => inRun b (List.mem_cons_of_mem a inside)) (n + 1)
        refine (later.before fun s known => known.1).bind fun rest =>
          Triple.pure fun s known => ⟨known.1, ?_⟩
        exact (known.2.cons a).trans (.swap key a run)

/-- The insertion into a run of `n` values makes at most `n` comparisons. -/
theorem insertAll_perm (compares : Compares member after result threw compare)
    (mono : MergeSort.Monotone after) (throwsMono : ThrowsMonotone threw)
    (inRun : ∀ a ∈ run, member a) (inRest : ∀ a ∈ rest, member a) (n : Nat)
    : Triple (after (n + run.length.choose 2)) (insertAll compare run rest)
        (fun out s => after (n + (run.length + rest.length).choose 2) s
          ∧ out.Perm (run ++ rest))
        (threw (n + (run.length + rest.length).choose 2)) := by
  induction rest generalizing run with
  | nil =>
      rw [insertAll, List.append_nil]
      exact Triple.pure fun s here => ⟨here, .refl _⟩
  | cons key rest ih =>
      rw [insertAll]
      have inKey := inRest key List.mem_cons_self
      have count : n + run.length.choose 2 + run.length = n + (run.length + 1).choose 2 := by
        rw [Nat.choose_succ_succ, Nat.choose_one_right, Nat.add_comm run.length, Nat.add_assoc]
      have fewer : n + (run.length + 1).choose 2
          ≤ n + (run.length + (key :: rest).length).choose 2 :=
        Nat.add_le_add_left (Nat.choose_le_choose 2 (Nat.add_le_add_left (Nat.succ_pos _) _)) n
      have first := (insertBehind_perm compares mono throwsMono inKey inRun _).throws
        fun e s => throwsMono _ _ e s (count ▸ fewer)
      refine first.bind fun longer s known => ?_
      have length : longer.length = run.length + 1 := known.2.length_eq
      have inLonger : ∀ a ∈ longer, member a := by
        intro a inside
        rcases List.mem_cons.mp (known.2.mem_iff.mp inside) with rfl | inside
        · exact inKey
        · exact inRun a inside
      have later := ih inLonger fun a inside => inRest a (List.mem_cons_of_mem key inside)
      have total : longer.length + rest.length = run.length + (key :: rest).length := by
        rw [length, List.length_cons]
        omega
      rw [total] at later
      rw [count, ← length] at known
      refine (later.mono (fun _ here => here) (fun out s' known' => ⟨known'.1, ?_⟩)
        (fun _ _ thrown => thrown)) s known.1
      exact known'.2.trans ((known.2.append_right rest).trans List.perm_middle.symm)

-----------------------------------------------------------------------------------------
-- Consistent comparators
-----------------------------------------------------------------------------------------

/-- A value that is not below those of an ordered run may stand at its end. -/
theorem ordered_snoc (ordered : Ordered le run) (greatest : ∀ a ∈ run, le a key = true)
    : Ordered le (run ++ [key]) := by
  refine List.pairwise_append.mpr ⟨ordered, List.pairwise_singleton _ _, fun a inside b last => ?_⟩
  rw [List.mem_singleton.mp last]
  exact greatest a inside

theorem insertBehind_sorts (ranks : Ranks le) {I : σ → Prop}
    (compares : Compares member (fun _ => I) (agrees le) (fun _ => X) compare) (inKey : member key)
    (inRun : ∀ a ∈ run, member a) (ordered : Ordered le run.reverse)
    : Triple I (insertBehind compare key run)
        (fun out s => I s ∧ StablySorts le (run.reverse ++ [key]) out.reverse) X := by
  induction run with
  | nil =>
      rw [insertBehind]
      exact Triple.pure fun s here => ⟨here, .refl (List.pairwise_singleton _ _)⟩
  | cons a run ih =>
      rw [insertBehind]
      rw [List.reverse_cons] at ordered ⊢
      obtain ⟨ordered', -, belowA⟩ := List.pairwise_append.mp ordered
      have greatest : ∀ b ∈ run.reverse, le b a = true := fun b inside =>
        belowA b inside a List.mem_cons_self
      refine (compares a key 0 (inRun a List.mem_cons_self) inKey).bind fun cmp s known => ?_
      by_cases below : cmp ≤ 0
      · rw [if_pos below]
        have test : le a key = true := known.2.mp below
        refine ⟨known.1, ?_⟩
        rw [List.reverse_cons, List.reverse_cons]
        refine .refl (ordered_snoc ordered fun b inside => ?_)
        rcases List.mem_append.mp inside with inside | last
        · exact ranks.trans b a key (greatest b inside) test
        · rw [List.mem_singleton.mp last]
          exact test
      · rw [if_neg below]
        have above : le a key = false := Bool.eq_false_iff.mpr fun test => below (known.2.mpr test)
        have later := ih (fun b inside => inRun b (List.mem_cons_of_mem a inside)) ordered'
        refine (later.bind fun out => Triple.pure fun s' known' => ⟨known'.1, ?_⟩) s known.1
        rw [List.reverse_cons]
        constructor
        · refine ordered_snoc known'.2.ordered fun b inside => ?_
          rcases List.mem_append.mp ((known'.2.ties.mem_iff ranks).mp inside) with inside | last
          · exact greatest b inside
          · rw [List.mem_singleton.mp last]
            exact ranks.flip above
        · -- The value of the run and the inserted one change places.
          rw [List.append_assoc]
          have swapped : SameTies le (run.reverse ++ ([a] ++ [key])) (run.reverse ++ [key, a]) :=
            (SameTies.refl run.reverse).append (sameTies_swap ranks above)
          refine swapped.trans ?_
          rw [List.append_cons]
          exact known'.2.ties.append (.refl [a])

theorem insertAll_sorts (ranks : Ranks le) {I : σ → Prop}
    (compares : Compares member (fun _ => I) (agrees le) (fun _ => X) compare)
    (inRun : ∀ a ∈ run, member a) (inRest : ∀ a ∈ rest, member a)
    (ordered : Ordered le run.reverse)
    : Triple I (insertAll compare run rest)
        (fun out s => I s ∧ StablySorts le (run.reverse ++ rest) out.reverse) X := by
  induction rest generalizing run with
  | nil =>
      rw [insertAll, List.append_nil]
      exact Triple.pure fun s here => ⟨here, .refl ordered⟩
  | cons key rest ih =>
      rw [insertAll]
      have inKey := inRest key List.mem_cons_self
      refine (insertBehind_sorts ranks compares inKey inRun ordered).bind fun longer s known => ?_
      obtain ⟨here, sorts⟩ := known
      have inLonger : ∀ a ∈ longer, member a := by
        intro a inside
        have old := (sorts.ties.mem_iff ranks).mp (List.mem_reverse.mpr inside)
        rcases List.mem_append.mp old with inside | last
        · exact inRun a (List.mem_reverse.mp inside)
        · rw [List.mem_singleton.mp last]
          exact inKey
      have later := ih inLonger (fun a inside => inRest a (List.mem_cons_of_mem key inside))
        sorts.ordered
      refine (later.mono (fun _ here => here)
        (fun out s' known' => ⟨known'.1, known'.2.ordered, ?_⟩) (fun _ _ thrown => thrown)) s here
      have inserted := sorts.ties.append (SameTies.refl rest)
      rw [List.append_assoc] at inserted
      exact inserted.trans known'.2.ties

end Boomkat.InsertionSort
