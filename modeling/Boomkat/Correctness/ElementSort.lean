import Boomkat.Correctness.SortLoops
import Boomkat.Foundation.InsertionSort
import Boomkat.TypedArrays.Sort

/-! The sort of typed arrays. Whatever the comparator does, it ends with a permutation of the
elements; by default it is the stable sort in the numeric order, with -0 before 0 and the NaNs last.
-/

namespace Boomkat.Correctness

open InsertionSort Machine Programs StableSorting TypedArrays
open MergeSort (Compares)

variable {W : Type}

-----------------------------------------------------------------------------------------
-- Loops
-----------------------------------------------------------------------------------------

section Loops

variable {compare : Value → Value → EStateM Value W Int} {run rest back arr : List Value}
  {key gap : Value} {i j n : Nat}

/-- The loop shifts the values that compare above the key by one slot. -/
theorem shiftLoop_alike (split : arr = run.reverse ++ gap :: back) (here : j = run.length)
    : Alike (fun arr out => arr = out.reverse ++ back ∧ out.length = run.length + 1)
        (shiftLoop compare key j arr) (insertBehind compare key run) := by
  induction run generalizing arr gap back j with
  | nil =>
      rw [here, split, List.length_nil, shiftLoop, insertBehind]
      exact Alike.pure ⟨rfl, rfl⟩
  | cons a run ih =>
      have split' : arr = run.reverse ++ a :: gap :: back := by
        rw [split, List.reverse_cons, List.append_assoc]
        rfl
      have before : run.length = run.reverse.length := List.length_reverse.symm
      have first : arr.getD run.length .undefined = a := slot_behind split' before
      have filled (c : Value) : arr.set (run.length + 1) c = run.reverse ++ a :: c :: back := by
        rw [split', List.append_cons, length_snoc before a, set_append_cons, ← List.append_cons]
      rw [here, List.length_cons, shiftLoop, insertBehind]
      simp only [first]
      refine (Alike.refl (compare a key)).bind fun cmp cmp' same => ?_
      subst same
      by_cases below : cmp ≤ 0
      · rw [if_pos below, if_pos below]
        refine Alike.pure ⟨?_, rfl⟩
        rw [filled key, List.reverse_cons, List.reverse_cons, List.append_assoc, List.append_assoc]
        rfl
      · rw [if_neg below, if_neg below]
        refine Alike.map_right (ih (filled a) rfl) fun out shifted known => ⟨?_, ?_⟩
        · rw [known.1, List.reverse_cons, List.append_assoc]
          rfl
        · rw [List.length_cons, known.2]

theorem insertLoop_alike (split : arr = run.reverse ++ rest) (here : i = run.length)
    (ends : n = run.length + rest.length)
    : Alike (fun arr out => arr = out.reverse) (insertLoop compare n arr i)
        (insertAll compare run rest) := by
  induction rest generalizing arr run i with
  | nil =>
      rw [insertLoop, if_neg (by rw [here, ends]; exact Nat.lt_irrefl _), insertAll]
      rw [List.append_nil] at split
      exact Alike.pure split
  | cons key rest ih =>
      rw [List.length_cons] at ends
      have keyHere : arr.getD i .undefined = key :=
        slot_behind split (here.trans List.length_reverse.symm)
      rw [insertLoop, if_pos (by omega), insertAll, keyHere]
      refine (shiftLoop_alike split here).bind fun arr' longer known => ?_
      exact ih known.1 (by omega) (by omega)

/-- The insertion sort on the buffer is the one on lists. -/
theorem taInsertionSort_alike (compare : Value → Value → EStateM Value W Int) (arr : List Value)
    : Alike (fun sorted out => sorted = out.reverse) (taInsertionSort compare arr)
        (insertAll compare [] arr) := by
  cases arr with
  | nil =>
      rw [taInsertionSort, insertLoop, if_neg (by decide), insertAll]
      exact Alike.pure rfl
  | cons a rest =>
      have split : a :: rest = [a].reverse ++ rest := rfl
      rw [insertAll, insertBehind, pure_bind]
      exact insertLoop_alike split rfl (Nat.add_comm _ _)

/-- What holds of the sort of a list holds of the one on the buffer. -/
theorem taInsertionSort_ends {P : W → Prop} {Q : List Value → W → Prop} {X : Value → W → Prop}
    (sorts : Triple P (insertAll compare [] arr) (fun out w => Q out.reverse w) X)
    : Triple P (taInsertionSort compare arr) Q X := by
  intro w holds
  have known := sorts w holds
  rcases (taInsertionSort_alike compare arr).ends w with
    ⟨sorted, out, w', left, right, same⟩ | ⟨e, w', left, right⟩
  · rw [right] at known
    rw [left, same]
    exact known
  · rw [right] at known
    rw [left]
    exact known

end Loops

-----------------------------------------------------------------------------------------
-- Any comparator
-----------------------------------------------------------------------------------------

/-- The sort of a typed array ends with a permutation of the elements or with what a comparison
threw, after at most `n * (n - 1) / 2` comparisons of elements.
-/
theorem elementSort_permutes (s : ElementSortServices W) (comparefn : Value) (hasComparefn : Bool)
    (arr : List Value) (start : W)
    : Triple (fun w => w = start) (taInsertionSort (taCompare s comparefn hasComparefn) arr)
        (fun sorted w => sorted.Perm arr
          ∧ MergeSort.ComparedWithin (taCompare s comparefn hasComparefn) (fun a => a ∈ arr) start
            (arr.length.choose 2) w)
        (MergeSort.ComparisonThrew (taCompare s comparefn hasComparefn) (fun a => a ∈ arr) start
          (arr.length.choose 2)) := by
  have compares := MergeSort.compares_within (taCompare s comparefn hasComparefn)
    (fun a => a ∈ arr) start
  have sorts := insertAll_perm compares (MergeSort.comparedWithin_mono _ _ start)
    (MergeSort.comparisonThrew_mono _ _ start) (List.forall_mem_nil _) (fun _ member => member) 0
  rw [List.length_nil, Nat.zero_add, Nat.zero_add arr.length, Nat.zero_add, List.nil_append]
    at sorts
  exact taInsertionSort_ends (sorts.mono (MergeSort.comparedWithin_start _ _ start)
    (fun out w known => ⟨(List.reverse_perm out).trans known.2, known.1⟩) (fun _ _ threw => threw))

-----------------------------------------------------------------------------------------
-- The default order
-----------------------------------------------------------------------------------------

/-- The numeric order with -0 before 0 and the NaNs last. -/
def sortsBefore (x y : Double) : Bool :=
  y.isNan || (!x.isNan && (decide (x.rank < y.rank)
    || (decide (x.rank = y.rank) && (decide (2 ^ 63 ≤ x.toNat) || decide (y.toNat < 2 ^ 63)))))

theorem sortsBefore_iff (x y : Double)
    : sortsBefore x y = true ↔ y.isNan = true ∨ (x.isNan = false ∧ (x.rank < y.rank
      ∨ (x.rank = y.rank ∧ (2 ^ 63 ≤ x.toNat ∨ y.toNat < 2 ^ 63)))) := by
  simp [sortsBefore]

theorem sortsBefore_total (x y : Double) : sortsBefore x y = true ∨ sortsBefore y x = true := by
  rw [sortsBefore_iff, sortsBefore_iff]
  by_cases left : x.isNan = true
  · exact .inr (.inl left)
  · by_cases right : y.isNan = true
    · exact .inl (.inl right)
    · simp only [left, right, true_and, Bool.not_eq_true] at *
      omega

theorem sortsBefore_trans {x y z : Double} (first : sortsBefore x y = true)
    (second : sortsBefore y z = true)
    : sortsBefore x z = true := by
  rw [sortsBefore_iff] at *
  rcases second with nan | ⟨defined, second⟩
  · exact .inl nan
  · rcases first with nan | ⟨defined', first⟩
    · rw [nan] at defined
      cases defined
    · refine .inr ⟨defined', ?_⟩
      omega

theorem Double.eq_self (d : Double) : Double.eq d d = !d.isNan := by
  simp [Double.eq]

/-- The inverses of two zeros compare as their signs do. -/
theorem inverseOfZero_sign (a b : Double)
    : (if Double.lt (inverseOfZero a) (inverseOfZero b) then (-1 : Int)
        else if Double.lt (inverseOfZero b) (inverseOfZero a) then 1 else 0) ≤ 0
      ↔ 2 ^ 63 ≤ a.toNat ∨ b.toNat < 2 ^ 63 := by
  rw [inverseOfZero, inverseOfZero]
  by_cases left : 2 ^ 63 ≤ a.toNat
  · by_cases right : 2 ^ 63 ≤ b.toNat
    · rw [if_pos left, if_pos right]
      exact iff_of_true (by decide) (.inl left)
    · rw [if_pos left, if_neg right]
      exact iff_of_true (by decide) (.inl left)
  · by_cases right : 2 ^ 63 ≤ b.toNat
    · rw [if_neg left, if_pos right]
      have apart : ¬(2 ^ 63 ≤ a.toNat ∨ b.toNat < 2 ^ 63) := by omega
      exact iff_of_false (by decide) apart
    · rw [if_neg left, if_neg right]
      exact iff_of_true (by decide) (.inr (by omega))

theorem Double.zero_fields : Double.isNan 0 = false ∧ Double.rank 0 = 0 := by decide

theorem taNumericCompare_sign (a b : Double)
    : taNumericCompare a b ≤ 0 ↔ sortsBefore a b = true := by
  rw [sortsBefore_iff, taNumericCompare]
  simp only [Double.eq_self, Bool.not_not]
  cases left : a.isNan with
  | true => cases b.isNan <;> simp
  | false =>
      cases right : b.isNan with
      | true => simp
      | false =>
          have ltIff : Double.lt a b = decide (a.rank < b.rank) := by simp [Double.lt, left, right]
          have gtIff : Double.lt b a = decide (b.rank < a.rank) := by simp [Double.lt, left, right]
          simp only [Bool.and_self, Bool.false_eq_true, if_false, ltIff, gtIff, decide_eq_true_eq,
            false_or, true_and]
          rcases Int.lt_trichotomy a.rank b.rank with below | same | above
          · rw [if_pos below]
            exact iff_of_true (by decide) (.inl below)
          · rw [if_neg (by omega), if_neg (by omega)]
            have zeros : (Double.eq a 0 && Double.eq b 0) = decide (a.rank = 0) := by
              simp only [Double.eq, left, right, Double.zero_fields.1, Double.zero_fields.2, ← same,
                Bool.not_false, Bool.true_and, Bool.and_self]
            rw [zeros]
            by_cases zero : a.rank = 0
            · rw [if_pos (decide_eq_true zero), inverseOfZero_sign]
              constructor
              · exact fun signs => .inr ⟨same, signs⟩
              · intro placed
                rcases placed with below | ⟨-, signs⟩
                · omega
                · exact signs
            · -- Away from 0 the place tells the sign.
              rw [if_neg (by rw [decide_eq_true_eq]; exact zero)]
              refine iff_of_true (Int.le_refl 0) (.inr ⟨same, ?_⟩)
              rw [Double.rank] at same zero
              rw [Double.rank] at same
              split at same <;> split at same <;> split at zero <;> omega
          · rw [if_neg (by omega), if_pos above]
            exact iff_of_false (by decide) (by omega)

-----------------------------------------------------------------------------------------
-- The default sort
-----------------------------------------------------------------------------------------

def bigintOf : Value → Int
  | .bigint n => n
  | _ => 0

/-- The order of the elements, big integers or numbers. -/
def elementLe (ofInt : Int → Double) (bigints : Bool) (a b : Value) : Bool :=
  if bigints then decide (bigintOf a ≤ bigintOf b)
  else sortsBefore (elementNumber ofInt a) (elementNumber ofInt b)

theorem elementLe_ranks (ofInt : Int → Double) (bigints : Bool)
    : Ranks (elementLe ofInt bigints) := by
  cases bigints with
  | true =>
      constructor
      · intro a b
        simp only [elementLe, if_true, decide_eq_true_eq]
        exact Int.le_total _ _
      · intro a b c first second
        simp only [elementLe, if_true, decide_eq_true_eq] at *
        exact Int.le_trans first second
  | false => exact ⟨fun a b => sortsBefore_total _ _, fun a b c => sortsBefore_trans⟩

/-- The elements of one array are all big integers or all numbers. -/
def ofKind (bigints : Bool) (v : Value) : Bool := if bigints then v.isBigint else v.isNumeric

theorem taDefaultCompare_sign {ofInt : Int → Double} {bigints : Bool} {a b : Value}
    (left : ofKind bigints a = true) (right : ofKind bigints b = true)
    : taDefaultCompare ofInt a b ≤ 0 ↔ elementLe ofInt bigints a b = true := by
  cases bigints with
  | true =>
      cases a with
      | bigint x =>
          cases b with
          | bigint y =>
              change (if x < y then (-1 : Int) else if x > y then 1 else 0) ≤ 0
                ↔ decide (x ≤ y) = true
              rw [decide_eq_true_eq]
              split
              · omega
              · split <;> omega
          | _ => cases right
      | _ => cases left
  | false =>
      have numbers : taDefaultCompare ofInt a b
          = taNumericCompare (elementNumber ofInt a) (elementNumber ofInt b) := by
        cases a with
        | bigint => cases left
        | _ => rfl
      rw [numbers, taNumericCompare_sign]
      rfl

/-- Without a comparator the sort of a typed array runs no user code and returns the one stable sort
of its elements.
-/
theorem elementSort_default {s : ElementSortServices W} {comparefn : Value} {bigints : Bool}
    {arr : List Value} (kind : ∀ v ∈ arr, ofKind bigints v = true) (w : W)
    : ∃ sorted,
        taInsertionSort (taCompare s comparefn false) arr w = .ok sorted w
        ∧ StablySorts (elementLe s.ofInt bigints) arr sorted
        ∧ ∀ r, StablySorts (elementLe s.ofInt bigints) arr r → r = sorted := by
  have ranks := elementLe_ranks s.ofInt bigints
  have compares : Compares (fun a => a ∈ arr) (fun _ w' => w' = w)
      (MergeSort.agrees (elementLe s.ofInt bigints)) (fun _ _ _ => False)
      (taCompare s comparefn false) := by
    intro a b _ left right w' here
    exact ⟨here, taDefaultCompare_sign (kind a left) (kind b right)⟩
  have sorts := insertAll_sorts ranks compares (List.forall_mem_nil _) (fun _ member => member) .nil
  have ends : Triple (fun w' => w' = w) (taInsertionSort (taCompare s comparefn false) arr)
      (fun sorted w' => w' = w ∧ StablySorts (elementLe s.ofInt bigints) arr sorted)
      (fun _ _ => False) := taInsertionSort_ends sorts
  obtain ⟨sorted, w', result, rfl, stable⟩ := ends.returns rfl
  exact ⟨sorted, result, stable, fun r other => stable.unique ranks other⟩

def threeNumbers : List Value :=
  [.number Double.nan, .number 0, .number 0x8000000000000000]

/-- No comparator is called. -/
def uncalled : ElementSortServices Unit where
  callFn _ _ _ _ := .error .null ()
  taValToNumber _ _ := .error .null ()
  ofInt _ := 0

theorem elementSort_default_threeNumbers
    : ∃ sorted,
        taInsertionSort (taCompare uncalled .undefined false) threeNumbers () = .ok sorted ()
        ∧ StablySorts (elementLe uncalled.ofInt false) threeNumbers sorted
        ∧ ∀ r, StablySorts (elementLe uncalled.ofInt false) threeNumbers r → r = sorted :=
  elementSort_default (by decide) ()

end Boomkat.Correctness
