import Boomkat.Correctness.SortLoops
import Boomkat.Correctness.StringOrder

/-! The two sorts of arrays. Whatever the comparator does, both write back a permutation of what
they collected. For a consistent comparator both give the one stable sort, with the undefined values
last.
-/

namespace Boomkat.Correctness

open Arrays Foundation Machine Programs StableSorting Strings Utf8

variable {W : Type} (s : SortServices W) (comparefn : Value) (hasComparefn : Bool)

-----------------------------------------------------------------------------------------
-- Any comparator
-----------------------------------------------------------------------------------------

/-- One of the items, which is not undefined. -/
def Defined (items : List Value) (a : Value) : Prop := a ∈ items ∧ a ≠ .undefined

/-- One of the first so many comparisons threw, all of two such items. -/
def ComparisonThrew (items : List Value) : W → Nat → Value → W → Prop :=
  MergeSort.ComparisonThrew (arraySortCompare s comparefn hasComparefn) (Defined items)

/-- User code was left after at most a number of comparisons of items that are not undefined. -/
def ComparedWithin (items : List Value) : W → Nat → W → Prop :=
  MergeSort.ComparedWithin (arraySortCompare s comparefn hasComparefn) (Defined items)

variable {items temp : List Value} {a b : Value}

/-- An undefined value is compared without a call. -/
theorem arraySortCompare_undefined (undefined : a = .undefined ∨ b = .undefined) (w : W)
    : ∃ cmp, arraySortCompare s comparefn hasComparefn a b w = .ok cmp w
      ∧ (cmp ≤ 0 ↔ b = .undefined) := by
  by_cases left : a = .undefined
  · by_cases right : b = .undefined
    · exact ⟨0, by rw [left, right]; rfl, by simp [right]⟩
    · refine ⟨1, ?_, by simp [right]⟩
      rw [arraySortCompare]
      simp only [left, beq_self_eq_true, beq_eq_false_iff_ne.mpr right, Bool.and_false,
        Bool.false_eq_true, if_false, if_true]
      rfl
  · have right := undefined.resolve_left left
    refine ⟨-1, ?_, by simp [right]⟩
    rw [arraySortCompare]
    simp only [right, beq_self_eq_true, beq_eq_false_iff_ne.mpr left, Bool.false_and,
      Bool.false_eq_true, if_false, if_true]
    rfl

/-- One comparison. -/
theorem arraySortCompare_compares (items : List Value) (start : W)
    : MergeSort.Compares (fun a => a ∈ items)
        (ComparedWithin s comparefn hasComparefn items start) (fun _ _ _ => True)
        (ComparisonThrew s comparefn hasComparefn items start)
        (arraySortCompare s comparefn hasComparefn) := by
  intro a b n left right w within
  by_cases undefined : a = .undefined ∨ b = .undefined
  · obtain ⟨cmp, result, -⟩ :=
      arraySortCompare_undefined s comparefn hasComparefn undefined w
    rw [result]
    exact ⟨MergeSort.comparedWithin_mono _ _ start n (n + 1) w (Nat.le_succ n) within, trivial⟩
  · rw [not_or] at undefined
    have next := MergeSort.comparedWithin_next within ⟨left, undefined.1⟩ ⟨right, undefined.2⟩
    cases result : arraySortCompare s comparefn hasComparefn a b w with
    | ok cmp w' =>
        rw [result] at next
        exact ⟨next, trivial⟩
    | error e w' =>
        rw [result] at next
        exact next

/-- Both sorts end with a permutation of the items or with what a comparison threw, and until then
user code is only called for comparisons of items, by `sort` for at most `n * ⌈log₂ n⌉` of them and
by `toSorted` for at most `n * (n - 1) / 2`. Witness: the loops run as the sorts of lists do.
-/
theorem sorts_permute (s : SortServices W) (comparefn : Value) (hasComparefn : Bool)
    (temp items : List Value) (full : temp.length = items.length) (start : W)
    : Triple (fun w => w = start)
        (sortItems (arraySortCompare s comparefn hasComparefn) temp items)
        (fun sorted w => sorted.Perm items
          ∧ ComparedWithin s comparefn hasComparefn items start
            (items.length * Nat.clog 2 items.length) w)
        (ComparisonThrew s comparefn hasComparefn items start
          (items.length * Nat.clog 2 items.length))
      ∧ Triple (fun w => w = start)
        (sortElements (arraySortCompare s comparefn hasComparefn) items)
        (fun sorted w => sorted.Perm items
          ∧ ComparedWithin s comparefn hasComparefn items start (items.length.choose 2) w)
        (ComparisonThrew s comparefn hasComparefn items start (items.length.choose 2)) := by
  have compares := arraySortCompare_compares s comparefn hasComparefn items start
  have begun : ∀ w, w = start → ComparedWithin s comparefn hasComparefn items start 0 w :=
    MergeSort.comparedWithin_start _ _ start
  have within := MergeSort.comparedWithin_mono (arraySortCompare s comparefn hasComparefn)
    (Defined items) start
  have threw := MergeSort.comparisonThrew_mono (arraySortCompare s comparefn hasComparefn)
    (Defined items) start
  constructor
  · rw [sortItems_merges full]
    have sorts := MergeSort.mergePasses_perm compares within threw (fun _ member => member) 0 0
    rw [Nat.zero_add, Nat.sub_zero] at sorts
    exact sorts.mono begun (fun sorted w known => ⟨known.2, known.1⟩) (fun _ _ threw => threw)
  · rw [sortElements_eq]
    have sorts := MergeSort.sinkAll_perm compares threw (fun _ member => member) 0
    rw [Nat.zero_add] at sorts
    exact sorts.mono begun (fun sorted w known => ⟨known.2, known.1⟩) (fun _ _ threw => threw)

/-- The function `(a, b) => a - b` on fast integers, which counts its calls. -/
def subtracting : SortServices Nat where
  callFn _ a b calls :=
    match a, b with
    | .fastint x, .fastint y => .ok (.fastint (x - y)) (calls + 1)
    | _, _ => .error .null (calls + 1)
  builtinToNumber v := v
  vmToString _ calls := .error .null calls

def threeItems : List Value := [.fastint 3, .undefined, .fastint 1]

theorem sorts_permute_threeItems
    : Triple (fun w => w = 0)
        (sortItems (arraySortCompare subtracting .null true) [.null, .null, .null] threeItems)
        (fun sorted w => sorted.Perm threeItems
          ∧ ComparedWithin subtracting .null true threeItems 0
            (threeItems.length * Nat.clog 2 threeItems.length) w)
        (ComparisonThrew subtracting .null true threeItems 0
          (threeItems.length * Nat.clog 2 threeItems.length)) :=
  (sorts_permute subtracting .null true [.null, .null, .null] threeItems rfl 0).1

-----------------------------------------------------------------------------------------
-- Consistent comparators
-----------------------------------------------------------------------------------------

/-- The order with the undefined values last. -/
def undefinedLast (le : Value → Value → Bool) (a b : Value) : Bool :=
  b == .undefined || (!(a == .undefined) && le a b)

/-- The comparator agrees with an order on the items that are not undefined, and does not throw,
while user code keeps an invariant.
-/
structure Consistent (s : SortServices W) (comparefn : Value) (hasComparefn : Bool)
    (items : List Value) (le : Value → Value → Bool) (I : W → Prop)
    : Prop where
  ranks : Ranks le
  agrees : ∀ a ∈ items, ∀ b ∈ items, a ≠ .undefined → b ≠ .undefined → ∀ w, I w →
    ∃ cmp w', arraySortCompare s comparefn hasComparefn a b w = .ok cmp w' ∧ I w'
      ∧ (cmp ≤ 0 ↔ le a b = true)

variable {s comparefn hasComparefn} {le : Value → Value → Bool} {I : W → Prop}

theorem undefinedLast_iff (le : Value → Value → Bool) (a b : Value)
    : undefinedLast le a b = true
      ↔ b = .undefined ∨ (a ≠ .undefined ∧ le a b = true) := by
  simp [undefinedLast]

theorem undefinedLast_ranks (ranks : Ranks le) : Ranks (undefinedLast le) := by
  constructor
  · intro a b
    rw [undefinedLast_iff, undefinedLast_iff]
    by_cases left : a = .undefined
    · exact .inr (.inl left)
    · by_cases right : b = .undefined
      · exact .inl (.inl right)
      · rcases ranks.total a b with below | above
        · exact .inl (.inr ⟨left, below⟩)
        · exact .inr (.inr ⟨right, above⟩)
  · intro a b c first second
    rw [undefinedLast_iff] at first second ⊢
    rcases second with last | ⟨defined, below⟩
    · exact .inl last
    · rcases first with undefined | ⟨defined', below'⟩
      · exact absurd undefined defined
      · exact .inr ⟨defined', ranks.trans a b c below' below⟩

theorem Consistent.compares (consistent : Consistent s comparefn hasComparefn items le I)
    : MergeSort.Compares (fun a => a ∈ items) (fun _ => I)
        (MergeSort.agrees (undefinedLast le)) (fun _ _ _ => False)
        (arraySortCompare s comparefn hasComparefn) := by
  intro a b n left right w here
  by_cases undefined : a = .undefined ∨ b = .undefined
  · obtain ⟨cmp, result, sign⟩ :=
      arraySortCompare_undefined s comparefn hasComparefn undefined w
    rw [result]
    refine ⟨here, ?_⟩
    change cmp ≤ 0 ↔ undefinedLast le a b = true
    rw [sign, undefinedLast_iff]
    constructor
    · exact .inl
    · intro last
      rcases last with last | ⟨defined, -⟩
      · exact last
      · exact undefined.resolve_left defined
  · rw [not_or] at undefined
    obtain ⟨cmp, w', result, here', sign⟩ :=
      consistent.agrees a left b right undefined.1 undefined.2 w here
    rw [result]
    refine ⟨here', ?_⟩
    change cmp ≤ 0 ↔ undefinedLast le a b = true
    rw [sign, undefinedLast_iff]
    constructor
    · exact fun below => .inr ⟨undefined.1, below⟩
    · intro last
      rcases last with last | ⟨-, below⟩
      · exact absurd last undefined.2
      · exact below

/-- Both sorts return the same list. Witness: the stable sort of a list is unique. -/
theorem Consistent.sorts (consistent : Consistent s comparefn hasComparefn items le I)
    (full : temp.length = items.length) {start : W} (here : I start)
    : ∃ sorted w₁ w₂,
        sortItems (arraySortCompare s comparefn hasComparefn) temp items start = .ok sorted w₁
        ∧ sortElements (arraySortCompare s comparefn hasComparefn) items start = .ok sorted w₂
        ∧ StablySorts (undefinedLast le) items sorted := by
  have ranks := undefinedLast_ranks consistent.ranks
  have merged := MergeSort.mergePasses_sorts ranks consistent.compares Nat.zero_lt_one
    (fun _ member => member) (MergeSort.runsOrdered_one _ items)
  have sunk := MergeSort.sinkAll_sorts ranks consistent.compares (l := items)
    (fun _ member => member)
  rw [← sortItems_merges full] at merged
  rw [← sortElements_eq] at sunk
  obtain ⟨sorted, w₁, result₁, -, sorts⟩ := merged.returns here
  obtain ⟨sorted', w₂, result₂, -, sorts'⟩ := sunk.returns here
  rw [sorts.unique ranks sorts'] at result₂
  exact ⟨sorted, w₁, w₂, result₁, result₂, sorts⟩

/-- With a consistent comparator `sort` and `toSorted` return, with the same list: the items in the
order of the comparator, the undefined values last and ties as they were, which no other list is.
-/
theorem sorts_agree (consistent : Consistent s comparefn hasComparefn items le I)
    (full : temp.length = items.length) {start : W} (here : I start)
    : ∃ sorted w₁ w₂,
        sortItems (arraySortCompare s comparefn hasComparefn) temp items start = .ok sorted w₁
        ∧ sortElements (arraySortCompare s comparefn hasComparefn) items start = .ok sorted w₂
        ∧ StablySorts (undefinedLast le) items sorted
        ∧ ∀ r, StablySorts (undefinedLast le) items r → r = sorted := by
  obtain ⟨sorted, w₁, w₂, result₁, result₂, sorts⟩ := consistent.sorts full here
  exact ⟨sorted, w₁, w₂, result₁, result₂, sorts, fun r other =>
    sorts.unique (undefinedLast_ranks consistent.ranks) other⟩

/-- The number of a fast integer. -/
def integerOf : Value → Int
  | .fastint n => n
  | _ => 0

def byInteger (a b : Value) : Bool := decide (integerOf a ≤ integerOf b)

theorem byInteger_ranks : Ranks byInteger := by
  constructor
  · intro a b
    simp only [byInteger, decide_eq_true_eq]
    exact Int.le_total _ _
  · intro a b c first second
    simp only [byInteger, decide_eq_true_eq] at first second ⊢
    exact Int.le_trans first second

theorem threeItems_consistent
    : Consistent subtracting .null true threeItems byInteger (fun _ => True) := by
  refine ⟨byInteger_ranks, fun a left b right definedLeft definedRight w _ => ?_⟩
  simp only [threeItems, List.mem_cons, List.not_mem_nil, or_false] at left right
  rcases left with rfl | rfl | rfl
  · rcases right with rfl | rfl | rfl
    · exact ⟨0, w + 1, rfl, trivial, by decide⟩
    · exact absurd rfl definedRight
    · exact ⟨1, w + 1, rfl, trivial, by decide⟩
  · exact absurd rfl definedLeft
  · rcases right with rfl | rfl | rfl
    · exact ⟨-1, w + 1, rfl, trivial, by decide⟩
    · exact absurd rfl definedRight
    · exact ⟨0, w + 1, rfl, trivial, by decide⟩

theorem sorts_agree_threeItems
    : ∃ sorted w₁ w₂,
        sortItems (arraySortCompare subtracting .null true) [.null, .null, .null] threeItems 0
          = .ok sorted w₁
        ∧ sortElements (arraySortCompare subtracting .null true) threeItems 0 = .ok sorted w₂
        ∧ StablySorts (undefinedLast byInteger) threeItems sorted
        ∧ ∀ r, StablySorts (undefinedLast byInteger) threeItems r → r = sorted :=
  sorts_agree threeItems_consistent (by rfl) trivial

-----------------------------------------------------------------------------------------
-- The default order
-----------------------------------------------------------------------------------------

/-- The order of the code units of the values' strings. -/
def byUnits (text : Value → CanonicalString) (a b : Value) : Bool :=
  (compare (text a).units (text b).units).isLE

theorem byUnits_ranks (text : Value → CanonicalString) : Ranks (byUnits text) := by
  constructor
  · intro a b
    rw [byUnits, byUnits, Std.OrientedOrd.eq_swap (a := (text b).units)]
    cases compare (text a).units (text b).units <;> simp [Ordering.swap]
  · intro a b c first second
    exact Std.TransOrd.isLE_trans first second

theorem orderSign_le_zero (order : Ordering) : orderSign order ≤ 0 ↔ order.isLE = true := by
  cases order <;> decide

/-- Each of the items that is not undefined converts to one string, whenever it is asked for. -/
def Converts (s : SortServices W) (items : List Value) (text : Value → CanonicalString)
    (I : W → Prop)
    : Prop :=
  ∀ v ∈ items, v ≠ .undefined → ∀ w, I w →
    ∃ w', s.vmToString v w = .ok (text v).stored w' ∧ I w'

theorem Converts.consistent {text : Value → CanonicalString} (converts : Converts s items text I)
    : Consistent s comparefn false items (byUnits text) I := by
  refine ⟨byUnits_ranks text, fun a left b right definedLeft definedRight w here => ?_⟩
  obtain ⟨w₁, first, here₁⟩ := converts a left definedLeft w here
  obtain ⟨w₂, second, here₂⟩ := converts b right definedRight w₁ here₁
  refine ⟨hstringCompare (text a).stored (text b).stored, w₂, ?_, here₂, ?_⟩
  · rw [arraySortCompare]
    simp only [beq_eq_false_iff_ne.mpr definedLeft, beq_eq_false_iff_ne.mpr definedRight,
      Bool.false_and, Bool.false_eq_true, if_false]
    change EStateM.bind (s.vmToString a) _ w = _
    rw [EStateM.bind, first]
    change EStateM.bind (s.vmToString b) _ w₁ = _
    rw [EStateM.bind, second]
    rfl
  · rw [hstringCompare_bytes]
    change orderSign (compare (cesu8 (text a).units) (cesu8 (text b).units)) ≤ 0 ↔ _
    rw [compare_cesu8 (text a).small (text b).small, orderSign_le_zero, byUnits]

/-- Without a comparator both sorts give the items in the order of the code units of their strings,
the undefined values last and equal strings as they were.
-/
theorem defaultSorts_agree {text : Value → CanonicalString} (converts : Converts s items text I)
    (full : temp.length = items.length) {start : W} (here : I start)
    : ∃ sorted w₁ w₂,
        sortItems (arraySortCompare s .undefined false) temp items start = .ok sorted w₁
        ∧ sortElements (arraySortCompare s .undefined false) items start = .ok sorted w₂
        ∧ (sorted.Pairwise fun a b => b = .undefined
          ∨ (a ≠ .undefined ∧ (compare (text a).units (text b).units).isLE = true))
        ∧ SameTies (undefinedLast (byUnits text)) items sorted := by
  have consistent : Consistent s .undefined false items (byUnits text) I := converts.consistent
  obtain ⟨sorted, w₁, w₂, result₁, result₂, sorts⟩ := consistent.sorts full here
  refine ⟨sorted, w₁, w₂, result₁, result₂, sorts.ordered.imp fun {a b} ordered => ?_, sorts.ties⟩
  exact (undefinedLast_iff (byUnits text) a b).mp ordered

/-- The text `n` of null and `b` of the other values. -/
def letterOf : Value → CanonicalString
  | .null => ⟨[110], by decide, by decide⟩
  | _ => ⟨[98], by decide, by decide⟩

def lettering : SortServices Unit where
  callFn _ _ _ _ := .error .null ()
  builtinToNumber v := v
  vmToString v _ := .ok (letterOf v).stored ()

theorem defaultSorts_agree_twoItems
    : ∃ sorted w₁ w₂,
        sortItems (arraySortCompare lettering .undefined false) [.null, .null]
          [.null, .boolean true] () = .ok sorted w₁
        ∧ sortElements (arraySortCompare lettering .undefined false) [.null, .boolean true] ()
          = .ok sorted w₂
        ∧ (sorted.Pairwise fun a b => b = .undefined
          ∨ (a ≠ .undefined
            ∧ (compare (letterOf a).units (letterOf b).units).isLE = true))
        ∧ SameTies (undefinedLast (byUnits letterOf)) [.null, .boolean true] sorted := by
  have converts : Converts lettering [.null, .boolean true] letterOf (fun _ => True) :=
    fun v _ _ w here => ⟨w, rfl, here⟩
  exact defaultSorts_agree converts (by rfl) trivial

end Boomkat.Correctness
