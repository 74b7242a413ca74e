import Boomkat.Machine.Value
import Boomkat.Strings.Order

/-! The sorting loops of `Array.prototype.sort` and `Array.prototype.toSorted`. Indices stay below
the length of an array, which is below `2 ^ 53`, so the counters do not wrap.
-/

namespace Boomkat.Arrays

open Machine Strings

-----------------------------------------------------------------------------------------
-- The comparison
-----------------------------------------------------------------------------------------

/-- What `array_sort_compare` calls. The world is what user code can change, which may throw a
value.
-/
structure SortServices (W : Type) where
  /-- `call_fn` of a function with two arguments and an undefined `this` -/
  callFn : Value → Value → Value → EStateM Value W Value
  builtinToNumber : Value → Value
  vmToString : Value → EStateM Value W StoredString

/-- The sign of what `comparefn` returned, as a number. -/
def signOfNumber : Value → Int
  | .number d =>
      if d.isNan then 0 else if Double.lt d 0 then -1 else if Double.lt 0 d then 1 else 0
  | .fastint v => if v < 0 then -1 else if v > 0 then 1 else 0
  | _ => 0

variable {W : Type}

/-- `array_sort_compare`, which throws where the source sets `should_throw`. -/
def arraySortCompare (s : SortServices W) (comparefn : Value) (hasComparefn : Bool) (a b : Value)
    : EStateM Value W Int :=
  let aUndef := a == .undefined
  let bUndef := b == .undefined
  if aUndef && bUndef then pure 0
  else if aUndef then pure 1
  else if bUndef then pure (-1)
  else if hasComparefn then do
    let res ← s.callFn comparefn a b
    return signOfNumber (s.builtinToNumber res)
  else do
    let aStr ← s.vmToString a
    let bStr ← s.vmToString b
    return hstringCompare aStr bStr

-----------------------------------------------------------------------------------------
-- The bottom-up merge sort of `builtin_array_proto_sort`
-----------------------------------------------------------------------------------------

/-- A slot of one of the buffers. -/
def slot (buffer : List Value) (i : Nat) : Value := buffer.getD i .undefined

/-- The loop that copies the left run into `temp`. -/
def copyLeftRun (items : List Value) (mid : Nat) (temp : List Value) (j : Nat) : List Value :=
  if j < mid then copyLeftRun items mid (temp.set j (slot items j)) (j + 1) else temp
termination_by mid - j

structure MergeState where
  l : Nat
  r : Nat
  k : Nat
  items : List Value

/-- The loop that compares the heads of the two runs. -/
def mergeLoop (compare : Value → Value → EStateM Value W Int) (temp : List Value)
    (mid right : Nat) (st : MergeState)
    : EStateM Value W MergeState :=
  if st.l < mid ∧ st.r < right then do
    let cmp ← compare (slot temp st.l) (slot st.items st.r)
    if cmp ≤ 0 then
      mergeLoop compare temp mid right
        ⟨st.l + 1, st.r, st.k + 1, st.items.set st.k (slot temp st.l)⟩
    else
      mergeLoop compare temp mid right
        ⟨st.l, st.r + 1, st.k + 1, st.items.set st.k (slot st.items st.r)⟩
  else pure st
termination_by (mid - st.l) + (right - st.r)

/-- The loop that takes what is left of the left run. -/
def takeLeft (temp : List Value) (mid : Nat) (st : MergeState) : MergeState :=
  if st.l < mid then
    takeLeft temp mid ⟨st.l + 1, st.r, st.k + 1, st.items.set st.k (slot temp st.l)⟩
  else st
termination_by mid - st.l

/-- The loop that takes what is left of the right run. -/
def takeRight (right : Nat) (st : MergeState) : MergeState :=
  if st.r < right then
    takeRight right ⟨st.l, st.r + 1, st.k + 1, st.items.set st.k (slot st.items st.r)⟩
  else st
termination_by right - st.r

/-- The merge of `temp[left..mid]` and `items[mid..right]` into `items`. -/
def mergeAt (compare : Value → Value → EStateM Value W Int) (left mid right : Nat)
    (temp items : List Value)
    : EStateM Value W (List Value) := do
  let st ← mergeLoop compare temp mid right ⟨left, mid, left, items⟩
  return (takeRight right (takeLeft temp mid st)).items

/-- The loop that merges pairs of runs of one width, which is not 0. -/
def mergePass (compare : Value → Value → EStateM Value W Int) (presentCount width : Nat)
    (temp items : List Value) (i : Nat)
    : EStateM Value W (List Value × List Value) :=
  if i < presentCount ∧ 0 < width then do
    let mid := if i + width < presentCount then i + width else presentCount
    let right := if i + 2 * width < presentCount then i + 2 * width else presentCount
    let copied := copyLeftRun items mid temp i
    let merged ← mergeAt compare i mid right copied items
    mergePass compare presentCount width copied merged (i + 2 * width)
  else pure (temp, items)
termination_by presentCount - i

/-- The loop that doubles the width, which starts with 1. -/
def mergePassesFrom (compare : Value → Value → EStateM Value W Int) (presentCount width : Nat)
    (temp items : List Value)
    : EStateM Value W (List Value) :=
  if width < presentCount ∧ 0 < width then do
    let pass ← mergePass compare presentCount width temp items 0
    mergePassesFrom compare presentCount (width * 2) pass.1 pass.2
  else pure items
termination_by presentCount - width

/-- The sorting of the collected `items`. The second buffer holds whatever its memory held. -/
def sortItems (compare : Value → Value → EStateM Value W Int) (temp items : List Value)
    : EStateM Value W (List Value) :=
  if items.length > 1 then mergePassesFrom compare items.length 1 temp items else pure items

-----------------------------------------------------------------------------------------
-- The neighbour swaps of `builtin_array_proto_toSorted`
-----------------------------------------------------------------------------------------

/-- The inner loop. -/
def swapLoop (compare : Value → Value → EStateM Value W Int) (len i : Nat)
    (elements : List Value) (j : Nat)
    : EStateM Value W (List Value) :=
  if j < len - 1 - i then do
    let a := slot elements j
    let b := slot elements (j + 1)
    let cmp ← compare a b
    if cmp > 0 then swapLoop compare len i ((elements.set j b).set (j + 1) a) (j + 1)
    else swapLoop compare len i elements (j + 1)
  else pure elements
termination_by len - 1 - i - j

/-- The outer loop. -/
def sortElementsFrom (compare : Value → Value → EStateM Value W Int) (len : Nat)
    (elements : List Value) (i : Nat)
    : EStateM Value W (List Value) :=
  if i < len then do
    let swapped ← swapLoop compare len i elements 0
    sortElementsFrom compare len swapped (i + 1)
  else pure elements
termination_by len - i

/-- The sorting of the elements that were read. -/
def sortElements (compare : Value → Value → EStateM Value W Int) (elements : List Value)
    : EStateM Value W (List Value) :=
  sortElementsFrom compare elements.length elements 0

end Boomkat.Arrays
