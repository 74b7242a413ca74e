import Boomkat.Machine.Value

/-! The sort of typed arrays. The elements of an array are all numbers or all big integers. -/

namespace Boomkat.TypedArrays

open Machine

-----------------------------------------------------------------------------------------
-- The default order
-----------------------------------------------------------------------------------------

/-- The quotient `1.0 / d` of a zero. -/
def inverseOfZero (d : Double) : Double :=
  if 2 ^ 63 ≤ d.toNat then 0xFFF0000000000000 else 0x7FF0000000000000

/-- `ta_numeric_compare` -/
def taNumericCompare (a b : Double) : Int :=
  let aNan := !Double.eq a a
  let bNan := !Double.eq b b
  if aNan && bNan then 0
  else if aNan then 1
  else if bNan then -1
  else if Double.lt a b then -1
  else if Double.lt b a then 1
  else if Double.eq a 0 && Double.eq b 0 then
    if Double.lt (inverseOfZero a) (inverseOfZero b) then -1
    else if Double.lt (inverseOfZero b) (inverseOfZero a) then 1
    else 0
  else 0

/-- An element as a double. Those of the other kinds are never asked for it. -/
def elementNumber (ofInt : Int → Double) : Value → Double
  | .fastint n => ofInt n
  | .number d => d
  | _ => 0

/-- `ta_default_compare` -/
def taDefaultCompare (ofInt : Int → Double) (a b : Value) : Int :=
  match a, b with
  | .bigint av, .bigint bv => if av < bv then -1 else if av > bv then 1 else 0
  | _, _ => taNumericCompare (elementNumber ofInt a) (elementNumber ofInt b)

-----------------------------------------------------------------------------------------
-- The insertion sort
-----------------------------------------------------------------------------------------

/-- What `ta_insertion_sort` calls. -/
structure ElementSortServices (W : Type) where
  /-- `call_fn` of a function with two arguments and an undefined `this` -/
  callFn : Value → Value → Value → EStateM Value W Value
  /-- `ta_val_to_number` of a value that is no number -/
  taValToNumber : Value → EStateM Value W Double
  /-- The conversion of a fast integer to a double. -/
  ofInt : Int → Double

variable {W : Type}

/-- The comparison of `ta_insertion_sort`. -/
def taCompare (s : ElementSortServices W) (comparefn : Value) (hasComparefn : Bool) (a b : Value)
    : EStateM Value W Int :=
  if hasComparefn then do
    let res ← s.callFn comparefn a b
    let rd ← match res with
      | .fastint n => pure (s.ofInt n)
      | .number d => pure d
      | _ => s.taValToNumber res
    return if Double.lt rd 0 then -1 else if Double.lt 0 rd then 1 else 0
  else pure (taDefaultCompare s.ofInt a b)

/-- The inner loop, at the index `j - 1` of the source's `j`, with the write behind the loop. -/
def shiftLoop (compare : Value → Value → EStateM Value W Int) (key : Value)
    : Nat → List Value → EStateM Value W (List Value)
  | 0, arr => pure (arr.set 0 key)
  | j + 1, arr => do
      let a := arr.getD j .undefined
      let cmp ← compare a key
      if cmp ≤ 0 then pure (arr.set (j + 1) key)
      else shiftLoop compare key j (arr.set (j + 1) a)

/-- The outer loop. -/
def insertLoop (compare : Value → Value → EStateM Value W Int) (n : Nat) (arr : List Value)
    (i : Nat)
    : EStateM Value W (List Value) :=
  if i < n then do
    let inserted ← shiftLoop compare (arr.getD i .undefined) i arr
    insertLoop compare n inserted (i + 1)
  else pure arr
termination_by n - i

/-- `ta_insertion_sort` -/
def taInsertionSort (compare : Value → Value → EStateM Value W Int) (arr : List Value)
    : EStateM Value W (List Value) :=
  insertLoop compare arr.length arr 1

end Boomkat.TypedArrays
