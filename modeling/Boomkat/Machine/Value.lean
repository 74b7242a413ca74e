import Boomkat.Bytecode.Instruction

/-! Tagged values and the comparisons the interpreter makes on them without the heap. -/

namespace Boomkat.Machine

-----------------------------------------------------------------------------------------
-- Doubles
-----------------------------------------------------------------------------------------

/-- An IEEE 754 double, held as its 64 bits. -/
abbrev Double := BitVec 64

/-- A double is a NaN when its exponent is all ones and its fraction is not zero. -/
def Double.isNan (d : Double) : Bool :=
  d.toNat / 2 ^ 52 % 2048 == 2047 && d.toNat % 2 ^ 52 != 0

/-- The position of a double that is not a NaN on the number line, with both zeros at 0. -/
def Double.rank (d : Double) : Int :=
  if 2 ^ 63 ≤ d.toNat then -(d.toNat - 2 ^ 63 : Int) else d.toNat

/-- The operator `<` on doubles. -/
def Double.lt (x y : Double) : Bool := !x.isNan && !y.isNan && decide (x.rank < y.rank)

/-- The operator `<=` on doubles. -/
def Double.le (x y : Double) : Bool := !x.isNan && !y.isNan && decide (x.rank ≤ y.rank)

/-- The operator `==` on doubles. -/
def Double.eq (x y : Double) : Bool := !x.isNan && !y.isNan && decide (x.rank = y.rank)

/-- The quiet NaN `double::nan`. -/
def Double.nan : Double := 0x7FF8000000000000

/-- Without a NaN, `<=` is the negation of the flipped `<`. -/
theorem Double.le_eq_not_lt {x y : Double} (left : x.isNan = false) (right : y.isNan = false)
    : Double.le x y = !Double.lt y x := by
  simp only [Double.le, Double.lt, left, right]
  by_cases order : x.rank ≤ y.rank
  · simp [order, Int.not_lt.mpr order]
  · simp [order, Int.not_le.mp order]

-----------------------------------------------------------------------------------------
-- Values
-----------------------------------------------------------------------------------------

/-- A tagged value. Strings are compared by content and symbols share the string tag. -/
inductive Value where
  | undefined
  | null
  | boolean (b : Bool)
  | number (d : Double)
  | fastint (n : Int)
  | string (text : String)
  | symbol (id : Nat)
  | object (addr : Nat)
  | lightfunc (index : Nat)
  | pointer (addr : Nat)
  | buffer (addr : Nat)
  | bigint (n : Int)
  deriving DecidableEq, Repr

/-- `is_object()` -/
def Value.isObject : Value → Bool
  | .object _ => true
  | _ => false

/-- `is_string()`, which symbols also satisfy. -/
def Value.isString : Value → Bool
  | .string _ | .symbol _ => true
  | _ => false

/-- `is_bigint()` -/
def Value.isBigint : Value → Bool
  | .bigint _ => true
  | _ => false

/-- `is_fastint() || is_number()` -/
def Value.isNumeric : Value → Bool
  | .fastint _ | .number _ => true
  | _ => false

/-- Truthiness of a value. -/
def Value.isTruthy : Value → Bool
  | .undefined | .null => false
  | .boolean b => b
  | .number d => !d.isNan && decide (d.rank ≠ 0)
  | .fastint n => decide (n ≠ 0)
  | .string text => text != ""
  | .bigint n => decide (n ≠ 0)
  | _ => true

/-- Smallest value of a 48-bit fastint. -/
def fastintMin : Int := -140737488355328

/-- Largest value of a 48-bit fastint. -/
def fastintMax : Int := 140737488355327

end Boomkat.Machine
