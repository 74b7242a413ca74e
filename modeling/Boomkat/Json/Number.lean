import Boomkat.Machine.Value
import Mathlib.Data.Rat.Defs
import Mathlib.Algebra.Order.Field.Rat
import Mathlib.Algebra.Order.Group.Unbundled.Abs

/-! The numbers of JSON texts: doubles, boxed values and the parser of a number. -/

namespace Boomkat.Machine

-----------------------------------------------------------------------------------------
-- The value of a double
-----------------------------------------------------------------------------------------

/-- The exponent field. -/
def Double.biased (d : Double) : Nat := d.toNat / 2 ^ 52 % 2048

def Double.isNegative (d : Double) : Bool := decide (2 ^ 63 ≤ d.toNat)

def Double.isFinite (d : Double) : Bool := d.biased != 2047

/-- The fraction field with the leading bit, which a subnormal double lacks. -/
def Double.significand (d : Double) : Nat :=
  if d.biased = 0 then d.toNat % 2 ^ 52 else d.toNat % 2 ^ 52 + 2 ^ 52

/-- The exponent of the significand's last bit. -/
def Double.scale (d : Double) : Int := max d.biased 1 - 1075

/-- The number that a finite double stands for. -/
def Double.value (d : Double) : ℚ :=
  let magnitude := (d.significand : ℚ) * 2 ^ d.scale
  if d.isNegative then -magnitude else magnitude

/-- The cast `(long)d`. Outside the range of a long the language leaves the result open. -/
def Double.toLong (outside : Double → Int) (d : Double) : Int :=
  let magnitude :=
    if 0 ≤ d.scale then d.significand * 2 ^ d.scale.toNat
    else d.significand / 2 ^ (-d.scale).toNat
  let n : Int := if d.isNegative then -magnitude else magnitude
  if d.isFinite ∧ -2 ^ 63 ≤ n ∧ n < 2 ^ 63 then n else outside d

/-- Divide by `unit` to the nearest, ties to even. -/
def divideToEven (n unit : Nat) : Nat :=
  let below := n / unit
  if unit < 2 * (n % unit) ∨ (2 * (n % unit) = unit ∧ below % 2 = 1) then below + 1 else below

/-- The cast `(double)n`. A carry of the rounding goes into the exponent field. -/
def Double.ofInt (n : Int) : Double :=
  let m := n.natAbs
  let significand :=
    if m.log2 ≤ 52 then m * 2 ^ (52 - m.log2) else divideToEven m (2 ^ (m.log2 - 52))
  let magnitude := if m = 0 then 0 else (m.log2 + 1022) * 2 ^ 52 + significand
  BitVec.ofNat 64 (if n < 0 then 2 ^ 63 + magnitude else magnitude)

-----------------------------------------------------------------------------------------
-- Boxed values
-----------------------------------------------------------------------------------------

/-- A value in its 64 bits: a double, or a tag over a 48-bit payload. -/
abbrev TVal := BitVec 64

def tagFastint : Nat := 0xFFF1

def TVal.setFastint (n : Int) : TVal :=
  BitVec.ofNat 64 (tagFastint * 2 ^ 48 + (n % 2 ^ 48).toNat)

/-- A NaN whose bits would collide with the tags is normalized. -/
def TVal.setNumber (d : Double) : TVal :=
  if tagFastint ≤ d.toNat / 2 ^ 48 then 0x7FF8000000000000 else d

def TVal.isFastint (val : TVal) : Bool := val.toNat / 2 ^ 48 == tagFastint

/-- The sign-extended payload. -/
def TVal.getFastint (val : TVal) : Int :=
  let payload : Int := val.toNat % 2 ^ 48
  if 2 ^ 47 ≤ payload then payload - 2 ^ 48 else payload

def TVal.getNumberOrFastint (val : TVal) : Double :=
  if val.isFastint then Double.ofInt val.getFastint else val

def maxSafeInt : Int := 9007199254740991

def minSafeInt : Int := -9007199254740991

end Boomkat.Machine

namespace Boomkat.Json
open Machine

-----------------------------------------------------------------------------------------
-- The parser
-----------------------------------------------------------------------------------------

def isDigit (c : UInt8) : Bool := 0x30 ≤ c && c ≤ 0x39

/-- The value that a conversion result is stored as. -/
def storeNumber (outside : Double → Int) (d : Double) : TVal :=
  let fi := d.toLong outside
  let isNegZero := d = 0x8000000000000000
  if ¬isNegZero ∧ Double.eq (Double.ofInt fi) d ∧ minSafeInt ≤ fi ∧ fi ≤ maxSafeInt then
    TVal.setFastint fi
  else TVal.setNumber d

/-- After an optional minus. -/
def skipSign : List UInt8 → List UInt8
  | 0x2D :: rest => rest
  | src => src

/-- After the integer part: a zero, or digits that start with another one. -/
def skipInteger : List UInt8 → Option (List UInt8)
  | [] => none
  | c :: rest =>
      if c = 0x30 then some rest
      else if 0x31 ≤ c && c ≤ 0x39 then some (rest.dropWhile isDigit)
      else none

/-- After digits, of which there has to be one. -/
def skipDigits : List UInt8 → Option (List UInt8)
  | [] => none
  | c :: rest => if isDigit c then some (rest.dropWhile isDigit) else none

/-- After an optional fraction. -/
def skipFraction : List UInt8 → Option (List UInt8)
  | 0x2E :: rest => skipDigits rest
  | src => some src

/-- After an optional sign of an exponent. -/
def skipExponentSign : List UInt8 → List UInt8
  | 0x2B :: rest | 0x2D :: rest => rest
  | src => src

/-- After an optional exponent. -/
def skipExponent : List UInt8 → Option (List UInt8)
  | 0x65 :: rest | 0x45 :: rest => skipDigits (skipExponentSign rest)
  | src => some src

/-- `json_parse_number` on what is left of the source. There is no result on an error; otherwise
the value and what is left behind the number.
-/
def jsonParseNumber (strtod : List UInt8 → Double) (outside : Double → Int) (src : List UInt8)
    : Option (TVal × List UInt8) := do
  let rest ← skipInteger (skipSign src)
  let rest ← skipFraction rest
  let rest ← skipExponent rest
  some (storeNumber outside (strtod (src.take (src.length - rest.length))), rest)

-----------------------------------------------------------------------------------------
-- Number literals
-----------------------------------------------------------------------------------------

/-- A digit as a character. -/
def digitChar (digit : Fin 10) : UInt8 := UInt8.ofNat (0x30 + digit.val)

/-- The number that digits spell. -/
def digitsValue (digits : List (Fin 10)) : Nat :=
  digits.foldl (fun n (digit : Fin 10) => 10 * n + digit.val) 0

/-- An exponent part: the case of its letter, a sign that is minus or not, and digits. -/
structure Exponent where
  upper : Bool
  sign : Option Bool
  digits : List (Fin 10)
  nonempty : digits ≠ []

/-- A number literal. Without digits there is no fraction part. -/
structure JsonNumber where
  negative : Bool
  integer : List (Fin 10)
  fraction : List (Fin 10)
  exponent : Option Exponent
  leading : integer = [0] ∨ ∃ digit rest, integer = digit :: rest ∧ digit ≠ 0

def Exponent.text (exponent : Exponent) : List UInt8 :=
  let sign : List UInt8 :=
    match exponent.sign with
    | some true => [0x2D]
    | some false => [0x2B]
    | none => []
  (if exponent.upper then 0x45 else 0x65) :: (sign ++ exponent.digits.map digitChar)

def Exponent.value (exponent : Exponent) : Int :=
  if exponent.sign = some true then -digitsValue exponent.digits else digitsValue exponent.digits

def JsonNumber.text (literal : JsonNumber) : List UInt8 :=
  (if literal.negative then [0x2D] else []) ++ literal.integer.map digitChar
    ++ (if literal.fraction = [] then [] else 0x2E :: literal.fraction.map digitChar)
    ++ (literal.exponent.map Exponent.text).getD []

/-- The number that the literal stands for. -/
def JsonNumber.value (literal : JsonNumber) : ℚ :=
  let magnitude : ℚ :=
    digitsValue (literal.integer ++ literal.fraction)
      * 10 ^ ((literal.exponent.map Exponent.value).getD 0 - literal.fraction.length)
  if literal.negative then -magnitude else magnitude

/-- An integer literal has neither a fraction nor an exponent. -/
def JsonNumber.isInteger (literal : JsonNumber) : Prop :=
  literal.fraction = [] ∧ literal.exponent = none

/-- The next character, if any, does not go on with a number. -/
def EndsNumber (rest : List UInt8) : Prop :=
  ∀ c ∈ rest.head?, isDigit c = false ∧ c ≠ 0x2E ∧ c ≠ 0x65 ∧ c ≠ 0x45

end Boomkat.Json
