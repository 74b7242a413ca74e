import Boomkat.Json.Number

/-! `parseFloat`: the scan of a decimal literal at the start of a string, and the literals. -/

namespace Boomkat.Globals
open Machine
open Json (isDigit skipExponentSign digitChar digitsValue Exponent)

def doubleNan : Double := 0x7FF8000000000000

def doubleInf : Double := 0x7FF0000000000000

def negativeInf : Double := 0xFFF0000000000000

-----------------------------------------------------------------------------------------
-- Leading white space
-----------------------------------------------------------------------------------------

/-- The last bytes of white space that starts with `E2 80`. -/
def isGeneralSpace (b2 : UInt8) : Bool :=
  (0x80 ≤ b2 && b2 ≤ 0x8A) || b2 == 0xA8 || b2 == 0xA9 || b2 == 0xAF

/-- The length of a white space character of two or three bytes at the start of what is left,
or 0. A comparison behind the end fails, as the checks of the length do.
-/
def utf8WhitespaceLen (buf : List UInt8) : Nat :=
  if buf[0]? = some 0xC2 ∧ buf[1]? = some 0xA0 then 2
  else if buf[0]? = some 0xE1 ∧ buf[1]? = some 0x9A ∧ buf[2]? = some 0x80 then 3
  else if buf[0]? = some 0xE2 ∧ buf[1]? = some 0x80 ∧ buf[2]?.any isGeneralSpace then 3
  else if buf[0]? = some 0xE2 ∧ buf[1]? = some 0x81 ∧ buf[2]? = some 0x9F then 3
  else if buf[0]? = some 0xE3 ∧ buf[1]? = some 0x80 ∧ buf[2]? = some 0x80 then 3
  else if buf[0]? = some 0xEF ∧ buf[1]? = some 0xBB ∧ buf[2]? = some 0xBF then 3
  else 0

/-- White space of one byte. -/
def isSpace (c : UInt8) : Bool :=
  c == 0x20 || c == 0x09 || c == 0x0A || c == 0x0D || c == 0x0B || c == 0x0C

/-- What is left behind leading white space. -/
def skipWhitespace : List UInt8 → List UInt8
  | [] => []
  | c :: rest =>
      if isSpace c then skipWhitespace rest
      else if 0 < utf8WhitespaceLen (c :: rest) then
        skipWhitespace ((c :: rest).drop (utf8WhitespaceLen (c :: rest)))
      else c :: rest
termination_by src => src.length
decreasing_by
  · simp
  · rw [List.length_drop, List.length_cons]
    omega

-----------------------------------------------------------------------------------------
-- The scan
-----------------------------------------------------------------------------------------

def infinityText : List UInt8 := [0x49, 0x6E, 0x66, 0x69, 0x6E, 0x69, 0x74, 0x79]

/-- Behind a point and its digits, and whether there is a digit. -/
def skipFraction : List UInt8 → List UInt8 × Bool
  | 0x2E :: digits =>
      let rest := digits.dropWhile isDigit
      (rest, decide (rest.length < digits.length))
  | src => (src, false)

/-- Behind an exponent. One without digits is no part of the literal. -/
def skipExponent (src : List UInt8) : List UInt8 :=
  match src with
  | 0x65 :: behind | 0x45 :: behind =>
      let digits := skipExponentSign behind
      let rest := digits.dropWhile isDigit
      if rest.length < digits.length then rest else src
  | _ => src

/-- What is left behind an unsigned literal. There is no result when it has no digits at all. -/
def matchDecimal (src : List UInt8) : Option (List UInt8) :=
  let fraction := src.dropWhile isDigit
  let sawIntDigit := decide (fraction.length < src.length)
  let (rest, sawFracDigit) := skipFraction fraction
  if !sawIntDigit && !sawFracDigit then none else some (skipExponent rest)

/-- The size of the buffer for the literal and the NUL behind it. -/
def litBufLen : Nat := 512

/-- `builtin_parse_float` on the bytes of its argument, which can be absent. -/
def builtinParseFloat (strtod : List UInt8 → Double) (h : Option (List UInt8)) : TVal :=
  match h with
  | none | some [] => TVal.setNumber doubleNan
  | some cstr =>
      let start := skipWhitespace cstr
      let src := skipExponentSign start
      if infinityText.isPrefixOf src then
        TVal.setNumber (if start.head? = some 0x2D then negativeInf else doubleInf)
      else
        match matchDecimal src with
        | none => TVal.setNumber doubleNan
        | some rest =>
            let matchLen := start.length - rest.length
            TVal.setNumber (strtod (start.take (min matchLen (litBufLen - 1))))

-----------------------------------------------------------------------------------------
-- Decimal literals
-----------------------------------------------------------------------------------------

/-- White space and line terminators, as code units. -/
def isStrWhiteSpace (u : Nat) : Bool :=
  u ∈ [0x09, 0x0A, 0x0B, 0x0C, 0x0D, 0x20, 0xA0, 0x1680, 0x2028, 0x2029, 0x202F, 0x205F, 0x3000,
    0xFEFF] || (0x2000 ≤ u && u ≤ 0x200A)

/-- An optional sign, which is minus or not. -/
def signText : Option Bool → List UInt8
  | some true => [0x2D]
  | some false => [0x2B]
  | none => []

/-- A decimal literal: digits, a fraction that can be a point alone, and an exponent. -/
structure StrDecimal where
  sign : Option Bool
  integer : List (Fin 10)
  fraction : Option (List (Fin 10))
  exponent : Option Exponent
  digits : integer ≠ [] ∨ fraction.getD [] ≠ []

def StrDecimal.fractionText (fraction : Option (List (Fin 10))) : List UInt8 :=
  match fraction with
  | some digits => 0x2E :: digits.map digitChar
  | none => []

def StrDecimal.exponentText (exponent : Option Exponent) : List UInt8 :=
  (exponent.map Exponent.text).getD []

/-- The letter of an exponent and its sign. -/
def exponentLead (upper : Bool) (sign : Option Bool) : List UInt8 :=
  (if upper then 0x45 else 0x65) :: signText sign

def StrDecimal.text (literal : StrDecimal) : List UInt8 :=
  signText literal.sign ++ (literal.integer.map digitChar
    ++ (fractionText literal.fraction ++ exponentText literal.exponent))

/-- The number that the literal stands for, without its sign. -/
def StrDecimal.magnitude (literal : StrDecimal) : ℚ :=
  let fraction := literal.fraction.getD []
  digitsValue (literal.integer ++ fraction)
    * 10 ^ ((literal.exponent.map Exponent.value).getD 0 - fraction.length)

/-- A literal that `parseFloat` reads. -/
inductive StrDecimalLiteral where
  | infinity (sign : Option Bool)
  | decimal (literal : StrDecimal)

def StrDecimalLiteral.text : StrDecimalLiteral → List UInt8
  | .infinity sign => signText sign ++ infinityText
  | .decimal literal => literal.text

/-- The double of a decimal literal, by a conversion of its sign and its magnitude. -/
def StrDecimal.number (convert : Bool → ℚ → Double) (literal : StrDecimal) : Double :=
  convert (literal.sign == some true) literal.magnitude

def StrDecimalLiteral.number (convert : Bool → ℚ → Double) : StrDecimalLiteral → Double
  | .infinity sign => if sign = some true then negativeInf else doubleInf
  | .decimal literal => literal.number convert

/-- The code units start with the literal. -/
def StrDecimalLiteral.Heads (literal : StrDecimalLiteral) (us : List Nat) : Prop :=
  literal.text.map UInt8.toNat <+: us

/-- The literal is the longest that the code units start with. -/
def StrDecimalLiteral.Longest (literal : StrDecimalLiteral) (us : List Nat) : Prop :=
  literal.Heads us
  ∧ ∀ other : StrDecimalLiteral, other.Heads us → other.text.length ≤ literal.text.length

end Boomkat.Globals
