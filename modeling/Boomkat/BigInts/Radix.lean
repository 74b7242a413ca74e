import Boomkat.BigInts.Arithmetic

/-! 128-bit integers as text: digits in a radix, and the strings that stand for a BigInt. -/

namespace Boomkat.BigInts

-----------------------------------------------------------------------------------------
-- To text
-----------------------------------------------------------------------------------------

def digitChar (d : Nat) : UInt8 := if d < 10 then 0x30 + d.toUInt8 else 0x61 + (d.toUInt8 - 10)

/-- The loop of `int128_to_radix`, which fills the buffer from its end. The value is not positive, so
that the remainder is not either. There is no result if the buffer has no room.
-/
def writeDigits (r n : Int128) (written : List UInt8) : Nat → Option (List UInt8)
  | 0 => if n = 0 then some written else none
  | room + 1 =>
      if n = 0 then some written
      else writeDigits r (n.sdiv r) (digitChar (-(n.srem r)).toNat :: written) room

/-- `int128_to_radix` with a buffer of some length. -/
def int128ToRadix (v : Int128) (radix bufLen : Nat) : Option (List UInt8) :=
  if v = 0 then if bufLen = 0 then none else some [0x30]
  else
    let neg := v.slt 0
    (writeDigits (BitVec.ofNat 128 radix) (if neg then v else -v) [] bufLen).bind fun digits =>
      if neg then if digits.length = bufLen then none else some (0x2D :: digits)
      else some digits

/-- `int128_to_decimal` -/
def int128ToDecimal (v : Int128) (bufLen : Nat) : Option (List UInt8) := int128ToRadix v 10 bufLen

-----------------------------------------------------------------------------------------
-- From text
-----------------------------------------------------------------------------------------

/-- What a character stands for as a digit of a radix up to 36. -/
def digitOf (c : UInt8) : Option Nat :=
  if 0x30 ≤ c ∧ c ≤ 0x39 then some (c - 0x30).toNat
  else if 0x61 ≤ c ∧ c ≤ 0x7A then some ((c - 0x61).toNat + 10)
  else if 0x41 ≤ c ∧ c ≤ 0x5A then some ((c - 0x41).toNat + 10)
  else none

/-- The loop of `parse_int128_radix`. -/
def parseDigits (radix : Nat) (acc : Int128) (sawDigit : Bool) : List UInt8 → Except Fault Int128
  | [] => if sawDigit then .ok acc else .error .bigintSyntax
  | c :: s =>
      if c = 0x5F then parseDigits radix acc sawDigit s
      else
        match digitOf c with
        | none => .error .bigintSyntax
        | some d =>
            if radix ≤ d then .error .bigintSyntax
            else
              (bigintMul acc (BitVec.ofNat 128 radix)).bind fun scaled =>
                (bigintAdd scaled (BitVec.ofNat 128 d)).bind fun acc => parseDigits radix acc true s

/-- `parse_int128_radix` -/
def parseInt128Radix (s : List UInt8) (radix : Nat) : Except Fault Int128 :=
  parseDigits radix 0 false s

/-- `is_ecma_whitespace` -/
def isEcmaWhitespace (c : UInt8) : Bool :=
  c == 0x09 || c == 0x0B || c == 0x0C || c == 0x20 || c == 0xA0 || c == 0x0A || c == 0x0D

/-- The bytes without the white space at both ends. -/
def trimmed (raw : List UInt8) : List UInt8 :=
  ((raw.dropWhile isEcmaWhitespace).reverse.dropWhile isEcmaWhitespace).reverse

/-- A radix prefix stands before what has no sign. -/
def radixOf : List UInt8 → Nat
  | 0x30 :: p :: _ =>
      if p = 0x78 ∨ p = 0x58 then 16
      else if p = 0x6F ∨ p = 0x4F then 8
      else if p = 0x62 ∨ p = 0x42 then 2
      else 10
  | _ => 10

/-- The digits of a BigInt in a string, with the radix. -/
def parseUnsigned (t : List UInt8) (radix : Nat) : Except Fault Int128 :=
  if t = [] ∨ 0x5F ∈ t then .error .bigintSyntax else parseInt128Radix t radix

/-- `string_to_bigint` -/
def stringToBigint (raw : List UInt8) : Except Fault Int128 :=
  match trimmed raw with
  | [] => .ok 0
  | c :: t =>
      if c = 0x2D then (parseUnsigned t 10).bind bigintNeg
      else if c = 0x2B then parseUnsigned t 10
      else if radixOf (c :: t) = 10 then parseUnsigned (c :: t) 10
      else parseUnsigned (t.drop 1) (radixOf (c :: t))

end Boomkat.BigInts
