import Boomkat.BigInts.Arithmetic

/-! `BigInt.asUintN` and `BigInt.asIntN`. -/

namespace Boomkat.BigInts

/-- The bit count of a call from the integer its first argument converts to. An infinity is
refused like any integer beyond the bound.
-/
def bigintReadBits (bits : Int) : Except Thrown Nat :=
  if bits < 0 ∨ 4294967295 < bits then
    .error (.rangeError "Invalid bit count for BigInt.asIntN/asUintN")
  else .ok bits.toNat

/-- The low bits set, below 128 of them. -/
def lowMask (bits : Nat) : Int128 := ((1 : Int128) <<< bits) - 1

/-- `builtin_bigint_as_uintn` on a bit count and a BigInt. -/
def builtinBigintAsUintn (bits : Int) (x : Int128) : Except Thrown Int128 := do
  let bits ← bigintReadBits bits
  if bits = 0 then .ok 0
  else if 128 ≤ bits then
    if bits = 128 ∧ ¬x.slt 0 then .ok x
    else .error (.rangeError "BigInt.asUintN result exceeds supported precision")
  else .ok (x &&& lowMask bits)

/-- `builtin_bigint_as_intn` on a bit count and a BigInt. -/
def builtinBigintAsIntn (bits : Int) (x : Int128) : Except Thrown Int128 := do
  let bits ← bigintReadBits bits
  if bits = 0 then .ok 0
  else if 128 ≤ bits then .ok x
  else
    let m := x &&& lowMask bits
    let signBit := (1 : Int128) <<< (bits - 1)
    if m &&& signBit ≠ 0 then .ok (m - ((1 : Int128) <<< bits)) else .ok m

end Boomkat.BigInts
