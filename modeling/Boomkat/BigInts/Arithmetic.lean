import Boomkat.Bytecode.Opcode
import Mathlib.Data.Int.Bitwise

/-! The 128-bit integers behind BigInt values, their checked arithmetic and the operators of
the virtual machine on them.
-/

namespace Boomkat.BigInts
open Bytecode

/-- The payload of a BigInt box. Its operators wrap around. -/
abbrev Int128 := BitVec 128

def bigintMin : Int128 := 0x80000000000000000000000000000000

/-- The faults of BigInt code. -/
inductive Fault where
  | bigintOverflow | bigintDivZero | bigintSyntax
  deriving DecidableEq, Repr

instance decidableEqChecked : DecidableEq (Except Fault Int128)
  | .ok a, .ok b => decidable_of_iff (a = b) (by simp)
  | .error a, .error b => decidable_of_iff (a = b) (by simp)
  | .ok _, .error _ => isFalse nofun
  | .error _, .ok _ => isFalse nofun

-----------------------------------------------------------------------------------------
-- Checked arithmetic
-----------------------------------------------------------------------------------------

/-- Overflow shows when both operands share a sign that the result does not have. -/
def bigintAdd (a b : Int128) : Except Fault Int128 :=
  let r := a + b
  if ((a ^^^ r) &&& (b ^^^ r)).slt 0 then .error .bigintOverflow else .ok r

def bigintSub (a b : Int128) : Except Fault Int128 :=
  let r := a - b
  if ((a ^^^ b) &&& (a ^^^ r)).slt 0 then .error .bigintOverflow else .ok r

def bigintNeg (a : Int128) : Except Fault Int128 :=
  if a = bigintMin then .error .bigintOverflow else .ok (-a)

/-- Overflow is detected by dividing back. -/
def bigintMul (a b : Int128) : Except Fault Int128 :=
  if a = 0 ∨ b = 0 then .ok 0
  else
    let r := a * b
    if a = bigintMin ∧ b = -1 ∨ b = bigintMin ∧ a = -1 then .error .bigintOverflow
    else if r.sdiv b ≠ a then .error .bigintOverflow
    else .ok r

/-- The quotient, truncated toward zero. -/
def bigintDiv (a b : Int128) : Except Fault Int128 :=
  if b = 0 then .error .bigintDivZero
  else if a = bigintMin ∧ b = -1 then .error .bigintOverflow
  else .ok (a.sdiv b)

/-- The remainder, with the sign of the dividend. -/
def bigintRem (a b : Int128) : Except Fault Int128 :=
  if b = 0 then .error .bigintDivZero
  else if a = bigintMin ∧ b = -1 then .ok 0
  else .ok (a.srem b)

/-- The loop of `bigint_pow`. Here `exp` is not negative, so that it is read as a natural
number; the base is squared only while a bit of it is left.
-/
def powLoop (result base : Int128) (exp : Nat) : Except Fault Int128 :=
  if positive : exp = 0 then .ok result
  else
    (if exp % 2 = 1 then bigintMul result base else .ok result).bind fun result =>
      if exp / 2 = 0 then .ok result
      else (bigintMul base base).bind fun base => powLoop result base (exp / 2)
termination_by exp
decreasing_by omega

def bigintPow (a b : Int128) : Except Fault Int128 :=
  if b.slt 0 then .error .bigintOverflow else powLoop 1 a b.toNat

-----------------------------------------------------------------------------------------
-- Shifts and steps
-----------------------------------------------------------------------------------------

/-- `count` bits to the left, where shifting back has to recover the value. -/
def shiftLeftChecked (v : Int128) (count : Nat) : Except Fault Int128 :=
  let r := v <<< count
  if r.sshiftRight count ≠ v then .error .bigintOverflow else .ok r

/-- What an arithmetic shift by the width or more leaves of a value. -/
def shiftedOut (v : Int128) : Int128 := if v.slt 0 then -1 else 0

/-- The operator `<<`. A negative count shifts right. -/
def vmBigintShl (v count : Int128) : Except Fault Int128 :=
  if count = 0 then .ok v
  else if count.slt 0 then
    if count.sle (-128) then .ok (shiftedOut v) else .ok (v.sshiftRight (-count).toNat)
  else if v = 0 then .ok 0
  else if (128 : Int128).sle count then .error .bigintOverflow
  else shiftLeftChecked v count.toNat

/-- The operator `>>`. A negative count shifts left. -/
def vmBigintShr (v count : Int128) : Except Fault Int128 :=
  if count = 0 then .ok v
  else if (0 : Int128).slt count then
    if (128 : Int128).sle count then .ok (shiftedOut v) else .ok (v.sshiftRight count.toNat)
  else if v = 0 then .ok 0
  else if count.sle (-128) then .error .bigintOverflow
  else shiftLeftChecked v (-count).toNat

def bigintStep (v : Int128) (inc : Bool) : Except Fault Int128 :=
  if inc then bigintAdd v 1 else bigintSub v 1

-----------------------------------------------------------------------------------------
-- The operators of the virtual machine
-----------------------------------------------------------------------------------------

/-- An error the machine throws. -/
inductive Thrown where
  | typeError (message : String)
  | rangeError (message : String)
  deriving DecidableEq, Repr

/-- The outcome of an operator that may meet BigInt operands. -/
inductive BigIntOpResult where
  | notBigint
  | handled (value : Int128)
  | threw (error : Thrown)
  deriving DecidableEq, Repr

def exceedsPrecision : Thrown := .rangeError "BigInt value exceeds supported precision"

/-- How a binary operator ends once its result is there. -/
def finishBinop : Except Fault Int128 → BigIntOpResult
  | .ok value => .handled value
  | .error .bigintDivZero => .threw (.rangeError "Division by zero")
  | .error _ => .threw exceedsPrecision

/-- A binary operator on two primitive values, of which a BigInt is given by its payload. -/
def vmBigintBinop (op : Opcode) : Option Int128 → Option Int128 → BigIntOpResult
  | none, none => .notBigint
  | some a, some b =>
      match op with
      | .add => finishBinop (bigintAdd a b)
      | .sub => finishBinop (bigintSub a b)
      | .mul => finishBinop (bigintMul a b)
      | .div => finishBinop (bigintDiv a b)
      | .mod => finishBinop (bigintRem a b)
      | .exp =>
          if b.slt 0 then .threw (.rangeError "Exponent must be non-negative")
          else finishBinop (bigintPow a b)
      | .band => finishBinop (.ok (a &&& b))
      | .bor => finishBinop (.ok (a ||| b))
      | .bxor => finishBinop (.ok (a ^^^ b))
      | .shl => finishBinop (vmBigintShl a b)
      | .shr => finishBinop (vmBigintShr a b)
      | .ushr =>
          .threw (.typeError "BigInts have no unsigned right shift, use >> instead")
      | _ => .threw (.typeError "Cannot use BigInt operand with this operator")
  | _, _ =>
      .threw (.typeError "Cannot mix BigInt and other types, use explicit conversions")

/-- How a unary operator or a step ends once its result is there. -/
def finishUnary : Except Fault Int128 → BigIntOpResult
  | .ok value => .handled value
  | .error _ => .threw exceedsPrecision

def vmBigintIncdec (v : Int128) (inc : Bool) : BigIntOpResult := finishUnary (bigintStep v inc)

def vmBigintUnary (op : Opcode) : Option Int128 → BigIntOpResult
  | none => .notBigint
  | some a =>
      match op with
      | .unm => finishUnary (bigintNeg a)
      | .bnot => finishUnary (.ok (~~~a))
      | .unp => .threw (.typeError "Cannot convert a BigInt value to a number")
      | _ => .threw (.typeError "Cannot use BigInt operand with this operator")

end Boomkat.BigInts
