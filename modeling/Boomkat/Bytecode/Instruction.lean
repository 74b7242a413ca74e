import Boomkat.Bytecode.Opcode
import Mathlib.Data.Nat.Bitwise
import Mathlib.Tactic.Common

/-! The 32-bit instruction word: encoders, accessors and the round trips between them. -/

namespace Boomkat.Bytecode

-----------------------------------------------------------------------------------------
-- Words, encoders and accessors
-----------------------------------------------------------------------------------------

/-- One instruction word: an opcode and three 8-bit fields. -/
structure Instruction where
  op : Opcode
  a : BitVec 8
  b : BitVec 8
  c : BitVec 8
  deriving DecidableEq, Repr

/-- Bias of the signed 16-bit operand. -/
def bcBias : Int := 0x8000

/-- Bias of the signed 24-bit operand. -/
def abcBias : Int := 0x800000

/-- The conversion `(uint)x` of a signed value: reduction modulo `2 ^ 32`. -/
def toUint (x : Int) : Nat := (x % 0x100000000).toNat

/-- Encode a word with three separate fields, each masked to 8 bits. -/
def makeAbc (op : Opcode) (a b c : Nat) : Instruction :=
  { op := op, a := BitVec.ofNat 8 a, b := BitVec.ofNat 8 b, c := BitVec.ofNat 8 c }

/-- Encode a word with a 16-bit operand split over fields B (low) and C (high). -/
def makeABc (op : Opcode) (a bc : Nat) : Instruction :=
  makeAbc op a bc (bc >>> 8)

/-- Encode a word with a 24-bit operand split over fields A, B and C. -/
def makeAbcWide (op : Opcode) (abc : Nat) : Instruction :=
  makeAbc op abc (abc >>> 8) (abc >>> 16)

/-- Encode a word with a biased signed 16-bit operand. -/
def makeASbx (op : Opcode) (a : Nat) (sbx : Int) : Instruction :=
  makeABc op a (toUint (sbx + bcBias))

/-- Encode a word with a biased signed 24-bit operand. -/
def makeSabc (op : Opcode) (sabc : Int) : Instruction :=
  makeAbcWide op (toUint (sabc + abcBias))

/-- The unsigned 16-bit operand `C << 8 | B`. -/
def Instruction.getBc (ins : Instruction) : Nat := ins.c.toNat <<< 8 ||| ins.b.toNat

/-- The signed 16-bit operand. -/
def Instruction.getSbc (ins : Instruction) : Int := ins.getBc - bcBias

/-- The unsigned 24-bit operand `C << 16 | B << 8 | A`. -/
def Instruction.getAbc (ins : Instruction) : Nat :=
  ins.c.toNat <<< 16 ||| ins.b.toNat <<< 8 ||| ins.a.toNat

/-- The signed 24-bit operand. -/
def Instruction.getSabc (ins : Instruction) : Int := ins.getAbc - abcBias

/-- The cast `(ichar)` of field A: its signed 8-bit reading. -/
def Instruction.icharA (ins : Instruction) : Int := ins.a.toInt

/-- The word every rewriting pass leaves behind: `make_abc(NOP, 0, 0, 0)`. -/
def nopWord : Instruction := makeAbc .nop 0 0 0

-----------------------------------------------------------------------------------------
-- Operands after the expansion of a WIDE prefix
-----------------------------------------------------------------------------------------

/-- An instruction whose operands carry their effective values. -/
structure DecodedInsn where
  op : Opcode
  a : Nat
  b : Nat
  c : Nat
  deriving DecidableEq, Repr

/-- Operands of a word without a prefix. -/
def Instruction.decode (word : Instruction) : DecodedInsn :=
  { op := word.op, a := word.a.toNat, b := word.b.toNat, c := word.c.toNat }

/-- Operands of `payload` when the word before it is the WIDE prefix `word`. -/
def Instruction.expand (word payload : Instruction) : DecodedInsn :=
  {
    op := payload.op
    a := word.a.toNat <<< 8 ||| payload.a.toNat
    b := word.b.toNat <<< 8 ||| payload.b.toNat
    c := word.c.toNat <<< 8 ||| payload.c.toNat
  }

/-- The 16-bit operand of a decoded instruction. -/
def DecodedInsn.getBc (insn : DecodedInsn) : Nat := insn.c <<< 8 ||| insn.b

/-- The signed 16-bit operand of a decoded instruction. -/
def DecodedInsn.getSbc (insn : DecodedInsn) : Int := insn.getBc - bcBias

/-- The signed 24-bit operand of a decoded instruction. -/
def DecodedInsn.getSabc (insn : DecodedInsn) : Int :=
  (insn.c <<< 16 ||| insn.b <<< 8 ||| insn.a : Nat) - abcBias

/-- The cast `(ichar)insn.a`. -/
def DecodedInsn.icharA (insn : DecodedInsn) : Int := (BitVec.ofNat 8 insn.a).toInt

/-- The cast `(ichar)insn.c`. -/
def DecodedInsn.icharC (insn : DecodedInsn) : Int := (BitVec.ofNat 8 insn.c).toInt

@[simp] theorem Instruction.decode_op (ins : Instruction) : ins.decode.op = ins.op := rfl

@[simp] theorem Instruction.decode_a (ins : Instruction) : ins.decode.a = ins.a.toNat := rfl

@[simp] theorem Instruction.decode_b (ins : Instruction) : ins.decode.b = ins.b.toNat := rfl

@[simp] theorem Instruction.decode_c (ins : Instruction) : ins.decode.c = ins.c.toNat := rfl

@[simp] theorem Instruction.decode_getBc (ins : Instruction)
    : ins.decode.getBc = ins.getBc := rfl

@[simp] theorem Instruction.decode_getSbc (ins : Instruction)
    : ins.decode.getSbc = ins.getSbc := rfl

@[simp] theorem Instruction.decode_getSabc (ins : Instruction)
    : ins.decode.getSabc = ins.getSabc := rfl

@[simp] theorem Instruction.decode_icharA (ins : Instruction)
    : ins.decode.icharA = ins.icharA := by
  simp [DecodedInsn.icharA, Instruction.icharA]

-----------------------------------------------------------------------------------------
-- Round trips
-----------------------------------------------------------------------------------------

/-- The 16-bit operand as a sum of its bytes. -/
theorem Instruction.getBc_eq (ins : Instruction)
    : ins.getBc = ins.c.toNat * 256 + ins.b.toNat := by
  have low : ins.b.toNat < 2 ^ 8 := ins.b.isLt
  rw [Instruction.getBc, ← Nat.shiftLeft_add_eq_or_of_lt low, Nat.shiftLeft_eq]

/-- The 24-bit operand as a sum of its bytes. -/
theorem Instruction.getAbc_eq (ins : Instruction)
    : ins.getAbc = ins.c.toNat * 65536 + ins.b.toNat * 256 + ins.a.toNat := by
  have low : ins.a.toNat < 2 ^ 8 := ins.a.isLt
  have middle : ins.b.toNat < 2 ^ 8 := ins.b.isLt
  have split : ins.getAbc = (ins.c.toNat <<< 8 ||| ins.b.toNat) <<< 8 ||| ins.a.toNat := by
    rw [Instruction.getAbc, Nat.shiftLeft_or_distrib, ← Nat.shiftLeft_add]
  rw [split, ← Nat.shiftLeft_add_eq_or_of_lt low, ← Nat.shiftLeft_add_eq_or_of_lt middle,
    Nat.shiftLeft_eq, Nat.shiftLeft_eq]
  omega

/-- A 16-bit operand survives encoding.
Witness: its two bytes recombine by division with remainder.
-/
theorem makeABc_getBc (op : Opcode) (a : Nat) {bc : Nat} (fits : bc < 65536)
    : (makeABc op a bc).getBc = bc := by
  rw [Instruction.getBc_eq]
  simp only [makeABc, makeAbc, BitVec.toNat_ofNat, Nat.shiftRight_eq_div_pow]
  omega

/-- A 24-bit operand survives encoding. -/
theorem makeAbcWide_getAbc (op : Opcode) {abc : Nat} (fits : abc < 16777216)
    : (makeAbcWide op abc).getAbc = abc := by
  rw [Instruction.getAbc_eq]
  simp only [makeAbcWide, makeAbc, BitVec.toNat_ofNat, Nat.shiftRight_eq_div_pow]
  omega

/-- A signed 16-bit operand in range survives encoding. -/
theorem makeASbx_getSbc (op : Opcode) (a : Nat) {sbx : Int}
    (low : -0x8000 ≤ sbx) (high : sbx ≤ 0x7FFF)
    : (makeASbx op a sbx).getSbc = sbx := by
  have encoded : toUint (sbx + bcBias) < 65536 := by
    simp only [toUint, bcBias]
    omega
  rw [Instruction.getSbc, makeASbx, makeABc_getBc op a encoded]
  simp only [toUint, bcBias]
  omega

/-- A signed 24-bit operand in range survives encoding. -/
theorem makeSabc_getSabc (op : Opcode) {sabc : Int}
    (low : -0x800000 ≤ sabc) (high : sabc ≤ 0x7FFFFF)
    : (makeSabc op sabc).getSabc = sabc := by
  have encoded : toUint (sabc + abcBias) < 16777216 := by
    simp only [toUint, abcBias]
    omega
  rw [Instruction.getSabc, makeSabc, makeAbcWide_getAbc op encoded]
  simp only [toUint, abcBias]
  omega

/-- A signed byte survives the cast to an unsigned field and back. -/
theorem ichar_toUint {imm : Int} (low : -128 ≤ imm) (high : imm ≤ 127)
    : (BitVec.ofNat 8 (toUint imm)).toInt = imm := by
  simp only [BitVec.toInt_eq_toNat_cond, BitVec.toNat_ofNat, toUint]
  split <;> omega

/-- A signed 8-bit field is in range. -/
theorem Instruction.icharA_range (ins : Instruction)
    : -128 ≤ ins.icharA ∧ ins.icharA ≤ 127 := by
  have low := BitVec.le_toInt ins.a
  have high := BitVec.toInt_lt (x := ins.a)
  simp only [Instruction.icharA]
  omega

/-- A signed byte in field A survives encoding. -/
theorem makeAbc_icharA {imm : Int} (low : -128 ≤ imm) (high : imm ≤ 127) (op : Opcode)
    (b c : Nat)
    : (makeAbc op (toUint imm) b c).decode.icharA = imm := by
  simp only [makeAbc, Instruction.decode, DecodedInsn.icharA, BitVec.ofNat_toNat,
    BitVec.setWidth_eq, ichar_toUint low high]

/-- A signed byte in field C survives encoding. -/
theorem makeAbc_icharC {imm : Int} (low : -128 ≤ imm) (high : imm ≤ 127) (op : Opcode)
    (a b : Nat)
    : (makeAbc op a b (toUint imm)).decode.icharC = imm := by
  simp only [makeAbc, Instruction.decode, DecodedInsn.icharC, BitVec.ofNat_toNat,
    BitVec.setWidth_eq, ichar_toUint low high]

end Boomkat.Bytecode
