import Mathlib.Tactic.Common

/-! The register allocator of the compiler, whose numbers have 16 bits. An overflow is flagged and
the numbers are clamped, since the code is then never run.
-/

namespace Boomkat.Compiler

def maxRegisters : Nat := 65535

/-- The ceiling where there is none. -/
def noCap : UInt16 := 0xFFFF

/-- The fields of `CompilerContext` that the allocator uses. -/
structure RegAlloc where
  nextReg : UInt16
  maxReg : UInt16
  reservedRegs : UInt16
  regCap : UInt16
  regOverflow : Bool
  deriving DecidableEq

namespace RegAlloc

def new : RegAlloc := ⟨0, 0, 0, noCap, false⟩

/-- Flag the overflow, with both numbers at a ceiling. -/
def clamp (s : RegAlloc) (ceiling : Nat) : RegAlloc :=
  { s with regOverflow := true, nextReg := ceiling.toUInt16, maxReg := ceiling.toUInt16 }

/-- The register that a call returns which flags an overflow. -/
def lastRegister : UInt16 := (maxRegisters - 1).toUInt16

/-- The high-water mark after a change of `next_reg`. -/
def raiseMax (s : RegAlloc) : RegAlloc :=
  if s.maxReg < s.nextReg then { s with maxReg := s.nextReg } else s

/-- `alloc_reg` -/
def allocReg (s : RegAlloc) : UInt16 × RegAlloc :=
  if s.regCap ≠ noCap ∧ s.regCap ≤ s.nextReg then (lastRegister, s.clamp maxRegisters)
  else if maxRegisters < s.nextReg.toNat + 1 then (lastRegister, s.clamp (maxRegisters - 1))
  else (s.nextReg, { s with nextReg := s.nextReg + 1 }.raiseMax)

/-- `alloc_regs`, which looks at the first register of several for the ceiling. -/
def allocRegs (s : RegAlloc) (count : UInt16) : UInt16 × RegAlloc :=
  if s.regCap ≠ noCap ∧ s.regCap ≤ s.nextReg then (lastRegister, s.clamp maxRegisters)
  else if maxRegisters < s.nextReg.toNat + count.toNat then
    (lastRegister, s.clamp (maxRegisters - 1))
  else (s.nextReg, { s with nextReg := s.nextReg + count }.raiseMax)

/-- `alloc_persistent_reg` -/
def allocPersistentReg (s : RegAlloc) : UInt16 × RegAlloc := s.allocReg

/-- `free_reg`. The sum is one of 32 bits. -/
def freeReg (s : RegAlloc) (reg : UInt16) : RegAlloc :=
  if reg.toNat + 1 = s.nextReg.toNat ∧ s.reservedRegs ≤ reg then { s with nextReg := s.nextReg - 1 }
  else s

/-- `free_regs_to` -/
def freeRegsTo (s : RegAlloc) (saved : UInt16) : RegAlloc :=
  let saved := if saved < s.reservedRegs then s.reservedRegs else saved
  if saved < s.nextReg then { s with nextReg := saved } else s

/-- `reserve_call_frame`, which does not look at the ceiling. -/
def reserveCallFrame (s : RegAlloc) (calleeReg nargs : UInt16) : RegAlloc :=
  let frameTop := calleeReg.toNat + 2 + nargs.toNat
  if maxRegisters < frameTop then s.clamp (maxRegisters - 1)
  else
    let s := if s.nextReg.toNat < frameTop then { s with nextReg := frameTop.toUInt16 } else s
    s.raiseMax

end RegAlloc

-----------------------------------------------------------------------------------------
-- Runs
-----------------------------------------------------------------------------------------

/-- The operations, and the two assignments of the compiler between them: the ceiling is set for the
arguments behind a spread one, and the registers so far are reserved for the function.
-/
inductive RegOp where
  | allocReg
  | allocRegs (count : UInt16)
  | allocPersistentReg
  | freeReg (reg : UInt16)
  | freeRegsTo (saved : UInt16)
  | reserveCallFrame (calleeReg nargs : UInt16)
  | setCap (cap : UInt16)
  | setReserved

def RegOp.run (s : RegAlloc) : RegOp → RegAlloc
  | .allocReg => s.allocReg.2
  | .allocRegs count => (s.allocRegs count).2
  | .allocPersistentReg => s.allocPersistentReg.2
  | .freeReg reg => s.freeReg reg
  | .freeRegsTo saved => s.freeRegsTo saved
  | .reserveCallFrame calleeReg nargs => s.reserveCallFrame calleeReg nargs
  | .setCap cap => { s with regCap := cap }
  | .setReserved => { s with reservedRegs := s.nextReg }

/-- The first register that an operation returns and the number of them. -/
def RegOp.returned (s : RegAlloc) : RegOp → Option (UInt16 × Nat)
  | .allocReg => some (s.allocReg.1, 1)
  | .allocRegs count => some ((s.allocRegs count).1, count.toNat)
  | .allocPersistentReg => some (s.allocPersistentReg.1, 1)
  | _ => none

/-- The registers that an operation hands out. One that flags an overflow hands out none, nor does
any one behind it.
-/
def RegOp.handedOut (s : RegAlloc) (op : RegOp) : List Nat :=
  if (op.run s).regOverflow then []
  else
    match op.returned s with
    | some (first, count) => List.range' first.toNat count
    | none => []

def RegOp.isFree : RegOp → Bool
  | .freeReg _ | .freeRegsTo _ => true
  | _ => false

/-- The registers of a call that an operation reserves. -/
def RegOp.callFrame : RegOp → List Nat
  | .reserveCallFrame calleeReg nargs => List.range' calleeReg.toNat (2 + nargs.toNat)
  | _ => []

/-- The allocator with the registers that were handed out and not freed since. -/
structure Allocation where
  regs : RegAlloc
  held : List Nat

def Allocation.new : Allocation := ⟨.new, []⟩

/-- An operation. One that frees gives back the registers from the new `next_reg` on. -/
def Allocation.step (a : Allocation) (op : RegOp) : Option Allocation :=
  let next := op.run a.regs
  let kept := if op.isFree then a.held.filter (· < next.nextReg.toNat) else a.held
  some ⟨next, op.handedOut a.regs ++ kept⟩

end Boomkat.Compiler
