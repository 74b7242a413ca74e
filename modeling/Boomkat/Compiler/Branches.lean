import Boomkat.Bytecode.Instruction

/-! Branches of the compiler: emission into the growing code buffer, and patches of the branches that
were emitted before their target was known.
-/

namespace Boomkat.Compiler

open Bytecode

-----------------------------------------------------------------------------------------
-- Emission
-----------------------------------------------------------------------------------------

def maxCodeHard : Nat := 2 ^ 22

def maxPatches : Nat := 2048

def noPatch : Nat := 0xFFFFFFFF

structure PatchEntry where
  addr : Nat
  next : Nat

/-- The code of a function so far. An error or too many patches make the compilation fail. -/
structure Emitter where
  code : List Instruction
  codeCap : Nat
  hasWide : Bool
  error : Bool
  patches : List PatchEntry
  patchOverflow : Bool

namespace Emitter

/-- Whether `finish` reports an error. -/
def fails (s : Emitter) : Bool := s.error || s.patchOverflow

/-- `ensure_code_cap`, given whether there is memory. -/
def ensureCodeCap (s : Emitter) (memory : Bool) : Emitter :=
  if s.code.length < s.codeCap then s
  else if maxCodeHard < s.codeCap * 2 then { s with error := true }
  else if ¬memory then { s with error := true }
  else { s with codeCap := s.codeCap * 2 }

/-- `emit`, with the index of the instruction. -/
def emit (s : Emitter) (memory : Bool) (inst : Instruction) : Emitter × Nat :=
  let s := s.ensureCodeCap memory
  if s.codeCap ≤ s.code.length then (s, s.code.length)
  else ({ s with code := s.code ++ [inst] }, s.code.length)

def makeWide (extA extB extC : Nat) : Instruction := makeAbc .wide extA extB extC

def emitWide (s : Emitter) (memory : Bool) (extA extB extC : Nat) : Emitter × Nat :=
  { s with hasWide := true }.emit memory (makeWide extA extB extC)

/-- The prefix of a branch whose register has more than eight bits. -/
def emitPrefix (s : Emitter) (memory : Bool) (a : Nat) : Emitter :=
  if 0xFF < a then (s.emitWide memory (a >>> 8) 0 0).1 else s

/-- `emit_cond_jump_back` -/
def emitCondJumpBack (s : Emitter) (memoryWide memory : Bool) (op : Opcode) (a target : Nat)
    : Emitter × Nat :=
  let s := s.emitPrefix memoryWide a
  s.emit memory (makeASbx op a ((target : Int) - s.code.length - 1))

-----------------------------------------------------------------------------------------
-- Patches
-----------------------------------------------------------------------------------------

/-- The branches with an offset of 24 bits. -/
def isLongJump (op : Opcode) : Bool := op == .jump || op == .break_ || op == .continue_

/-- A branch with its offset for a target, by its opcode. -/
def aimed (inst : Instruction) (addr target : Nat) : Instruction :=
  let offset : Int := (target : Int) - addr - 1
  if isLongJump inst.op then makeSabc inst.op offset
  else makeASbx inst.op inst.a.toNat offset

/-- `patch_jump_to` -/
def patchJumpTo (s : Emitter) (addr target : Nat) : Emitter :=
  if target < s.code.length then { s with code := s.code.modify addr (aimed · addr target) }
  else s

/-- `patch_jump` -/
def patchJump (s : Emitter) (addr : Nat) : Emitter :=
  { s with code := s.code.modify addr (aimed · addr s.code.length) }

/-- `add_patch` -/
def addPatch (s : Emitter) (chainHead addr : Nat) : Emitter × Nat :=
  if maxPatches ≤ s.patches.length then ({ s with patchOverflow := true }, chainHead)
  else ({ s with patches := s.patches ++ [⟨addr, chainHead⟩] }, s.patches.length)

/-- `patch_chain`, with fuel for the walk along the chain. -/
def patchChain (s : Emitter) (head : Nat) : Nat → Option Emitter
  | 0 => none
  | fuel + 1 =>
      if head = noPatch then some s
      else
        match s.patches[head]? with
        | none => some s
        | some entry => (s.patchJump entry.addr).patchChain entry.next fuel

/-- A jump with its offset for a target, whatever its opcode. -/
def aimedLong (inst : Instruction) (addr target : Nat) : Instruction :=
  makeSabc inst.op ((target : Int) - addr - 1)

/-- `patch_continue_chain`, with fuel for the walk along the chain. -/
def patchContinueChain (s : Emitter) (head target : Nat) : Nat → Option Emitter
  | 0 => none
  | fuel + 1 =>
      if head = noPatch then some s
      else
        (s.patches[head]?).bind fun entry =>
          { s with code := s.code.modify entry.addr (aimedLong · entry.addr target) }.patchContinueChain
            entry.next target fuel

end Emitter

end Boomkat.Compiler
