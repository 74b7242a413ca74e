import Boomkat.Compiler.JumpTargets

/-! The forward scans that decide whether a scratch register is dead, and the operand tables
they use. The scans walk slots in order; they do not follow the control-flow graph.
-/

namespace Boomkat.Compiler
open Boomkat.Bytecode

/-- `moveelim_producer_allowed`: opcodes taken to be a plain `A = f(B, C)`. -/
def moveelimProducerAllowed : Opcode → Bool
  | .ldreg | .ldconst | .ldint | .ldundef | .ldnull | .ldtrue | .ldfalse | .ldthis | .add
  | .sub | .mul | .div | .mod | .exp | .addi | .subi | .unp | .unm | .bnot | .lnot | .typeof
  | .void | .band | .bor | .bxor | .shl | .shr | .ushr | .eq | .neq | .seq | .sneq | .lt
  | .le | .gt | .ge | .instanceof | .in_ | .getprop | .getproto | .getvar | .getbound
  | .getglobal | .getglobalPrim | .typeofident => true
  | _ => false

/-- `moveelim_a_is_write`. -/
def moveelimAIsWrite (op : Opcode) : Bool := op = .ldintx || moveelimProducerAllowed op

/-- `fusion_abc_reads_reg`, for a word in ABC layout. -/
def fusionAbcReadsReg (ins : Instruction) (reg : Nat) : Bool :=
  match ins.op with
  | .callVar | .callGlobal => false
  | .getpropc => ins.b.toNat = reg
  | _ => ins.b.toNat = reg || ins.c.toNat = reg

/-- The test of fields B and C in copy propagation, for a word in ABC layout. -/
def namesReg (ins : Instruction) (reg : Nat) : Bool :=
  ins.b.toNat = reg || ins.c.toNat = reg

/-- Whether field A of a word is not part of a packed 24-bit operand. -/
def hasFieldA (op : Opcode) : Bool :=
  getOpFormat op ≠ .wideSabc && getOpFormat op ≠ .wideAbc

/-- The scan for `reg` from slot `j`, with `joinPc` the furthest target of a conditional
branch passed so far. `reads` tests the fields of an ABC word, and `liveAtA` is the verdict
when the scan meets `reg` in field A at or past `joinPc`. True means that `reg` is live.
-/
def scanLive (reads : Instruction → Nat → Bool) (liveAtA : Opcode → Bool)
    (code : List Instruction) (reg : Nat) : Nat → Nat → Int → Bool
  | 0, _, _ => false
  | fuel + 1, j, joinPc =>
      match code[j]? with
      | none => false
      | some jns =>
          let joined := max joinPc (fusionConditionalBranchTarget code j)
          if jns.op = .ifTrue ∨ jns.op = .ifFalse then
            if jns.a.toNat = reg then true
            else scanLive reads liveAtA code reg fuel (j + 1) joined
          else if getOpFormat jns.op = .abc ∧ reads jns reg = true then true
          else if joined ≤ j ∧ hasFieldA jns.op = true ∧ jns.a.toNat = reg then liveAtA jns.op
          else scanLive reads liveAtA code reg fuel (j + 1) joined

/-- `fusion_reg_live_from`: any `A == reg` past the pending joins counts as a kill. -/
def fusionRegLiveFrom (code : List Instruction) (start reg : Nat) : Bool :=
  scanLive fusionAbcReadsReg (fun _ => false) code reg code.length start (-1)

/-- The scan of copy propagation: `A == reg` is a kill for a listed producer only. -/
def copyLiveFrom (code : List Instruction) (start reg : Nat) : Bool :=
  scanLive namesReg (fun op => !moveelimAIsWrite op) code reg code.length start (-1)

/-- A scan does not see the slots before the one it starts from. -/
theorem scanLive_suffix {reads : Instruction → Nat → Bool} {liveAtA : Opcode → Bool}
    {code code' : List Instruction} {reg i : Nat} (same : ∀ s, i ≤ s → code[s]? = code'[s]?)
    {fuel j : Nat} {joinPc : Int} (above : i ≤ j)
    : scanLive reads liveAtA code reg fuel j joinPc
      = scanLive reads liveAtA code' reg fuel j joinPc := by
  induction fuel generalizing j joinPc with
  | zero => rfl
  | succ fuel ih =>
      have target : fusionConditionalBranchTarget code j
          = fusionConditionalBranchTarget code' j := by
        rw [fusionConditionalBranchTarget, same j above]
        rfl
      unfold scanLive
      rw [target, same j above]
      simp only [ih (Nat.le_succ_of_le above)]

-----------------------------------------------------------------------------------------
-- What a scan examines
-----------------------------------------------------------------------------------------

/-- The scan reaches slot `pc` and a field it tests there holds `reg` as a read. -/
def scanExamines (reads : Instruction → Nat → Bool) (liveAtA : Opcode → Bool)
    (code : List Instruction) (reg pc : Nat) : Nat → Nat → Int → Bool
  | 0, _, _ => false
  | fuel + 1, j, joinPc =>
      match code[j]? with
      | none => false
      | some jns =>
          let joined := max joinPc (fusionConditionalBranchTarget code j)
          if jns.op = .ifTrue ∨ jns.op = .ifFalse then
            (j == pc && jns.a.toNat == reg)
              || scanExamines reads liveAtA code reg pc fuel (j + 1) joined
          else
            (j == pc && getOpFormat jns.op == .abc && reads jns reg)
              || if joined ≤ j ∧ hasFieldA jns.op = true ∧ jns.a.toNat = reg then
                j == pc && liveAtA jns.op
              else scanExamines reads liveAtA code reg pc fuel (j + 1) joined

/-- A scan that finds the register dead has examined no read of it.
Witness: induction on the scan; each tested field is one of its reasons to stop as live.
-/
theorem scanExamines_of_dead {reads : Instruction → Nat → Bool} {liveAtA : Opcode → Bool}
    {code : List Instruction} {reg fuel j : Nat} {joinPc : Int}
    (dead : scanLive reads liveAtA code reg fuel j joinPc = false) (pc : Nat)
    : scanExamines reads liveAtA code reg pc fuel j joinPc = false := by
  induction fuel generalizing j joinPc with
  | zero => rfl
  | succ fuel ih =>
      unfold scanLive at dead
      unfold scanExamines
      cases slot : code[j]? with
      | none => rfl
      | some jns =>
          simp only [slot] at dead ⊢
          by_cases condition : jns.op = .ifTrue ∨ jns.op = .ifFalse
          · rw [if_pos condition] at dead ⊢
            by_cases read : jns.a.toNat = reg
            · simp [read] at dead
            · rw [if_neg read] at dead
              simp [read, ih dead]
          · rw [if_neg condition] at dead ⊢
            by_cases read : getOpFormat jns.op = .abc ∧ reads jns reg = true
            · simp [read] at dead
            · rw [if_neg read] at dead
              have untested : (getOpFormat jns.op == .abc && reads jns reg) = false := by
                simpa using read
              rw [Bool.and_assoc, untested, Bool.and_false, Bool.false_or]
              split
              · rename_i atA
                rw [if_pos atA] at dead
                rw [dead, Bool.and_false]
              · rename_i atA
                rw [if_neg atA] at dead
                exact ih dead

end Boomkat.Compiler
