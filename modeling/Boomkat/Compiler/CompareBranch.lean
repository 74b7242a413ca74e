import Boomkat.Compiler.LivenessScan
import Boomkat.Foundation.PairRewrite

/-! Fusion of a comparison with the branch on its result. -/

namespace Boomkat.Compiler
open Boomkat.Foundation Boomkat.Bytecode

-----------------------------------------------------------------------------------------
-- The rules and the scan
-----------------------------------------------------------------------------------------

/-- `cmp_branch_fused_op`: the fused opcode of a comparison, `NOP` where there is none. Loose
equality is listed as not fused.
-/
def cmpBranchFusedOp (cmpOp : Opcode) (isIfFalse : Bool) : Opcode :=
  match cmpOp with
  | .lt => if isIfFalse then .jmpNlt else .jmpLt
  | .le => if isIfFalse then .jmpNle else .jmpLe
  | .gt => if isIfFalse then .jmpNgt else .jmpGt
  | .ge => if isIfFalse then .jmpNge else .jmpGe
  | .seq => if isIfFalse then .jmpSneq else .jmpSeq
  | .sneq => if isIfFalse then .jmpSeq else .jmpSneq
  | _ => .nop

/-- The opcodes that end the scan as dead. -/
def endsCmpScan : Opcode → Bool
  | .ret | .retundef | .retGen | .retundefGen | .throw | .jump => true
  | _ => false

/-- `cmp_result_live_from`, at slot `j` of a scan from `start`. -/
def cmpScanLive (jumpTargets : List Bool) (code : List Instruction) (reg start : Nat)
    (skipFirstTarget : Bool) : Nat → Nat → Int → Bool
  | 0, _, _ => false
  | fuel + 1, j, joinPc =>
      match code[j]? with
      | none => false
      | some jns =>
          let isBranch := jns.op = .ifTrue ∨ jns.op = .ifFalse
          let joined := max joinPc (fusionConditionalBranchTarget code j)
          let next := cmpScanLive jumpTargets code reg start skipFirstTarget fuel (j + 1)
          if jumpTargets[j]?.getD false && !(skipFirstTarget && j == start) then
            if isBranch then jns.a.toNat = reg || next joinPc
            else if getOpFormat jns.op = .abc then fusionAbcReadsReg jns reg || next joinPc
            else next joinPc
          else if endsCmpScan jns.op then false
          else if isBranch then jns.a.toNat = reg || next joined
          else if getOpFormat jns.op = .abc ∧ fusionAbcReadsReg jns reg = true then true
          else if joined ≤ j ∧ hasFieldA jns.op = true ∧ jns.a.toNat = reg then false
          else next joined

/-- `cmp_result_live_from`. -/
def cmpResultLiveFrom (jumpTargets : List Bool) (code : List Instruction) (start reg : Nat)
    (skipFirstTarget : Bool) : Bool :=
  cmpScanLive jumpTargets code reg start skipFirstTarget code.length start (-1)

/-- The scan reaches slot `pc` and a field it tests there holds `reg`. -/
def cmpScanExamines (jumpTargets : List Bool) (code : List Instruction) (reg start : Nat)
    (skipFirstTarget : Bool) (pc : Nat) : Nat → Nat → Int → Bool
  | 0, _, _ => false
  | fuel + 1, j, joinPc =>
      match code[j]? with
      | none => false
      | some jns =>
          let isBranch := jns.op = .ifTrue ∨ jns.op = .ifFalse
          let joined := max joinPc (fusionConditionalBranchTarget code j)
          let next := cmpScanExamines jumpTargets code reg start skipFirstTarget pc fuel (j + 1)
          if jumpTargets[j]?.getD false && !(skipFirstTarget && j == start) then
            if isBranch then (j == pc && jns.a.toNat = reg) || next joinPc
            else if getOpFormat jns.op = .abc then
              (j == pc && fusionAbcReadsReg jns reg) || next joinPc
            else next joinPc
          else if endsCmpScan jns.op then false
          else if isBranch then (j == pc && jns.a.toNat = reg) || next joined
          else if getOpFormat jns.op = .abc ∧ fusionAbcReadsReg jns reg = true then j == pc
          else if joined ≤ j ∧ hasFieldA jns.op = true ∧ jns.a.toNat = reg then false
          else next joined

/-- A scan that finds the register dead has examined no read of it. -/
theorem cmpScanExamines_of_dead {jumpTargets : List Bool} {code : List Instruction}
    {reg start : Nat} {skipFirstTarget : Bool} {fuel j : Nat} {joinPc : Int}
    (dead : cmpScanLive jumpTargets code reg start skipFirstTarget fuel j joinPc = false)
    (pc : Nat)
    : cmpScanExamines jumpTargets code reg start skipFirstTarget pc fuel j joinPc = false := by
  induction fuel generalizing j joinPc with
  | zero => rfl
  | succ fuel ih =>
      unfold cmpScanLive at dead
      unfold cmpScanExamines
      cases slot : code[j]? with
      | none => rfl
      | some jns =>
          simp only [slot] at dead ⊢
          split at dead
          · rename_i crossed
            rw [if_pos crossed]
            split at dead
            · rename_i branch
              simp only [Bool.or_eq_false_iff] at dead
              simp [branch, dead.1, ih dead.2]
            · rename_i branch
              rw [if_neg branch]
              split at dead
              · rename_i layout
                simp only [Bool.or_eq_false_iff] at dead
                simp [layout, dead.1, ih dead.2]
              · rename_i layout
                simp [layout, ih dead]
          · rename_i crossed
            rw [if_neg crossed]
            split at dead
            · rename_i ends
              rw [if_pos ends]
            · rename_i ends
              rw [if_neg ends]
              split at dead
              · rename_i branch
                simp only [Bool.or_eq_false_iff] at dead
                simp [branch, dead.1, ih dead.2]
              · rename_i branch
                rw [if_neg branch]
                split at dead
                · cases dead
                · rename_i read
                  rw [if_neg read]
                  split at dead
                  · rename_i kill
                    rw [if_pos kill]
                  · rename_i kill
                    rw [if_neg kill]
                    exact ih dead

/-- A scan does not see the slots before the one it starts from. -/
theorem cmpScanLive_suffix {jumpTargets : List Bool} {code code' : List Instruction}
    {reg start i : Nat} {skipFirstTarget : Bool}
    (same : ∀ s, i ≤ s → code[s]? = code'[s]?) {fuel j : Nat} {joinPc : Int} (above : i ≤ j)
    : cmpScanLive jumpTargets code reg start skipFirstTarget fuel j joinPc
      = cmpScanLive jumpTargets code' reg start skipFirstTarget fuel j joinPc := by
  induction fuel generalizing j joinPc with
  | zero => rfl
  | succ fuel ih =>
      have target : fusionConditionalBranchTarget code j
          = fusionConditionalBranchTarget code' j := by
        rw [fusionConditionalBranchTarget, same j above]
        rfl
      unfold cmpScanLive
      rw [target, same j above]
      simp only [ih (Nat.le_succ_of_le above)]

-----------------------------------------------------------------------------------------
-- The pass
-----------------------------------------------------------------------------------------

/-- The signed offset of a forward branch on `rA` at the target of the fused branch, and 0
where there is none.
-/
def bridgeOffset (code : List Instruction) (slot : Int) (rA : Nat) : Int :=
  if slot < 0 then 0
  else
    match code[slot.toNat]? with
    | none => 0
    | some word =>
        if (word.op = .ifFalse ∨ word.op = .ifTrue) ∧ word.a.toNat = rA ∧ 0 < word.getSbc then
          word.getSbc
        else 0

/-- The slot of a bridge itself, which a fused branch past it skips too. -/
def bridgeSlots (bridge : Int) : Int := if bridge ≠ 0 then 1 else 0

/-- The word before `slot` copies a value into `rA`. -/
def materializes (code : List Instruction) (slot : Int) (rA : Nat) : Bool :=
  if slot < 1 ∨ code.length ≤ slot then false
  else
    match code[slot.toNat - 1]? with
    | none => false
    | some word => word.op = .ldreg && word.a.toNat = rA

/-- The taken path from `target` needs the comparison result: the target branches on it, or,
when the result register is no operand of the comparison, a scan finds it live.
-/
def takenPathLive (jumpTargets : List Bool) (code : List Instruction) (cmp : Instruction)
    (target : Int) : Bool :=
  if target < 0 then false
  else
    match code[target.toNat]? with
    | none => false
    | some word =>
        if (word.op = .ifTrue ∨ word.op = .ifFalse) ∧ word.a = cmp.a then true
        else if cmp.a = cmp.b ∨ cmp.a = cmp.c then false
        else cmpResultLiveFrom jumpTargets code target.toNat cmp.a.toNat true

/-- The decision of `run_cmp_branch_fusion` at slot `i`. -/
def cmpBranchDecision (jumpTargets : List Bool) (code : List Instruction) (i : Nat)
    : Option (PairEdit Instruction) :=
  match code[i]?, code[i + 1]? with
  | some cmp, some branch =>
      if branch.op ≠ .ifFalse ∧ branch.op ≠ .ifTrue then none
      else
        let fusedOp := cmpBranchFusedOp cmp.op (branch.op = .ifFalse)
        let target : Int := i + 2 + branch.getSbc
        let bridge := bridgeOffset code target cmp.a.toNat
        let fusedOff := branch.getSbc + 1 + bridge + bridgeSlots bridge
        if fusedOp = .nop then none
        else if branch.a ≠ cmp.a then none
        else if jumpTargets[i + 1]?.getD false then none
        else if materializes code (target + bridge + bridgeSlots bridge) cmp.a.toNat then none
        else if cmpResultLiveFrom jumpTargets code (i + 2) cmp.a.toNat false then none
        else if takenPathLive jumpTargets code cmp target then none
        else if fusedOff < -128 ∨ 127 < fusedOff then none
        else
          some
            {
              head := makeAbc fusedOp (toUint fusedOff) cmp.b.toNat cmp.c.toNat
              slot := i + 1
              tail := nopWord
            }
  | _, _ => none

/-- `run_cmp_branch_fusion` under the guard of `finish`. -/
def cmpBranchPass (disableOptimize hasWide : Bool) (code : List Instruction)
    : List Instruction :=
  if !disableOptimize && !hasWide && 2 ≤ code.length then
    rewritePairs (cmpBranchDecision (buildJumpTargets code)) code
  else code

/-- A fused branch has no bridge: the branch at its target would test the result register. -/
theorem bridgeOffset_eq_zero {jumpTargets : List Bool} {code : List Instruction}
    {cmp : Instruction} {target : Int}
    (dead : takenPathLive jumpTargets code cmp target = false)
    : bridgeOffset code target cmp.a.toNat = 0 := by
  unfold takenPathLive at dead
  unfold bridgeOffset
  split at dead
  · rename_i negative
    rw [if_pos negative]
  · rename_i inside
    rw [if_neg inside]
    cases slot : code[target.toNat]? with
    | none => rfl
    | some word =>
        simp only [slot] at dead ⊢
        split at dead
        · cases dead
        · rename_i noTest
          rw [if_neg]
          rintro ⟨isBranch, same, _⟩
          exact noTest ⟨isBranch.symm, BitVec.eq_of_toNat_eq same⟩

/-- What a decision to fuse says about the comparison, the branch and the scans.
-/
theorem cmpBranchDecision_spec {jumpTargets : List Bool} {code : List Instruction} {i : Nat}
    {edit : PairEdit Instruction} (decided : cmpBranchDecision jumpTargets code i = some edit)
    : ∃ cmp branch, code[i]? = some cmp ∧ code[i + 1]? = some branch
      ∧ (branch.op = .ifFalse ∨ branch.op = .ifTrue)
      ∧ cmpBranchFusedOp cmp.op (branch.op = .ifFalse) ≠ .nop
      ∧ branch.a = cmp.a ∧ jumpTargets[i + 1]?.getD false = false
      ∧ cmpResultLiveFrom jumpTargets code (i + 2) cmp.a.toNat false = false
      ∧ takenPathLive jumpTargets code cmp (i + 2 + branch.getSbc) = false
      ∧ -128 ≤ branch.getSbc + 1 ∧ branch.getSbc + 1 ≤ 127
      ∧ edit.head = makeAbc (cmpBranchFusedOp cmp.op (branch.op = .ifFalse))
          (toUint (branch.getSbc + 1)) cmp.b.toNat cmp.c.toNat
      ∧ edit.slot = i + 1 ∧ edit.tail = nopWord := by
  unfold cmpBranchDecision at decided
  split at decided
  · rename_i cmp branch cmpEq branchEq
    split at decided
    · cases decided
    · rename_i isBranch
      simp only at decided
      split at decided
      · cases decided
      · rename_i fused
        split at decided
        · cases decided
        · rename_i sameReg
          split at decided
          · cases decided
          · rename_i noTarget
            split at decided
            · cases decided
            · split at decided
              · cases decided
              · rename_i dead
                split at decided
                · cases decided
                · rename_i taken
                  have noBridge := bridgeOffset_eq_zero (by simpa using taken)
                  simp only [noBridge, bridgeSlots, ne_eq, not_true_eq_false, if_false,
                    add_zero] at decided
                  split at decided
                  · cases decided
                  · rename_i inRange
                    cases decided
                    simp only [not_or, not_lt] at inRange
                    refine ⟨cmp, branch, cmpEq, branchEq, ?_, fused, ?_, ?_, ?_, ?_, inRange.1,
                      inRange.2, rfl, rfl, rfl⟩
                    · by_contra neither
                      simp only [not_or] at neither
                      exact isBranch neither
                    · simpa using sameReg
                    · simpa using noTarget
                    · simpa using dead
                    · simpa using taken
  · cases decided

/-- The decisions start at a comparison with a fused form, which no branch or NOP has. -/
theorem cmpBranchDecision_pairs (jumpTargets : List Bool)
    : PairDecision (cmpBranchDecision jumpTargets)
        (fun word => ∃ isIfFalse, cmpBranchFusedOp word.op isIfFalse ≠ .nop) := by
  refine ⟨?_, ?_, ?_, ?_⟩
  · intro code i edit decided
    obtain ⟨cmp, branch, cmpEq, _, _, fused, _⟩ := cmpBranchDecision_spec decided
    exact ⟨cmp, cmpEq, _, fused⟩
  · intro code i edit decided
    obtain ⟨_, _, _, branchEq, _, _, _, _, _, _, _, _, _, slot, _⟩ :=
      cmpBranchDecision_spec decided
    obtain ⟨inside, _⟩ := List.getElem?_eq_some_iff.mp branchEq
    omega
  · rintro code i edit decided j word low high wordEq ⟨isIfFalse, fused⟩
    obtain ⟨_, branch, _, branchEq, isBranch, _, _, _, _, _, _, _, _, slot, _⟩ :=
      cmpBranchDecision_spec decided
    obtain rfl : j = i + 1 := by omega
    obtain rfl : branch = word := by simpa [branchEq] using wordEq
    rcases isBranch with op | op <;> simp [op, cmpBranchFusedOp] at fused
  · rintro code i edit decided ⟨isIfFalse, fused⟩
    obtain ⟨_, _, _, _, _, _, _, _, _, _, _, _, _, _, tail⟩ := cmpBranchDecision_spec decided
    rw [tail] at fused
    exact fused rfl

end Boomkat.Compiler
