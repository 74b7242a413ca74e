import Boomkat.Machine.Step

/-! The compiler's view of control transfers: the slots a branch or a handler can reach, and
the slot a conditional branch can skip to.
-/

namespace Boomkat.Compiler
open Boomkat.Bytecode

/-- The slot a conditional branch at `j` can skip to, and -1 for any other instruction. -/
def fusionConditionalBranchTarget (code : List Instruction) (j : Nat) : Int :=
  match code[j]? with
  | none => -1
  | some ins =>
      match ins.op with
      | .ifTrue | .ifFalse => j + 1 + ins.getSbc
      | .jmpNlt | .jmpNle | .jmpNgt | .jmpNge | .jmpLt | .jmpLe | .jmpGt | .jmpGe | .jmpSeq
      | .jmpSneq => j + 1 + ins.icharA
      | .jmpLtG => j + 2 + ins.icharA
      | _ => -1

/-- The slots that the instruction at `i` can transfer control to by an offset. -/
def slotTargets (code : List Instruction) (i : Nat) : List Int :=
  match code[i]? with
  | none => []
  | some ins =>
      match ins.op with
      | .jump | .break_ | .continue_ => [i + 1 + ins.getSabc]
      | .ifTrue | .ifFalse => [i + 1 + ins.getSbc]
      | .jmpNlt | .jmpNle | .jmpNgt | .jmpNge | .jmpLt | .jmpLe | .jmpGt | .jmpGe | .jmpSeq
      | .jmpSneq => [i + 1 + ins.icharA]
      | .jmpLtG => [i + 2 + ins.icharA]
      | .try_ =>
          let finallyOff := (code[i + 1]?.map Instruction.getBc).getD 0
          (i + ins.getBc : Int) :: if finallyOff ≠ 0 then [(i + finallyOff : Int)] else []
      | _ => []

/-- Mark a slot that lies inside the code. -/
def markTarget (jumpTargets : List Bool) (tgt : Int) : List Bool :=
  if 0 ≤ tgt ∧ tgt < jumpTargets.length then jumpTargets.set tgt.toNat true else jumpTargets

/-- `build_jump_targets`: the bitset of slots that some branch or handler can reach. -/
def buildJumpTargets (code : List Instruction) : List Bool :=
  (List.range code.length).foldl
    (fun jumpTargets i => (slotTargets code i).foldl markTarget jumpTargets)
    (List.replicate code.length false)

/-- The bit of a slot. -/
def isJumpTarget (code : List Instruction) (slot : Nat) : Bool :=
  (buildJumpTargets code)[slot]?.getD false

@[simp] theorem markTarget_length (jumpTargets : List Bool) (tgt : Int)
    : (markTarget jumpTargets tgt).length = jumpTargets.length := by
  unfold markTarget
  split <;> simp

/-- Marking sets one bit and keeps the others. -/
theorem markTarget_getD (jumpTargets : List Bool) (tgt : Int) (slot : Nat)
    : ((markTarget jumpTargets tgt)[slot]?.getD false = true)
        ↔ jumpTargets[slot]?.getD false = true
          ∨ (tgt = slot ∧ slot < jumpTargets.length) := by
  unfold markTarget
  by_cases inside : 0 ≤ tgt ∧ tgt < jumpTargets.length
  · rw [if_pos inside, List.getElem?_set]
    by_cases same : tgt.toNat = slot
    · have hit : tgt = slot ∧ slot < jumpTargets.length := by omega
      simp [hit.2, hit.1]
    · have miss : tgt ≠ slot := by omega
      simp [same, miss]
  · rw [if_neg inside]
    have miss : ¬(tgt = slot ∧ slot < jumpTargets.length) := by omega
    simp [miss]

/-- A slot is marked by a list of targets when it was marked before or is one of them. -/
theorem foldl_markTarget_getD (targets : List Int) (jumpTargets : List Bool) (slot : Nat)
    : ((targets.foldl markTarget jumpTargets)[slot]?.getD false = true
          ↔ jumpTargets[slot]?.getD false = true
            ∨ ((slot : Int) ∈ targets ∧ slot < jumpTargets.length))
        ∧ (targets.foldl markTarget jumpTargets).length = jumpTargets.length := by
  induction targets generalizing jumpTargets with
  | nil => simp
  | cons tgt targets ih =>
      obtain ⟨marked, length⟩ := ih (markTarget jumpTargets tgt)
      refine ⟨?_, by simpa using length⟩
      rw [List.foldl_cons, marked, markTarget_getD, markTarget_length, List.mem_cons, eq_comm]
      tauto

/-- The bitset marks exactly the slots of the code that some slot targets.
Witness: induction on the slots the loop has visited.
-/
theorem isJumpTarget_iff (code : List Instruction) (slot : Nat)
    : isJumpTarget code slot = true
        ↔ slot < code.length ∧ ∃ i < code.length, (slot : Int) ∈ slotTargets code i := by
  have visited : ∀ n, ((List.range n).foldl
        (fun jumpTargets i => (slotTargets code i).foldl markTarget jumpTargets)
        (List.replicate code.length false)).length = code.length
      ∧ (((List.range n).foldl
          (fun jumpTargets i => (slotTargets code i).foldl markTarget jumpTargets)
          (List.replicate code.length false))[slot]?.getD false = true
        ↔ slot < code.length ∧ ∃ i < n, (slot : Int) ∈ slotTargets code i) := by
    intro n
    induction n with
    | zero =>
        refine ⟨by simp, ?_⟩
        by_cases inside : slot < code.length <;> simp [inside]
    | succ n ih =>
        obtain ⟨length, marked⟩ := ih
        rw [List.range_succ, List.foldl_append, List.foldl_cons, List.foldl_nil]
        obtain ⟨last, same⟩ := foldl_markTarget_getD (slotTargets code n)
          ((List.range n).foldl
            (fun jumpTargets i => (slotTargets code i).foldl markTarget jumpTargets)
            (List.replicate code.length false)) slot
        refine ⟨same.trans length, last.trans ?_⟩
        rw [marked, length]
        constructor
        · rintro (⟨inside, i, small, mem⟩ | ⟨mem, inside⟩)
          · exact ⟨inside, i, by omega, mem⟩
          · exact ⟨inside, n, by omega, mem⟩
        · rintro ⟨inside, i, small, mem⟩
          rcases Nat.lt_succ_iff_lt_or_eq.mp small with earlier | rfl
          · exact .inl ⟨inside, i, earlier, mem⟩
          · exact .inr ⟨mem, inside⟩
  exact (visited code.length).2

end Boomkat.Compiler
