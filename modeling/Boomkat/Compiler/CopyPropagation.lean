import Boomkat.Compiler.LivenessScan
import Boomkat.Foundation.PairRewrite

/-! Copy propagation of `finish`: a register copy followed by its consumer is dropped and the
consumer reads the source of the copy.
-/

namespace Boomkat.Compiler
open Boomkat.Foundation Boomkat.Bytecode

/-- The consumers copy propagation supports: both operand fields are plain registers. -/
def copReadsBC : Opcode → Bool
  | .jmpNlt | .jmpNle | .jmpNgt | .jmpNge | .jmpLt | .jmpLe | .jmpGt | .jmpGe | .lt | .le
  | .gt | .ge | .add | .sub | .mul => true
  | _ => false

/-- The copied register is live after the consumer at `i + 1`. No scan is made when field A
of the consumer holds the register.
-/
def copyIsLive (code : List Instruction) (i rT : Nat) (consumer : Instruction) : Bool :=
  if consumer.a.toNat = rT then false else copyLiveFrom code (i + 2) rT

/-- The decision at slot `i`, with the bitset of jump targets built before the loop. -/
def copyDecision (jumpTargets : List Bool) (code : List Instruction) (i : Nat)
    : Option (PairEdit Instruction) :=
  match code[i]?, code[i + 1]? with
  | some copy, some consumer =>
      let rT := copy.a.toNat
      let rS := copy.b.toNat
      let rTInB := consumer.b.toNat = rT
      let rTInC := consumer.c.toNat = rT
      if jumpTargets[i + 1]?.getD false then none
      else if copy.op ≠ .ldreg then none
      else if !copReadsBC consumer.op then none
      else if ¬rTInB ∧ ¬rTInC then none
      else if copyIsLive code i rT consumer then none
      else
        let newB := if rTInB then rS else consumer.b.toNat
        let newC := if rTInC then rS else consumer.c.toNat
        some
          {
            head := nopWord
            slot := i + 1
            tail := makeAbc consumer.op consumer.a.toNat newB newC
          }
  | _, _ => none

/-- The copy propagation pass, with the guard of `finish`. -/
def copyPropagation (disableOptimize hasWide : Bool) (code : List Instruction)
    : List Instruction :=
  if !disableOptimize && !hasWide && 2 ≤ code.length then
    rewritePairs (copyDecision (buildJumpTargets code)) code
  else code

/-- What a decision to drop a copy says about the copy, its consumer and the scan. -/
theorem copyDecision_spec {jumpTargets : List Bool} {code : List Instruction} {i : Nat}
    {edit : PairEdit Instruction} (decided : copyDecision jumpTargets code i = some edit)
    : ∃ copy consumer, code[i]? = some copy ∧ code[i + 1]? = some consumer
      ∧ jumpTargets[i + 1]?.getD false = false ∧ copy.op = .ldreg
      ∧ copReadsBC consumer.op = true
      ∧ copyIsLive code i copy.a.toNat consumer = false
      ∧ edit.head = nopWord ∧ edit.slot = i + 1
      ∧ edit.tail = makeAbc consumer.op consumer.a.toNat
          (if consumer.b.toNat = copy.a.toNat then copy.b.toNat else consumer.b.toNat)
          (if consumer.c.toNat = copy.a.toNat then copy.b.toNat else consumer.c.toNat) := by
  unfold copyDecision at decided
  split at decided
  · rename_i copy consumer copyEq consumerEq
    simp only at decided
    split at decided
    · cases decided
    · rename_i noTarget
      split at decided
      · cases decided
      · rename_i isCopy
        split at decided
        · cases decided
        · rename_i supported
          split at decided
          · cases decided
          · split at decided
            · cases decided
            · rename_i dead
              cases decided
              refine ⟨copy, consumer, copyEq, consumerEq, ?_, ?_, ?_, ?_, rfl, rfl, rfl⟩
              · simpa using noTarget
              · simpa using isCopy
              · simpa using supported
              · simpa using dead
  · cases decided

/-- The decisions start at a copy, and no supported consumer is a copy. -/
theorem copyDecision_pairs (jumpTargets : List Bool)
    : PairDecision (copyDecision jumpTargets) (fun word => word.op = .ldreg) := by
  refine ⟨?_, ?_, ?_, ?_⟩
  · intro code i edit decided
    obtain ⟨copy, _, copyEq, _, _, isCopy, _⟩ := copyDecision_spec decided
    exact ⟨copy, copyEq, isCopy⟩
  · intro code i edit decided
    obtain ⟨_, consumer, _, consumerEq, _, _, _, _, _, slot, _⟩ := copyDecision_spec decided
    obtain ⟨inside, _⟩ := List.getElem?_eq_some_iff.mp consumerEq
    omega
  · intro code i edit decided j word low high wordEq isCopy
    obtain ⟨_, consumer, _, consumerEq, _, _, supported, _, _, slot, _⟩ :=
      copyDecision_spec decided
    obtain rfl : j = i + 1 := by omega
    obtain rfl : consumer = word := by simpa [consumerEq] using wordEq
    simp [isCopy, copReadsBC] at supported
  · intro code i edit decided isCopy
    obtain ⟨_, consumer, _, _, _, _, supported, _, _, _, tail⟩ := copyDecision_spec decided
    have same : consumer.op = .ldreg := by simpa [tail, makeAbc] using isCopy
    simp [same, copReadsBC] at supported

/-- A decision does not see the slots before its own. -/
theorem copyDecision_forward (jumpTargets : List Bool) {code code' : List Instruction}
    {i : Nat} (length : code.length = code'.length)
    (same : ∀ s, i ≤ s → code[s]? = code'[s]?)
    : copyDecision jumpTargets code i = copyDecision jumpTargets code' i := by
  have live : copyIsLive code i = copyIsLive code' i := by
    funext rT consumer
    unfold copyIsLive copyLiveFrom
    rw [length, scanLive_suffix (fun s far => same s (by omega)) (Nat.le_refl (i + 2))]
  unfold copyDecision
  rw [same i (Nat.le_refl i), same (i + 1) (by omega), live]

end Boomkat.Compiler
