import Boomkat.Compiler.CopyPropagation
import Boomkat.Correctness.TriggerFusion
import Boomkat.Machine.Primitive

/-! Copy propagation preserves every run that reads no dropped copy behind the back of the
liveness scan.
-/

namespace Boomkat.Correctness
open Boomkat.Foundation Boomkat.Bytecode Boomkat.Machine Boomkat.Compiler

variable {W : Type} {rt : Runtime W} {code : List Instruction}

/-- The edit that copy propagation makes at a slot. -/
def copyEdits (code : List Instruction) (i : Nat) : Option (PairEdit Instruction) :=
  copyDecision (buildJumpTargets code) code i

/-- The scan made for the copy at `slot` examines a read of `reg` at `pc`. -/
def copyScanExamines (code : List Instruction) (slot reg pc : Nat) : Bool :=
  match code[slot + 1]? with
  | none => false
  | some consumer =>
      if consumer.a.toNat = reg then false
      else
        scanExamines namesReg (fun op => !moveelimAIsWrite op) code reg pc code.length (slot + 2)
          (-1)

/-- The state reads the register of a dropped copy only in the copy's own consumer or where
the scan made for the copy looks. The latter never comes about: a scan that found the register dead
has examined no read of it, by `scanExamines_of_dead`.
-/
def CopyReadsSeen (rt : Runtime W) (code : List Instruction) (state : Tracked W) : Prop :=
  match state.status with
  | .ended _ => True
  | .running frame =>
      ∀ write ∈ state.dropped, write.reg ∈ readsAt rt code frame →
        frame.pc = write.slot + 1 ∨ copyScanExamines code write.slot write.reg frame.pc = true

instance (rt : Runtime W) (code : List Instruction) (state : Tracked W)
    : Decidable (CopyReadsSeen rt code state) :=
  match state with
  | ⟨.ended _, _⟩ => .isTrue trivial
  | ⟨.running _, _⟩ => by unfold CopyReadsSeen; infer_instance

/-- The registers whose write copy propagation drops at a slot. -/
def copyDrops (code : List Instruction) : Nat → Action W → List Nat :=
  triggerDrops (copyEdits code) (regA code)

/-- A binary consumer computes the same from operands of the same value.
Witness: each supported handler uses its operand fields to fetch two values only.
-/
theorem dispatch_operands {insn insn' : DecodedInsn} {frame : Frame W} {image : Nat → Value}
    (supported : copReadsBC insn.op = true) (op : insn'.op = insn.op) (a : insn'.a = insn.a)
    (left : image insn'.b = frame.regs insn.b) (right : image insn'.c = frame.regs insn.c)
    (next : Nat)
    : rt.dispatch code insn' { frame with regs := image } next
      = rt.dispatch code insn frame next := by
  cases opEq : insn.op <;> simp only [opEq, copReadsBC, Bool.false_eq_true] at supported op
  all_goals
    simp only [Runtime.dispatch, opEq, op, DecodedInsn.icharA, a, left, right, Runtime.produce,
      producerOperands, Option.isSome_some, if_true]
  simp [producerReads, producerImmediates, opEq, op, producerOperands, left, right]

theorem copyEdits_editAt (code : List Instruction)
    : editAt (copyDecision (buildJumpTargets code)) code = copyEdits code := by
  funext i
  exact editAt_forward (copyDecision_pairs _) (copyDecision_forward _) code i

/-- A supported consumer is a plain word. -/
theorem copReadsBC_plain {op : Opcode} (supported : copReadsBC op = true)
    : op ≠ .wide ∧ op ≠ .jump ∧ op ≠ .endfinally ∧ ownsDataWord op = false
        ∧ marksFinally op = false := by
  cases op <;> simp [copReadsBC] at supported <;> simp [ownsDataWord, marksFinally]

/-- Copies and their consumers form disjoint sealed pairs. -/
theorem copyEdits_pairs (code : List Instruction) : PairEdits code (copyEdits code) := by
  refine ⟨?_, ?_, ?_⟩
  · intro i edit decided
    obtain ⟨copy, consumer, copyEq, consumerEq, noTarget, isCopy, supported, _, _, slot, _⟩ :=
      copyDecision_spec decided
    rw [slot]
    refine ⟨by omega, (List.getElem?_eq_some_iff.mp consumerEq).1, ?_, ?_, ?_, ?_⟩
    · intro word wordEq
      obtain rfl : copy = word := by simpa [copyEq] using wordEq
      simp [isCopy, ownsDataWord]
    · intro j word low high
      omega
    · intro word wordEq
      obtain rfl : consumer = word := by simpa [consumerEq] using wordEq
      exact ⟨(copReadsBC_plain supported).2.1, (copReadsBC_plain supported).2.2.1⟩
    · intro j low high
      obtain rfl : j = i + 1 := by omega
      exact noTarget
  · intro i j edit edit' first second
    rw [← copyEdits_editAt] at first second
    exact editAt_disjoint (copyDecision_pairs _) first second
  · intro i edit decided
    obtain ⟨copy, consumer, copyEq, consumerEq, _, isCopy, supported, _, head, slot, tail⟩ :=
      copyDecision_spec decided
    obtain ⟨_, _, _, _, unmarked⟩ := copReadsBC_plain supported
    refine ⟨by rw [head]; rfl, by rw [tail]; exact unmarked, ?_⟩
    rintro word (wordEq | wordEq)
    · obtain rfl : copy = word := by simpa [copyEq] using wordEq
      simp [isCopy, marksFinally]
    · rw [slot] at wordEq
      obtain rfl : consumer = word := by simpa [consumerEq] using wordEq
      exact unmarked

/-- Copy propagation blanks copies and renames the operands of their consumers. -/
theorem copyPropagation_fuses
    : TriggerFusion rt code (copyEdits code) (regA code)
        (fun i regs image _ => image (regB code i) = regs (regA code i)) (fun _ _ => True) := by
  refine ⟨copyEdits_pairs code, ?_, ?_, ?_, ?_⟩
  · intro i edit decided
    obtain ⟨_, _, _, _, _, _, _, _, head, _⟩ := copyDecision_spec decided
    exact head
  · intro i edit decided
    obtain ⟨_, consumer, _, _, _, _, supported, _, _, _, tail⟩ := copyDecision_spec decided
    rw [tail]
    exact ⟨(copReadsBC_plain supported).1, (copReadsBC_plain supported).2.2.2.1⟩
  · intro i edit frame decided here
    obtain ⟨copy, _, copyEq, _, _, isCopy, _⟩ := copyDecision_spec decided
    have fetched : code[frame.pc]? = some copy := here ▸ copyEq
    have plain : copy.op ≠ .wide := by simp [isCopy]
    have rT : regA code i = copy.a.toNat := by simp [regA, copyEq]
    have rS : regB code i = copy.b.toNat := by simp [regB, copyEq]
    refine ⟨frame.regs copy.b.toNat, ?_, ?_⟩
    · rw [act_of_fetched fetched plain, rT, here]
      simp [Runtime.dispatch, isCopy, producerOperands, Runtime.produce, Runtime.store]
    · intro image agree
      have fresh : frame.regs copy.b.toNat = image copy.b.toNat := by
        apply agree
        simp [readsAt, fetch, fetched, registerReads, isCopy, producerOperands, producerReads]
      rw [overwrite_cons, overwrite_nil, Function.update_self, rS, fresh]
  · intro i edit frame image decided here carried agree _
    obtain ⟨copy, consumer, copyEq, consumerEq, _, _, supported, _, _, slot, tail⟩ :=
      copyDecision_spec decided
    have fetched : code[frame.pc]? = some consumer := by rw [here, slot, consumerEq]
    have plain : consumer.op ≠ .wide := (copReadsBC_plain supported).1
    have rT : regA code i = copy.a.toNat := by simp [regA, copyEq]
    have rS : regB code i = copy.b.toNat := by simp [regB, copyEq]
    have reads : ∀ r, r = consumer.b.toNat ∨ r = consumer.c.toNat →
        r ∈ readsAt rt code frame := by
      intro r operand
      simp only [readsAt, fetch, fetched, if_neg plain]
      cases opEq : consumer.op <;> simp only [opEq, copReadsBC, Bool.false_eq_true] at supported
      all_goals
        simpa [registerReads, opEq, producerOperands, producerReads] using operand
    rw [rT, rS] at carried
    rw [rT] at agree
    have operand : ∀ field : BitVec 8, field.toNat = consumer.b.toNat
        ∨ field.toNat = consumer.c.toNat →
        image (BitVec.ofNat 8 (if field.toNat = copy.a.toNat then copy.b.toNat
          else field.toNat)).toNat = frame.regs field.toNat := by
      intro field isOperand
      by_cases renamed : field.toNat = copy.a.toNat
      · simpa [renamed] using carried
      · simpa [renamed] using (agree _ (reads _ isOperand) renamed).symm
    rw [act_of_fetched fetched plain, ← here]
    refine dispatch_operands supported ?_ ?_ ?_ ?_ _
    · rw [tail, makeAbc]
      rfl
    · simp [tail, makeAbc]
    · rw [tail]
      exact operand consumer.b (.inl rfl)
    · rw [tail]
      exact operand consumer.c (.inr rfl)

/-- A state whose reads are seen is harmless: the scan has found the copy dead. -/
theorem CopyReadsSeen.harmless {state : Tracked W} (seen : CopyReadsSeen rt code state)
    (known : DroppedAt (W := W) (copyDrops code) state.dropped)
    : Harmless rt code (copyEdits code) (fun _ _ => True) state := by
  refine ⟨?_, fun _ _ _ _ _ _ => trivial⟩
  intro frame running write mem read
  obtain ⟨edit, decided, regEq⟩ := known.trigger mem
  obtain ⟨copy, consumer, copyEq, consumerEq, _, _, _, dead, _, slot, _⟩ :=
    copyDecision_spec decided
  have reg : write.reg = copy.a.toNat := by simp [regEq, regA, copyEq]
  refine ⟨edit, decided, ?_⟩
  simp only [CopyReadsSeen, running] at seen
  rcases seen write mem read with own | examined
  · rw [own, slot]
  · simp only [copyScanExamines, consumerEq, reg] at examined
    unfold copyIsLive copyLiveFrom at dead
    split at examined
    · cases examined
    · rename_i scanned
      rw [if_neg scanned] at dead
      rw [scanExamines_of_dead dead] at examined
      cases examined

/-- Copy propagation keeps every run that reads dropped copies only where the scan looks: at
each time both runs are at one slot with one chain, world and value in each fresh register,
and they end alike.
Witness: copies are triggers whose consumers read the source instead.
-/
theorem copyPropagation_run (disableOptimize hasWide : Bool)
    (shape : hasWide = false → StreamShape code) (regs : Nat → Value) (world : W)
    (seen : ∀ n, CopyReadsSeen rt code
      ((trackedMachine rt code (copyDrops code)).run n (.entry regs world)))
    : (∀ n, StatusAgrees ((trackedMachine rt code (copyDrops code)).run n (.entry regs world))
        ((rt.machine (copyPropagation disableOptimize hasWide code)).run n (.entry regs world)))
      ∧ ∀ ending, (rt.machine code).EndsWith (.entry regs world) ending
        ↔ (rt.machine (copyPropagation disableOptimize hasWide code)).EndsWith
          (.entry regs world) ending := by
  have agrees : ∀ n, StatusAgrees
      ((trackedMachine rt code (copyDrops code)).run n (.entry regs world))
      ((rt.machine (copyPropagation disableOptimize hasWide code)).run n
        (.entry regs world)) := by
    intro n
    unfold copyPropagation
    split
    · rename_i runs
      simp only [Bool.and_eq_true, Bool.not_eq_true', decide_eq_true_eq] at runs
      have shape' := shape runs.1.2
      have edited := editedCode_rewritePairs (copyDecision_pairs (buildJumpTargets code)) code
      rw [copyEdits_editAt] at edited
      refine (fusion_run copyPropagation_fuses shape' edited regs world ?_ n).agrees
      intro n
      exact (seen n).harmless (trackedMachine_droppedAt regs world n)
    · exact statusAgrees_self regs world n
  exact ⟨agrees, endsWith_of_agrees agrees⟩

/-- The sum of a copy and its source. -/
def copyThenAdd : List Instruction :=
  [makeAbc .ldreg 1 0 0, makeAbc .add 2 1 0, makeAbc .ret 2 0 0]

/-- A straight line whose copy is dropped. -/
theorem copyPropagation_run_straightLine
    : copyPropagation false false copyThenAdd
        = [nopWord, makeAbc .add 2 0 0, makeAbc .ret 2 0 0]
      ∧ ∀ ending, ((primitiveRuntime []).machine copyThenAdd).EndsWith
          (.entry (integerRegs [21]) ()) ending
        ↔ ((primitiveRuntime []).machine (copyPropagation false false copyThenAdd)).EndsWith
          (.entry (integerRegs [21]) ()) ending := by
  refine ⟨by decide, (copyPropagation_run false false ?_ _ _ ?_).2⟩
  · exact fun _ => streamShape_of_plain (by decide)
  · exact Execution.forall_run _ 3 (r := .returned (.fastint 42) ()) (by decide)
      (by decide)

/-- A loop whose body reads the copied register before the copy: `do { z = x + x; y = (x = w)
+ y } while (y); return z` with `w`, `x`, `y`, `z` in registers 0 to 3.
-/
def copyInLoop : List Instruction :=
  [
    makeAbc .add 3 1 1,
    makeAbc .ldreg 1 0 0,
    makeAbc .add 2 1 2,
    makeASbx .ifTrue 2 (-4),
    makeAbc .ret 3 0 0
  ]

/-- The scan runs past the backward branch to the end of the code and calls `x` dead. -/
theorem copyPropagation_loses_assignment
    : ∃ ending, ((primitiveRuntime []).machine copyInLoop).EndsWith
        (.entry (integerRegs [1, 10, -2]) ()) ending
      ∧ ¬((primitiveRuntime []).machine (copyPropagation false false copyInLoop)).EndsWith
        (.entry (integerRegs [1, 10, -2]) ()) ending := by
  refine ⟨.returned (.fastint 2) (), ⟨9, by decide⟩, ?_⟩
  intro ends
  have other : ((primitiveRuntime []).machine (copyPropagation false false copyInLoop)).EndsWith
      (.entry (integerRegs [1, 10, -2]) ()) (.returned (.fastint 20) ()) := ⟨9, by decide⟩
  cases ends.unique other

end Boomkat.Correctness
