import Boomkat.Compiler.FusionRule
import Boomkat.Correctness.TriggerFusion
import Boomkat.Machine.Primitive

/-! Baking a loaded constant into its consumer preserves every run that reads no dropped load
behind the back of the liveness scan and whose fused consumers agree with the plain ones.
-/

namespace Boomkat.Correctness
open Boomkat.Foundation Boomkat.Bytecode Boomkat.Machine Boomkat.Compiler

variable {W : Type} {rt : Runtime W} {code : List Instruction} {rule : FusionRule}

/-- The edit that the driver makes at a slot. -/
def fusionEdits (rule : FusionRule) (code : List Instruction) (i : Nat)
    : Option (PairEdit Instruction) :=
  fusionDecision rule (buildJumpTargets code) code i

/-- The consumer of the load that the driver drops at a slot. -/
def fusionConsumerAt (rule : FusionRule) (code : List Instruction) (i : Nat) : Option Nat :=
  (fusionEdits rule code i).map PairEdit.slot

/-- The registers whose write the driver drops at a slot. -/
def fusionDrops (rule : FusionRule) (code : List Instruction) : Nat → Action W → List Nat :=
  triggerDrops (fusionEdits rule code) (regA code)

/-- The scan made for the load at `slot` examines a read of `reg` at `pc`. -/
def fusionScanExamines (rule : FusionRule) (code : List Instruction) (slot reg pc : Nat)
    : Bool :=
  match fusionConsumerAt rule code slot with
  | none => false
  | some k =>
      scanExamines fusionAbcReadsReg (fun _ => false) code reg pc code.length (k + 1) (-1)

/-- What rewriting a consumer assumes: `ADD` does not meet a symbol on its left, and `GETPROP`
does not read its object from the key register and its key is an interned string.
-/
def ConsumerSound (rt : Runtime W) (code : List Instruction) (frame : Frame W) : Prop :=
  match code[frame.pc]? with
  | none => True
  | some word =>
      match word.op with
      | .add =>
          match rt.toAddend (frame.regs word.b.toNat) frame.world with
          | .ok (.symbol _) _ => False
          | _ => True
      | .getprop =>
          word.b ≠ word.c
            ∧ match frame.regs word.c.toNat with
              | .string name => rt.isInterned frame.world (.string name) = true
              | _ => False
      | _ => True

/-- The state reads the register of a dropped load only in the load's own consumer or where
the scan made for the load looks, and a rewritten consumer meets its assumption. By
`scanExamines_of_dead` the scan for a dropped load examines no read of its register, so this case
never comes about.
-/
def FusionReadsSeen (rt : Runtime W) (rule : FusionRule) (code : List Instruction)
    (state : Tracked W) : Prop :=
  match state.status with
  | .ended _ => True
  | .running frame =>
      (∀ write ∈ state.dropped, write.reg ∈ readsAt rt code frame →
        fusionConsumerAt rule code write.slot = some frame.pc
          ∨ fusionScanExamines rule code write.slot write.reg frame.pc = true)
        ∧ ((∃ i < code.length, fusionConsumerAt rule code i = some frame.pc) →
          ConsumerSound rt code frame)

instance (rt : Runtime W) (code : List Instruction) (frame : Frame W)
    : Decidable (ConsumerSound rt code frame) :=
  match found : code[frame.pc]? with
  | none => .isTrue (by rw [ConsumerSound, found]; trivial)
  | some word => by
      unfold ConsumerSound
      simp only [found]
      split
      · split <;> infer_instance
      · refine @instDecidableAnd _ _ inferInstance ?_
        split <;> infer_instance
      · infer_instance

instance (rt : Runtime W) (rule : FusionRule) (code : List Instruction) (state : Tracked W)
    : Decidable (FusionReadsSeen rt rule code state) :=
  match state with
  | ⟨.ended _, _⟩ => .isTrue trivial
  | ⟨.running _, _⟩ => by unfold FusionReadsSeen; infer_instance

-----------------------------------------------------------------------------------------
-- The rewritten consumers
-----------------------------------------------------------------------------------------

/-- What a constant load leaves in its register. -/
def loadedConstant (rt : Runtime W) (code : List Instruction) (i : Nat) : Value :=
  match code[i]? with
  | none => .undefined
  | some word =>
      if word.op = .ldint then .fastint word.getSbc
      else (rt.constant word.getBc).getD .undefined

/-- `ADDI` and `SUBI` store what the plain form computes from the loaded constant. -/
theorem dispatch_immediate {next : Instruction} {rewriteOp : Opcode} {imm : Int}
    {frame : Frame W} {image : Nat → Value} (form : fusedForm next.op = some rewriteOp)
    (notGet : next.op ≠ .getprop) (low : -128 ≤ imm) (high : imm ≤ 127)
    (fetched : code[frame.pc]? = some next)
    (left : frame.regs next.b.toNat = image next.b.toNat)
    (right : frame.regs next.c.toNat = .fastint imm) (sound : ConsumerSound rt code frame)
    (slot : Nat)
    : rt.dispatch code (makeAbc rewriteOp next.a.toNat next.b.toNat (toUint imm)).decode
          { frame with regs := image } slot
        = rt.dispatch code next.decode frame slot := by
  have immediate := makeAbc_icharC low high rewriteOp next.a.toNat next.b.toNat
  have arith : next.op = .add ∧ rewriteOp = .addi ∨ next.op = .sub ∧ rewriteOp = .subi := by
    cases op : next.op <;> simp [fusedForm, op] at form notGet
    · exact .inl ⟨rfl, form.symm⟩
    · exact .inr ⟨rfl, form.symm⟩
  rcases arith with ⟨op, rfl⟩ | ⟨op, rfl⟩
  · have noSymbol : ∀ id world', rt.toAddend (frame.regs next.b.toNat) frame.world
        ≠ .ok (.symbol id) world' := by
      intro id world' converted
      simp [ConsumerSound, fetched, op, converted] at sound
    have same := rt.addImmediate_eq imm noSymbol
    simp only [Runtime.dispatch, Instruction.decode_op, op, makeAbc, producerOperands,
      Option.isSome_some, if_true, Runtime.produce] at immediate ⊢
    rw [immediate]
    simp only [Instruction.decode, BitVec.ofNat_toNat, BitVec.setWidth_eq, ← left, right, same]
  · have same := rt.subImmediate_eq (frame.regs next.b.toNat) imm frame.world
    simp only [Runtime.dispatch, Instruction.decode_op, op, makeAbc, producerOperands,
      Option.isSome_some, if_true, Runtime.produce] at immediate ⊢
    rw [immediate]
    simp only [Instruction.decode, BitVec.ofNat_toNat, BitVec.setWidth_eq, ← left, right, same]

/-- `GETPROPC` reads the property that `GETPROP` does with the loaded key. -/
theorem dispatch_constantKey {next : Instruction} {index : Nat} {frame : Frame W}
    {image : Nat → Value} (isGet : next.op = .getprop) (fits : index ≤ 255)
    (fetched : code[frame.pc]? = some next)
    (left : next.b ≠ next.c → frame.regs next.b.toNat = image next.b.toNat)
    (right : frame.regs next.c.toNat = (rt.constant index).getD .undefined)
    (sound : ConsumerSound rt code frame) (slot : Nat)
    : rt.dispatch code (makeAbc .getpropc next.a.toNat next.b.toNat index).decode
          { frame with regs := image } slot
        = rt.dispatch code next.decode frame slot := by
  simp only [ConsumerSound, fetched, isGet] at sound
  obtain ⟨apart, interned⟩ := sound
  have key : ∃ name, frame.regs next.c.toNat = .string name
      ∧ rt.isInterned frame.world (.string name) = true := by
    cases value : frame.regs next.c.toNat <;> simp only [value] at interned
    exact ⟨_, rfl, interned⟩
  obtain ⟨name, keyEq, interned⟩ := key
  have byte : (BitVec.ofNat 8 index).toNat = index := by
    simp only [BitVec.toNat_ofNat]
    omega
  simp only [Runtime.dispatch, Instruction.decode, makeAbc, isGet, producerOperands,
    Option.isSome_some, if_true, Runtime.produce, BitVec.ofNat_toNat, BitVec.setWidth_eq, byte]
  rw [← right, keyEq, Runtime.getProp, Runtime.getPropc, interned, left apart]

-----------------------------------------------------------------------------------------
-- The pass
-----------------------------------------------------------------------------------------

theorem fusionEdits_editAt (constant : ConstantRule rule) (code : List Instruction)
    : editAt (fusionDecision rule (buildJumpTargets code)) code = fusionEdits rule code := by
  funext i
  exact editAt_forward (fusionDecision_pairs constant _) (fusionDecision_forward rule _) code i

theorem fusedForm_spec {op rewriteOp : Opcode} (form : fusedForm op = some rewriteOp)
    : (op = .add ∧ rewriteOp = .addi) ∨ (op = .sub ∧ rewriteOp = .subi)
        ∨ (op = .getprop ∧ rewriteOp = .getpropc) := by
  unfold fusedForm at form
  split at form <;> cases form <;> simp

/-- A load and its consumer form a sealed pair. -/
theorem fusionEdits_sealed (constant : ConstantRule rule) {i : Nat}
    {edit : PairEdit Instruction} (decided : fusionEdits rule code i = some edit)
    : SealedPair code i edit.slot := by
  obtain ⟨word, next, tm, cm, wordEq, triggered, slot, nextEq, sealed, consumed, _⟩ :=
    fusionDecision_spec decided
  obtain ⟨isLoad, _⟩ := constant.trigger triggered
  obtain ⟨_, form, _⟩ := constant.consumer triggered consumed
  obtain ⟨order, inside⟩ := (fusionDecision_pairs constant _).later decided
  refine ⟨order, inside, ?_, ?_, ?_, ?_⟩
  · intro other otherEq
    obtain rfl : word = other := by simpa [wordEq] using otherEq
    rcases isLoad with op | op <;> simp [op, ownsDataWord]
  · intro j other low high otherEq
    exact skipNops_between low (slot ▸ high) otherEq
  · intro other otherEq
    obtain rfl : next = other := by simpa [nextEq] using otherEq
    rcases fusedForm_spec form with ⟨op, _⟩ | ⟨op, _⟩ | ⟨op, _⟩ <;> simp [op]
  · intro j low high
    have unmarked := (List.any_eq_false.mp sealed) j (List.mem_range'_1.mpr (by omega))
    simpa [isJumpTarget] using unmarked

/-- Loads and their consumers form disjoint sealed pairs. -/
theorem fusionEdits_pairs (constant : ConstantRule rule) (code : List Instruction)
    : PairEdits code (fusionEdits rule code) := by
  refine ⟨fusionEdits_sealed constant, ?_, ?_⟩
  · intro i j edit edit' first second
    rw [← fusionEdits_editAt constant] at first second
    exact editAt_disjoint (fusionDecision_pairs constant _) first second
  · intro i edit decided
    obtain ⟨word, next, tm, cm, wordEq, triggered, _, nextEq, _, consumed, _, head, tail⟩ :=
      fusionDecision_spec decided
    obtain ⟨isLoad, _⟩ := constant.trigger triggered
    obtain ⟨_, form, _⟩ := constant.consumer triggered consumed
    refine ⟨by rw [head]; rfl, ?_, ?_⟩
    · rw [tail, makeAbc]
      rcases fusedForm_spec form with ⟨_, op⟩ | ⟨_, op⟩ | ⟨_, op⟩ <;> simp [op, marksFinally]
    · rintro other (otherEq | otherEq)
      · obtain rfl : word = other := by simpa [wordEq] using otherEq
        rcases isLoad with op | op <;> simp [op, marksFinally]
      · obtain rfl : next = other := by simpa [nextEq] using otherEq
        rcases fusedForm_spec form with ⟨op, _⟩ | ⟨op, _⟩ | ⟨op, _⟩ <;> simp [op, marksFinally]

/-- The driver blanks constant loads and bakes the constants into their consumers. -/
theorem fusionEdits_fuses (constant : ConstantRule rule)
    : TriggerFusion rt code (fusionEdits rule code) (regA code)
        (fun i regs _ _ => regs (regA code i) = loadedConstant rt code i)
        (fun _ frame => ConsumerSound rt code frame) := by
  refine ⟨fusionEdits_pairs constant code, ?_, ?_, ?_, ?_⟩
  · intro i edit decided
    obtain ⟨_, _, _, _, _, _, _, _, _, _, _, head, _⟩ := fusionDecision_spec decided
    exact head
  · intro i edit decided
    obtain ⟨_, _, _, cm, _, triggered, _, _, _, consumed, _, _, tail⟩ :=
      fusionDecision_spec decided
    obtain ⟨_, form, _⟩ := constant.consumer triggered consumed
    rw [tail, makeAbc]
    rcases fusedForm_spec form with ⟨_, op⟩ | ⟨_, op⟩ | ⟨_, op⟩ <;> simp [op, ownsDataWord]
  · intro i edit frame decided here
    obtain ⟨word, _, _, _, wordEq, triggered, _⟩ := fusionDecision_spec decided
    obtain ⟨isLoad, _⟩ := constant.trigger triggered
    have fetched : code[frame.pc]? = some word := here ▸ wordEq
    have plain : word.op ≠ .wide := by rcases isLoad with op | op <;> simp [op]
    have rK : regA code i = word.a.toNat := by simp [regA, wordEq]
    refine ⟨loadedConstant rt code i, ?_, ?_⟩
    · rw [act_of_fetched fetched plain, rK, here]
      rcases isLoad with op | op <;>
        simp [Runtime.dispatch, op, producerOperands, Runtime.produce, Runtime.store,
          loadedConstant, wordEq]
    · intro image _
      rw [overwrite_cons, overwrite_nil, Function.update_self]
  · intro i edit frame image decided here carried agree sound
    obtain ⟨word, next, tm, cm, wordEq, triggered, _, nextEq, _, consumed, _, _, tail⟩ :=
      fusionDecision_spec decided
    obtain ⟨isLoad, form, right, dest, src, immediate, key⟩ :=
      constant.consumer triggered consumed
    have fetched : code[frame.pc]? = some next := here ▸ nextEq
    have rK : regA code i = word.a.toNat := by simp [regA, wordEq]
    have plain : next.op ≠ .wide := by
      rcases fusedForm_spec form with ⟨op, _⟩ | ⟨op, _⟩ | ⟨op, _⟩ <;> simp [op]
    have reads : next.b.toNat ∈ readsAt rt code frame := by
      simp only [readsAt, fetch, fetched, if_neg plain]
      rcases fusedForm_spec form with ⟨op, _⟩ | ⟨op, _⟩ | ⟨op, _⟩ <;>
        simp [registerReads, op, producerOperands, producerReads]
    have left : next.b ≠ word.a → frame.regs next.b.toNat = image next.b.toNat := by
      intro apart
      apply agree _ reads
      rw [rK]
      exact fun same => apart (BitVec.eq_of_toNat_eq same)
    rw [rK] at carried
    rw [tail, dest, src, act_of_fetched fetched plain, ← here]
    by_cases isGet : next.op = .getprop
    · obtain ⟨imm, fits⟩ := key isGet
      have rewriteOp : cm.rewriteOp = .getpropc := by
        simpa [isGet, fusedForm] using form.symm
      have notInt : word.op ≠ .ldint := by simp [isLoad, isGet, loadedBy]
      rw [rewriteOp, imm]
      refine dispatch_constantKey isGet fits fetched (right ▸ left) ?_ sound _
      rw [right, carried]
      simp [loadedConstant, wordEq, notInt]
    · obtain ⟨apart, imm, low, high⟩ := immediate isGet
      have isInt : word.op = .ldint := by
        rcases fusedForm_spec form with ⟨op, _⟩ | ⟨op, _⟩ | ⟨op, _⟩
        · simp [isLoad, op, loadedBy]
        · simp [isLoad, op, loadedBy]
        · exact absurd op isGet
      rw [imm]
      refine dispatch_immediate form isGet low high fetched (left apart) ?_ sound _
      rw [right, carried]
      simp [loadedConstant, wordEq, isInt]

/-- A state whose reads are seen is harmless: the scan has found the load dead. -/
theorem FusionReadsSeen.harmless (constant : ConstantRule rule) {state : Tracked W}
    (seen : FusionReadsSeen rt rule code state)
    (known : DroppedAt (W := W) (fusionDrops rule code) state.dropped)
    : Harmless rt code (fusionEdits rule code) (fun _ frame => ConsumerSound rt code frame)
        state := by
  refine ⟨?_, ?_⟩
  · intro frame running write mem read
    obtain ⟨edit, decided, regEq⟩ := known.trigger mem
    obtain ⟨word, _, tm, _, wordEq, triggered, _, _, _, _, dead, _⟩ :=
      fusionDecision_spec decided
    have reg : write.reg = tm.destReg := by
      rw [(constant.trigger triggered).2, regEq]
      simp [regA, wordEq]
    refine ⟨edit, decided, ?_⟩
    have consumer : fusionConsumerAt rule code write.slot = some edit.slot := by
      simp [fusionConsumerAt, decided]
    simp only [FusionReadsSeen, running] at seen
    rcases seen.1 write mem read with own | examined
    · simpa [consumer] using own.symm
    · simp only [fusionScanExamines, consumer, reg] at examined
      rw [scanExamines_of_dead dead] at examined
      cases examined
  · intro frame running i edit decided here
    simp only [FusionReadsSeen, running] at seen
    refine seen.2 ⟨i, ?_, by simp [fusionConsumerAt, decided, here]⟩
    obtain ⟨word, _, _, _, wordEq, _⟩ := fusionDecision_spec decided
    exact (List.getElem?_eq_some_iff.mp wordEq).1

/-- A local read of the literal that feeds a sum: `r1 = 5; r2 = r0 + r1; return r1`. -/
def literalReturned : List Instruction :=
  [makeASbx .ldint 1 5, makeAbc .add 2 0 1, makeAbc .ret 1 0 0]

/-- A sum with a literal, returned. -/
def addLiteral : List Instruction :=
  [makeASbx .ldint 1 5, makeAbc .add 2 0 1, makeAbc .ret 2 0 0]

end Boomkat.Correctness
