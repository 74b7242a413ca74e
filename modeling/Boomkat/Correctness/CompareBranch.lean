import Boomkat.Compiler.CompareBranch
import Boomkat.Correctness.PairFusion
import Boomkat.Machine.Primitive

/-! Fusing a comparison with the branch on its result preserves every run that reads no
dropped result behind the back of the two scans and orders no NaN by `>` or `>=`.
-/

namespace Boomkat.Correctness
open Boomkat.Foundation Boomkat.Bytecode Boomkat.Machine Boomkat.Compiler

variable {W : Type} {rt : Runtime W} {code : List Instruction}

/-- The edit that the pass makes at a slot. -/
def cmpBranchEdits (code : List Instruction) : Nat → Option (PairEdit Instruction) :=
  editAt (cmpBranchDecision (buildJumpTargets code)) code

/-- The registers whose write the pass drops at a slot. -/
def cmpBranchDrops (code : List Instruction) : Nat → Action W → List Nat :=
  triggerDrops (cmpBranchEdits code) (regA code)

/-- The fall-through scan made for the comparison at `slot` examines a read of `reg` at `pc`. -/
def fallThroughExamines (code : List Instruction) (slot reg pc : Nat) : Bool :=
  cmpScanExamines (buildJumpTargets code) code reg (slot + 2) false pc code.length (slot + 2)
    (-1)

/-- The scan of a forward taken path made for the comparison at `slot` examines a read of
`reg` at `pc`. No scan is made where the result register is an operand of the comparison.
-/
def takenPathExamines (code : List Instruction) (slot reg pc : Nat) : Bool :=
  match code[slot]?, code[slot + 1]? with
  | some cmp, some branch =>
      let target := branchTo (slot + 2) branch.getSbc
      if cmp.a = cmp.b ∨ cmp.a = cmp.c ∨ branch.getSbc < 0 then false
      else
        cmpScanExamines (buildJumpTargets code) code reg target true pc code.length target (-1)
  | _, _ => false

/-- Two numbers that are not both fastints and one of which is a NaN. -/
def unordered (rt : Runtime W) (left right : Value) : Bool :=
  match left, right with
  | .fastint _, .fastint _ => false
  | _, _ =>
      left.isNumeric && right.isNumeric
        && ((rt.numericToDouble left).isNan || (rt.numericToDouble right).isNan)

/-- What fusing a comparison assumes: `GT` and `GE` do not meet a NaN. -/
def CompareSound (rt : Runtime W) (code : List Instruction) (frame : Frame W) : Prop :=
  match code[frame.pc]? with
  | none => True
  | some cmp =>
      cmp.op = .gt ∨ cmp.op = .ge →
      unordered rt (frame.regs cmp.b.toNat) (frame.regs cmp.c.toNat) = false

/-- The state reads the register of a dropped result only in the fused branch itself or where
a scan made for the comparison looks, and a comparison about to be fused meets no NaN that it
does not handle. The scans for a dropped result found it dead on both paths, so they examine no read
of it (`scanExamines_of_dead`): the read can only be in the fused branch.
-/
def CompareReadsSeen (rt : Runtime W) (code : List Instruction) (state : Tracked W) : Prop :=
  match state.status with
  | .ended _ => True
  | .running frame =>
      (∀ write ∈ state.dropped, write.reg ∈ readsAt rt code frame →
        frame.pc = write.slot + 1
          ∨ fallThroughExamines code write.slot write.reg frame.pc = true
          ∨ takenPathExamines code write.slot write.reg frame.pc = true)
        ∧ ((cmpBranchEdits code frame.pc).isSome → CompareSound rt code frame)

instance (rt : Runtime W) (code : List Instruction) (frame : Frame W)
    : Decidable (CompareSound rt code frame) :=
  match found : code[frame.pc]? with
  | none => .isTrue (by rw [CompareSound, found]; trivial)
  | some cmp =>
      decidable_of_iff (cmp.op = .gt ∨ cmp.op = .ge →
          unordered rt (frame.regs cmp.b.toNat) (frame.regs cmp.c.toNat) = false)
        (by rw [CompareSound, found])

instance (rt : Runtime W) (code : List Instruction) (state : Tracked W)
    : Decidable (CompareReadsSeen rt code state) :=
  match state with
  | ⟨.ended _, _⟩ => .isTrue trivial
  | ⟨.running _, _⟩ => by unfold CompareReadsSeen; infer_instance

-----------------------------------------------------------------------------------------
-- The comparison and its fused form
-----------------------------------------------------------------------------------------

/-- The result of a comparison that has a fused form. -/
def comparisonOutcome (rt : Runtime W) (op : Opcode) (left right : Value) (world : W)
    : Coercion W Bool :=
  match op with
  | .seq => .ok (rt.strictEquals left right) world
  | .sneq => .ok (!rt.strictEquals left right) world
  | _ => rt.compareValues op left right world

/-- What an order comparison says about operands of which `<` and `<=` are known. -/
def orderTest (op : Opcode) (cmpLt cmpLe : Bool) : Bool :=
  match op with
  | .lt => cmpLt
  | .le => cmpLe
  | .gt => !cmpLe
  | _ => !cmpLt

/-- The order comparisons. -/
def isRelational (op : Opcode) : Prop := op = .lt ∨ op = .le ∨ op = .gt ∨ op = .ge

theorem fusedResult_fused {cmpOp : Opcode} (relational : isRelational cmpOp)
    (isIfFalse cmpLt cmpLe : Bool)
    : fusedResult (cmpBranchFusedOp cmpOp isIfFalse) cmpLt cmpLe
      = (orderTest cmpOp cmpLt cmpLe, !isIfFalse) := by
  rcases relational with rfl | rfl | rfl | rfl <;> cases isIfFalse <;> rfl

theorem compareInts_eq_orderTest {op : Opcode} (relational : isRelational op) (x y : Int)
    : compareInts op x y = orderTest op (decide (x < y)) (decide (x ≤ y)) := by
  rcases relational with rfl | rfl | rfl | rfl
  · rfl
  · rfl
  · simp only [compareInts, orderTest, ← decide_not, Int.not_le, gt_iff_lt]
  · simp only [compareInts, orderTest, ← decide_not, Int.not_lt, ge_iff_le]

/-- `>` and `>=` on doubles are the negated `<=` and `<` unless an operand is a NaN. -/
theorem compareDoubles_eq_orderTest {op : Opcode} {x y : Double} (relational : isRelational op)
    (ordered : op = .gt ∨ op = .ge → x.isNan = false ∧ y.isNan = false)
    : compareDoubles op x y = orderTest op (Double.lt x y) (Double.le x y) := by
  rcases relational with rfl | rfl | rfl | rfl
  · rfl
  · rfl
  · obtain ⟨left, right⟩ := ordered (.inl rfl)
    simp [compareDoubles, orderTest, Double.le_eq_not_lt left right]
  · obtain ⟨left, right⟩ := ordered (.inr rfl)
    simp [compareDoubles, orderTest, Double.le_eq_not_lt right left]

/-- The flags of the fused handler carry the result of the plain one.
Witness: fastints, other numbers, and operands that are converted, as both handlers split.
-/
theorem compareValues_eq_orderFlags {op : Opcode} {left right : Value} {world : W}
    (relational : isRelational op)
    (ordered : op = .gt ∨ op = .ge → unordered rt left right = false)
    : rt.compareValues op left right world
      = (rt.orderFlags left right world).bind fun (cmpLt, cmpLe, cmpUndef) world =>
          .ok (if cmpUndef then false else orderTest op cmpLt cmpLe) world := by
  unfold Runtime.compareValues Runtime.orderFlags
  split
  · rename_i x y
    simp [Coercion.bind, compareInts_eq_orderTest relational]
  · rename_i notInts
    by_cases numeric : (left.isNumeric && right.isNumeric) = true
    · have noNan : op = .gt ∨ op = .ge → (rt.numericToDouble left).isNan = false
          ∧ (rt.numericToDouble right).isNan = false := by
        intro flipped
        have known := ordered flipped
        unfold unordered at known
        split at known
        · exact absurd rfl (notInts _ _ rfl)
        · simpa [numeric] using known
      simp [numeric, Coercion.bind, compareDoubles_eq_orderTest relational noNan]
    · rw [if_neg numeric, if_neg numeric]
      cases rt.relationalCompare left right world with
      | thrown value world => rfl
      | ok result world => simp only [Coercion.bind, compareInts_eq_orderTest relational]

/-- The fused handler jumps when the plain branch on the plain result does. -/
theorem fusedBranch_eq {cmpOp : Opcode} {left right : Value} (relational : isRelational cmpOp)
    (ordered : cmpOp = .gt ∨ cmpOp = .ge → unordered rt left right = false)
    (isIfFalse : Bool) (world : W)
    : rt.fusedBranch (cmpBranchFusedOp cmpOp isIfFalse) left right world
      = (rt.compareValues cmpOp left right world).bind
          fun result world => .ok (result != isIfFalse) world := by
  rw [compareValues_eq_orderFlags relational ordered, Runtime.fusedBranch]
  cases rt.orderFlags left right world with
  | thrown value world => rfl
  | ok flags world =>
      obtain ⟨cmpLt, cmpLe, cmpUndef⟩ := flags
      simp only [Coercion.bind, fusedResult_fused relational]
      cases isIfFalse <;> simp

-----------------------------------------------------------------------------------------
-- The pass
-----------------------------------------------------------------------------------------

theorem cmpBranchFusedOp_cases {cmpOp : Opcode} {isIfFalse : Bool}
    (fused : cmpBranchFusedOp cmpOp isIfFalse ≠ .nop)
    : isRelational cmpOp ∨ cmpOp = .seq ∨ cmpOp = .sneq := by
  unfold cmpBranchFusedOp at fused
  unfold isRelational
  split at fused <;> simp_all

/-- A comparison stores its result. -/
theorem act_comparison (rt : Runtime W) {frame : Frame W} {cmp : Instruction} {isIfFalse : Bool}
    (fetched : code[frame.pc]? = some cmp) (fused : cmpBranchFusedOp cmp.op isIfFalse ≠ .nop)
    : rt.act code frame
      = rt.store cmp.a.toNat (frame.pc + 1) frame.catchers
          (Coercion.complete
            ((comparisonOutcome rt cmp.op (frame.regs cmp.b.toNat) (frame.regs cmp.c.toNat)
                frame.world).bind
              fun result world => .ok (.boolean result) world)) := by
  have forms := cmpBranchFusedOp_cases fused
  have plain : cmp.op ≠ .wide := by
    rcases forms with (op | op | op | op) | op | op <;> simp [op]
  rw [act_of_fetched fetched plain]
  rcases forms with (op | op | op | op) | op | op <;>
    simp [Runtime.dispatch, op, producerOperands, Runtime.produce, comparisonOutcome,
      Coercion.bind, Coercion.complete]

/-- A fused word branches when the plain branch on the stored result does. -/
theorem dispatch_fused {frame : Frame W} {cmp : Instruction} {isIfFalse : Bool} {offset : Int}
    (fetched : code[frame.pc]? = some cmp) (fused : cmpBranchFusedOp cmp.op isIfFalse ≠ .nop)
    (low : -128 ≤ offset) (high : offset ≤ 127) (sound : CompareSound rt code frame)
    {image : Nat → Value} (left : frame.regs cmp.b.toNat = image cmp.b.toNat)
    (right : frame.regs cmp.c.toNat = image cmp.c.toNat) (code' : List Instruction)
    (next : Nat)
    : rt.dispatch code'
        (makeAbc (cmpBranchFusedOp cmp.op isIfFalse) (toUint offset) cmp.b.toNat
          cmp.c.toNat).decode { frame with regs := image } next
      = rt.branch offset next frame.catchers
          ((comparisonOutcome rt cmp.op (frame.regs cmp.b.toNat) (frame.regs cmp.c.toNat)
              frame.world).bind
            fun result world => .ok (result != isIfFalse) world) := by
  have imm := makeAbc_icharA low high (cmpBranchFusedOp cmp.op isIfFalse) cmp.b.toNat
    cmp.c.toNat
  simp only [CompareSound, fetched] at sound
  rcases cmpBranchFusedOp_cases fused with relational | op | op
  · rw [left, right] at sound
    have flags := fusedBranch_eq relational sound isIfFalse frame.world
    have plain : comparisonOutcome rt cmp.op (image cmp.b.toNat) (image cmp.c.toNat) frame.world
        = rt.compareValues cmp.op (image cmp.b.toNat) (image cmp.c.toNat) frame.world := by
      rcases relational with op | op | op | op <;> simp [comparisonOutcome, op]
    rw [left, right, plain, ← flags]
    rcases relational with op | op | op | op <;> cases isIfFalse <;>
      simp_all [Runtime.dispatch, cmpBranchFusedOp, makeAbc, Instruction.decode]
  · cases isIfFalse <;>
      simp_all [Runtime.dispatch, cmpBranchFusedOp, makeAbc, Instruction.decode,
        comparisonOutcome, Coercion.bind]
  · cases isIfFalse <;>
      simp_all [Runtime.dispatch, cmpBranchFusedOp, makeAbc, Instruction.decode,
        comparisonOutcome, Coercion.bind]

/-- What an edit says about the original code, which the walk has not changed from there on. -/
theorem cmpBranchEdits_spec {i : Nat} {edit : PairEdit Instruction}
    (decided : cmpBranchEdits code i = some edit)
    : ∃ cmp branch, code[i]? = some cmp ∧ code[i + 1]? = some branch
      ∧ (branch.op = .ifFalse ∨ branch.op = .ifTrue)
      ∧ cmpBranchFusedOp cmp.op (branch.op = .ifFalse) ≠ .nop
      ∧ branch.a = cmp.a ∧ isJumpTarget code (i + 1) = false
      ∧ -128 ≤ branch.getSbc + 1 ∧ branch.getSbc + 1 ≤ 127
      ∧ edit.head = makeAbc (cmpBranchFusedOp cmp.op (branch.op = .ifFalse))
          (toUint (branch.getSbc + 1)) cmp.b.toNat cmp.c.toNat
      ∧ edit.slot = i + 1 ∧ edit.tail = nopWord := by
  have suffix := fun s => editedBefore_suffix (cmpBranchDecision_pairs _) decided (s := s)
  obtain ⟨cmp, branch, cmpEq, branchEq, isBranch, fused, same, unmarked, _, _, low, high, edit⟩ :=
    cmpBranchDecision_spec decided
  rw [suffix i (Nat.le_refl i)] at cmpEq
  rw [suffix (i + 1) (Nat.le_succ i)] at branchEq
  exact ⟨cmp, branch, cmpEq, branchEq, isBranch, fused, same, unmarked, low, high, edit⟩

/-- The scans made for a fused comparison have examined no read of its result. -/
theorem cmpBranchEdits_dead {i : Nat} {edit : PairEdit Instruction}
    (decided : cmpBranchEdits code i = some edit) (pc : Nat)
    : fallThroughExamines code i (regA code i) pc = false
      ∧ takenPathExamines code i (regA code i) pc = false := by
  have suffix := fun s => editedBefore_suffix (cmpBranchDecision_pairs _) decided (s := s)
  have length := (editedBefore_rewritten (cmpBranchDecision_pairs (buildJumpTargets code))
    code i).length
  obtain ⟨cmp, branch, cmpEq, branchEq, _, _, _, _, dead, taken, _⟩ :=
    cmpBranchDecision_spec decided
  rw [suffix i (Nat.le_refl i)] at cmpEq
  rw [suffix (i + 1) (Nat.le_succ i)] at branchEq
  have reg : regA code i = cmp.a.toNat := by simp [regA, cmpEq]
  constructor
  · unfold cmpResultLiveFrom at dead
    rw [length, cmpScanLive_suffix suffix (by omega)] at dead
    rw [reg]
    exact cmpScanExamines_of_dead dead pc
  · simp only [takenPathExamines, cmpEq, branchEq]
    split
    · rfl
    · rename_i scanned
      simp only [not_or, not_lt] at scanned
      obtain ⟨apart, apart', forward⟩ := scanned
      have target : ((i : Int) + 2 + branch.getSbc).toNat = branchTo (i + 2) branch.getSbc := by
        simp [branchTo]
      have above : i ≤ branchTo (i + 2) branch.getSbc := by
        rw [← target]
        omega
      unfold takenPathLive at taken
      rw [if_neg (by omega), target, suffix _ above] at taken
      cases word : code[branchTo (i + 2) branch.getSbc]? with
      | none =>
          cases fuel : code.length with
          | zero => rfl
          | succ n => simp [cmpScanExamines, word]
      | some landing =>
          simp only [word] at taken
          split at taken
          · cases taken
          · rw [if_neg (by simp [apart, apart'])] at taken
            unfold cmpResultLiveFrom at taken
            rw [length, cmpScanLive_suffix suffix above] at taken
            rw [reg]
            exact cmpScanExamines_of_dead taken pc

/-- Comparisons and their branches form disjoint sealed pairs. -/
theorem cmpBranchEdits_pairs (code : List Instruction)
    : PairEdits code (cmpBranchEdits code) := by
  refine ⟨?_, editAt_disjoint (cmpBranchDecision_pairs _), ?_⟩
  · intro i edit decided
    obtain ⟨cmp, branch, cmpEq, branchEq, isBranch, fused, _, unmarked, _, _, _, slot, _⟩ :=
      cmpBranchEdits_spec decided
    rw [slot]
    refine ⟨Nat.lt_succ_self i, (List.getElem?_eq_some_iff.mp branchEq).1, ?_, ?_, ?_, ?_⟩
    · intro other otherEq
      obtain rfl : cmp = other := by simpa [cmpEq] using otherEq
      rcases cmpBranchFusedOp_cases fused with (op | op | op | op) | op | op <;>
        simp [op, ownsDataWord]
    · intro j other low high
      omega
    · intro other otherEq
      obtain rfl : branch = other := by simpa [branchEq] using otherEq
      rcases isBranch with op | op <;> simp [op]
    · intro j low high
      obtain rfl : j = i + 1 := by omega
      exact unmarked
  · intro i edit decided
    obtain ⟨cmp, branch, cmpEq, branchEq, isBranch, fused, _, _, _, _, head, slot, tail⟩ :=
      cmpBranchEdits_spec decided
    have forms := cmpBranchFusedOp_cases fused
    refine ⟨?_, by rw [tail]; rfl, ?_⟩
    · rw [head, makeAbc]
      rcases forms with (op | op | op | op) | op | op <;>
        rcases isBranch with isIf | isIf <;> simp [op, isIf, cmpBranchFusedOp, marksFinally]
    · rw [slot]
      rintro other (otherEq | otherEq)
      · obtain rfl : cmp = other := by simpa [cmpEq] using otherEq
        rcases forms with (op | op | op | op) | op | op <;> simp [op, marksFinally]
      · obtain rfl : branch = other := by simpa [branchEq] using otherEq
        rcases isBranch with op | op <;> simp [op, marksFinally]

/-- A plain branch on a boolean register. -/
theorem act_branchOn (rt : Runtime W) {frame : Frame W} {branch : Instruction} {result : Bool}
    (fetched : code[frame.pc]? = some branch) (isBranch : branch.op = .ifFalse ∨ branch.op = .ifTrue)
    (holds : frame.regs branch.a.toNat = .boolean result)
    : rt.act code frame
      = .go [] (if result != decide (branch.op = .ifFalse) then
            branchTo (frame.pc + 1) branch.getSbc
          else frame.pc + 1) frame.catchers frame.world := by
  have plain : branch.op ≠ .wide := by rcases isBranch with op | op <;> simp [op]
  rw [act_of_fetched fetched plain]
  rcases isBranch with op | op <;> cases result <;>
    simp [Runtime.dispatch, op, Runtime.branch, holds, Value.isTruthy]

/-- The pass fuses pairs: a comparison and its branch take the step that the fused word takes,
followed by the NOP when it falls through.
-/
theorem cmpBranchEdits_fuses (rt : Runtime W) {code' : List Instruction}
    (shape : StreamShape code) (edited : EditedCode code (cmpBranchEdits code) code')
    : PairFusion rt code code' (cmpBranchEdits code) (cmpBranchDrops code)
        (fun frame => (cmpBranchEdits code frame.pc).isSome → CompareSound rt code frame) := by
  have pairs := cmpBranchEdits_pairs code
  have adjacent : ∀ {i edit}, cmpBranchEdits code i = some edit → edit.slot = i + 1 := by
    intro i edit decided
    obtain ⟨_, _, _, _, _, _, _, _, _, _, _, slot, _⟩ := cmpBranchEdits_spec decided
    exact slot
  refine ⟨pairs, adjacent, edited, ?_⟩
  · intro dropped frame image edit decided matched harmless
    obtain ⟨cmp, branch, cmpEq, branchEq, isBranch, fused, same, _, low, high, head, slot, tail⟩ :=
      cmpBranchEdits_spec decided
    have agree := matched.agree
    have forms := cmpBranchFusedOp_cases fused
    have reads : cmp.b.toNat ∈ readsAt rt code frame ∧ cmp.c.toNat ∈ readsAt rt code frame := by
      have plain : cmp.op ≠ .wide := by
        rcases forms with (op | op | op | op) | op | op <;> simp [op]
      simp only [readsAt, fetch, cmpEq, if_neg plain]
      rcases forms with (op | op | op | op) | op | op <;>
        simp [registerReads, op, producerOperands, producerReads]
    have left := matched.fresh (harmless 0) reads.1
    have right := matched.fresh (harmless 0) reads.2
    have first := act_comparison rt cmpEq fused
    have sound := (harmless 0).sound frame rfl (by simp [decided])
    obtain ⟨headEq, tailEq⟩ := edited.edited decided
    have acts' : rt.act code' image
        = rt.branch (branch.getSbc + 1) (frame.pc + 1) frame.catchers
            ((comparisonOutcome rt cmp.op (frame.regs cmp.b.toNat) (frame.regs cmp.c.toNat)
                frame.world).bind
              fun result world => .ok (result != decide (branch.op = .ifFalse)) world) := by
      have plain : edit.head.op ≠ .wide := by
        rw [head, makeAbc]
        rcases forms with (op | op | op | op) | op | op <;>
          rcases isBranch with isIf | isIf <;> simp [op, isIf, cmpBranchFusedOp]
      rw [← agree.pc] at headEq
      rw [act_of_fetched headEq plain, agree.eq, head]
      exact dispatch_fused cmpEq fused low high sound left right _ _
    cases outcome : comparisonOutcome rt cmp.op (frame.regs cmp.b.toNat)
        (frame.regs cmp.c.toNat) frame.world with
    | thrown value world =>
        refine ⟨0, 0, Nat.zero_le 1, Nat.zero_le 1, ?_⟩
        have raised : rt.act code frame = rt.raise [] value frame.catchers world := by
          rw [first, outcome]
          rfl
        have raised' : rt.act code' image = rt.raise [] value frame.catchers world := by
          rw [acts', outcome]
          rfl
        have again := matched.raise pairs rt (cmpBranchDrops code) [] value world
          (fun _ _ _ reg written => by simp at written)
        rw [← raised] at again
        rw [← raised] at raised'
        simpa only [Execution.run, trackedMachine, Runtime.machine, trackStep, Runtime.step,
          Function.iterate_one, zero_add, raised'] using again
    | ok result world =>
        rw [outcome] at first acts'
        have stored : overwrite frame.regs [(cmp.a.toNat, .boolean result)] branch.a.toNat
            = .boolean result := by
          rw [same]
          simp
        have second : rt.act code
            {
              pc := frame.pc + 1
              regs := overwrite frame.regs [(cmp.a.toNat, .boolean result)]
              catchers := frame.catchers
              world := world
            } = _ :=
          act_branchOn rt branchEq isBranch stored
        have fresh : ∀ succ, Set.EqOn
            (overwrite (overwrite frame.regs [(cmp.a.toNat, .boolean result)]) []) image.regs
            (stale (dropAfter (cmpBranchDrops code) (frame.pc + 1)
              (dropAfter (cmpBranchDrops code) frame.pc dropped
                (.go [(cmp.a.toNat, .boolean result)] (frame.pc + 1) frame.catchers world))
              (.go [] succ frame.catchers world)))ᶜ := by
          intro succ
          rw [dropAfter_unwritten (by simp [cmpBranchDrops, triggerDrops, writtenBy]),
            overwrite_nil]
          refine (framesAgree_drop agree ?_).regs
          intro reg written
          have reg : reg = regA code frame.pc := by simpa [regA, cmpEq] using written
          simp [cmpBranchDrops, triggerDrops, decided, reg, writtenBy, regA, cmpEq]
        have both := matched.both pairs shape adjacent decided first second
          (cmpBranchDrops code) (fresh _)
        have target : branchTo (frame.pc + 1) (branch.getSbc + 1)
            = branchTo (frame.pc + 2) branch.getSbc := by
          unfold branchTo
          congr 1
          omega
        cases taken : result != decide (branch.op = .ifFalse) with
        | true =>
            refine ⟨1, 0, Nat.le_refl 1, Nat.zero_le 1, ?_⟩
            simpa [taken, target, Execution.run, Runtime.machine, Runtime.step, acts',
              Coercion.bind, Runtime.branch, Action.perform] using both
        | false =>
            have blank : code'[frame.pc + 1]? = some nopWord := by
              rw [← tail, ← slot]
              exact tailEq
            have skips : rt.act code'
                {
                  pc := frame.pc + 1
                  regs := image.regs
                  catchers := frame.catchers
                  world := world
                } = _ :=
              act_nopWord rt blank
            refine ⟨1, 1, Nat.le_refl 1, Nat.le_refl 1, ?_⟩
            simpa [taken, Execution.run, Runtime.machine, Runtime.step, acts',
              Coercion.bind, Runtime.branch, Action.perform, skips] using both

/-- A state whose reads are seen is harmless: both scans have found the result dead. -/
theorem CompareReadsSeen.harmless {state : Tracked W} (seen : CompareReadsSeen rt code state)
    (known : DroppedAt (W := W) (cmpBranchDrops code) state.dropped)
    : PairHarmless rt code (cmpBranchEdits code) (cmpBranchDrops code)
        (fun frame => (cmpBranchEdits code frame.pc).isSome → CompareSound rt code frame)
        state := by
  refine ⟨known, ?_, ?_⟩
  · intro frame running write mem read
    obtain ⟨edit, decided, reg⟩ := known.trigger mem
    obtain ⟨_, _, _, _, _, _, _, _, _, _, _, slot, _⟩ := cmpBranchEdits_spec decided
    obtain ⟨fallDead, takenDead⟩ := cmpBranchEdits_dead decided frame.pc
    simp only [CompareReadsSeen, running] at seen
    rcases seen.1 write mem read with own | examined | examined
    · exact ⟨edit, decided, by rw [own, slot]⟩
    · simp [reg, fallDead] at examined
    · simp [reg, takenDead] at examined
  · intro frame running
    simp only [CompareReadsSeen, running] at seen
    exact seen.2

/-- `if (x > y) return x; return y` on registers 0 and 1. -/
def returnLarger : List Instruction :=
  [
    makeAbc .gt 2 0 1,
    makeASbx .ifFalse 2 1,
    makeAbc .ret 0 0 0,
    makeAbc .ret 1 0 0
  ]

/-- A NaN and the double 1. -/
def nanAndOne (reg : Nat) : Value :=
  .number (if reg = 0 then Double.nan else 0x3FF0000000000000)

end Boomkat.Correctness
