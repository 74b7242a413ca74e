import Boomkat.Compiler.LivenessScan
import Boomkat.Foundation.PairRewrite
import Boomkat.Machine.Value
import Mathlib.Data.List.TakeWhile

/-! The two-slot fusion driver and its two rules: a constant load is baked into the
instruction that consumes it.
-/

namespace Boomkat.Compiler
open Boomkat.Foundation Boomkat.Bytecode Boomkat.Machine

-----------------------------------------------------------------------------------------
-- The driver
-----------------------------------------------------------------------------------------

/-- What a trigger or consumer predicate fills in when it matches. -/
structure FusionMatch where
  rewriteOp : Opcode
  destReg : Nat
  srcReg : Nat
  imm : Nat
  deriving DecidableEq

/-- A declarative rule: a trigger predicate and a consumer predicate. -/
structure FusionRule where
  trigger : Instruction → Option FusionMatch
  consumer : Instruction → Instruction → Nat → Option FusionMatch

/-- The first slot from `k` on that does not hold a NOP. -/
def skipNops (code : List Instruction) (k : Nat) : Nat :=
  k + ((code.drop k).takeWhile fun word => word.op = .nop).length

/-- Some slot of `first .. last` is a jump target. -/
def reachableWithin (jumpTargets : List Bool) (first last : Nat) : Bool :=
  (List.range' first (last + 1 - first)).any fun slot => jumpTargets[slot]?.getD false

/-- The decision of `run_fusion_rule` at slot `i`. -/
def fusionDecision (rule : FusionRule) (jumpTargets : List Bool) (code : List Instruction)
    (i : Nat) : Option (PairEdit Instruction) :=
  match code[i]? with
  | none => none
  | some word =>
      match rule.trigger word with
      | none => none
      | some tm =>
          let k := skipNops code (i + 1)
          match code[k]? with
          | none => none
          | some next =>
              if reachableWithin jumpTargets (i + 1) k then none
              else
                match rule.consumer word next tm.destReg with
                | none => none
                | some cm =>
                    if fusionRegLiveFrom code (k + 1) tm.destReg then none
                    else
                      some
                        {
                          head := nopWord
                          slot := k
                          tail := makeAbc cm.rewriteOp cm.destReg cm.srcReg cm.imm
                        }

/-- `run_fusion_rule`. -/
def runFusionRule (rule : FusionRule) (code : List Instruction) : List Instruction :=
  rewritePairs (fusionDecision rule (buildJumpTargets code)) code

/-- A run of the driver under the guard of `finish`. -/
def fusionPass (disableOptimize hasWide : Bool) (rule : FusionRule) (code : List Instruction)
    : List Instruction :=
  if !disableOptimize && !hasWide && 2 ≤ code.length then runFusionRule rule code else code

-----------------------------------------------------------------------------------------
-- The rules
-----------------------------------------------------------------------------------------

/-- `fusion_addi_subi_trigger`. -/
def fusionAddiSubiTrigger (trigger : Instruction) : Option FusionMatch :=
  if trigger.op ≠ .ldint then none
  else if trigger.getSbc < -128 ∨ 127 < trigger.getSbc then none
  else
    some
      {
        rewriteOp := .nop
        destReg := trigger.a.toNat
        srcReg := 0
        imm := toUint trigger.getSbc
      }

/-- `fusion_addi_subi_consumer`: the constant must be the right operand only. -/
def fusionAddiSubiConsumer (trigger consumer : Instruction) (rK : Nat) : Option FusionMatch :=
  if consumer.op ≠ .add ∧ consumer.op ≠ .sub then none
  else if consumer.c.toNat ≠ rK ∨ consumer.b.toNat = rK then none
  else
    some
      {
        rewriteOp := if consumer.op = .sub then .subi else .addi
        destReg := consumer.a.toNat
        srcReg := consumer.b.toNat
        imm := toUint trigger.getSbc
      }

/-- `FUSION_ADDI_SUBI`. -/
def fusionAddiSubi : FusionRule where
  trigger := fusionAddiSubiTrigger
  consumer := fusionAddiSubiConsumer

/-- `fusion_getpropc_trigger`: a string constant whose index fits field C. -/
def fusionGetpropcTrigger (constants : List Value) (trigger : Instruction)
    : Option FusionMatch :=
  if trigger.op ≠ .ldconst then none
  else if 255 < trigger.getBc then none
  else if ((constants[trigger.getBc]?).map Value.isString).getD false then
    some
      { rewriteOp := .nop, destReg := trigger.a.toNat, srcReg := 0, imm := trigger.getBc }
  else none

/-- `fusion_getpropc_consumer`. -/
def fusionGetpropcConsumer (trigger consumer : Instruction) (rK : Nat) : Option FusionMatch :=
  if consumer.op ≠ .getprop then none
  else if consumer.c.toNat ≠ rK then none
  else
    some
      {
        rewriteOp := .getpropc
        destReg := consumer.a.toNat
        srcReg := consumer.b.toNat
        imm := trigger.getBc
      }

/-- `FUSION_GETPROPC` with the constant pool as its context. -/
def fusionGetpropc (constants : List Value) : FusionRule where
  trigger := fusionGetpropcTrigger constants
  consumer := fusionGetpropcConsumer

-----------------------------------------------------------------------------------------
-- What a decision says
-----------------------------------------------------------------------------------------

/-- The form a consumer is rewritten to. -/
def fusedForm : Opcode → Option Opcode
  | .add => some .addi
  | .sub => some .subi
  | .getprop => some .getpropc
  | _ => none

/-- The opcode whose constant a fused form can hold. -/
def loadedBy : Opcode → Opcode
  | .getprop => .ldconst
  | _ => .ldint

/-- What both rules promise: a constant load is matched with a consumer that takes it as its
right operand, and the immediate is the load's own.
-/
structure ConstantRule (rule : FusionRule) : Prop where
  trigger : ∀ {word tm}, rule.trigger word = some tm →
    (word.op = .ldint ∨ word.op = .ldconst) ∧ tm.destReg = word.a.toNat
  consumer : ∀ {word next tm cm}, rule.trigger word = some tm →
    rule.consumer word next tm.destReg = some cm →
    word.op = loadedBy next.op ∧ fusedForm next.op = some cm.rewriteOp
      ∧ next.c = word.a ∧ cm.destReg = next.a.toNat ∧ cm.srcReg = next.b.toNat
      ∧ (next.op ≠ .getprop → next.b ≠ word.a ∧ cm.imm = toUint word.getSbc
        ∧ -128 ≤ word.getSbc ∧ word.getSbc ≤ 127)
      ∧ (next.op = .getprop → cm.imm = word.getBc ∧ word.getBc ≤ 255)

theorem fusionAddiSubi_constant : ConstantRule fusionAddiSubi := by
  refine ⟨?_, ?_⟩
  · intro word tm matched
    simp only [fusionAddiSubi, fusionAddiSubiTrigger] at matched
    split at matched
    · cases matched
    · rename_i isLoad
      split at matched
      · cases matched
      · cases matched
        exact ⟨.inl (by simpa using isLoad), rfl⟩
  · intro word next tm cm matched consumed
    simp only [fusionAddiSubi, fusionAddiSubiTrigger] at matched
    split at matched
    · cases matched
    · rename_i isLoad
      split at matched
      · cases matched
      · rename_i inRange
        cases matched
        simp only [fusionAddiSubi, fusionAddiSubiConsumer] at consumed
        split at consumed
        · cases consumed
        · rename_i isArith
          split at consumed
          · cases consumed
          · rename_i operands
            cases consumed
            simp only [not_or, not_not, not_lt, ne_eq] at operands inRange isLoad
            have arith : next.op = .add ∨ next.op = .sub := by
              by_contra neither
              simp only [not_or] at neither
              exact isArith neither
            have right : next.c = word.a := BitVec.eq_of_toNat_eq operands.1
            have left : next.b ≠ word.a := fun same => operands.2 (by rw [same])
            refine ⟨?_, ?_, right, rfl, rfl, ?_, ?_⟩
            · rcases arith with op | op <;> simp [op, loadedBy, isLoad]
            · rcases arith with op | op <;> simp [op, fusedForm]
            · exact fun _ => ⟨left, rfl, inRange.1, inRange.2⟩
            · intro isGet
              rcases arith with op | op <;> simp [op] at isGet

theorem fusionGetpropc_constant (constants : List Value)
    : ConstantRule (fusionGetpropc constants) := by
  refine ⟨?_, ?_⟩
  · intro word tm matched
    simp only [fusionGetpropc, fusionGetpropcTrigger] at matched
    split at matched
    · cases matched
    · rename_i isLoad
      split at matched
      · cases matched
      · split at matched
        · cases matched
          exact ⟨.inr (by simpa using isLoad), rfl⟩
        · cases matched
  · intro word next tm cm matched consumed
    simp only [fusionGetpropc, fusionGetpropcTrigger] at matched
    split at matched
    · cases matched
    · rename_i isLoad
      split at matched
      · cases matched
      · rename_i fits
        split at matched
        · cases matched
          simp only [fusionGetpropc, fusionGetpropcConsumer] at consumed
          split at consumed
          · cases consumed
          · rename_i isGet
            split at consumed
            · cases consumed
            · rename_i right
              cases consumed
              simp only [ne_eq, not_not, not_lt] at isLoad isGet right fits
              refine ⟨by simp [isGet, loadedBy, isLoad], by simp [isGet, fusedForm],
                BitVec.eq_of_toNat_eq right, rfl, rfl, ?_, fun _ => ⟨rfl, fits⟩⟩
              exact fun notGet => absurd isGet notGet
        · cases matched

/-- What a decision of the driver says about the load, its consumer and the scan. -/
theorem fusionDecision_spec {rule : FusionRule} {jumpTargets : List Bool}
    {code : List Instruction} {i : Nat} {edit : PairEdit Instruction}
    (decided : fusionDecision rule jumpTargets code i = some edit)
    : ∃ word next tm cm, code[i]? = some word ∧ rule.trigger word = some tm
      ∧ edit.slot = skipNops code (i + 1) ∧ code[edit.slot]? = some next
      ∧ reachableWithin jumpTargets (i + 1) edit.slot = false
      ∧ rule.consumer word next tm.destReg = some cm
      ∧ fusionRegLiveFrom code (edit.slot + 1) tm.destReg = false
      ∧ edit.head = nopWord
      ∧ edit.tail = makeAbc cm.rewriteOp cm.destReg cm.srcReg cm.imm := by
  unfold fusionDecision at decided
  cases wordEq : code[i]? with
  | none => simp [wordEq] at decided
  | some word =>
      simp only [wordEq] at decided
      cases triggered : rule.trigger word with
      | none => simp [triggered] at decided
      | some tm =>
          simp only [triggered] at decided
          cases nextEq : code[skipNops code (i + 1)]? with
          | none => simp [nextEq] at decided
          | some next =>
              simp only [nextEq] at decided
              split at decided
              · cases decided
              · rename_i sealed
                cases consumed : rule.consumer word next tm.destReg with
                | none => simp [consumed] at decided
                | some cm =>
                    simp only [consumed] at decided
                    split at decided
                    · cases decided
                    · rename_i dead
                      cases decided
                      exact ⟨word, next, tm, cm, rfl, triggered, rfl, nextEq, by simpa using sealed,
                        consumed, by simpa using dead, rfl, rfl⟩

/-- The slots that a search for the consumer skips hold NOPs. -/
theorem skipNops_between {code : List Instruction} {k j : Nat} {word : Instruction}
    (low : k ≤ j) (high : j < skipNops code k) (slot : code[j]? = some word)
    : word.op = .nop := by
  have skipped : j - k < ((code.drop k).takeWhile fun word => word.op = .nop).length := by
    unfold skipNops at high
    omega
  have found : ((code.drop k).takeWhile fun word => word.op = .nop)[j - k]? = some word := by
    have at_ := (List.takeWhile_prefix (fun word : Instruction => decide (word.op = .nop))
      (l := code.drop k)).getElem skipped
    rw [List.getElem?_eq_getElem skipped, at_, ← List.getElem?_eq_getElem, List.getElem?_drop,
      Nat.add_sub_cancel' low]
    exact slot
  simpa using List.mem_takeWhile_imp (List.mem_of_getElem? found)

/-- The decisions start at a constant load, and neither a NOP nor a consumer is one. -/
theorem fusionDecision_pairs {rule : FusionRule} (constant : ConstantRule rule)
    (jumpTargets : List Bool)
    : PairDecision (fusionDecision rule jumpTargets)
        (fun word => (rule.trigger word).isSome = true) := by
  have notLoad : ∀ word : Instruction, word.op ≠ .ldint → word.op ≠ .ldconst →
      ¬(rule.trigger word).isSome = true := by
    intro word notInt notConst isTrigger
    obtain ⟨tm, triggered⟩ := Option.isSome_iff_exists.mp isTrigger
    rcases (constant.trigger triggered).1 with op | op
    · exact notInt op
    · exact notConst op
  have fused : ∀ {op rewriteOp : Opcode}, fusedForm op = some rewriteOp →
      op ≠ .ldint ∧ op ≠ .ldconst ∧ rewriteOp ≠ .ldint ∧ rewriteOp ≠ .ldconst := by
    intro op rewriteOp form
    unfold fusedForm at form
    split at form <;> cases form <;> simp
  refine ⟨?_, ?_, ?_, ?_⟩
  · intro code i edit decided
    obtain ⟨word, _, tm, _, wordEq, triggered, _⟩ := fusionDecision_spec decided
    exact ⟨word, wordEq, by simp [triggered]⟩
  · intro code i edit decided
    obtain ⟨_, next, _, _, _, _, slot, nextEq, _⟩ := fusionDecision_spec decided
    refine ⟨?_, (List.getElem?_eq_some_iff.mp nextEq).1⟩
    unfold skipNops at slot
    omega
  · intro code i edit decided j word low high wordEq
    obtain ⟨_, next, _, _, _, triggered, slot, nextEq, _, consumed, _⟩ :=
      fusionDecision_spec decided
    obtain ⟨_, form, _⟩ := constant.consumer triggered consumed
    rcases Nat.lt_or_eq_of_le high with between | rfl
    · have nop := skipNops_between low (slot ▸ between) wordEq
      exact notLoad word (by simp [nop]) (by simp [nop])
    · obtain rfl : next = word := by simpa [nextEq] using wordEq
      exact notLoad next (fused form).1 (fused form).2.1
  · intro code i edit decided
    obtain ⟨_, _, _, cm, _, triggered, _, _, _, consumed, _, _, tail⟩ :=
      fusionDecision_spec decided
    obtain ⟨_, form, _⟩ := constant.consumer triggered consumed
    have op : edit.tail.op = cm.rewriteOp := by rw [tail, makeAbc]
    exact notLoad _ (op ▸ (fused form).2.2.1) (op ▸ (fused form).2.2.2)

/-- A decision does not see the slots before its own. -/
theorem fusionDecision_forward (rule : FusionRule) (jumpTargets : List Bool)
    {code code' : List Instruction} {i : Nat} (length : code.length = code'.length)
    (same : ∀ s, i ≤ s → code[s]? = code'[s]?)
    : fusionDecision rule jumpTargets code i = fusionDecision rule jumpTargets code' i := by
  have suffix : code.drop (i + 1) = code'.drop (i + 1) := by
    apply List.ext_getElem?
    intro s
    rw [List.getElem?_drop, List.getElem?_drop]
    exact same _ (by omega)
  have skip : skipNops code (i + 1) = skipNops code' (i + 1) := by
    unfold skipNops
    rw [suffix]
  have above : i + 1 ≤ skipNops code' (i + 1) := Nat.le_add_right _ _
  have live : fusionRegLiveFrom code (skipNops code' (i + 1) + 1)
      = fusionRegLiveFrom code' (skipNops code' (i + 1) + 1) := by
    funext reg
    unfold fusionRegLiveFrom
    rw [length, scanLive_suffix (fun s far => same s (by omega)) (Nat.le_refl _)]
  have next : code[skipNops code' (i + 1)]? = code'[skipNops code' (i + 1)]? :=
    same _ (by omega)
  unfold fusionDecision
  rw [same i (Nat.le_refl i), skip]
  dsimp only
  rw [next, live]

end Boomkat.Compiler
