import Boomkat.Compiler.Superinstruction
import Boomkat.Correctness.PairFusion
import Boomkat.Correctness.PropertyChain

/-! The pairs that become two-word superinstructions, what fusing one assumes, and why the
data words stay sealed.
-/

namespace Boomkat.Correctness
open Boomkat.Foundation Boomkat.Bytecode Boomkat.Machine Boomkat.Compiler

variable {W : Type} {rt : Runtime W} {code : List Instruction}

-----------------------------------------------------------------------------------------
-- Assumptions
-----------------------------------------------------------------------------------------

/-- A pass has made a pair whose second word is at `slot`. -/
def isSecond (made : Superinstruction) (code : List Instruction) (slot : Nat) : Bool :=
  0 < slot && (made.edits code (slot - 1)).isSome

/-- The registers that an action at `slot` writes besides field A, and field A too unless
control goes on to the next slot.
-/
def behindDrops (code : List Instruction) (slot : Nat) : Action W → List Nat
  | .go writes pc _ _ =>
      (writes.map Prod.fst).filter fun reg => reg ≠ regA code slot || pc ≠ slot + 1
  | .halt _ => []

/-- The intermediate register of a pair whose second word is at `slot`, when control does not
go on to the next slot.
-/
def middleDrops (code : List Instruction) (slot : Nat) : Action W → List Nat
  | .go _ pc _ _ => if pc = slot + 1 then [] else [regA code (slot - 1)]
  | .halt _ => []

/-- The registers whose write at a slot the rewritten code does not make. A superinstruction
on globals writes no register; a chained read makes the writes of the two reads, but neither
runs a getter in a frame above field A nor writes before the second read has succeeded.
-/
def superDrops (made : Superinstruction) (code : List Instruction) (slot : Nat)
    (action : Action W) : List Nat :=
  match made with
  | .moveGg =>
      if ((made.edits code slot).isSome || isSecond made code slot)
          ∧ regA code slot ∈ writtenBy action then
        [regA code slot]
      else []
  | .jmpLtG => triggerDrops (made.edits code) (regA code) slot action
  | .getpropc2 =>
      if (made.edits code slot).isSome then behindDrops code slot action
      else if isSecond made code slot then
        behindDrops code slot action ++ middleDrops code slot action
      else []

/-- A scan made for the pair at `slot` examines a read of `reg` at `pc`. The scans of a taken
branch see the code as edited so far; the chain pass makes no scan.
-/
def pairScanExamines (made : Superinstruction) (code : List Instruction) (slot reg pc : Nat)
    : Bool :=
  let examines code start :=
    scanExamines fusionAbcReadsReg (fun _ => false) code reg pc code.length start (-1)
  match made with
  | .moveGg => examines code (slot + 2)
  | .jmpLtG =>
      let current := editedBefore (jmpLtGDecision (buildJumpTargets code)) code slot
      let offset := (code[slot + 1]?.map Instruction.icharA).getD 0
      examines current (slot + 2) || examines current (slot + 2 + offset).toNat
  | .getpropc2 => false

/-- The first word of the pair that the word at `slot` belongs to. -/
def pairHead (made : Superinstruction) (code : List Instruction) (slot : Nat) : Nat :=
  if (made.edits code slot).isSome then slot else slot - 1

/-- A throw of the second read does not go on where the read would. -/
def ThrowsElsewhere (rt : Runtime W) (next : Nat) (catchers : List Catcher)
    : Completion W → Prop
  | .value _ _ _ => True
  | .thrown thrown _ _ world =>
      match throwValue (rt.uncatchable world) thrown catchers with
      | .goto pc _ => pc ≠ next
      | _ => True

/-- The key that a read with a constant key names. -/
def constantKey (rt : Runtime W) (word : Instruction) : Value :=
  (rt.constant word.c.toNat).getD .undefined

/-- What fusing two property reads assumes: distinct destinations, and reads that the fused
handler makes as two `GETPROPC` do.
-/
def ChainSound (rt : Runtime W) (first second : Instruction) (frame : Frame W) : Prop :=
  let src := frame.regs first.b.toNat
  first.a ≠ second.a ∧ plainFirst rt src (constantKey rt first) frame.world = true
    ∧ match rt.getPropc src (constantKey rt first) frame.world with
      | .thrown _ _ _ _ => True
      | .value mid _ world =>
          plainSecond rt (sourceOf src) mid (constantKey rt second) world = true
            ∧ ThrowsElsewhere rt (frame.pc + 2) frame.catchers
              (rt.getPropc mid (constantKey rt second) world)

/-- What fusing the pair at a frame's slot assumes: the superinstructions on globals need their
inline caches, and a copy an existing source and two names.
-/
def PairSound (rt : Runtime W) (made : Superinstruction) (code : List Instruction)
    (frame : Frame W) : Prop :=
  match code[frame.pc]?, code[frame.pc + 1]? with
  | some first, some second =>
      match made with
      | .moveGg =>
          rt.hasVarIcs frame.world = true ∧ (rt.nameConstant second.getBc).isSome = true
            ∧ match rt.nameConstant first.getBc with
              | some source => (rt.readGlobal source frame.world).1 ≠ .missing
              | none => False
      | .jmpLtG => rt.hasVarIcs frame.world = true
      | .getpropc2 => ChainSound rt first second frame
  | _, _ => True

/-- The state reads the register of a dropped write only in its own pair or where a scan looks,
and a pair about to be executed does the same when fused. No scan for a dropped write looks at a
read of its register, by `scanExamines_of_dead`.
-/
def PairReadsSeen (rt : Runtime W) (made : Superinstruction) (code : List Instruction)
    (state : Tracked W) : Prop :=
  match state.status with
  | .ended _ => True
  | .running frame =>
      (∀ write ∈ state.dropped, write.reg ∈ readsAt rt code frame →
        ((made.edits code write.slot).isSome ∧ frame.pc = write.slot + 1)
          ∨ pairScanExamines made code (pairHead made code write.slot) write.reg frame.pc = true)
        ∧ ((made.edits code frame.pc).isSome → PairSound rt made code frame)

instance (rt : Runtime W) (next : Nat) (catchers : List Catcher) (completion : Completion W)
    : Decidable (ThrowsElsewhere rt next catchers completion) := by
  unfold ThrowsElsewhere
  split
  · infer_instance
  · split <;> infer_instance

instance (rt : Runtime W) (first second : Instruction) (frame : Frame W)
    : Decidable (ChainSound rt first second frame) := by
  unfold ChainSound
  refine @instDecidableAnd _ _ _ (@instDecidableAnd _ _ _ ?_)
  split <;> infer_instance

instance (rt : Runtime W) (made : Superinstruction) (code : List Instruction)
    (frame : Frame W)
    : Decidable (PairSound rt made code frame) := by
  unfold PairSound
  split
  · cases made with
    | moveGg =>
        refine @instDecidableAnd _ _ _ (@instDecidableAnd _ _ _ ?_)
        split <;> infer_instance
    | jmpLtG => simp only; infer_instance
    | getpropc2 => simp only; infer_instance
  · infer_instance

instance (rt : Runtime W) (made : Superinstruction) (code : List Instruction)
    (state : Tracked W)
    : Decidable (PairReadsSeen rt made code state) := by
  unfold PairReadsSeen
  split <;> infer_instance

-----------------------------------------------------------------------------------------
-- The pairs
-----------------------------------------------------------------------------------------

/-- Two neighbouring words that a pass edits, with no branch to the second. -/
structure FusedWords (code : List Instruction) (i : Nat) (edit : PairEdit Instruction)
    (first second : Instruction) : Prop where
  first : code[i]? = some first
  second : code[i + 1]? = some second
  slot : edit.slot = i + 1
  noTarget : isJumpTarget code (i + 1) = false

theorem moveGg_edits {i : Nat} {edit : PairEdit Instruction}
    (decided : Superinstruction.moveGg.edits code i = some edit)
    : ∃ load store, FusedWords code i edit load store
      ∧ load.op = .getglobalPrim ∧ store.op = .putglobalPrim ∧ store.a = load.a
      ∧ (∀ pc, pairScanExamines .moveGg code i load.a.toNat pc = false)
      ∧ edit.head = makeABc .moveGg 0 store.getBc ∧ edit.tail = makeABc .nop 0 load.getBc := by
  have suffix := fun s => editedBefore_suffix (moveGgDecision_pairs _) decided (s := s)
  have length := (editedBefore_rewritten (moveGgDecision_pairs (buildJumpTargets code))
    code i).length
  obtain ⟨load, store, loadEq, storeEq, isLoad, isStore, same, noTarget, dead, rfl⟩ :=
    moveGgDecision_spec decided
  rw [suffix i (Nat.le_refl i)] at loadEq
  rw [suffix (i + 1) (Nat.le_succ i)] at storeEq
  rw [fusionRegLiveFrom, length, scanLive_suffix suffix (by omega)] at dead
  exact ⟨load, store, ⟨loadEq, storeEq, rfl, noTarget⟩, isLoad, isStore, same,
    scanExamines_of_dead dead, rfl, rfl⟩

theorem jmpLtG_edits {i : Nat} {edit : PairEdit Instruction}
    (decided : Superinstruction.jmpLtG.edits code i = some edit)
    : ∃ load branch, FusedWords code i edit load branch
      ∧ load.op = .getglobalPrim ∧ branch.op = .jmpLt ∧ branch.c = load.a ∧ branch.b ≠ load.a
      ∧ (∀ pc, pairScanExamines .jmpLtG code i load.a.toNat pc = false)
      ∧ edit.head = makeAbc .jmpLtG (toUint branch.icharA) branch.b.toNat 0
      ∧ edit.tail = makeABc .nop 0 load.getBc := by
  have suffix := fun s => editedBefore_suffix (jmpLtGDecision_pairs _) decided (s := s)
  obtain ⟨load, branch, loadEq, branchEq, isLoad, isBranch, right, left, noTarget, dead, _, dead',
    rfl⟩ := jmpLtGDecision_spec decided
  rw [suffix i (Nat.le_refl i)] at loadEq
  rw [suffix (i + 1) (Nat.le_succ i)] at branchEq
  refine ⟨load, branch, ⟨loadEq, branchEq, rfl, noTarget⟩, isLoad, isBranch, right, left, ?_,
    rfl, rfl⟩
  intro pc
  simp only [pairScanExamines, branchEq, Option.map_some, Option.getD_some, Bool.or_eq_false_iff]
  exact ⟨scanExamines_of_dead dead pc, scanExamines_of_dead dead' pc⟩

theorem getpropc2_edits {i : Nat} {edit : PairEdit Instruction}
    (decided : Superinstruction.getpropc2.edits code i = some edit)
    : ∃ first second, FusedWords code i edit first second
      ∧ first.op = .getpropc ∧ second.op = .getpropc ∧ first.a = second.b
      ∧ edit.head = makeAbc .getpropc2 first.a.toNat first.b.toNat first.c.toNat
      ∧ edit.tail = second := by
  obtain ⟨current, decidedAt, _, suffix⟩ :=
    skipEditAt_suffix (chainDecision_later (buildJumpTargets code)) decided
  obtain ⟨first, second, firstEq, secondEq, isFirst, isSecond, same, noTarget, rfl⟩ :=
    chainDecision_spec decidedAt
  rw [suffix i (Nat.le_refl i)] at firstEq
  rw [suffix (i + 1) (Nat.le_succ i)] at secondEq
  exact ⟨first, second, ⟨firstEq, secondEq, rfl, noTarget⟩, isFirst, isSecond, same, rfl, rfl⟩

/-- Neighbours without a branch to the second form a sealed pair. -/
theorem FusedWords.sealedPair {i : Nat} {edit : PairEdit Instruction}
    {first second : Instruction} (words : FusedWords code i edit first second)
    (head : first.op ≠ .nop ∧ first.op ≠ .jump ∧ ownsDataWord first.op = false
      ∧ (first.op = .getpropc → ∀ other ∈ code, other.op ≠ .getpropc2))
    (tail : second.op ≠ .jump ∧ second.op ≠ .endfinally)
    : SealedPair code i edit.slot := by
  have slot := words.slot
  refine ⟨by omega, ?_, ?_, ?_, ?_, ?_⟩
  · rw [slot]
    exact (List.getElem?_eq_some_iff.mp words.second).1
  · intro word wordEq
    obtain rfl : first = word := by simpa [words.first] using wordEq
    exact head
  · intro j word low high
    omega
  · intro word wordEq
    obtain rfl : second = word := by simpa [slot, words.second] using wordEq
    exact tail
  · intro j low high
    obtain rfl : j = i + 1 := by omega
    exact words.noTarget

/-- The words of a pair and the words they become. -/
structure PairWords (made : Superinstruction) (code : List Instruction) (i : Nat)
    (edit : PairEdit Instruction) (first second : Instruction) : Prop where
  words : FusedWords code i edit first second
  first : first.op = if made = .getpropc2 then .getpropc else .getglobalPrim
  second : second.op = .putglobalPrim ∨ second.op = .jmpLt ∨ second.op = .getpropc
  head : edit.head.op = made.op
  tail : edit.tail.op = if made = .getpropc2 then .getpropc else .nop
  target : ∀ target ∈ slotTargets [edit.head] 0,
    (i + target : Int) ∈ slotTargets code (i + 1)

/-- Every edit is of a pair of its pass. -/
theorem pairWords_of_edits {made : Superinstruction} {i : Nat} {edit : PairEdit Instruction}
    (decided : made.edits code i = some edit)
    : ∃ first second, PairWords made code i edit first second := by
  cases made with
  | moveGg =>
      obtain ⟨load, store, words, isLoad, isStore, _, _, head, tail⟩ := moveGg_edits decided
      have isHead : edit.head.op = .moveGg := by rw [head]; rfl
      refine ⟨load, store, words, isLoad, .inl isStore, isHead, by rw [tail]; rfl, ?_⟩
      intro target mem
      simp [slotTargets, isHead] at mem
  | jmpLtG =>
      obtain ⟨load, branch, words, isLoad, isBranch, _, _, _, head, tail⟩ :=
        jmpLtG_edits decided
      have isHead : edit.head.op = .jmpLtG := by rw [head]; rfl
      have offset : edit.head.icharA = branch.icharA := by
        obtain ⟨low, high⟩ := branch.icharA_range
        rw [head, ← Instruction.decode_icharA, makeAbc_icharA low high]
      refine ⟨load, branch, words, isLoad, .inr (.inl isBranch), isHead, by rw [tail]; rfl, ?_⟩
      intro target mem
      simp only [slotTargets, List.getElem?_cons_zero, isHead, List.mem_singleton] at mem
      simp only [slotTargets, words.second, isBranch, List.mem_singleton]
      rw [mem, offset]
      push_cast
      omega
  | getpropc2 =>
      obtain ⟨first, second, words, isFirst, isSecond, _, head, tail⟩ := getpropc2_edits decided
      have isHead : edit.head.op = .getpropc2 := by rw [head]; rfl
      refine ⟨first, second, words, isFirst, .inr (.inr isSecond), isHead,
        by rw [tail]; exact isSecond, ?_⟩
      intro target mem
      simp [slotTargets, isHead] at mem

/-- The words of a pair are neighbours. -/
theorem superinstruction_adjacent {made : Superinstruction} {i : Nat}
    {edit : PairEdit Instruction} (decided : made.edits code i = some edit)
    : edit.slot = i + 1 := by
  obtain ⟨first, second, pair⟩ := pairWords_of_edits decided
  exact pair.words.slot

/-- The edits of a pass are disjoint sealed pairs, unless chained reads have been made before. -/
theorem superinstruction_pairs (made : Superinstruction)
    (noChains : made = .getpropc2 → ∀ word ∈ code, word.op ≠ .getpropc2)
    : PairEdits code (made.edits code) := by
  refine ⟨?_, ?_, ?_⟩
  · intro i edit decided
    obtain ⟨first, second, pair⟩ := pairWords_of_edits decided
    refine pair.words.sealedPair ?_ ?_
    · have isFirst := pair.first
      split at isFirst
      · rename_i chained
        simpa [isFirst, ownsDataWord] using noChains chained
      · simp [isFirst, ownsDataWord]
    · rcases pair.second with op | op | op <;> simp [op]
  · intro i j edit edit' first second order
    cases made with
    | moveGg => exact editAt_disjoint (moveGgDecision_pairs _) first second order
    | jmpLtG => exact editAt_disjoint (jmpLtGDecision_pairs _) first second order
    | getpropc2 => exact skipEditAt_disjoint (chainDecision_later _) first second order
  · intro i edit decided
    obtain ⟨first, second, pair⟩ := pairWords_of_edits decided
    refine ⟨?_, ?_, ?_⟩
    · rw [pair.head]
      cases made <;> rfl
    · rw [pair.tail]
      split <;> rfl
    · rw [pair.words.slot]
      rintro word (wordEq | wordEq)
      · obtain rfl : first = word := by simpa [pair.words.first] using wordEq
        rw [pair.first]
        split <;> rfl
      · obtain rfl : second = word := by simpa [pair.words.second] using wordEq
        rcases pair.second with op | op | op <;> simp [op, marksFinally]

/-- The pass edits the code at its pairs. -/
theorem superinstruction_edited (made : Superinstruction) (code : List Instruction)
    {disableOptimize : Bool}
    (runs : made = .getpropc2 ∨ disableOptimize = false) (long : 2 ≤ code.length)
    : EditedCode code (made.edits code) (made.pass disableOptimize false code) := by
  cases made with
  | moveGg =>
      obtain rfl : disableOptimize = false := by simpa using runs
      simp only [Superinstruction.pass, Superinstruction.edits, Bool.not_false, Bool.true_and,
        long, decide_true, if_true]
      exact editedCode_rewritePairs (moveGgDecision_pairs _) code
  | jmpLtG =>
      obtain rfl : disableOptimize = false := by simpa using runs
      simp only [Superinstruction.pass, Superinstruction.edits, Bool.not_false, Bool.true_and,
        long, decide_true, if_true]
      exact editedCode_rewritePairs (jmpLtGDecision_pairs _) code
  | getpropc2 =>
      simp only [Superinstruction.pass, Superinstruction.edits, Bool.not_false, Bool.true_and,
        long, decide_true, if_true]
      have skipped := editedSkipping_skipped (chainDecision_later (buildJumpTargets code)) code
        code.length
      refine ⟨skipped.done.length, ?_, ?_⟩
      · intro i edit decided
        have chained : Superinstruction.getpropc2.edits code i = some edit := decided
        obtain ⟨first, second, pair⟩ := pairWords_of_edits chained
        exact skipped.done.edited (List.getElem?_eq_some_iff.mp pair.words.first).1 decided
      · intro s free
        exact skipped.done.kept fun i edit _ decided => free i edit decided

-----------------------------------------------------------------------------------------
-- Data words
-----------------------------------------------------------------------------------------

/-- The opcodes that the passes make. -/
def isSuperinstruction (op : Opcode) : Bool := op = .moveGg || op = .jmpLtG || op = .getpropc2

/-- The word after a superinstruction is no superinstruction, and no branch or handler leads to
it.
-/
def DataWordsSealed (code : List Instruction) : Prop :=
  ∀ (i : Nat) (word : Instruction), code[i]? = some word → isSuperinstruction word.op = true →
    ∃ data, code[i + 1]? = some data ∧ isSuperinstruction data.op = false
      ∧ isJumpTarget code (i + 1) = false

/-- The targets of a word without a data word depend on its slot and itself only. -/
theorem slotTargets_shift {i : Nat} {word : Instruction} (fetched : code[i]? = some word)
    (noTry : word.op ≠ .try_) {target : Int}
    : target ∈ slotTargets code i ↔ target - i ∈ slotTargets [word] 0 := by
  simp only [slotTargets, fetched, List.getElem?_cons_zero]
  split <;> simp_all <;> omega

/-- Every target of the edited code is a target of the original.
Witness: a fused comparison branches where the plain one did, from the slot after it.
-/
theorem slotTargets_edited (made : Superinstruction) {code' : List Instruction}
    (noChains : made = .getpropc2 → ∀ word ∈ code, word.op ≠ .getpropc2)
    (shape : StreamShape code) (edited : EditedCode code (made.edits code) code') {i : Nat}
    {target : Int} (mem : target ∈ slotTargets code' i)
    : ∃ j < code.length, target ∈ slotTargets code j := by
  have pairs := superinstruction_pairs made noChains
  obtain ⟨word, fetched⟩ : ∃ word, code'[i]? = some word := by
    cases fetched : code'[i]? with
    | none => simp [slotTargets, fetched] at mem
    | some word => exact ⟨word, rfl⟩
  have inside : i < code.length := by
    rw [← edited.length]
    exact (List.getElem?_eq_some_iff.mp fetched).1
  by_cases touched : ∃ j edit, made.edits code j = some edit ∧ (j = i ∨ edit.slot = i)
  · obtain ⟨j, edit, decided, rfl | rfl⟩ := touched
    · obtain ⟨first, second, pair⟩ := pairWords_of_edits decided
      obtain rfl : edit.head = word := by simpa [(edited.edited decided).1] using fetched
      have noTry : edit.head.op ≠ .try_ := by
        rw [pair.head]
        cases made <;> simp [Superinstruction.op]
      have moved := pair.target _ ((slotTargets_shift fetched noTry).mp mem)
      refine ⟨j + 1, (List.getElem?_eq_some_iff.mp pair.words.second).1, ?_⟩
      simpa using moved
    · obtain ⟨first, second, pair⟩ := pairWords_of_edits decided
      obtain rfl : edit.tail = word := by simpa [(edited.edited decided).2] using fetched
      have tail := pair.tail
      split at tail <;> simp [slotTargets, fetched, tail] at mem
  · have kept : code'[i]? = code[i]? := edited.kept fun j edit decided =>
      ⟨fun same => touched ⟨j, edit, decided, .inl same⟩,
        fun same => touched ⟨j, edit, decided, .inr same⟩⟩
    refine ⟨i, inside, ?_⟩
    have original : code[i]? = some word := kept ▸ fetched
    by_cases isTry : word.op = .try_
    · have data := edited.data pairs shape original (by simp [isTry, ownsDataWord])
      simpa [slotTargets, fetched, original, data] using mem
    · exact (slotTargets_shift original isTry).mpr ((slotTargets_shift fetched isTry).mp mem)

/-- The passes keep the data words of superinstructions sealed. -/
theorem dataWordsSealed_edited (made : Superinstruction) {code' : List Instruction}
    (noChains : made = .getpropc2 → ∀ word ∈ code, word.op ≠ .getpropc2)
    (shape : StreamShape code) (edited : EditedCode code (made.edits code) code')
    (isSealed : DataWordsSealed code)
    : DataWordsSealed code' := by
  have pairs := superinstruction_pairs made noChains
  have noNew : ∀ slot, isJumpTarget code slot = false → isJumpTarget code' slot = false := by
    intro slot old
    by_contra new
    rw [Bool.not_eq_false, isJumpTarget_iff] at new
    obtain ⟨inside, i, _, mem⟩ := new
    obtain ⟨j, small, mem⟩ := slotTargets_edited made noChains shape edited mem
    have known := (isJumpTarget_iff code slot).mpr ⟨edited.length ▸ inside, j, small, mem⟩
    simp [known] at old
  intro i word fetched isSuper
  by_cases touched : ∃ j edit, made.edits code j = some edit ∧ (j = i ∨ edit.slot = i)
  · obtain ⟨j, edit, decided, rfl | rfl⟩ := touched
    · obtain ⟨first, second, pair⟩ := pairWords_of_edits decided
      have slot := pair.words.slot
      refine ⟨edit.tail, slot ▸ (edited.edited decided).2, ?_,
        noNew _ pair.words.noTarget⟩
      rw [pair.tail]
      split <;> rfl
    · obtain ⟨first, second, pair⟩ := pairWords_of_edits decided
      obtain rfl : edit.tail = word := by simpa [(edited.edited decided).2] using fetched
      rw [pair.tail] at isSuper
      split at isSuper <;> cases isSuper
  · have original : code[i]? = some word := by
      rw [← fetched]
      exact (edited.kept fun j edit decided =>
        ⟨fun same => touched ⟨j, edit, decided, .inl same⟩,
          fun same => touched ⟨j, edit, decided, .inr same⟩⟩).symm
    obtain ⟨data, dataEq, plain, noTarget⟩ := isSealed i word original isSuper
    have owns : ownsDataWord word.op = true := by
      simp only [isSuperinstruction, Bool.or_eq_true, decide_eq_true_eq] at isSuper
      rcases isSuper with (op | op) | op <;> simp [op, ownsDataWord]
    exact ⟨data, (edited.data pairs shape original owns).trans dataEq, plain, noNew _ noTarget⟩

/-- A 16-bit field survives being copied to another word. -/
theorem makeABc_getBc_self (op : Opcode) (a : Nat) (word : Instruction)
    : (makeABc op a word.getBc).getBc = word.getBc := by
  apply makeABc_getBc
  have low : word.b.toNat < 256 := word.b.isLt
  have high : word.c.toNat < 256 := word.c.isLt
  rw [Instruction.getBc_eq]
  omega

end Boomkat.Correctness
