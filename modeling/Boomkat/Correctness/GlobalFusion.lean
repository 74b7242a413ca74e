import Boomkat.Correctness.SuperinstructionPairs

/-! Superinstructions on primitive-only globals: a copy between two of them and a comparison
with one take the place of a load and what follows it.
-/

namespace Boomkat.Correctness
open Boomkat.Foundation Boomkat.Bytecode Boomkat.Machine Boomkat.Compiler

variable {W : Type} {rt : Runtime W} {code code' : List Instruction}

/-- A load of a global writes its register and goes on. -/
theorem act_getglobalPrim (rt : Runtime W) {frame : Frame W} {load : Instruction}
    (fetched : code[frame.pc]? = some load) (isLoad : load.op = .getglobalPrim)
    : rt.act code frame
      = .go [(load.a.toNat, (rt.getGlobalPrim load.getBc frame.world).1)] (frame.pc + 1)
          frame.catchers (rt.getGlobalPrim load.getBc frame.world).2 := by
  rw [act_of_fetched fetched (by simp [isLoad])]
  simp [Runtime.dispatch, isLoad, producerOperands, Runtime.produce, Runtime.store]

/-- The copy reads and writes as the two instructions do. -/
theorem moveGlobal_eq {dst src : Nat} {world : W} (hasIcs : rt.hasVarIcs world = true)
    {name : Value} (named : rt.nameConstant dst = some name)
    (present : match rt.nameConstant src with
      | some source => (rt.readGlobal source world).1 ≠ .missing
      | none => False)
    : rt.moveGlobal dst src world
      = rt.writeGlobal name (rt.getGlobalPrim src world).1 (rt.getGlobalPrim src world).2 := by
  unfold Runtime.moveGlobal Runtime.getGlobalPrim
  cases source : rt.nameConstant src with
  | none => simp [source] at present
  | some srcName =>
      simp only [source] at present
      simp only [named, hasIcs]
      cases answer : rt.readGlobal srcName world with
      | mk slot after =>
          cases slot with
          | missing => simp [answer] at present
          | uninitialized => rfl
          | holds value => rfl

/-- A copy between globals takes the place of a load and a store. -/
theorem moveGg_fused (shape : StreamShape code)
    (edited : EditedCode code (Superinstruction.moveGg.edits code) code')
    {dropped : List DroppedWrite} {frame image : Frame W} {edit : PairEdit Instruction}
    (decided : Superinstruction.moveGg.edits code frame.pc = some edit)
    (matched : FrameMatches code (Superinstruction.moveGg.edits code) dropped frame image)
    (sound : PairSound rt .moveGg code frame)
    : PairMatches code (Superinstruction.moveGg.edits code)
        ((trackedMachine rt code (superDrops .moveGg code)).run 2 ⟨.running frame, dropped⟩)
        ((rt.machine code').run 1 (.running image)) := by
  obtain ⟨load, store, words, isLoad, isStore, same, _, head, tail⟩ := moveGg_edits decided
  obtain ⟨headEq, tailEq⟩ := edited.edited decided
  simp only [PairSound, words.first, words.second] at sound
  obtain ⟨hasIcs, named, present⟩ := sound
  obtain ⟨name, named⟩ := Option.isSome_iff_exists.mp named
  have agree := matched.agree
  have first := act_getglobalPrim rt words.first isLoad
  generalize loaded : rt.getGlobalPrim load.getBc frame.world = answer at first
  obtain ⟨value, world⟩ := answer
  have second : rt.act code
      {
        pc := frame.pc + 1
        regs := overwrite frame.regs [(load.a.toNat, value)]
        catchers := frame.catchers
        world := world
      } = .go [(store.a.toNat, .undefined)] (frame.pc + 2) frame.catchers
        (rt.writeGlobal name value world) := by
    rw [act_of_fetched words.second (by simp [isStore])]
    simp [Runtime.dispatch, isStore, named, same]
  have fused : rt.act code' image
      = .go [] (frame.pc + 2) frame.catchers (rt.writeGlobal name value world) := by
    have isHead : edit.head.op = .moveGg := by rw [head]; rfl
    have operand : edit.head.getBc = store.getBc := by rw [head, makeABc_getBc_self]
    have moved := moveGlobal_eq hasIcs named present
    rw [loaded] at moved
    rw [← agree.pc] at headEq
    rw [words.slot] at tailEq
    rw [act_of_fetched headEq (by simp [isHead]), agree.eq]
    simp [Runtime.dispatch, isHead, tailEq, operand, tail, makeABc_getBc_self, moved]
  have regFirst : regA code frame.pc = load.a.toNat := by simp [regA, words.first]
  have regSecond : regA code (frame.pc + 1) = load.a.toNat := by simp [regA, words.second, same]
  have drop : ∀ reg ∈ [(load.a.toNat, value)].map Prod.fst,
      reg ∈ superDrops .moveGg code frame.pc
        (.go [(load.a.toNat, value)] (frame.pc + 1) frame.catchers world) := by
    simp [superDrops, decided, writtenBy, regFirst]
  have drop' : ∀ reg ∈ [(store.a.toNat, Value.undefined)].map Prod.fst,
      reg ∈ superDrops .moveGg code (frame.pc + 1)
        (.go [(store.a.toNat, .undefined)] (frame.pc + 2) frame.catchers
          (rt.writeGlobal name value world)) := by
    simp [superDrops, isSecond, decided, writtenBy, regSecond, same]
  rw [machine_one fused]
  exact matched.blank (superinstruction_pairs .moveGg (by simp)) shape superinstruction_adjacent
    decided first drop second drop'

/-- A comparison with a global takes the place of a load and a fused branch.
Witness: the other operand is fresh, for only the loaded register was dropped at this pair.
-/
theorem jmpLtG_fused (shape : StreamShape code)
    (edited : EditedCode code (Superinstruction.jmpLtG.edits code) code')
    {Sound : Frame W → Prop} {dropped : List DroppedWrite} {frame image : Frame W}
    {edit : PairEdit Instruction}
    (decided : Superinstruction.jmpLtG.edits code frame.pc = some edit)
    (matched : FrameMatches code (Superinstruction.jmpLtG.edits code) dropped frame image)
    (sound : PairSound rt .jmpLtG code frame)
    (harmless : PairHarmless rt code (Superinstruction.jmpLtG.edits code)
      (superDrops .jmpLtG code) Sound
      ((trackedMachine rt code (superDrops .jmpLtG code)).run 1 ⟨.running frame, dropped⟩))
    : PairMatches code (Superinstruction.jmpLtG.edits code)
        ((trackedMachine rt code (superDrops .jmpLtG code)).run 2 ⟨.running frame, dropped⟩)
        ((rt.machine code').run 1 (.running image)) := by
  obtain ⟨load, branch, words, isLoad, isBranch, right, left, _, head, tail⟩ :=
    jmpLtG_edits decided
  obtain ⟨headEq, tailEq⟩ := edited.edited decided
  simp only [PairSound, words.first, words.second] at sound
  have agree := matched.agree
  have first := act_getglobalPrim rt words.first isLoad
  generalize loaded : rt.getGlobalPrim load.getBc frame.world = answer at first
  obtain ⟨value, world⟩ := answer
  have regFirst : regA code frame.pc = load.a.toNat := by simp [regA, words.first]
  have drop : ∀ reg ∈ [(load.a.toNat, value)].map Prod.fst,
      reg ∈ superDrops .jmpLtG code frame.pc
        (.go [(load.a.toNat, value)] (frame.pc + 1) frame.catchers world) := by
    simp [superDrops, triggerDrops, decided, writtenBy, regFirst]
  have second : rt.act code
      {
        pc := frame.pc + 1
        regs := overwrite frame.regs [(load.a.toNat, value)]
        catchers := frame.catchers
        world := world
      } = rt.branch branch.icharA (frame.pc + 2) frame.catchers
        (rt.fusedBranch .jmpLt (image.regs branch.b.toNat) value world) := by
    have fresh : overwrite frame.regs [(load.a.toNat, value)] branch.b.toNat
        = image.regs branch.b.toNat := by
      apply (framesAgree_drop agree drop).regs
      rintro ⟨write, mem, reg⟩
      rw [trackedMachine_one first] at harmless
      have read : write.reg ∈ readsAt rt code
          {
            pc := frame.pc + 1
            regs := overwrite frame.regs [(load.a.toNat, value)]
            catchers := frame.catchers
            world := world
          } := by
        simp [readsAt, fetch, words.second, isBranch, registerReads, reg]
      obtain ⟨edit', decided', here⟩ := harmless.reads _ rfl write mem read
      have slot : write.slot = frame.pc := by
        have := superinstruction_adjacent decided'
        simp only at here
        omega
      obtain ⟨_, _, own⟩ := harmless.known.trigger mem
      rw [slot, regFirst, reg] at own
      exact left (BitVec.eq_of_toNat_eq own)
    rw [act_of_fetched words.second (by simp [isBranch])]
    simp only [Runtime.dispatch, Instruction.decode_op, isBranch, Instruction.decode_b,
      Instruction.decode_c, Instruction.decode_icharA, fresh, right]
    simp
  have fused : rt.act code' image
      = rt.branch branch.icharA (frame.pc + 2) frame.catchers
        (rt.fusedBranch .jmpLt (image.regs branch.b.toNat) value world) := by
    have isHead : edit.head.op = .jmpLtG := by rw [head]; rfl
    have bound : rt.loadBound load.getBc frame.world = (value, world) := by
      rw [Runtime.loadBound, if_pos sound, loaded]
    have offset : edit.head.icharA = branch.icharA := by
      obtain ⟨low, high⟩ := branch.icharA_range
      rw [head, ← Instruction.decode_icharA, makeAbc_icharA low high]
    have operand : edit.head.b = branch.b := by simp [head, makeAbc]
    rw [← agree.pc] at headEq
    rw [words.slot] at tailEq
    rw [act_of_fetched headEq (by simp [isHead]), agree.eq]
    simp [Runtime.dispatch, isHead, tailEq, tail, makeABc_getBc_self, bound, offset, operand]
  rw [machine_one fused]
  exact matched.shared (superinstruction_pairs .jmpLtG (by simp)) shape
    superinstruction_adjacent decided first drop second

end Boomkat.Correctness
