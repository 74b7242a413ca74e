import Boomkat.Correctness.SuperinstructionPairs

/-! A chained property read takes the place of two reads, of which the second reads what the
first has found.
-/

namespace Boomkat.Correctness
open Boomkat.Foundation Boomkat.Bytecode Boomkat.Machine Boomkat.Compiler

variable {W : Type} {rt : Runtime W} {code code' : List Instruction}

/-- A read with a constant key stores what it finds. -/
theorem act_getpropc (rt : Runtime W) {frame : Frame W} {word : Instruction}
    (fetched : code[frame.pc]? = some word) (isRead : word.op = .getpropc)
    : rt.act code frame
      = rt.store word.a.toNat (frame.pc + 1) frame.catchers
          (rt.getPropc (frame.regs word.b.toNat) (constantKey rt word) frame.world) := by
  rw [act_of_fetched fetched (by simp [isRead])]
  simp [Runtime.dispatch, isRead, producerOperands, Runtime.produce, constantKey]

/-- The registers that a completed read writes are field A and what lies behind it. -/
theorem store_value (dst next : Nat) (catchers : List Catcher) (value : Value)
    (behind : List Value) (world : W)
    : rt.store dst next catchers (.value value behind world)
      = .go (behindWrites dst behind ++ [(dst, value)]) next catchers world :=
  rfl

section Pair

variable {dropped : List DroppedWrite} {frame image : Frame W} {edit : PairEdit Instruction}
  {first second : Instruction}

/-- Registers that neither read writes hold in the rewritten run what they held before. -/
theorem chain_untouched {writes writes' : List (Nat × Value)} {pc pc' : Nat}
    {catchers catchers' : List Catcher} {world world' : W}
    (agree : FramesAgree dropped frame image)
    (decided : Superinstruction.getpropc2.edits code frame.pc = some edit)
    (words : FusedWords code frame.pc edit first second) {reg : Nat}
    (fresh : reg ∉ stale (dropAfter (superDrops .getpropc2 code) (frame.pc + 1)
      (dropAfter (superDrops .getpropc2 code) frame.pc dropped (.go writes pc catchers world))
      (.go writes' pc' catchers' world')))
    (apart : reg ≠ first.a.toNat) (unwritten : reg ∉ writes'.map Prod.fst)
    : overwrite (overwrite frame.regs writes) writes' reg = image.regs reg := by
  have regFirst : regA code frame.pc = first.a.toNat := by simp [regA, words.first]
  have fresh' : reg ∉ stale (dropAfter (superDrops .getpropc2 code) frame.pc dropped
      (.go writes pc catchers world)) := by
    intro old
    exact fresh (mem_dropAfter.mpr (.inl ⟨old, unwritten⟩))
  have untouched : reg ∉ writes.map Prod.fst := by
    intro written
    refine fresh' (mem_dropAfter.mpr (.inr ?_))
    simp only [superDrops, decided, Option.isSome_some, if_true, behindDrops, List.mem_filter]
    exact ⟨written, by simp [regFirst, apart]⟩
  rw [overwrite_of_notMem unwritten, overwrite_of_notMem untouched]
  apply agree.regs
  intro old
  exact fresh' (mem_dropAfter.mpr (.inl ⟨old, untouched⟩))

/-- The second word of a pair is the first of none. -/
theorem chain_second (noChains : ∀ word ∈ code, word.op ≠ .getpropc2)
    (decided : Superinstruction.getpropc2.edits code frame.pc = some edit)
    (words : FusedWords code frame.pc edit first second) (action : Action W)
    : superDrops .getpropc2 code (frame.pc + 1) action
      = behindDrops code (frame.pc + 1) action ++ middleDrops code (frame.pc + 1) action := by
  have plain := (superinstruction_pairs .getpropc2 (fun _ => noChains)).second_plain decided
  rw [words.slot] at plain
  simp [superDrops, plain, isSecond, decided]

/-- The fused handler makes the writes of both reads.
Witness: a register is the second destination, the first one, or written by neither read.
-/
theorem chain_found (noChains : ∀ word ∈ code, word.op ≠ .getpropc2)
    (agree : FramesAgree dropped frame image)
    (decided : Superinstruction.getpropc2.edits code frame.pc = some edit)
    (words : FusedWords code frame.pc edit first second) (apart : first.a ≠ second.a)
    {mid value : Value} {behind behind' : List Value} {world world' : W}
    {early : List (Nat × Value)} (known : early = [] ∨ early = [(first.a.toNat, mid)])
    : Set.EqOn
        (overwrite
          (overwrite frame.regs (behindWrites first.a.toNat behind ++ [(first.a.toNat, mid)]))
          (behindWrites second.a.toNat behind' ++ [(second.a.toNat, value)]))
        (overwrite image.regs
          (early ++ [(second.a.toNat, value), (first.a.toNat, mid)]))
        (stale (dropAfter (superDrops .getpropc2 code) (frame.pc + 1)
          (dropAfter (superDrops .getpropc2 code) frame.pc dropped
            (.go (behindWrites first.a.toNat behind ++ [(first.a.toNat, mid)]) (frame.pc + 1)
              frame.catchers world))
          (.go (behindWrites second.a.toNat behind' ++ [(second.a.toNat, value)]) (frame.pc + 2)
            frame.catchers world')))ᶜ := by
  have distinct : first.a.toNat ≠ second.a.toNat := fun same =>
    apart (BitVec.eq_of_toNat_eq same)
  have regSecond : regA code (frame.pc + 1) = second.a.toNat := by simp [regA, words.second]
  intro reg fresh
  by_cases last : reg = second.a.toNat
  · subst last
    simp [Function.update_of_ne distinct.symm]
  · have unwritten : reg ∉ (behindWrites second.a.toNat behind'
        ++ [(second.a.toNat, value)]).map Prod.fst := by
      intro written
      refine fresh (mem_dropAfter.mpr (.inr ?_))
      rw [chain_second noChains decided words]
      simp only [behindDrops, List.mem_append, List.mem_filter]
      exact .inl ⟨written, by simp [regSecond, last]⟩
    by_cases middle : reg = first.a.toNat
    · subst middle
      rw [overwrite_of_notMem unwritten]
      simp
    · rw [chain_untouched agree decided words fresh middle unwritten]
      rcases known with rfl | rfl <;>
        simp [Function.update_of_ne middle, Function.update_of_ne last]

/-- A second read that throws leaves the registers of the rewritten run as they were, but for
the intermediate one.
-/
theorem chain_thrown (noChains : ∀ word ∈ code, word.op ≠ .getpropc2)
    (agree : FramesAgree dropped frame image)
    (decided : Superinstruction.getpropc2.edits code frame.pc = some edit)
    (words : FusedWords code frame.pc edit first second) {mid : Value}
    {writes writes' early : List (Nat × Value)} {pc : Nat} {catchers : List Catcher}
    {world world' : W} (known : early = [] ∨ early = [(first.a.toNat, mid)])
    (elsewhere : pc ≠ frame.pc + 2)
    : Set.EqOn (overwrite (overwrite frame.regs writes) writes') (overwrite image.regs early)
        (stale (dropAfter (superDrops .getpropc2 code) (frame.pc + 1)
          (dropAfter (superDrops .getpropc2 code) frame.pc dropped
            (.go writes (frame.pc + 1) frame.catchers world))
          (.go writes' pc catchers world')))ᶜ := by
  have regFirst : regA code frame.pc = first.a.toNat := by simp [regA, words.first]
  intro reg fresh
  have undropped : reg ∉ superDrops .getpropc2 code (frame.pc + 1)
      (.go writes' pc catchers world') :=
    fun drop => fresh (mem_dropAfter.mpr (.inr drop))
  rw [chain_second noChains decided words, List.mem_append, not_or] at undropped
  have unwritten : reg ∉ writes'.map Prod.fst := by
    intro written
    refine undropped.1 (List.mem_filter.mpr ⟨written, ?_⟩)
    simp [elsewhere]
  have middle : reg ≠ first.a.toNat := by
    have moved : pc ≠ frame.pc + 1 + 1 := elsewhere
    simpa [middleDrops, moved, regFirst] using undropped.2
  rw [chain_untouched agree decided words fresh middle unwritten]
  rcases known with rfl | rfl <;> simp [Function.update_of_ne middle]

/-- A chained read takes the place of two reads.
Witness: case analysis on where the reads throw.
-/
theorem getpropc2_fused (shape : StreamShape code)
    (noChains : ∀ word ∈ code, word.op ≠ .getpropc2)
    (edited : EditedCode code (Superinstruction.getpropc2.edits code) code')
    {Sound : Frame W → Prop}
    (decided : Superinstruction.getpropc2.edits code frame.pc = some edit)
    (matched : FrameMatches code (Superinstruction.getpropc2.edits code) dropped frame image)
    (sound : PairSound rt .getpropc2 code frame)
    (harmless : PairHarmless rt code (Superinstruction.getpropc2.edits code)
      (superDrops .getpropc2 code) Sound ⟨.running frame, dropped⟩)
    : ∃ a ≤ 1, PairMatches code (Superinstruction.getpropc2.edits code)
        ((trackedMachine rt code (superDrops .getpropc2 code)).run (a + 1)
          ⟨.running frame, dropped⟩)
        ((rt.machine code').run 1 (.running image)) := by
  have pairs := superinstruction_pairs .getpropc2 (fun _ => noChains)
  obtain ⟨first, second, words, isFirst, isSecond, same, head, tail⟩ := getpropc2_edits decided
  obtain ⟨headEq, tailEq⟩ := edited.edited decided
  simp only [PairSound, words.first, words.second, ChainSound] at sound
  obtain ⟨apart, plain, sound⟩ := sound
  have agree := matched.agree
  have source : frame.regs first.b.toNat = image.regs first.b.toNat := by
    apply matched.fresh harmless
    simp [readsAt, fetch, words.first, isFirst, registerReads, producerOperands, producerReads]
  have acts := act_getpropc rt words.first isFirst
  have fused : rt.act code' image
      = rt.conclude (frame.pc + 2) frame.catchers
          (rt.getPropc2 first.a.toNat second.a.toNat (frame.regs first.b.toNat)
            (image.regs first.a.toNat) (constantKey rt first) (constantKey rt second)
            frame.world) := by
    have isHead : edit.head.op = .getpropc2 := by rw [head]; rfl
    rw [← agree.pc] at headEq
    rw [words.slot] at tailEq
    rw [act_of_fetched headEq (by simp [isHead]), agree.eq, source]
    simp [Runtime.dispatch, Runtime.readChain, tailEq, head, tail, makeAbc, constantKey]
  cases found : rt.getPropc (frame.regs first.b.toNat) (constantKey rt first) frame.world with
  | thrown thrown written behind world =>
      rw [getPropc2_thrown plain (by rw [found]; rfl)] at fused
      rw [found] at acts
      refine ⟨0, Nat.zero_le 1, ?_⟩
      rw [trackedMachine_one acts, machine_one fused]
      exact matched.raise pairs rt (superDrops .getpropc2 code)
        (behindWrites first.a.toNat behind
          ++ written.toList.map fun value => (first.a.toNat, value)) thrown world
        (by
          intro pc catchers outside reg mem
          have moved : pc ≠ frame.pc + 1 := words.slot ▸ outside frame.pc edit decided
          simp only [superDrops, decided, Option.isSome_some, if_true, behindDrops]
          exact List.mem_filter.mpr ⟨mem, by simp [moved]⟩)
  | value mid behind world =>
      simp only [found] at sound
      obtain ⟨plain', elsewhere⟩ := sound
      obtain ⟨early, known, outcome⟩ := getPropc2_read plain (by rw [found]; rfl) plain'
        first.a.toNat second.a.toNat (image.regs first.a.toNat)
      rw [found, store_value] at acts
      rw [outcome] at fused
      have acts' : rt.act code
          {
            pc := frame.pc + 1
            regs := overwrite frame.regs
              (behindWrites first.a.toNat behind ++ [(first.a.toNat, mid)])
            catchers := frame.catchers
            world := world
          } = rt.store second.a.toNat (frame.pc + 2) frame.catchers
            (rt.getPropc mid (constantKey rt second) world) := by
        rw [act_getpropc rt words.second isSecond, ← same]
        simp
      refine ⟨1, Nat.le_refl 1, ?_⟩
      cases found' : rt.getPropc mid (constantKey rt second) world with
      | value value behind' world' =>
          rw [found', store_value] at acts'
          rw [found'] at fused
          rw [machine_one fused]
          exact matched.both pairs shape superinstruction_adjacent decided acts acts'
            (superDrops .getpropc2 code) (chain_found noChains agree decided words apart known)
      | thrown thrown written behind' world' =>
          rw [found'] at acts' fused elsewhere
          rw [machine_one fused]
          cases transfer : throwValue (rt.uncatchable world') thrown frame.catchers with
          | goto pc catchers =>
              simp only [ThrowsElsewhere, transfer] at elsewhere
              simp only [Runtime.store, Runtime.raise, transfer, Transfer.act] at acts'
              simp only [Runtime.conclude, chainOutcome, sync, Runtime.raise, transfer, Transfer.act]
              exact matched.both pairs shape superinstruction_adjacent decided acts acts'
                (superDrops .getpropc2 code)
                (chain_thrown noChains agree decided words known elsewhere)
          | leave | crash =>
              simp only [Runtime.store, Runtime.raise, transfer, Transfer.act] at acts'
              simp only [Runtime.conclude, chainOutcome, sync, Runtime.raise, transfer, Transfer.act]
              rw [trackedMachine_two acts acts']
              rfl

end Pair

end Boomkat.Correctness
