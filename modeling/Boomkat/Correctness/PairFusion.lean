import Boomkat.Correctness.SealedPair

/-! Passes that fuse two neighbouring instructions into one: the original takes two steps where
the rewritten code takes one, and control never stands between the two in both runs.
-/

namespace Boomkat.Correctness
open Boomkat.Foundation Boomkat.Bytecode Boomkat.Machine Boomkat.Compiler

variable {W : Type} {rt : Runtime W} {code code' : List Instruction}
  {edits : Nat → Option (PairEdit Instruction)} {drops : Nat → Action W → List Nat}
  {Sound : Frame W → Prop}

/-- The slot is not the second one of an edited pair. -/
def Outside (edits : Nat → Option (PairEdit Instruction)) (pc : Nat) : Prop :=
  ∀ i edit, edits i = some edit → pc ≠ edit.slot

/-- Two frames that agree before an instruction that is not the second one of a pair. -/
structure FrameMatches (code : List Instruction)
    (edits : Nat → Option (PairEdit Instruction)) (dropped : List DroppedWrite)
    (frame image : Frame W) : Prop where
  agree : FramesAgree dropped frame image
  lands : ChainLands code frame.catchers
  outside : Outside edits frame.pc

/-- Statuses that run with matching frames or have ended alike. -/
def PairMatches (code : List Instruction) (edits : Nat → Option (PairEdit Instruction))
    (state : Tracked W) (image : Status W) : Prop :=
  match state.status, image with
  | .running frame, .running frame' => FrameMatches code edits state.dropped frame frame'
  | .ended ending, .ended ending' => ending = ending'
  | _, _ => False

/-- A state in which a stale register is read by the second instruction of its pair only, and
which meets the assumption of the fusion.
-/
structure PairHarmless (rt : Runtime W) (code : List Instruction)
    (edits : Nat → Option (PairEdit Instruction)) (drops : Nat → Action W → List Nat)
    (Sound : Frame W → Prop) (state : Tracked W) : Prop where
  known : DroppedAt drops state.dropped
  reads : ∀ frame, state.status = .running frame → ∀ write ∈ state.dropped,
    write.reg ∈ readsAt rt code frame →
    ∃ edit, edits write.slot = some edit ∧ frame.pc = edit.slot
  sound : ∀ frame, state.status = .running frame → Sound frame

/-- A pass that fuses pairs of neighbours. `fused` is the simulation of one pair: the
original runs it in at most two steps and the rewritten code in at most two.
-/
structure PairFusion (rt : Runtime W) (code code' : List Instruction)
    (edits : Nat → Option (PairEdit Instruction)) (drops : Nat → Action W → List Nat)
    (Sound : Frame W → Prop) : Prop where
  pairs : PairEdits code edits
  adjacent : ∀ {i edit}, edits i = some edit → edit.slot = i + 1
  edited : EditedCode code edits code'
  fused : ∀ {dropped : List DroppedWrite} {frame image : Frame W} {edit},
    edits frame.pc = some edit → FrameMatches code edits dropped frame image →
    (∀ n, PairHarmless rt code edits drops Sound
      ((trackedMachine rt code drops).run n ⟨.running frame, dropped⟩)) →
    ∃ a b, a ≤ 1 ∧ b ≤ 1 ∧ PairMatches code edits
      ((trackedMachine rt code drops).run (a + 1) ⟨.running frame, dropped⟩)
      ((rt.machine code').run (b + 1) (.running image))

/-- Registers read before an instruction that is not the second one of a pair are fresh. -/
theorem FrameMatches.fresh {dropped : List DroppedWrite} {frame image : Frame W}
    (matched : FrameMatches code edits dropped frame image)
    (harmless : PairHarmless rt code edits drops Sound ⟨.running frame, dropped⟩) {r : Nat}
    (read : r ∈ readsAt rt code frame)
    : frame.regs r = image.regs r := by
  apply matched.agree.regs
  rintro ⟨write, mem, rfl⟩
  obtain ⟨edit, decided, here⟩ := harmless.reads frame rfl write mem read
  exact matched.outside write.slot edit decided here

/-- Only the first instruction of a pair leads between the two. -/
theorem PairEdits.outside_after (pairs : PairEdits code edits) (shape : StreamShape code)
    (adjacent : ∀ {i edit}, edits i = some edit → edit.slot = i + 1) {pc succ : Nat}
    {word : Instruction} (fetched : code[pc]? = some word) (noPair : edits pc = none)
    (successor : Successor code word.op pc succ)
    : Outside edits succ := by
  rintro i edit decided rfl
  have pair := pairs.pair decided
  have next := pair.entered shape fetched successor pair.order (Nat.le_refl _)
  have here : pc = i := by
    have := adjacent decided
    omega
  rw [here, decided] at noPair
  cases noPair

/-- An arrival never lies between the two instructions of a pair. -/
theorem PairEdits.outside_arrival (pairs : PairEdits code edits) {slot : Nat}
    (arrives : Arrival code slot)
    : Outside edits slot := by
  rintro i edit decided rfl
  have pair := pairs.pair decided
  rcases arrives with zero | beyond | target | ⟨word, wordEq, isEnd⟩
  · have := pair.order
    omega
  · have := pair.inside
    omega
  · simp [pair.noTarget _ pair.order (Nat.le_refl _)] at target
  · exact (pair.tail word wordEq).2 isEnd

/-- A throw out of both runs leaves them matched: a handler is an arrival. The writes that
come with the throw are dropped.
-/
theorem FrameMatches.raise (pairs : PairEdits code edits) {dropped : List DroppedWrite}
    {frame image : Frame W} (matched : FrameMatches code edits dropped frame image)
    (rt : Runtime W) (drops : Nat → Action W → List Nat) (writes : List (Nat × Value))
    (thrown : Value) (world : W)
    (drop : ∀ pc catchers, Outside edits pc → ∀ reg ∈ writes.map Prod.fst,
      reg ∈ drops frame.pc (.go writes pc catchers world))
    : PairMatches code edits
        ⟨(rt.raise writes thrown frame.catchers world).perform frame.regs,
          dropAfter drops frame.pc dropped (rt.raise writes thrown frame.catchers world)⟩
        ((rt.raise [] thrown frame.catchers world).perform image.regs) := by
  have landed : TransferLands code 0
      (throwSearch (rt.uncatchable world) thrown [] frame.catchers) :=
    throwSearch_lands (fun c mem => by simp at mem) matched.lands 0
  unfold Runtime.raise throwValue
  cases transfer : throwSearch (rt.uncatchable world) thrown [] frame.catchers with
  | leave => rfl
  | crash => rfl
  | goto pc catchers =>
      rw [transfer] at landed
      have outside : Outside edits pc := by
        rcases landed.1 with rfl | arrives
        · exact pairs.outside_arrival (.inl rfl)
        · exact pairs.outside_arrival arrives
      exact ⟨framesAgree_drop matched.agree (drop pc catchers outside), landed.2, outside⟩

/-- The second instruction of one pair is not the first of another. -/
theorem PairEdits.second_plain (pairs : PairEdits code edits) {i : Nat}
    {edit : PairEdit Instruction} (decided : edits i = some edit)
    : edits edit.slot = none := by
  cases second : edits edit.slot with
  | none => rfl
  | some edit' =>
      have apart := pairs.disjoint decided second (pairs.pair decided).order
      omega

/-- Both instructions of a pair have run in the original.
Witness: the second is the first of no pair, so it leads to no second one.
-/
theorem FrameMatches.both (pairs : PairEdits code edits) (shape : StreamShape code)
    (adjacent : ∀ {i edit}, edits i = some edit → edit.slot = i + 1)
    {dropped : List DroppedWrite} {frame image : Frame W} {edit : PairEdit Instruction}
    (matched : FrameMatches code edits dropped frame image)
    (decided : edits frame.pc = some edit) {writes writes' : List (Nat × Value)} {pc : Nat}
    {catchers : List Catcher} {world world' : W}
    (first : rt.act code frame = .go writes (frame.pc + 1) frame.catchers world)
    (second : rt.act code
        {
          pc := frame.pc + 1
          regs := overwrite frame.regs writes
          catchers := frame.catchers
          world := world
        } = .go writes' pc catchers world')
    (drops : Nat → Action W → List Nat) {regs : Nat → Value}
    (agree : Set.EqOn (overwrite (overwrite frame.regs writes) writes') regs
      (stale (dropAfter drops (frame.pc + 1)
        (dropAfter drops frame.pc dropped (.go writes (frame.pc + 1) frame.catchers world))
        (.go writes' pc catchers world')))ᶜ)
    : PairMatches code edits ((trackedMachine rt code drops).run 2 ⟨.running frame, dropped⟩)
        (.running { pc := pc, regs := regs, catchers := catchers, world := world' }) := by
  have slot := adjacent decided
  have inside : frame.pc + 1 < code.length := slot ▸ (pairs.pair decided).inside
  have fetched : code[frame.pc + 1]? = some code[frame.pc + 1] :=
    List.getElem?_eq_getElem inside
  have landed : ActionLands code code[frame.pc + 1].op (frame.pc + 1) (rt.act code
      {
        pc := frame.pc + 1
        regs := overwrite frame.regs writes
        catchers := frame.catchers
        world := world
      }) :=
    act_lands rt fetched (shape.noWide _ _ fetched) matched.lands
  rw [second] at landed
  rw [trackedMachine_two first second]
  refine ⟨⟨rfl, rfl, rfl, agree⟩, landed.2, ?_⟩
  exact pairs.outside_after shape adjacent fetched (slot ▸ pairs.second_plain decided) landed.1

/-- Both instructions of a pair have run in the original, and the rewritten code makes none of
their writes.
-/
theorem FrameMatches.blank (pairs : PairEdits code edits) (shape : StreamShape code)
    (adjacent : ∀ {i edit}, edits i = some edit → edit.slot = i + 1)
    {dropped : List DroppedWrite} {frame image : Frame W} {edit : PairEdit Instruction}
    (matched : FrameMatches code edits dropped frame image)
    (decided : edits frame.pc = some edit) {writes writes' : List (Nat × Value)} {pc : Nat}
    {catchers : List Catcher} {world world' : W}
    (first : rt.act code frame = .go writes (frame.pc + 1) frame.catchers world)
    (drop : ∀ reg ∈ writes.map Prod.fst,
      reg ∈ drops frame.pc (.go writes (frame.pc + 1) frame.catchers world))
    (second : rt.act code
        {
          pc := frame.pc + 1
          regs := overwrite frame.regs writes
          catchers := frame.catchers
          world := world
        } = .go writes' pc catchers world')
    (drop' : ∀ reg ∈ writes'.map Prod.fst,
      reg ∈ drops (frame.pc + 1) (.go writes' pc catchers world'))
    : PairMatches code edits ((trackedMachine rt code drops).run 2 ⟨.running frame, dropped⟩)
        (.running { pc := pc, regs := image.regs, catchers := catchers, world := world' }) :=
  matched.both pairs shape adjacent decided first second drops
    (framesAgree_drop (framesAgree_drop matched.agree drop) drop').regs

/-- Both instructions of a pair have run in the original, the first without a write that the
rewritten code makes and the second with the action that the rewritten code takes.
-/
theorem FrameMatches.shared (pairs : PairEdits code edits) (shape : StreamShape code)
    (adjacent : ∀ {i edit}, edits i = some edit → edit.slot = i + 1)
    {dropped : List DroppedWrite} {frame image : Frame W} {edit : PairEdit Instruction}
    (matched : FrameMatches code edits dropped frame image)
    (decided : edits frame.pc = some edit) {writes : List (Nat × Value)} {world : W}
    {action : Action W}
    (first : rt.act code frame = .go writes (frame.pc + 1) frame.catchers world)
    (drop : ∀ reg ∈ writes.map Prod.fst,
      reg ∈ drops frame.pc (.go writes (frame.pc + 1) frame.catchers world))
    (second : rt.act code
        {
          pc := frame.pc + 1
          regs := overwrite frame.regs writes
          catchers := frame.catchers
          world := world
        } = action)
    : PairMatches code edits ((trackedMachine rt code drops).run 2 ⟨.running frame, dropped⟩)
        (action.perform image.regs) := by
  have agrees := statusAgrees_perform drops (framesAgree_drop matched.agree drop) action
  cases action with
  | halt ending =>
      rw [trackedMachine_two first second]
      rfl
  | go writes' pc catchers world' =>
      exact matched.both pairs shape adjacent decided first second drops agrees.regs

/-- A dispatch of a word that both codes share. -/
theorem PairFusion.same_step (pass : PairFusion rt code code' edits drops Sound)
    (shape : StreamShape code) {dropped : List DroppedWrite} {frame image : Frame W}
    (matched : FrameMatches code edits dropped frame image)
    (harmless : PairHarmless rt code edits drops Sound ⟨.running frame, dropped⟩)
    {word : Instruction} (fetched : code[frame.pc]? = some word)
    (noPair : edits frame.pc = none)
    : PairMatches code edits (trackStep rt code drops ⟨.running frame, dropped⟩)
        (rt.step code' (.running image)) := by
  have plain := shape.noWide _ _ fetched
  have acts : rt.act code' image = rt.act code frame := by
    rw [matched.agree.eq]
    refine act_congr (pass.edited.skeleton pass.pairs) fetched ?_ plain
      (fun owns => pass.edited.data pass.pairs shape fetched owns)
      (fun r read => matched.fresh harmless read)
    rw [← fetched]
    refine pass.edited.kept fun i edit decided => ⟨?_, ?_⟩
    · rintro rfl
      simp [noPair] at decided
    · exact (matched.outside i edit decided).symm
  have landed := act_lands rt fetched plain matched.lands
  have agrees := statusAgrees_perform drops matched.agree (rt.act code frame)
  simp only [trackStep, Runtime.step, acts]
  cases action : rt.act code frame with
  | halt ending => rfl
  | go writes pc catchers world =>
      rw [action] at landed agrees
      exact ⟨agrees, landed.2,
        pass.pairs.outside_after shape pass.adjacent fetched noPair landed.1⟩

/-- Fusing pairs is a simulation whose matching states recur at most one dispatch apart.
Witness: the instruction is the first of a pair, or a word both codes share.
-/
theorem PairFusion.advances (pass : PairFusion rt code code' edits drops Sound)
    (shape : StreamShape code)
    : Advances (trackedMachine rt code drops) (rt.machine code') 1
        (fun state image => PairMatches code edits state image
          ∧ ∀ n, PairHarmless rt code edits drops Sound
            ((trackedMachine rt code drops).run n state)) := by
  intro state image related
  obtain ⟨matched, harmless⟩ := related
  obtain ⟨status, dropped⟩ := state
  have later : ∀ a n, PairHarmless rt code edits drops Sound
      ((trackedMachine rt code drops).run n
        ((trackedMachine rt code drops).run a ⟨status, dropped⟩)) := by
    intro a n
    rw [← Execution.run_add]
    exact harmless (n + a)
  cases status with
  | ended ending =>
      cases image with
      | running frame' => exact matched.elim
      | ended ending' => exact .inl ⟨ending, rfl, congrArg some (Eq.symm matched)⟩
  | running frame =>
      cases image with
      | ended ending' => exact matched.elim
      | running image =>
          have matched : FrameMatches code edits dropped frame image := matched
          refine .inr ⟨rfl, rfl, ?_⟩
          cases decided : edits frame.pc with
          | some edit =>
              obtain ⟨a, b, near, near', again⟩ := pass.fused decided matched harmless
              exact ⟨a, b, near, near', again, later (a + 1)⟩
          | none =>
              refine ⟨0, 0, Nat.zero_le 1, Nat.zero_le 1, ?_, later 1⟩
              cases fetched : code[frame.pc]? with
              | some word => exact pass.same_step shape matched (harmless 0) fetched decided
              | none =>
                  have fetched' : code'[image.pc]? = none := by
                    rw [matched.agree.pc, List.getElem?_eq_none_iff]
                    rw [List.getElem?_eq_none_iff] at fetched
                    exact pass.edited.length.trans_le fetched
                  have stuck : rt.act code frame = .halt .stuck := by
                    simp [Runtime.act, fetch, fetched]
                  have stuck' : rt.act code' image = .halt .stuck := by
                    simp [Runtime.act, fetch, fetched']
                  simp only [Execution.run, trackedMachine, Runtime.machine, trackStep,
                    Runtime.step, stuck, stuck', Function.iterate_one, zero_add]
                  rfl

theorem statusAgrees_of_matches {state : Tracked W} {image : Status W}
    (matched : PairMatches code edits state image)
    : StatusAgrees state image := by
  unfold PairMatches at matched
  unfold StatusAgrees
  cases status : state.status <;> cases image <;> simp only [status] at matched ⊢
  · exact matched.agree
  · exact matched

/-- A run that meets only harmless states is kept: from any time on, matching states recur
within one dispatch unless both runs end alike, and the runs end alike.
-/
theorem PairFusion.run (pass : PairFusion rt code code' edits drops Sound)
    (shape : StreamShape code) (regs : Nat → Value) (world : W)
    (harmless : ∀ n, PairHarmless rt code edits drops Sound
      ((trackedMachine rt code drops).run n (.entry regs world)))
    : (∀ n, ∃ a b, n ≤ a ∧ a ≤ n + 1
        ∧ StatusAgrees ((trackedMachine rt code drops).run a (.entry regs world))
          ((rt.machine code').run b (.entry regs world)))
      ∧ ∀ ending, (rt.machine code).EndsWith (.entry regs world) ending
        ↔ (rt.machine code').EndsWith (.entry regs world) ending := by
  have start : PairMatches code edits (.entry regs world) (.entry regs world)
      ∧ ∀ n, PairHarmless rt code edits drops Sound
        ((trackedMachine rt code drops).run n (.entry regs world)) := by
    refine ⟨⟨⟨rfl, rfl, rfl, fun _ _ => rfl⟩, fun cat mem => by simp at mem, ?_⟩, harmless⟩
    exact pass.pairs.outside_arrival (.inl rfl)
  have advances := pass.advances shape
  refine ⟨?_, ?_⟩
  · intro n
    obtain ⟨a, b, far, close, again | ⟨ending, ended, ended'⟩⟩ := advances.recur start n
    · exact ⟨a, b, far, close, statusAgrees_of_matches again.1⟩
    · exact ⟨a, b, far, close, statusAgrees_of_ended ended ended'⟩
  · intro ending
    rw [← trackedMachine_endsWith drops]
    exact advances.endsWith_iff start ending

end Boomkat.Correctness
