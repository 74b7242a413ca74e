import Boomkat.Correctness.SealedPair

/-! Passes that blank the first instruction of sealed pairs and let the second compute with
what the first would have left in its register.
-/

namespace Boomkat.Correctness
open Boomkat.Foundation Boomkat.Bytecode Boomkat.Machine Boomkat.Compiler

variable {W : Type} {rt : Runtime W} {code code' : List Instruction}
  {edits : Nat → Option (PairEdit Instruction)} {reg : Nat → Nat}
  {Carried : Nat → (Nat → Value) → (Nat → Value) → W → Prop} {Sound : Nat → Frame W → Prop}

/-- A pass that blanks the trigger at each edited slot and rewrites its consumer. `reg i` is
the register the trigger at `i` writes, `Carried i` relates the two register files between
the trigger and its consumer, and `Sound i` is what the rewriting of the consumer assumes.
-/
structure TriggerFusion (rt : Runtime W) (code : List Instruction)
    (edits : Nat → Option (PairEdit Instruction)) (reg : Nat → Nat)
    (Carried : Nat → (Nat → Value) → (Nat → Value) → W → Prop)
    (Sound : Nat → Frame W → Prop) : Prop where
  pairs : PairEdits code edits
  blank : ∀ {i edit}, edits i = some edit → edit.head = nopWord
  plain : ∀ {i edit}, edits i = some edit →
    edit.tail.op ≠ .wide ∧ ownsDataWord edit.tail.op = false
  trigger : ∀ {i edit} {frame : Frame W}, edits i = some edit → frame.pc = i →
    ∃ value, rt.act code frame
        = .go [(reg i, value)] (i + 1) frame.catchers frame.world
      ∧ ∀ image : Nat → Value, (∀ r ∈ readsAt rt code frame, frame.regs r = image r) →
        Carried i (overwrite frame.regs [(reg i, value)]) image frame.world
  consumer : ∀ {i edit} {frame : Frame W} {image : Nat → Value}, edits i = some edit →
    frame.pc = edit.slot → Carried i frame.regs image frame.world →
    (∀ r ∈ readsAt rt code frame, r ≠ reg i → frame.regs r = image r) → Sound i frame →
    rt.dispatch code edit.tail.decode { frame with regs := image } (edit.slot + 1)
      = rt.act code frame

/-- A state in which no stale register is read except by the consumer of the dropped write,
and a rewritten consumer meets its assumption.
-/
structure Harmless (rt : Runtime W) (code : List Instruction)
    (edits : Nat → Option (PairEdit Instruction)) (Sound : Nat → Frame W → Prop)
    (state : Tracked W) : Prop where
  reads : ∀ frame, state.status = .running frame → ∀ write ∈ state.dropped,
    write.reg ∈ readsAt rt code frame →
    ∃ edit, edits write.slot = some edit ∧ frame.pc = edit.slot
  sound : ∀ frame, state.status = .running frame → ∀ i edit, edits i = some edit →
    frame.pc = edit.slot → Sound i frame

/-- The two runs agree, and inside a pair the rewritten run holds what its consumer needs. -/
structure FusionMatches (code : List Instruction)
    (edits : Nat → Option (PairEdit Instruction)) (reg : Nat → Nat)
    (Carried : Nat → (Nat → Value) → (Nat → Value) → W → Prop) (state : Tracked W)
    (image : Status W) : Prop where
  agrees : StatusAgrees state image
  known : DroppedAt (W := W) (triggerDrops edits reg) state.dropped
  lands : ∀ frame, state.status = .running frame → ChainLands code frame.catchers
  carried : ∀ frame frame', state.status = .running frame → image = .running frame' →
    ∀ i edit, edits i = some edit → i < frame.pc → frame.pc ≤ edit.slot →
    Carried i frame.regs frame'.regs frame.world

-----------------------------------------------------------------------------------------
-- One step and whole runs
-----------------------------------------------------------------------------------------

/-- Registers that a harmless state reads are fresh, but for those its consumer replaces. -/
theorem Harmless.agree {state : Tracked W} {frame : Frame W} {image : Nat → Value}
    (harmless : Harmless rt code edits Sound state) (running : state.status = .running frame)
    (same : Set.EqOn frame.regs image (stale state.dropped)ᶜ) {r : Nat}
    (read : r ∈ readsAt rt code frame)
    (elsewhere : ∀ write ∈ state.dropped, write.reg = r →
      ∀ edit, edits write.slot = some edit → frame.pc ≠ edit.slot)
    : frame.regs r = image r := by
  apply same
  rintro ⟨write, mem, rfl⟩
  obtain ⟨edit, decided, here⟩ := harmless.reads frame running write mem read
  exact elsewhere write mem rfl edit decided here

/-- An instruction that is no trigger enters a pair only from inside it. -/
theorem TriggerFusion.inside_pair (pass : TriggerFusion rt code edits reg Carried Sound)
    (shape : StreamShape code) {frame : Frame W} {word : Instruction}
    (fetched : code[frame.pc]? = some word) (noTrigger : edits frame.pc = none)
    (lands : ChainLands code frame.catchers) {writes : List (Nat × Value)} {pc : Nat}
    {catchers : List Catcher} {world : W}
    (acts : rt.act code frame = .go writes pc catchers world) {i : Nat}
    {edit : PairEdit Instruction} (decided : edits i = some edit) (after : i < pc)
    (upTo : pc ≤ edit.slot)
    : i < frame.pc ∧ frame.pc < edit.slot := by
  have landed := act_lands rt fetched (shape.noWide _ _ fetched) lands
  rw [acts] at landed
  have next := (pass.pairs.pair decided).entered shape fetched landed.1 after upTo
  have notHere : i ≠ frame.pc := by
    rintro rfl
    simp [noTrigger] at decided
  omega

/-- Equal actions at a slot that is no trigger keep the two runs matched. -/
theorem FusionMatches.same_action (pass : TriggerFusion rt code edits reg Carried Sound)
    (shape : StreamShape code) {frame image : Frame W} {dropped : List DroppedWrite}
    (matched : FusionMatches code edits reg Carried ⟨.running frame, dropped⟩ (.running image))
    {word : Instruction} (fetched : code[frame.pc]? = some word)
    (noTrigger : edits frame.pc = none) (acts : rt.act code' image = rt.act code frame)
    (still : ∀ i edit, edits i = some edit → i < frame.pc → frame.pc < edit.slot →
      ∃ pc, rt.act code frame = .go [] pc frame.catchers frame.world)
    : FusionMatches code edits reg Carried
        (trackStep rt code (triggerDrops edits reg) ⟨.running frame, dropped⟩)
        (rt.step code' (.running image)) := by
  have lands : ChainLands code frame.catchers := matched.lands frame rfl
  have landed := act_lands rt fetched (shape.noWide _ _ fetched) lands
  have agree : FramesAgree dropped frame image := matched.agrees
  simp only [trackStep, Runtime.step, acts]
  refine ⟨?_, matched.known.dropAfter _ _, ?_, ?_⟩
  · exact statusAgrees_perform (triggerDrops edits reg) agree _
  · intro after running
    cases action : rt.act code frame with
    | halt ending => simp [action, Action.perform] at running
    | go writes pc catchers world =>
        rw [action] at landed
        simp only [action, Action.perform, Status.running.injEq] at running
        exact running ▸ landed.2
  · intro after after' running running' i edit decided low high
    cases action : rt.act code frame with
    | halt ending => simp [action, Action.perform] at running
    | go writes pc catchers world =>
        simp only [action, Action.perform, Status.running.injEq] at running running'
        subst running running'
        obtain ⟨low', high'⟩ := pass.inside_pair shape fetched noTrigger lands action decided
          low high
        obtain ⟨succ, nop⟩ := still i edit decided low' high'
        rw [action] at nop
        cases nop
        exact matched.carried frame image rfl rfl i edit decided low' (by omega)

/-- The blanked trigger: the original writes a register that is stale from here on. -/
theorem FusionMatches.trigger_step (pass : TriggerFusion rt code edits reg Carried Sound)
    (edited : EditedCode code edits code') {frame image : Frame W}
    {dropped : List DroppedWrite}
    (matched : FusionMatches code edits reg Carried ⟨.running frame, dropped⟩ (.running image))
    (harmless : Harmless rt code edits Sound ⟨.running frame, dropped⟩)
    {edit : PairEdit Instruction} (decided : edits frame.pc = some edit)
    : FusionMatches code edits reg Carried
        (trackStep rt code (triggerDrops edits reg) ⟨.running frame, dropped⟩)
        (rt.step code' (.running image)) := by
  have agree : FramesAgree dropped frame image := matched.agrees
  have fresh : ∀ r ∈ readsAt rt code frame, frame.regs r = image.regs r := by
    intro r read
    refine harmless.agree rfl agree.regs read ?_
    intro write _ _ edit' decided' here
    have earlier : write.slot < frame.pc := here ▸ (pass.pairs.pair decided').order
    have apart := pass.pairs.disjoint decided' decided earlier
    omega
  obtain ⟨value, acts, carry⟩ := pass.trigger decided rfl
  have acts' : rt.act code' image = .go [] (frame.pc + 1) image.catchers image.world := by
    have blank : code'[image.pc]? = some nopWord := by
      rw [agree.pc, ← pass.blank decided]
      exact (edited.edited decided).1
    rw [act_nopWord rt blank, agree.pc]
  have drop : frame.pc ∈ [frame.pc] := List.mem_singleton_self _
  simp only [trackStep, Runtime.step, acts, acts', Action.perform]
  refine ⟨?_, matched.known.dropAfter _ _, ?_, ?_⟩
  · rw [agree.catchers, agree.world]
    apply framesAgree_drop agree
    intro r written
    simpa [triggerDrops, decided, writtenBy] using written
  · intro after running
    cases running
    exact matched.lands frame rfl
  · intro after after' running running' i edit' decided' low high
    cases running
    cases running'
    rcases Nat.lt_or_eq_of_le (Nat.lt_succ_iff.mp low) with earlier | rfl
    · have apart := pass.pairs.disjoint decided' decided earlier
      simp only at high
      omega
    · exact carry image.regs fresh

/-- The rewritten consumer computes what the original one does. -/
theorem FusionMatches.consumer_step (pass : TriggerFusion rt code edits reg Carried Sound)
    (shape : StreamShape code) (edited : EditedCode code edits code') {frame image : Frame W}
    {dropped : List DroppedWrite}
    (matched : FusionMatches code edits reg Carried ⟨.running frame, dropped⟩ (.running image))
    (harmless : Harmless rt code edits Sound ⟨.running frame, dropped⟩)
    {word : Instruction} (fetched : code[frame.pc]? = some word)
    (noTrigger : edits frame.pc = none) {i : Nat} {edit : PairEdit Instruction}
    (decided : edits i = some edit) (here : frame.pc = edit.slot)
    : FusionMatches code edits reg Carried
        (trackStep rt code (triggerDrops edits reg) ⟨.running frame, dropped⟩)
        (rt.step code' (.running image)) := by
  have agree : FramesAgree dropped frame image := matched.agrees
  have order : i < edit.slot := (pass.pairs.pair decided).order
  have single : ∀ j edit', edits j = some edit' → j < frame.pc → frame.pc ≤ edit'.slot →
      j = i := by
    intro j edit' decided' low high
    rcases Nat.lt_trichotomy i j with before | same | after
    · have apart := pass.pairs.disjoint decided decided' before
      omega
    · exact same.symm
    · have apart := pass.pairs.disjoint decided' decided after
      omega
  have carried := matched.carried frame image rfl rfl i edit decided (by omega) (by omega)
  have fresh : ∀ r ∈ readsAt rt code frame, r ≠ reg i → frame.regs r = image.regs r := by
    intro r read other
    refine harmless.agree rfl agree.regs read ?_
    intro write mem same edit' decided' last
    obtain ⟨_, _, regEq⟩ := matched.known.trigger mem
    rw [single write.slot edit' decided' (last ▸ (pass.pairs.pair decided').order) (by omega)]
      at regEq
    exact other (same.symm.trans regEq)
  obtain ⟨plain, noData⟩ := pass.plain decided
  have acts : rt.act code' image = rt.act code frame := by
    have sound := harmless.sound frame rfl i edit decided here
    have tail : code'[image.pc]? = some edit.tail := by
      rw [agree.pc, here]
      exact (edited.edited decided).2
    rw [← pass.consumer decided here carried fresh sound, act_of_fetched tail plain, agree.eq,
      here]
    exact dispatch_code_congr (edited.skeleton pass.pairs) fun owns => by
      rw [Instruction.decode_op, noData] at owns
      cases owns
  refine matched.same_action pass shape fetched noTrigger acts ?_
  intro j edit' decided' low high
  obtain rfl := single j edit' decided' low (by omega)
  obtain rfl : edit = edit' := by simpa [decided] using decided'
  omega

/-- One dispatch of both runs.
Witness: the slot is a blanked trigger, a rewritten consumer, or a word both codes share.
-/
theorem FusionMatches.step (pass : TriggerFusion rt code edits reg Carried Sound)
    (shape : StreamShape code) (edited : EditedCode code edits code') {state : Tracked W}
    {image : Status W} (matched : FusionMatches code edits reg Carried state image)
    (harmless : Harmless rt code edits Sound state)
    : FusionMatches code edits reg Carried (trackStep rt code (triggerDrops edits reg) state)
        (rt.step code' image) := by
  obtain ⟨status, dropped⟩ := state
  cases status with
  | ended ending =>
      have ended : image = .ended ending := by
        have agrees := matched.agrees
        cases image with
        | running frame' => exact agrees.elim
        | ended ending' => exact congrArg Status.ended agrees.symm
      subst ended
      exact matched
  | running frame =>
      obtain ⟨image, rfl⟩ : ∃ frame', image = .running frame' := by
        have agrees := matched.agrees
        cases image with
        | running frame' => exact ⟨frame', rfl⟩
        | ended ending' => exact agrees.elim
      have agree : FramesAgree dropped frame image := matched.agrees
      cases fetched : code[frame.pc]? with
      | none =>
          have fetched' : code'[frame.pc]? = none := by
            rw [List.getElem?_eq_none_iff] at fetched ⊢
            exact edited.length.trans_le fetched
          have stuck : rt.act code frame = .halt .stuck := by simp [Runtime.act, fetch, fetched]
          have stuck' : rt.act code' image = .halt .stuck := by
            simp [Runtime.act, fetch, agree.pc, fetched']
          simp only [trackStep, Runtime.step, stuck, stuck', Action.perform]
          refine ⟨rfl, matched.known.dropAfter _ _, ?_, ?_⟩
          · intro after running
            cases running
          · intro after after' running
            cases running
      | some word =>
          cases decided : edits frame.pc with
          | some edit => exact matched.trigger_step pass edited harmless decided
          | none =>
              by_cases consumes : ∃ i edit, edits i = some edit ∧ frame.pc = edit.slot
              · obtain ⟨i, edit, decidedAt, here⟩ := consumes
                exact matched.consumer_step pass shape edited harmless fetched decided decidedAt
                  here
              · refine matched.same_action pass shape fetched decided ?_ ?_
                · rw [agree.eq]
                  refine act_congr (edited.skeleton pass.pairs) fetched ?_ (shape.noWide _ _ fetched)
                    (fun owns => edited.data pass.pairs shape fetched owns) ?_
                  · rw [← fetched]
                    refine edited.kept fun i edit decidedAt => ⟨?_, ?_⟩
                    · rintro rfl
                      simp [decided] at decidedAt
                    · exact fun last => consumes ⟨i, edit, decidedAt, last.symm⟩
                  · intro r read
                    refine harmless.agree rfl agree.regs read ?_
                    intro write _ _ edit decidedAt last
                    exact consumes ⟨write.slot, edit, decidedAt, last⟩
                · intro i edit decidedAt low high
                  have nop := (pass.pairs.pair decidedAt).between frame.pc word low high fetched
                  refine ⟨frame.pc + 1, ?_⟩
                  simp [Runtime.act, fetch, fetched, nop, Runtime.dispatch]

/-- Whole runs stay matched as long as the original run meets only harmless states.
Witness: induction on the number of dispatches.
-/
theorem fusion_run (pass : TriggerFusion rt code edits reg Carried Sound)
    (shape : StreamShape code) (edited : EditedCode code edits code')
    (regs : Nat → Value) (world : W)
    (harmless : ∀ n, Harmless rt code edits Sound
      ((trackedMachine rt code (triggerDrops edits reg)).run n (.entry regs world)))
    (n : Nat)
    : FusionMatches code edits reg Carried
        ((trackedMachine rt code (triggerDrops edits reg)).run n (.entry regs world))
        ((rt.machine code').run n (.entry regs world)) := by
  induction n with
  | zero =>
      refine ⟨⟨rfl, rfl, rfl, fun _ _ => rfl⟩, ?_, ?_, ?_⟩
      · intro write mem
        cases mem
      · intro frame running
        cases running
        exact fun cat mem => by simp at mem
      · intro frame frame' running _ i edit _ low
        cases running
        exact absurd low (Nat.not_lt_zero i)
  | succ n ih =>
      rw [Execution.run_succ, Execution.run_succ]
      exact ih.step pass shape edited (harmless n)

end Boomkat.Correctness
