import Boomkat.Correctness.Footprint

/-! Runs that remember which register writes a rewritten code does not make. A register whose
last write was dropped is stale: the rewritten run holds an older value in it.
-/

namespace Boomkat.Correctness
open Boomkat.Foundation Boomkat.Bytecode Boomkat.Machine Boomkat.Compiler

variable {W : Type} {rt : Runtime W} {code code' : List Instruction}
  {drops : Nat → Action W → List Nat}

/-- The write to `reg` at `slot`, which the rewritten code does not make. -/
structure DroppedWrite where
  slot : Nat
  reg : Nat
  deriving DecidableEq, Repr

/-- A status of the original run with the dropped writes not yet overwritten. -/
structure Tracked (W : Type) where
  status : Status W
  dropped : List DroppedWrite

/-- The register the word at `i` names in field A. -/
def regA (code : List Instruction) (i : Nat) : Nat :=
  (code[i]?.map fun word => word.a.toNat).getD 0

/-- The register the word at `i` names in field B. -/
def regB (code : List Instruction) (i : Nat) : Nat :=
  (code[i]?.map fun word => word.b.toNat).getD 0

/-- The registers an action writes. -/
def writtenBy : Action W → List Nat
  | .go writes _ _ _ => writes.map Prod.fst
  | .halt _ => []

/-- The dropped writes after an action at `slot`: earlier ones that the action does not
overwrite, and those that the rewritten code does not make instead of this one.
-/
def dropAfter (drops : Nat → Action W → List Nat) (slot : Nat) (dropped : List DroppedWrite)
    (action : Action W) : List DroppedWrite :=
  (dropped.filter fun write => write.reg ∉ writtenBy action)
    ++ (drops slot action).map fun reg => ⟨slot, reg⟩

/-- One dispatch of the original run; `drops slot action` are the registers whose write by
the action at `slot` the rewritten code does not make.
-/
def trackStep (rt : Runtime W) (code : List Instruction) (drops : Nat → Action W → List Nat)
    (state : Tracked W) : Tracked W :=
  match state.status with
  | .running frame =>
      {
        status := (rt.act code frame).perform frame.regs
        dropped := dropAfter drops frame.pc state.dropped (rt.act code frame)
      }
  | .ended _ => state

/-- The original machine with its dropped writes. -/
def trackedMachine (rt : Runtime W) (code : List Instruction)
    (drops : Nat → Action W → List Nat) : Execution (Tracked W) (Ending W) where
  step := trackStep rt code drops
  result state := state.status.ending?
  step_ended := by
    intro state ending ended
    cases status : state.status with
    | running frame => simp [status, Status.ending?] at ended
    | ended _ => simp [trackStep, status]

/-- A call of the function, with nothing dropped yet. -/
def Tracked.entry (regs : Nat → Value) (world : W) : Tracked W :=
  { status := .entry regs world, dropped := [] }

/-- Forgetting the dropped writes gives back the original run. -/
theorem trackedMachine_status (rt : Runtime W) (code : List Instruction)
    (drops : Nat → Action W → List Nat) (state : Tracked W) (n : Nat)
    : ((trackedMachine rt code drops).run n state).status
      = (rt.machine code).run n state.status := by
  induction n with
  | zero => rfl
  | succ n ih =>
      rw [Execution.run_succ, Execution.run_succ, ← ih]
      generalize (trackedMachine rt code drops).run n state = reached
      cases status : reached.status <;>
        simp [trackedMachine, trackStep, Runtime.machine, Runtime.step, status]

theorem trackedMachine_endsWith (drops : Nat → Action W → List Nat) {regs : Nat → Value} {world : W}
    (ending : Ending W)
    : (trackedMachine rt code drops).EndsWith (.entry regs world) ending
        ↔ (rt.machine code).EndsWith (.entry regs world) ending := by
  refine exists_congr fun n => ?_
  have status := trackedMachine_status rt code drops (.entry regs world) n
  exact Eq.congr (congrArg Status.ending? status) rfl

/-- The registers that are stale. -/
def stale (dropped : List DroppedWrite) : Set Nat :=
  {reg | ∃ write ∈ dropped, write.reg = reg}

/-- Two frames at one point of control whose registers agree unless they are stale. -/
structure FramesAgree (dropped : List DroppedWrite) (frame image : Frame W) : Prop where
  pc : image.pc = frame.pc
  catchers : image.catchers = frame.catchers
  world : image.world = frame.world
  regs : Set.EqOn frame.regs image.regs (stale dropped)ᶜ

/-- A tracked status and a status of the rewritten run that have ended alike or run alike. -/
def StatusAgrees (state : Tracked W) (image : Status W) : Prop :=
  match state.status, image with
  | .running frame, .running frame' => FramesAgree state.dropped frame frame'
  | .ended ending, .ended ending' => ending = ending'
  | _, _ => False

theorem statusAgrees_of_ended {state : Tracked W} {image : Status W} {ending : Ending W}
    (ended : state.status.ending? = some ending) (ended' : image.ending? = some ending)
    : StatusAgrees state image := by
  unfold StatusAgrees
  cases status : state.status <;> cases image <;> simp_all [Status.ending?]

/-- Agreeing statuses end alike. -/
theorem StatusAgrees.ending {state : Tracked W} {image : Status W}
    (agrees : StatusAgrees state image)
    : image.ending? = state.status.ending? := by
  unfold StatusAgrees at agrees
  cases status : state.status with
  | running frame =>
      cases image with
      | running frame' => rfl
      | ended ending => simp [status] at agrees
  | ended ending =>
      cases image with
      | running frame' => simp [status] at agrees
      | ended ending' =>
          simp only [status] at agrees
          rw [agrees]

theorem statusAgrees_self (regs : Nat → Value) (world : W) (n : Nat)
    : StatusAgrees ((trackedMachine rt code drops).run n (.entry regs world))
        ((rt.machine code).run n (.entry regs world)) := by
  have status := trackedMachine_status rt code drops (.entry regs world) n
  unfold StatusAgrees
  rw [status]
  cases reached : (rt.machine code).run n (.entry regs world) with
  | running frame =>
      have same : (rt.machine code).run n (Tracked.entry regs world).status
          = .running frame := reached
      rw [same]
      exact ⟨rfl, rfl, rfl, fun _ _ => rfl⟩
  | ended ending =>
      have same : (rt.machine code).run n (Tracked.entry regs world).status
          = .ended ending := reached
      rw [same]

/-- A frame that agrees is the original one with another register file. -/
theorem FramesAgree.eq {dropped : List DroppedWrite} {frame image : Frame W}
    (agree : FramesAgree dropped frame image)
    : image = { frame with regs := image.regs } := by
  cases frame
  cases image
  obtain ⟨rfl, rfl, rfl, _⟩ := agree
  rfl

theorem mem_dropAfter {slot reg : Nat} {dropped : List DroppedWrite} {action : Action W}
    : reg ∈ stale (dropAfter drops slot dropped action)
        ↔ (reg ∈ stale dropped ∧ reg ∉ writtenBy action)
          ∨ reg ∈ drops slot action := by
  constructor
  · rintro ⟨write, mem, rfl⟩
    simp only [dropAfter, List.mem_append, List.mem_filter, List.mem_map,
      decide_eq_true_eq] at mem
    rcases mem with ⟨old, unwritten⟩ | ⟨reg, dropped, rfl⟩
    · exact .inl ⟨⟨write, old, rfl⟩, unwritten⟩
    · exact .inr dropped
  · rintro (⟨⟨write, old, rfl⟩, unwritten⟩ | dropped)
    · exact ⟨write, by simp [dropAfter, old, unwritten], rfl⟩
    · exact ⟨⟨slot, reg⟩, by simp [dropAfter, dropped], rfl⟩

/-- An action without writes leaves the dropped writes as they are. -/
theorem dropAfter_unwritten {slot : Nat} {pc : Nat} {catchers : List Catcher} {world : W}
    (keeps : drops slot (.go [] pc catchers world) = []) (dropped : List DroppedWrite)
    : dropAfter drops slot dropped (.go [] pc catchers world) = dropped := by
  rw [dropAfter, keeps]
  simp [writtenBy, List.filter_eq_self.mpr]

/-- Every dropped write is one that `drops` lists at its slot. -/
def DroppedAt (drops : Nat → Action W → List Nat) (dropped : List DroppedWrite) : Prop :=
  ∀ write ∈ dropped, ∃ action, write.reg ∈ drops write.slot action

theorem DroppedAt.dropAfter {dropped : List DroppedWrite} (known : DroppedAt drops dropped)
    (slot : Nat) (action : Action W)
    : DroppedAt drops (dropAfter drops slot dropped action) := by
  intro write mem
  simp only [Correctness.dropAfter, List.mem_append, List.mem_filter, List.mem_map] at mem
  rcases mem with ⟨old, _⟩ | ⟨reg, dropped, rfl⟩
  · exact known write old
  · exact ⟨action, dropped⟩

theorem trackedMachine_droppedAt (regs : Nat → Value) (world : W) (n : Nat)
    : DroppedAt drops ((trackedMachine rt code drops).run n (.entry regs world)).dropped := by
  induction n with
  | zero =>
      intro write mem
      cases mem
  | succ n ih =>
      rw [Execution.run_succ]
      generalize (trackedMachine rt code drops).run n (.entry regs world) = reached at ih ⊢
      cases status : reached.status with
      | running frame =>
          simp only [trackedMachine, trackStep, status]
          exact ih.dropAfter frame.pc _
      | ended ending => simpa only [trackedMachine, trackStep, status] using ih

/-- Runs that agree at every time end alike. -/
theorem endsWith_of_agrees {regs : Nat → Value} {world : W}
    (agrees : ∀ n, StatusAgrees ((trackedMachine rt code drops).run n (.entry regs world))
      ((rt.machine code').run n (.entry regs world)))
    (ending : Ending W)
    : (rt.machine code).EndsWith (.entry regs world) ending
        ↔ (rt.machine code').EndsWith (.entry regs world) ending := by
  have same : ∀ n, ((rt.machine code').run n (.entry regs world)).ending?
      = ((rt.machine code).run n (.entry regs world)).ending? := by
    intro n
    have status := trackedMachine_status rt code drops (.entry regs world) n
    rw [(agrees n).ending, status]
    rfl
  exact exists_congr fun n => Eq.congr (same n).symm rfl

/-- The same action on agreeing frames leaves agreeing statuses. -/
theorem statusAgrees_perform (drops : Nat → Action W → List Nat)
    {dropped : List DroppedWrite} {frame image : Frame W}
    (agree : FramesAgree dropped frame image) (action : Action W)
    : StatusAgrees ⟨action.perform frame.regs, dropAfter drops frame.pc dropped action⟩
        (action.perform image.regs) := by
  cases action with
  | halt ending => rfl
  | go writes pc catchers world =>
      refine ⟨rfl, rfl, rfl, ?_⟩
      intro reg fresh
      apply overwrite_eqOn agree.regs writes
      rintro ⟨wasStale, unwritten⟩
      exact fresh (mem_dropAfter.mpr (.inl ⟨wasStale, unwritten⟩))

/-- Writes that the rewritten code drops leave agreeing frames when it continues alike. -/
theorem framesAgree_drop {dropped : List DroppedWrite} {frame image : Frame W}
    (agree : FramesAgree dropped frame image) {writes : List (Nat × Value)}
    {pc : Nat} {catchers : List Catcher} {world : W}
    (drop : ∀ reg ∈ writes.map Prod.fst,
      reg ∈ drops frame.pc (.go writes pc catchers world))
    : FramesAgree (dropAfter drops frame.pc dropped (.go writes pc catchers world))
        { pc := pc, regs := overwrite frame.regs writes, catchers := catchers, world := world }
        { pc := pc, regs := image.regs, catchers := catchers, world := world } := by
  refine ⟨rfl, rfl, rfl, ?_⟩
  intro reg fresh
  apply eqOn_overwrite_left agree.regs writes
  rintro (wasStale | written)
  · by_cases written : reg ∈ writes.map Prod.fst
    · exact fresh (mem_dropAfter.mpr (.inr (drop reg written)))
    · exact fresh (mem_dropAfter.mpr (.inl ⟨wasStale, written⟩))
  · exact fresh (mem_dropAfter.mpr (.inr (drop reg written)))

/-- One dispatch. -/
theorem machine_one {frame : Frame W} {action : Action W} (acts : rt.act code frame = action)
    : (rt.machine code).run 1 (.running frame) = action.perform frame.regs := by
  rw [← acts]
  rfl

/-- One dispatch of the original run. -/
theorem trackedMachine_one {dropped : List DroppedWrite} {frame : Frame W} {action : Action W}
    (acts : rt.act code frame = action)
    : (trackedMachine rt code drops).run 1 ⟨.running frame, dropped⟩
        = ⟨action.perform frame.regs, dropAfter drops frame.pc dropped action⟩ := by
  rw [← acts]
  rfl

/-- Two dispatches of the original run, the first of which does not end it. -/
theorem trackedMachine_two {dropped : List DroppedWrite} {frame : Frame W}
    {writes : List (Nat × Value)} {pc : Nat} {catchers : List Catcher} {world : W}
    {second : Action W} (first : rt.act code frame = .go writes pc catchers world)
    (then_ : rt.act code
        { pc := pc, regs := overwrite frame.regs writes, catchers := catchers, world := world }
      = second)
    : (trackedMachine rt code drops).run 2 ⟨.running frame, dropped⟩
        = ⟨second.perform (overwrite frame.regs writes),
            dropAfter drops pc
              (dropAfter drops frame.pc dropped (.go writes pc catchers world)) second⟩ := by
  simp only [Execution.run, trackedMachine, Function.iterate_succ, Function.iterate_zero,
    Function.comp, id_eq, trackStep, first, Action.perform, then_]

end Boomkat.Correctness
