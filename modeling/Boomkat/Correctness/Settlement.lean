import Boomkat.Correctness.OwnJobs

/-! Settlement over whole runs. A promise is settled once, the first call of a capability alone
counts, and what `then` returns is settled by its own job; each reaction has its job exactly when
the allocator refuses neither the queue nor a wrapper while reactions are triggered.
-/

namespace Boomkat.Correctness
open Boomkat.Foundation Boomkat.Promise

variable {V F : Type} {heap next last : PromiseHeap V F}

/-- Once settled, a promise keeps its state and its result to the end of the run. -/
def StaysSettled [DecidableEq V] (events : List (PromiseEvent V F)) : Prop :=
  ∀ before after middle last, events = before ++ after →
    replay PromiseHeap.step .init before = some middle →
    replay PromiseHeap.step middle after = some last → KeepsSettled middle last

/-- Of two calls of the functions of one capability, by the script or with what an executor or a
thenable has thrown, the later does nothing but return.
-/
def FirstCallOnly [DecidableEq V] (events : List (PromiseEvent V F)) : Prop :=
  ∀ before first between second after start called later ended cell,
    events = before ++ first :: between ++ second :: after →
    replay PromiseHeap.step .init before = some start → start.step first = some called →
    replay PromiseHeap.step called between = some later → later.step second = some ended →
    calledCell start first = some cell → calledCell later second = some cell →
    ended = { later with activations := ended.activations }

/-- What callers of promises rely on, along a run and at its end. -/
structure PromisesSafe [DecidableEq V] (events : List (PromiseEvent V F))
    (last : PromiseHeap V F) : Prop where
  staysSettled : StaysSettled events
  firstCallOnly : FirstCallOnly events
  jobPerReaction : ∀ promise, JobPerReaction last promise
  ownJobs : OwnJobs last

-----------------------------------------------------------------------------------------
-- What every run keeps
-----------------------------------------------------------------------------------------

/-- What no answer of the allocator can break. -/
structure PromisesTracked (heap : PromiseHeap V F) : Prop where
  walks : Walks heap
  accounted : Accounted heap
  owned : Owned heap

theorem Owned.init : Owned (.init : PromiseHeap V F) where
  oneDrain := ⟨rfl, Nat.le_refl _⟩
  numbered := fun _ _ there => by simp [PromiseHeap.init] at there
  made := fun _ member => absurd member List.not_mem_nil
  distinct := fun _ member => absurd member List.not_mem_nil
  cells := fun _ inside => absurd inside (Nat.not_lt_zero _)
  activations := fun _ member => absurd member List.not_mem_nil
  pending := fun _ member => absurd member List.not_mem_nil
  once := fun _ => Nat.le_refl _
  reserved := fun _ _ =>
    ⟨rfl, fun _ inside => absurd inside (Nat.not_lt_zero _), fun _ => List.not_mem_nil, rfl⟩
  taken := fun _ member => absurd member List.not_mem_nil
  uses := fun _ member => absurd member List.not_mem_nil

theorem PromisesTracked.init : PromisesTracked (.init : PromiseHeap V F) :=
  ⟨⟨fun _ _ => rfl, fun _ walking => by cases walking⟩, fun _ => List.Sublist.refl _, .init⟩

theorem PromisesTracked.step [DecidableEq V] (tracked : PromisesTracked heap) {event : PromiseEvent V F}
    (taken : heap.step event = some next)
    : PromisesTracked next :=
  have advances := tracked.walks.advances taken
  ⟨advances.walks, tracked.accounted.step advances,
    tracked.owned.step tracked.accounted tracked.walks taken⟩

theorem staysSettled_run [DecidableEq V] (events : List (PromiseEvent V F))
    : StaysSettled events := by
  intro before after middle last _ first second
  have tracked : PromisesTracked middle :=
    replay_preserves (fun kept taken => kept.step taken) PromisesTracked.init first
  have step : ∀ {s : PromiseHeap V F} {event s'}, Walks s ∧ KeepsSettled middle s →
      s.step event = some s' → Walks s' ∧ KeepsSettled middle s' := by
    intro s event s' kept taken
    have advances := kept.1.advances taken
    exact ⟨advances.walks, kept.2.trans advances.settled⟩
  exact (replay_preserves step ⟨tracked.walks, .of_same rfl⟩ second).2

/-- A function of the cell has been called. -/
def CellUsed (heap : PromiseHeap V F) (cell : Nat) : Prop :=
  cell < heap.cellCount ∧ (heap.cells cell).alreadyResolved = true

theorem Resolution.cells {promise : Nat} (resolution : Resolution heap promise next)
    : next.cells = heap.cells ∧ next.cellCount = heap.cellCount := by
  cases resolution <;> exact ⟨rfl, rfl⟩

/-- Other capabilities are made in cells of their own. -/
theorem CellUsed.newCapability {cell : Nat} (used : CellUsed heap cell) (promise : Nat)
    (thenable : Bool)
    : CellUsed (heap.newCapability promise thenable).1 cell := by
  refine ⟨Nat.lt_succ_of_lt used.1, ?_⟩
  simp only [PromiseHeap.newCapability, Function.update_of_ne (Nat.ne_of_lt used.1)]
  exact used.2

theorem CellUsed.called {cell : Nat} (used : CellUsed heap cell) (other : Nat)
    : CellUsed (calledHeap heap other) cell := by
  refine ⟨used.1, ?_⟩
  by_cases same : cell = other
  · simp [calledHeap, same]
  · simp only [calledHeap, Function.update_of_ne same]
    exact used.2

theorem CellUsed.resolution {cell promise : Nat} (used : CellUsed heap cell)
    (resolution : Resolution heap promise next)
    : CellUsed next cell := by
  obtain ⟨cells, count⟩ := resolution.cells
  exact ⟨count ▸ used.1, cells ▸ used.2⟩

theorem CellUsed.step [DecidableEq V] {cell : Nat} (used : CellUsed heap cell)
    (walks : Walks heap) {event : PromiseEvent V F} (taken : heap.step event = some next)
    : CellUsed next cell := by
  cases walks.effect taken with
  | react walking => exact used
  | construct quiet =>
      have made := used.newCapability heap.promiseCount false
      exact ⟨made.1, made.2⟩
  | @called _ other rest _ quiet suffix calls unused made resolution =>
      have left : CellUsed { heap with activations := rest } cell := used
      exact (left.called other).resolution resolution
  | returned quiet suffix already => exact used
  | @thenRead promise value rest outcome grows _ quiet activations resolution =>
      have left : CellUsed { heap with activations := rest } cell := used
      exact left.resolution resolution
  | @thenable promise value rest thenMethod grows quiet activations =>
      have made := used.newCapability promise true
      exact ⟨made.1, made.2⟩
  | @attached promise onFulfilled onRejected capability quiet made =>
      by_cases pending : (heap.promises promise).state = .pending
      · rw [protoThen_pending _ _ _ pending]
        exact used
      · rw [walks.protoThen_settled _ _ _ pending]
        exact used
  | begun quiet begun cursor => exact used
  | interrupted quiet returned activations => exact used
  | @ended jobs job rest outcome _ quiet returned activations after =>
      cases after with
      | nothing _ => exact used
      | capability _ _ => exact used
      | settled _ _ => exact used
      | resolved _ _ resolution =>
          obtain ⟨cells, count⟩ := resolution.cells
          exact ⟨count ▸ used.1, cells ▸ used.2⟩
  | jobs quiet leaves changed => exact used

/-- A call uses the cell up. -/
theorem PromisesTracked.uses [DecidableEq V] (tracked : PromisesTracked heap) {event : PromiseEvent V F}
    {cell : Nat} (taken : heap.step event = some next) (calls : calledCell heap event = some cell)
    : CellUsed next cell := by
  cases tracked.walks.effect taken with
  | called quiet suffix calls' unused held resolution =>
      obtain rfl := Option.some.inj (calls'.symm.trans calls)
      obtain ⟨cells, count⟩ := resolution.cells
      refine ⟨count ▸ tracked.owned.made_of_held held, ?_⟩
      rw [cells]
      simp [calledHeap]
  | returned quiet suffix used =>
      obtain ⟨held, resolved⟩ := used cell calls
      exact ⟨tracked.owned.made_of_held held, resolved⟩
  | _ => cases calls

/-- Where the cell is used up a call does nothing but return. -/
theorem CellUsed.returns [DecidableEq V] {cell : Nat} (used : CellUsed heap cell)
    (walks : Walks heap) {event : PromiseEvent V F} (taken : heap.step event = some next)
    (calls : calledCell heap event = some cell)
    : next = { heap with activations := next.activations } := by
  cases walks.effect taken with
  | called quiet suffix calls' unused held resolution =>
      obtain rfl := Option.some.inj (calls'.symm.trans calls)
      rw [used.2] at unused
      cases unused
  | returned quiet suffix already => rfl
  | _ => cases calls

theorem firstCallOnly_run [DecidableEq V] (events : List (PromiseEvent V F))
    : FirstCallOnly events := by
  intro before first between second after start called later ended cell _ reached calling running
    ending calls callsAgain
  have tracked : PromisesTracked start :=
    replay_preserves (fun kept taken => kept.step taken) PromisesTracked.init reached
  have used := tracked.uses calling calls
  have step : ∀ {s : PromiseHeap V F} {event s'}, PromisesTracked s ∧ CellUsed s cell →
      s.step event = some s' → PromisesTracked s' ∧ CellUsed s' cell :=
    fun kept taken => ⟨kept.1.step taken, kept.2.step kept.1.walks taken⟩
  obtain ⟨kept, stillUsed⟩ := replay_preserves step ⟨tracked.step calling, used⟩ running
  exact stillUsed.returns kept.walks ending callsAgain

-----------------------------------------------------------------------------------------
-- Runs in which the allocator delivers
-----------------------------------------------------------------------------------------

/-- A capability has been called by the jobs that have ended, once each. -/
def Delivered (heap : PromiseHeap V F) : Prop :=
  ∀ source ∈ heap.attached, ∀ capResolve capReject,
    source.2.downstream = .capability capResolve capReject → source.2.id ∈ heap.completed →
    ∃ function arg, (function = capResolve ∨ function = capReject)
      ∧ usesBy heap source.2.id
        = [{ reaction := source.2.id, function := function, arg := arg }]

theorem Delivered.of_same (delivered : Delivered heap) (attached : next.attached = heap.attached)
    (completed : next.completed = heap.completed)
    (uses : next.capabilityUses = heap.capabilityUses)
    : Delivered next := by
  unfold Delivered usesBy at *
  rw [attached, completed, uses]
  exact delivered

theorem Resolution.delivered {promise : Nat} (resolution : Resolution heap promise next)
    (delivered : Delivered heap)
    : Delivered next := by
  cases resolution <;> exact delivered.of_same rfl rfl rfl

/-- The job in a handler is that of its reaction. -/
theorem InOrder.running (inOrder : InOrder heap) (owned : Owned heap) {job : Job V F}
    {rest : List (Activation V F)} {source : Nat × Reaction F}
    (activations : heap.activations = .handler job :: rest) (made : job.source = some source)
    : source ∈ heap.attached ∧ job.downstream = source.2.downstream := by
  have sound : JobSound heap job :=
    owned.activations (.handler job) (activations ▸ List.mem_cons_self ..)
  obtain ⟨attached, queued, _⟩ := sound.sourced source made
  obtain ⟨promise, reaction, own, _, same⟩ := inOrder.content job queued
  refine ⟨attached, ?_⟩
  rw [made, Option.some.injEq] at own
  rw [same, own]
  rfl

/-- The call of one job is no other's. -/
theorem usesBy_append (heap : PromiseHeap V F) (use : CapabilityUse V F) (reaction : Nat)
    : usesBy { heap with capabilityUses := heap.capabilityUses ++ [use] } reaction
      = usesBy heap reaction ++ if use.reaction = reaction then [use] else [] := by
  unfold usesBy
  rw [List.filter_append]
  by_cases same : use.reaction = reaction <;> simp [same]

/-- A job whose reaction is numbered so has ended, or a later one ends. -/
theorem Delivered.finish (delivered : Delivered heap) (tracked : PromisesTracked heap)
    {source : Nat × Reaction F} (unended : source.2.id ∉ heap.completed)
    (attached : source ∈ heap.attached) {uses : List (CapabilityUse V F)}
    (foreign : ∀ reaction, reaction ≠ source.2.id →
      usesBy { heap with capabilityUses := uses } reaction = usesBy heap reaction)
    (own : ∀ capResolve capReject,
      source.2.downstream = .capability capResolve capReject →
      ∃ function arg, (function = capResolve ∨ function = capReject)
        ∧ usesBy { heap with capabilityUses := uses } source.2.id
          = [{ reaction := source.2.id, function := function, arg := arg }])
    : Delivered
        {
          heap with
          completed := heap.completed ++ [source.2.id]
          capabilityUses := uses
        } := by
  intro other member capResolve capReject downstream completed
  by_cases same : other.2.id = source.2.id
  · obtain rfl := tracked.owned.same member attached same
    exact own capResolve capReject downstream
  · rcases List.mem_append.mp completed with before | now
    · obtain ⟨function, arg, chosen, once⟩ :=
        delivered other member capResolve capReject downstream before
      exact ⟨function, arg, chosen, (foreign other.2.id same).trans once⟩
    · exact absurd (List.mem_singleton.mp now) same

/-- The job of a reaction calls its capability, if it has one. -/
theorem Delivered.ended (delivered : Delivered heap) (tracked : PromisesTracked heap)
    (inOrder : InOrder heap) {jobs : JobHeap (Job V F)} {job : Job V F}
    {rest : List (Activation V F)} (activations : heap.activations = .handler job :: rest)
    (after : AfterJob { heap with jobs := jobs, activations := rest } job next)
    : Delivered next := by
  cases made : job.source with
  | none =>
      have sound : JobSound heap job :=
        tracked.owned.activations (.handler job) (activations ▸ List.mem_cons_self ..)
      have nothing := sound.unsourced made
      cases after with
      | nothing _ => exact delivered.of_same rfl (by simp [made]) rfl
      | capability downstream _ => simp [nothing] at downstream
      | settled carried _ => simp [nothing] at carried
      | resolved carried _ _ => simp [nothing] at carried
  | some source =>
      obtain ⟨attached, same⟩ := inOrder.running tracked.owned activations made
      have unended := tracked.owned.unended tracked.accounted source activations made
      have unused : usesBy heap source.2.id = [] := by
        apply List.filter_eq_nil_iff.mpr
        intro use member
        have ended := tracked.owned.uses use member
        simp only [decide_eq_true_eq]
        intro by_
        exact unended (by_ ▸ ended)
      have plain : (∀ capResolve capReject,
          source.2.downstream ≠ .capability capResolve capReject) →
          Delivered { heap with completed := heap.completed ++ [source.2.id] } :=
        fun other => delivered.finish tracked unended attached (fun _ _ => rfl)
          fun capResolve capReject downstream => absurd downstream (other capResolve capReject)
      cases after with
      | nothing downstream =>
          refine (plain fun capResolve capReject promised => ?_).of_same rfl (by simp [made]) rfl
          rw [← same, downstream] at promised
          cases promised
      | @capability capResolve capReject function arg downstream chosen =>
          have appended := usesBy_append heap
            { reaction := source.2.id, function := function, arg := arg }
          have finished := delivered.finish tracked unended attached
            (fun reaction foreign => by
              rw [appended reaction, if_neg (Ne.symm foreign), List.append_nil])
            fun capResolve' capReject' promised => by
              rw [← same, downstream, Downstream.capability.injEq] at promised
              obtain ⟨rfl, rfl⟩ := promised
              exact ⟨function, arg, chosen, by
                rw [appended source.2.id, unused, if_pos rfl, List.nil_append]⟩
          exact finished.of_same rfl (by simp [made]) (by simp [made])
      | settled carried _ =>
          refine (plain fun capResolve capReject promised => ?_).of_same rfl (by simp [made]) rfl
          rw [← same, carried] at promised
          cases promised
      | resolved carried _ resolution =>
          refine resolution.delivered ((plain fun capResolve capReject promised => ?_).of_same rfl
            (by simp [made]) rfl)
          rw [← same, carried] at promised
          cases promised

theorem Delivered.protoThen (delivered : Delivered heap) (tracked : PromisesTracked heap)
    (promise : Nat) (onFulfilled onRejected : Option F) (capability : Option (F × F))
    : Delivered (heap.protoThen promise onFulfilled onRejected capability) := by
  have more : ∀ {next : PromiseHeap V F},
      next.attached = heap.attached
        ++ [(promise, thenReaction heap onFulfilled onRejected capability)] →
      next.completed = heap.completed → next.capabilityUses = heap.capabilityUses →
      Delivered next := by
    intro next attached completed uses source member capResolve capReject downstream ended
    rw [completed] at ended
    rw [attached] at member
    rcases List.mem_append.mp member with before | now
    · unfold usesBy
      rw [uses]
      exact delivered source before capResolve capReject downstream ended
    · obtain rfl := List.mem_singleton.mp now
      exact absurd (tracked.owned.completed_lt tracked.accounted ended) (Nat.lt_irrefl _)
  by_cases pending : (heap.promises promise).state = .pending
  · rw [protoThen_pending _ _ _ pending]
    exact more rfl rfl rfl
  · rw [tracked.walks.protoThen_settled _ _ _ pending]
    exact more rfl rfl rfl

theorem Delivered.step [DecidableEq V] (delivered : Delivered heap)
    (tracked : PromisesTracked heap) (inOrder : InOrder heap) {event : PromiseEvent V F}
    (taken : heap.step event = some next)
    : Delivered next := by
  cases tracked.walks.effect taken with
  | called quiet suffix calls unused held resolution =>
      exact resolution.delivered (delivered.of_same rfl rfl rfl)
  | thenRead quiet activations resolution =>
      exact resolution.delivered (delivered.of_same rfl rfl rfl)
  | attached quiet made => exact delivered.protoThen tracked _ _ _ _
  | ended quiet returned activations after =>
      exact delivered.ended tracked inOrder activations after
  | _ => exact delivered.of_same rfl rfl rfl

/-- Each job that has ended has settled what it was to settle. -/
theorem PromisesTracked.ownJobs (tracked : PromisesTracked heap) (delivered : Delivered heap)
    : OwnJobs heap where
  numbered := tracked.owned.numbered
  once := by
    apply List.nodup_iff_count_le_one.mpr
    intro id
    have once := tracked.owned.once id
    have atMost :=
      List.nodup_iff_count_le_one.mp (tracked.owned.queuedOnce tracked.accounted) id
    omega
  settled := by
    intro source member
    unfold SettledByJob
    split
    · trivial
    · rename_i promise downstream
      split
      · exact tracked.owned.taken source member promise downstream ‹_›
      · have untouched := tracked.owned.reserved promise (.inr ⟨source, member, downstream, ‹_›⟩)
        exact ⟨untouched.pending, untouched.unresolved⟩
    · rename_i capResolve capReject downstream
      split
      · exact delivered source member capResolve capReject downstream ‹_›
      · rename_i left
        apply List.filter_eq_nil_iff.mpr
        intro use among by_
        rw [decide_eq_true_eq] at by_
        exact left (by_ ▸ tracked.owned.uses use among)

/-- What a run keeps while the allocator delivers. -/
structure PromisesKept (heap : PromiseHeap V F) : Prop where
  tracked : PromisesTracked heap
  inOrder : InOrder heap
  delivered : Delivered heap

theorem PromisesKept.init : PromisesKept (.init : PromiseHeap V F) :=
  ⟨.init, ⟨fun _ member => absurd member List.not_mem_nil, fun _ => rfl⟩,
    fun _ member => absurd member List.not_mem_nil⟩

theorem PromisesKept.step [DecidableEq V] (kept : PromisesKept heap) {event : PromiseEvent V F}
    (keeps : KeepsReactions heap event) (taken : heap.step event = some next)
    : PromisesKept next :=
  ⟨kept.tracked.step taken,
    kept.inOrder.step kept.tracked.walks keeps (kept.tracked.walks.advances taken),
    kept.delivered.step kept.tracked kept.inOrder taken⟩

/-- In every run of the engine, however calls of capabilities, executors, thenables, calls of
`then` and jobs follow one another: a promise is settled once, the first call of a capability
alone counts, each reaction becomes one job in order, and what `then` returns is settled by its
own job, exactly when the allocator refuses neither the queue nor a wrapper while reactions are
triggered.
-/
theorem settlement_run [DecidableEq V] {events : List (PromiseEvent V F)}
    (run : replay PromiseHeap.step .init events = some last)
    : PromisesSafe events last ↔ Along PromiseHeap.step KeepsReactions .init events := by
  constructor
  · intro safe
    by_contra fails
    obtain ⟨_, event, _, here, next, _, reached, along, broken, taken, rest⟩ :=
      Along.first_failure run fails
    have kept : PromisesKept here :=
      along.preserves (fun kept keeps taken => kept.step keeps taken) .init reached
    have lost := kept.inOrder.loses kept.tracked.walks broken taken
    have step : ∀ {s : PromiseHeap V F} {event s'}, PromisesTracked s ∧ ReactionLost s →
        s.step event = some s' → PromisesTracked s' ∧ ReactionLost s' :=
      fun before taken =>
        ⟨before.1.step taken, before.2.step (before.1.walks.advances taken)⟩
    obtain ⟨tracked, stillLost⟩ := replay_preserves step ⟨kept.tracked.step taken, lost⟩ rest
    exact stillLost.notInOrder tracked.walks safe.jobPerReaction
  · intro along
    have kept : PromisesKept last :=
      along.preserves (fun kept keeps taken => kept.step keeps taken) .init run
    exact ⟨staysSettled_run events, firstCallOnly_run events,
      kept.inOrder.jobPerReaction kept.tracked.walks, kept.tracked.ownJobs kept.delivered⟩

/-- The first job of a program, refused by the allocator: `new Promise` with a reaction that is
resolved, and no job.
-/
theorem settlement_forgets
    : ∃ last : PromiseHeap Nat Nat, replay PromiseHeap.step .init
          [.jobs (.enter .execute), .construct, .protoThen 0 (some 5) none none,
            .call { cell := 0, resolves := true } (.primitive 1),
            .react { wrapper := true, grows := false }] = some last
      ∧ (last.promises 0).state = .fulfilled ∧ queuedFor last 0 = []
      ∧ (attachedTo last 0).length = 1
      ∧ ¬PromisesSafe
          [.jobs (.enter .execute), .construct, .protoThen 0 (some 5) none none,
            .call { cell := 0, resolves := true } (.primitive 1),
            .react { wrapper := true, grows := false }] last := by
  refine ⟨_, rfl, rfl, rfl, rfl, ?_⟩
  intro safe
  have jobs := (safe.jobPerReaction 0).settled nofun
  exact absurd (congrArg List.length jobs) (by decide)

/-- The event finds memory for a job and for its wrapper. -/
def hasMemory : PromiseEvent V F → Bool
  | .react memory => memory.wrapper && memory.grows
  | _ => true

/-- No reaction is lost where there is memory, by induction over the events. -/
theorem keepsReactions_of_memory [DecidableEq V] {events : List (PromiseEvent V F)}
    (full : events.all hasMemory = true)
    : Along PromiseHeap.step KeepsReactions heap events := by
  induction events generalizing heap with
  | nil => trivial
  | cons event events ih =>
      rw [List.all_cons, Bool.and_eq_true] at full
      refine ⟨?_, fun next _ => ih full.2⟩
      cases event with
      | react memory =>
          obtain ⟨wrapper, grows⟩ := Bool.and_eq_true_iff.mp full.1
          exact ⟨by simp [refuses, grows], fun _ _ _ _ _ => wrapper⟩
      | _ => trivial

/-- A promise gets three reactions, one of them for a capability of the script, and is resolved, then
rejected. The second job throws.
-/
def threeReactions : List (PromiseEvent Nat Nat) :=
  [.jobs (.enter .execute), .construct, .executorReturns none,
    .protoThen 0 (some 5) none none, .protoThen 0 (some 6) (some 7) none,
    .protoThen 0 none none (some (8, 9)),
    .call { cell := 0, resolves := true } (.primitive 1),
    .react { wrapper := true, grows := true }, .react { wrapper := true, grows := true },
    .react { wrapper := true, grows := true },
    .call { cell := 0, resolves := false } (.primitive 2), .jobs .leave,
    .nextJob, .handlerReturns (.returned (.primitive 3)), .jobs .jobEnds,
    .nextJob, .handlerReturns (.threw (.primitive 4)), .jobs .jobEnds,
    .nextJob, .handlerReturns (.returned (.primitive 1)), .jobs .jobEnds,
    .jobs .jobsDone, .jobs .drainEnds]

/-- The first call counts, and what `then` returns is settled by the two jobs. -/
theorem settlement_run_threeReactions
    : ∃ last : PromiseHeap Nat Nat, replay PromiseHeap.step .init threeReactions = some last
      ∧ (last.promises 0).state = .fulfilled ∧ (last.promises 0).result = .primitive 1
      ∧ (last.promises 1).state = .fulfilled ∧ (last.promises 1).result = .primitive 3
      ∧ (last.promises 2).state = .rejected ∧ (last.promises 2).result = .primitive 4
      ∧ last.capabilityUses = [⟨2, 8, .primitive 1⟩]
      ∧ PromisesSafe threeReactions last := by
  have along : Along PromiseHeap.step KeepsReactions .init threeReactions :=
    keepsReactions_of_memory (by decide)
  exact ⟨_, rfl, rfl, rfl, rfl, rfl, rfl, rfl, rfl, (settlement_run rfl).mpr along⟩

end Boomkat.Correctness
