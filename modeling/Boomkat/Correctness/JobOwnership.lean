import Boomkat.Correctness.JobQueue
import Boomkat.Correctness.ReactionJobs

/-! A promise created by `then` is resolved by its own job and by nothing else. Until that job ends
the promise has no function and is not read for; after it only a thenable that it was resolved
with has functions for it.
-/

namespace Boomkat.Correctness
open Boomkat.Foundation Boomkat.Promise

variable {V F J : Type} {heap next : PromiseHeap V F} {jobs after : JobHeap J}

-----------------------------------------------------------------------------------------
-- The property
-----------------------------------------------------------------------------------------

/-- Who has resolved or rejected a promise, in order. -/
def resolutionsOf (heap : PromiseHeap V F) (promise : Nat) : List Resolver :=
  heap.resolutions.filterMap fun resolution =>
    if resolution.1 = promise then some resolution.2 else none

/-- The calls of a capability by the job of a reaction. -/
def usesBy (heap : PromiseHeap V F) (reaction : Nat) : List (CapabilityUse V F) :=
  heap.capabilityUses.filter fun use => use.reaction = reaction

/-- The promise was resolved by the job of this reaction, and then at most by functions handed to
thenables that it was resolved with.
-/
def ResolvedByJob (heap : PromiseHeap V F) (reaction promise : Nat) : Prop :=
  ∃ cells : List Nat, resolutionsOf heap promise = .job reaction :: cells.map .function
    ∧ ∀ cell ∈ cells, cell < heap.cellCount ∧ (heap.cells cell).promise = promise
      ∧ (heap.cells cell).thenable = true

/-- What `then` returned is settled by the job of its reaction, once it has ended, and by no
other.
-/
def SettledByJob (heap : PromiseHeap V F) (reaction : Reaction F) : Prop :=
  match reaction.downstream with
  | .none => True
  | .promise downstream =>
      if reaction.id ∈ heap.completed then ResolvedByJob heap reaction.id downstream
      else (heap.promises downstream).state = .pending ∧ resolutionsOf heap downstream = []
  | .capability capResolve capReject =>
      if reaction.id ∈ heap.completed then
        ∃ function arg, (function = capResolve ∨ function = capReject)
          ∧ usesBy heap reaction.id
            = [{ reaction := reaction.id, function := function, arg := arg }]
      else usesBy heap reaction.id = []

/-- Reactions are told apart by their numbers, each job ends at most once, and it settles what its
`then` returned.
-/
structure OwnJobs (heap : PromiseHeap V F) : Prop where
  numbered : ∀ place (source : Nat × Reaction F), heap.attached[place]? = some source →
    source.2.id = place
  once : heap.completed.Nodup
  settled : ∀ source ∈ heap.attached, SettledByJob heap source.2

-----------------------------------------------------------------------------------------
-- Jobs in the queue
-----------------------------------------------------------------------------------------

theorem OneDrain.enqueueMicrotask (oneDrain : OneDrain jobs) (job : J) (grows : Bool)
    : OneDrain (jobs.enqueueMicrotask job grows) := by
  have inside := oneDrain.inside
  unfold JobHeap.enqueueMicrotask
  simp only
  split
  · exact ⟨oneDrain.flagged, inside⟩
  · refine ⟨oneDrain.flagged, ?_⟩
    simp only [List.length_append]
    omega

theorem pendingJobs_enqueueMicrotask (oneDrain : OneDrain jobs) (job : J) (grows : Bool)
    : pendingJobs (jobs.enqueueMicrotask job grows)
      = if refuses jobs grows then pendingJobs jobs else pendingJobs jobs ++ [job] := by
  unfold JobHeap.enqueueMicrotask refuses
  simp only [Bool.and_eq_true, decide_eq_true_iff, Bool.not_eq_true']
  split
  · rfl
  · exact List.drop_append_of_le_length oneDrain.inside

/-- The job at the cursor is the first of those pending. -/
theorem pendingJobs_nextJob {job : J} (taken : jobs.step .nextJob = some after)
    (cursor : jobs.atCursor = some job)
    : pendingJobs jobs = job :: pendingJobs after := by
  cases JobHeap.takes_of_step taken with
  | nextJob frames more =>
      simp only [JobHeap.atCursor, frames, more, Option.some.injEq] at cursor
      subst cursor
      obtain ⟨bound, rfl⟩ := List.getElem?_eq_some_iff.mp more
      simp only [pendingJobs, frames, jobCursor]
      exact List.drop_eq_getElem_cons bound

/-- The end of a handler drops the pending jobs or keeps them. -/
theorem pendingJobs_handlerReturns (taken : jobs.step .handlerReturns = some after)
    : pendingJobs after = [] ∨ pendingJobs after = pendingJobs jobs := by
  cases JobHeap.takes_of_step taken with
  | interrupted frames uncatchable => exact .inl (by simp [pendingJobs, jobCursor])
  | handlerReturns frames catchable =>
      exact .inr (by simp [pendingJobs, frames, jobCursor])

theorem history_of_leavesJobs {jobs after : JobHeap (Job V F)} {event : JobEvent (Job V F)}
    (leaves : leavesJobs event = true) (taken : jobs.step event = some after)
    : after.requested = jobs.requested ∧ after.started = jobs.started := by
  cases JobHeap.takes_of_step taken with
  | enqueue => cases leaves
  | nextJob frames more => cases leaves
  | interrupted frames uncatchable => cases leaves
  | handlerReturns frames catchable => cases leaves
  | @enter call => cases call <;> exact ⟨rfl, rfl⟩
  | @leaveScript entry rest frames =>
      cases entry with
      | execute => simp [JobHeap.leaveScript]
      | inlineCall | executeModuleAsync | executeModuleNested => exact ⟨rfl, rfl⟩
      | callFn savedActCount =>
          simp only [JobHeap.leaveScript]
          split <;> simp
      | construct savedActCount => simp [JobHeap.leaveScript]
  | settleCombinator frames => simp
  | hostDrain => simp
  | _ => exact ⟨rfl, rfl⟩

/-- Other events of the queue leave the pending jobs alone. -/
theorem pendingJobs_of_leavesJobs {jobs after : JobHeap (Job V F)} (oneDrain : OneDrain jobs)
    {event : JobEvent (Job V F)} (leaves : leavesJobs event = true)
    (taken : jobs.step event = some after)
    : pendingJobs after = pendingJobs jobs := by
  obtain ⟨requested, started⟩ := history_of_leavesJobs leaves taken
  cases oneDrain.jobFlow taken with
  | kept _ _ pending => exact pending
  | queued more _ _ => simp [requested] at more
  | refused _ more _ _ => simp [requested] at more
  | begun _ _ more _ => simp [started] at more
  | dropped _ _ _ _ => cases leaves

-----------------------------------------------------------------------------------------
-- Who may resolve a promise
-----------------------------------------------------------------------------------------

/-- The numbers of the reactions that jobs were made for. -/
def reactionIds (jobs : List (Job V F)) : List Nat :=
  jobs.filterMap fun job => job.source.map fun source => source.2.id

/-- The jobs whose handlers run. -/
def runningJobs (activations : List (Activation V F)) : List (Job V F) :=
  activations.filterMap fun activation =>
    match activation with
    | .handler job => some job
    | _ => none

/-- Nothing has come near the promise: it is pending, and nobody holds a function for it. -/
structure Untouched (heap : PromiseHeap V F) (promise : Nat) : Prop where
  pending : (heap.promises promise).state = .pending
  uncelled : ∀ cell < heap.cellCount, (heap.cells cell).promise ≠ promise
  unread : ∀ value, .gettingThen promise value ∉ heap.activations
  unresolved : resolutionsOf heap promise = []

/-- The promise is yet to be allocated, or is left to a job that has not ended. -/
def Reserved (heap : PromiseHeap V F) (promise : Nat) : Prop :=
  heap.promiseCount ≤ promise ∨ ∃ source ∈ heap.attached,
    source.2.downstream = .promise promise ∧ source.2.id ∉ heap.completed

/-- The job settles what its reaction does, but for a capability whose wrapper was refused. -/
def CarriesDownstream (job : Job V F) (reaction : Reaction F) : Prop :=
  job.downstream = reaction.downstream
  ∨ ∃ capResolve capReject, reaction.downstream = .capability capResolve capReject
    ∧ job.downstream = .none

/-- The job was made for a reaction, or for a thenable with functions of its own. -/
structure JobSound (heap : PromiseHeap V F) (job : Job V F) : Prop where
  cell : ∀ thenMethod resolution cell, job.handler = .resolveThenable thenMethod resolution cell →
    cell < heap.cellCount
  unsourced : job.source = none → job.downstream = .none
  sourced : ∀ source, job.source = some source →
    source ∈ heap.attached ∧ job ∈ heap.queued ∧ CarriesDownstream job source.2

def ActivationSound (heap : PromiseHeap V F) : Activation V F → Prop
  | .executor cell => cell < heap.cellCount
  | .gettingThen promise _ => promise < heap.promiseCount
  | .callingThen cell => cell < heap.cellCount
  | .handler job => JobSound heap job

/-- Promises that jobs are to settle are theirs alone. -/
structure Owned (heap : PromiseHeap V F) : Prop where
  oneDrain : OneDrain heap.jobs
  numbered : ∀ place (source : Nat × Reaction F), heap.attached[place]? = some source →
    source.2.id = place
  made : ∀ source ∈ heap.attached, ∀ promise, source.2.downstream = .promise promise →
    promise < heap.promiseCount
  distinct : ∀ source ∈ heap.attached, ∀ other ∈ heap.attached, ∀ promise,
    source.2.downstream = .promise promise → other.2.downstream = .promise promise →
    source.2.id = other.2.id
  cells : ∀ cell < heap.cellCount, (heap.cells cell).promise < heap.promiseCount
    ∧ ((heap.cells cell).thenable = false → ∀ source ∈ heap.attached,
      source.2.downstream ≠ .promise (heap.cells cell).promise)
  activations : ∀ activation ∈ heap.activations, ActivationSound heap activation
  pending : ∀ job ∈ pendingJobs heap.jobs, JobSound heap job
  once : ∀ id, heap.completed.count id
      + (reactionIds (runningJobs heap.activations)).count id
      + (reactionIds (pendingJobs heap.jobs)).count id
    ≤ (reactionIds heap.queued).count id
  reserved : ∀ promise, Reserved heap promise → Untouched heap promise
  taken : ∀ source ∈ heap.attached, ∀ promise, source.2.downstream = .promise promise →
    source.2.id ∈ heap.completed → ResolvedByJob heap source.2.id promise
  uses : ∀ use ∈ heap.capabilityUses, use.reaction ∈ heap.completed

theorem carriedJob_handler (walk : ReactionWalk V F) (memory : ReactionMemory) (thenMethod : F)
    (resolution : TVal V) (cell : Nat)
    : (carriedJob walk memory).handler ≠ .resolveThenable thenMethod resolution cell := by
  have own : (carriedJob walk memory).handler
      = (walk.reaction.job walk.promise walk.state walk.result).handler := by
    unfold carriedJob
    simp only
    split
    · split <;> rfl
    · rfl
  rw [own, Reaction.job]
  simp only
  split
  · nofun
  · split <;> nofun

theorem carriedJob_carries (walk : ReactionWalk V F) (memory : ReactionMemory)
    : CarriesDownstream (carriedJob walk memory) walk.reaction := by
  unfold carriedJob
  simp only
  split
  · rename_i capResolve capReject downstream
    split
    · exact .inl rfl
    · exact .inr ⟨capResolve, capReject, downstream, rfl⟩
  · exact .inl rfl

theorem JobSound.mono {job : Job V F} (sound : JobSound heap job)
    (cells : heap.cellCount ≤ next.cellCount) (attached : heap.attached ⊆ next.attached)
    (queued : heap.queued ⊆ next.queued)
    : JobSound next job := by
  refine ⟨?_, sound.unsourced, ?_⟩
  · intro thenMethod resolution cell handler
    exact Nat.lt_of_lt_of_le (sound.cell thenMethod resolution cell handler) cells
  · intro source from_
    obtain ⟨member, taken, carries⟩ := sound.sourced source from_
    exact ⟨attached member, queued taken, carries⟩

theorem ActivationSound.mono {activation : Activation V F}
    (sound : ActivationSound heap activation) (cells : heap.cellCount ≤ next.cellCount)
    (promises : heap.promiseCount ≤ next.promiseCount)
    (attached : heap.attached ⊆ next.attached) (queued : heap.queued ⊆ next.queued)
    : ActivationSound next activation := by
  cases activation with
  | executor cell => exact Nat.lt_of_lt_of_le sound cells
  | gettingThen promise value => exact Nat.lt_of_lt_of_le sound promises
  | callingThen cell => exact Nat.lt_of_lt_of_le sound cells
  | handler job => exact JobSound.mono sound cells attached queued

/-- A promise that somebody holds a function for is not reserved. -/
theorem Owned.free_of_cell (owned : Owned heap) {cell : Nat} (made : cell < heap.cellCount)
    : ¬Reserved heap (heap.cells cell).promise :=
  fun reserved => (owned.reserved _ reserved).uncelled cell made rfl

theorem Owned.free_of_reading (owned : Owned heap) {promise : Nat} {value : TVal V}
    (reading : .gettingThen promise value ∈ heap.activations)
    : ¬Reserved heap promise :=
  fun reserved => (owned.reserved _ reserved).unread value reading

-----------------------------------------------------------------------------------------
-- Events that resolve
-----------------------------------------------------------------------------------------

/-- Code returns to what waits below it. -/
theorem Owned.withRest (owned : Owned heap) {rest : List (Activation V F)}
    (suffix : rest <:+ heap.activations)
    : Owned { heap with activations := rest } where
  oneDrain := owned.oneDrain
  numbered := owned.numbered
  made := owned.made
  distinct := owned.distinct
  cells := owned.cells
  activations := fun activation member =>
    (owned.activations activation (suffix.subset member)).mono (Nat.le_refl _) (Nat.le_refl _)
      (List.Subset.refl _) (List.Subset.refl _)
  pending := fun job member =>
    (owned.pending job member).mono (Nat.le_refl _) (List.Subset.refl _) (List.Subset.refl _)
  once := by
    intro id
    have fewer : (reactionIds (runningJobs rest)).count id
        ≤ (reactionIds (runningJobs heap.activations)).count id :=
      ((suffix.sublist.filterMap _).filterMap _).count_le id
    have once := owned.once id
    simp only
    omega
  reserved := by
    intro promise reserved
    have untouched := owned.reserved promise reserved
    exact ⟨untouched.pending, untouched.uncelled,
      fun value member => untouched.unread value (suffix.subset member), untouched.unresolved⟩
  taken := owned.taken
  uses := owned.uses

/-- Resolving a promise that is not reserved. -/
theorem Owned.resolution (owned : Owned heap) {promise : Nat} (free : ¬Reserved heap promise)
    (resolution : Resolution heap promise next)
    : Owned next := by
  cases resolution with
  | ignored _ => exact owned
  | settled pending final =>
      refine { owned with activations := ?_, pending := ?_, reserved := ?_ }
      · intro activation member
        exact (owned.activations activation member).mono (Nat.le_refl _) (Nat.le_refl _)
          (List.Subset.refl _) (List.Subset.refl _)
      · intro job member
        exact (owned.pending job member).mono (Nat.le_refl _) (List.Subset.refl _)
          (List.Subset.refl _)
      · intro other reserved
        have untouched := owned.reserved other reserved
        have different : other ≠ promise := fun same => free (same ▸ reserved)
        refine ⟨?_, untouched.uncelled, untouched.unread, untouched.unresolved⟩
        simpa [settledHeap, Function.update_of_ne different] using untouched.pending
  | @reading value pending =>
      refine { owned with activations := ?_, pending := ?_, reserved := ?_ }
      · intro activation member
        rcases List.mem_cons.mp member with rfl | member
        · exact Nat.lt_of_not_le fun fresh => free (.inl fresh)
        · exact (owned.activations activation member).mono (Nat.le_refl _) (Nat.le_refl _)
            (List.Subset.refl _) (List.Subset.refl _)
      · intro job member
        exact (owned.pending job member).mono (Nat.le_refl _) (List.Subset.refl _)
          (List.Subset.refl _)
      · intro other reserved
        have untouched := owned.reserved other reserved
        refine ⟨untouched.pending, untouched.uncelled, ?_, untouched.unresolved⟩
        intro value' member
        rcases List.mem_cons.mp member with same | member
        · cases same
          exact free reserved
        · exact untouched.unread value' member

/-- A call of a capability adds a resolution of its promise, if that is pending. -/
theorem resolutionsOf_called (heap : PromiseHeap V F) (cell promise : Nat)
    : resolutionsOf (calledHeap heap cell) promise
      = resolutionsOf heap promise
        ++ if (heap.promises (heap.cells cell).promise).state = .pending
            ∧ (heap.cells cell).promise = promise then [.function cell] else [] := by
  unfold resolutionsOf calledHeap
  by_cases pending : (heap.promises (heap.cells cell).promise).state = .pending
  · by_cases same : (heap.cells cell).promise = promise
    · subst same
      simp [pending]
    · simp [pending, same]
  · simp [pending]

/-- A called cell stays with its promise. -/
theorem calledHeap_cell (heap : PromiseHeap V F) (cell other : Nat)
    : ((calledHeap heap cell).cells other).promise = (heap.cells other).promise
      ∧ ((calledHeap heap cell).cells other).thenable = (heap.cells other).thenable := by
  unfold calledHeap
  by_cases same : other = cell
  · simp [same]
  · simp [Function.update_of_ne same]

theorem Owned.called (owned : Owned heap) {cell : Nat} (made : cell < heap.cellCount)
    : Owned (calledHeap heap cell) where
  oneDrain := owned.oneDrain
  numbered := owned.numbered
  made := owned.made
  distinct := owned.distinct
  cells := by
    intro other inside
    rw [(calledHeap_cell heap cell other).1, (calledHeap_cell heap cell other).2]
    exact owned.cells other inside
  activations := fun activation member =>
    (owned.activations activation member).mono (Nat.le_refl _) (Nat.le_refl _)
      (List.Subset.refl _) (List.Subset.refl _)
  pending := fun job member =>
    (owned.pending job member).mono (Nat.le_refl _) (List.Subset.refl _) (List.Subset.refl _)
  once := owned.once
  reserved := by
    intro promise reserved
    have untouched := owned.reserved promise reserved
    have other := untouched.uncelled cell made
    refine ⟨untouched.pending, ?_, untouched.unread, ?_⟩
    · intro cell' inside
      rw [(calledHeap_cell heap cell cell').1]
      exact untouched.uncelled cell' inside
    · rw [resolutionsOf_called, untouched.unresolved, if_neg (fun both => other both.2),
        List.append_nil]
  taken := by
    intro source member promise downstream completed
    obtain ⟨cells, resolved, thenables⟩ := owned.taken source member promise downstream completed
    have still : ∀ other ∈ cells, other < (calledHeap heap cell).cellCount
        ∧ ((calledHeap heap cell).cells other).promise = promise
        ∧ ((calledHeap heap cell).cells other).thenable = true := by
      intro other among
      rw [(calledHeap_cell heap cell other).1, (calledHeap_cell heap cell other).2]
      exact thenables other among
    by_cases resolves : (heap.promises (heap.cells cell).promise).state = .pending
        ∧ (heap.cells cell).promise = promise
    · refine ⟨cells ++ [cell], ?_, ?_⟩
      · rw [resolutionsOf_called, if_pos resolves, resolved]
        simp
      · intro other among
        rcases List.mem_append.mp among with before | now
        · exact still other before
        · rw [List.mem_singleton.mp now, (calledHeap_cell heap cell cell).1,
            (calledHeap_cell heap cell cell).2]
          refine ⟨made, resolves.2, ?_⟩
          by_contra plain
          rw [Bool.not_eq_true] at plain
          exact (owned.cells cell made).2 plain source member (resolves.2 ▸ downstream)
    · refine ⟨cells, ?_, still⟩
      rw [resolutionsOf_called, if_neg resolves, List.append_nil, resolved]
  uses := owned.uses

-----------------------------------------------------------------------------------------
-- Events that allocate
-----------------------------------------------------------------------------------------

/-- The functions of a new capability are for a promise that no job is to settle. -/
theorem Owned.newCapability (owned : Owned heap) {promise : Nat} (thenable : Bool)
    (free : ¬Reserved heap promise)
    (plain : thenable = false → ∀ source ∈ heap.attached, source.2.downstream ≠ .promise promise)
    : Owned (heap.newCapability promise thenable).1 where
  oneDrain := owned.oneDrain
  numbered := owned.numbered
  made := owned.made
  distinct := owned.distinct
  cells := by
    intro cell inside
    simp only [PromiseHeap.newCapability] at inside ⊢
    by_cases fresh : cell = heap.cellCount
    · rw [fresh, Function.update_self]
      exact ⟨Nat.lt_of_not_le fun unallocated => free (.inl unallocated), plain⟩
    · rw [Function.update_of_ne fresh]
      exact owned.cells cell (by omega)
  activations := fun activation member =>
    (owned.activations activation member).mono (Nat.le_succ _) (Nat.le_refl _)
      (List.Subset.refl _) (List.Subset.refl _)
  pending := fun job member =>
    (owned.pending job member).mono (Nat.le_succ _) (List.Subset.refl _) (List.Subset.refl _)
  once := owned.once
  reserved := by
    intro other reserved
    have untouched := owned.reserved other reserved
    refine ⟨untouched.pending, ?_, untouched.unread, untouched.unresolved⟩
    intro cell inside
    simp only [PromiseHeap.newCapability] at inside ⊢
    by_cases fresh : cell = heap.cellCount
    · rw [fresh, Function.update_self]
      rintro rfl
      exact free reserved
    · rw [Function.update_of_ne fresh]
      exact untouched.uncelled cell (by omega)
  taken := by
    intro source member other downstream completed
    obtain ⟨cells, resolved, thenables⟩ := owned.taken source member other downstream completed
    refine ⟨cells, resolved, ?_⟩
    intro cell among
    obtain ⟨inside, own⟩ := thenables cell among
    simp only [PromiseHeap.newCapability, Function.update_of_ne (Nat.ne_of_lt inside)]
    exact ⟨Nat.lt_succ_of_lt inside, own⟩
  uses := owned.uses

/-- A promise of the constructor is no job's. -/
theorem Owned.allocate (owned : Owned heap)
    : Owned { heap with promiseCount := heap.promiseCount + 1 }
      ∧ ¬Reserved { heap with promiseCount := heap.promiseCount + 1 } heap.promiseCount := by
  constructor
  · refine { owned with made := ?_, cells := ?_, activations := ?_, pending := ?_, reserved := ?_ }
    · intro source member promise downstream
      exact Nat.lt_succ_of_lt (owned.made source member promise downstream)
    · intro cell inside
      obtain ⟨allocated, plain⟩ := owned.cells cell inside
      exact ⟨Nat.lt_succ_of_lt allocated, plain⟩
    · intro activation member
      exact (owned.activations activation member).mono (Nat.le_refl _) (Nat.le_succ _)
        (List.Subset.refl _) (List.Subset.refl _)
    · intro job member
      exact (owned.pending job member).mono (Nat.le_refl _) (List.Subset.refl _)
        (List.Subset.refl _)
    · intro promise reserved
      have before : Reserved heap promise := by
        rcases reserved with unallocated | left
        · exact .inl (Nat.le_of_succ_le unallocated)
        · exact .inr left
      have untouched := owned.reserved promise before
      exact ⟨untouched.pending, untouched.uncelled, untouched.unread, untouched.unresolved⟩
  · rintro (unallocated | ⟨source, member, downstream, _⟩)
    · exact Nat.not_succ_le_self _ unallocated
    · exact Nat.lt_irrefl _ (owned.made source member _ downstream)

theorem Owned.construct (owned : Owned heap)
    : Owned
        {
          heap with
          promiseCount := heap.promiseCount + 1
          cells := Function.update heap.cells heap.cellCount
            { promise := heap.promiseCount, alreadyResolved := false, thenable := false }
          cellCount := heap.cellCount + 1
          activations := .executor heap.cellCount :: heap.activations
        } := by
  obtain ⟨allocated, free⟩ := owned.allocate
  have made := allocated.newCapability false free fun _ source member downstream =>
    Nat.lt_irrefl _ (owned.made source member _ downstream)
  refine { made with activations := ?_, pending := ?_, reserved := ?_ }
  · intro activation member
    rcases List.mem_cons.mp member with rfl | member
    · exact Nat.lt_succ_self heap.cellCount
    · exact (made.activations activation member).mono (Nat.le_refl _) (Nat.le_refl _)
        (List.Subset.refl _) (List.Subset.refl _)
  · intro job member
    exact (made.pending job member).mono (Nat.le_refl _) (List.Subset.refl _)
      (List.Subset.refl _)
  · intro promise reserved
    have untouched := made.reserved promise reserved
    refine ⟨untouched.pending, untouched.uncelled, ?_, untouched.unresolved⟩
    intro value member
    rcases List.mem_cons.mp member with same | member
    · cases same
    · exact untouched.unread value member

/-- Other jobs wait in the queue. -/
theorem Owned.withJobs (owned : Owned heap) {jobs : JobHeap (Job V F)} (oneDrain : OneDrain jobs)
    (sound : ∀ job ∈ pendingJobs jobs, JobSound heap job)
    (fewer : ∀ id, (reactionIds (pendingJobs jobs)).count id
      ≤ (reactionIds (pendingJobs heap.jobs)).count id)
    : Owned { heap with jobs := jobs } := by
  refine {
    owned with
    oneDrain := oneDrain
    activations := ?_
    pending := ?_
    once := ?_
    reserved := ?_
  }
  · intro activation member
    exact (owned.activations activation member).mono (Nat.le_refl _) (Nat.le_refl _)
      (List.Subset.refl _) (List.Subset.refl _)
  · intro job member
    exact (sound job member).mono (Nat.le_refl _) (List.Subset.refl _) (List.Subset.refl _)
  · intro id
    have once := owned.once id
    have fewer := fewer id
    simp only
    omega
  · intro promise reserved
    have untouched := owned.reserved promise reserved
    exact ⟨untouched.pending, untouched.uncelled, untouched.unread, untouched.unresolved⟩

/-- A thenable is given functions of its own. -/
theorem Owned.thenable (owned : Owned heap) {promise : Nat} (value : TVal V) (grows : Bool)
    (thenMethod : F) (free : ¬Reserved heap promise)
    : Owned (heap.thenRead promise value grows (.thenable thenMethod)) := by
  have made := owned.newCapability true free nofun
  refine made.withJobs (made.oneDrain.enqueueMicrotask _ _) ?_ ?_
  · intro job member
    replace member : job ∈ pendingJobs (heap.jobs.enqueueMicrotask _ grows) := member
    rw [pendingJobs_enqueueMicrotask owned.oneDrain] at member
    split at member
    · exact made.pending job member
    · rcases List.mem_append.mp member with before | now
      · exact made.pending job before
      · obtain rfl := List.mem_singleton.mp now
        refine ⟨?_, fun _ => rfl, nofun⟩
        intro _ _ cell handler
        cases handler
        exact Nat.lt_succ_self heap.cellCount
  · intro id
    change (reactionIds (pendingJobs (heap.jobs.enqueueMicrotask _ grows))).count id ≤ _
    rw [pendingJobs_enqueueMicrotask owned.oneDrain]
    split
    · exact Nat.le_refl _
    · simp [reactionIds, PromiseHeap.newCapability]

end Boomkat.Correctness
