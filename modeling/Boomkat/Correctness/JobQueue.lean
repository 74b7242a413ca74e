import Boomkat.Promise.JobQueue

/-! Jobs run once each, in order and outside all other code, exactly when no job is lost to the
allocator or an interrupt and no function that drains the queue is called in the middle of
other code.
-/

namespace Boomkat.Correctness
open Boomkat.Foundation Boomkat.Promise

variable {J : Type} {heap next last : JobHeap J}

-----------------------------------------------------------------------------------------
-- The condition and the property
-----------------------------------------------------------------------------------------

/-- A script or builtin frame is active. -/
def Ordinary (frames : List Frame) : Prop :=
  ∃ frame ∈ frames, (∃ entry, frame = .script entry) ∨ frame = .builtin

/-- The first slot of the queue that has not started: the cursor of a drain in its loop. -/
def jobCursor : List Frame → Nat
  | [] => 0
  | .drainingJobs cursor :: _ => cursor
  | _ :: rest => jobCursor rest

/-- The jobs in the queue that are yet to start. -/
def pendingJobs (heap : JobHeap J) : List J :=
  heap.microtaskQueue.drop (jobCursor heap.frames)

/-- Each job handed to the queue has started once, in the order of the queue, or is yet to
start; no job started in the middle of other code, and no drain was let in there.
-/
structure JobsInOrder (heap : JobHeap J) : Prop where
  order : heap.requested = heap.started.map Prod.fst ++ pendingJobs heap
  outside : ∀ start ∈ heap.started, ¬Ordinary start.2
  undisturbed : ∀ frames ∈ heap.drains, ¬Ordinary frames

/-- The function of the topmost frame, left now, does not drain the queue, or drains it outside
all other code.
-/
def LeavesQuietly : List Frame → Prop
  | .script .execute :: rest => ¬Ordinary rest
  | .script (.callFn savedActCount) :: rest => savedActCount ≠ 0 ∨ ¬Ordinary rest
  | .script (.construct _) :: rest => ¬Ordinary rest
  | _ => True

/-- The event loses no job and calls for no drain in the middle of other code. -/
def KeepsJobs (heap : JobHeap J) : JobEvent J → Prop
  | .enqueue _ grows => heap.microtaskCapacity ≤ heap.microtaskQueue.length → grows = true
  | .leave => heap.microtaskDraining = true ∨ LeavesQuietly heap.frames
  | .settleCombinator => heap.microtaskDraining = true
  | .hostDrain => heap.microtaskDraining = true ∨ ¬Ordinary heap.frames
  | .handlerReturns => heap.uncatchableThrow = true → pendingJobs heap = []
  | _ => True

instance : ∀ frames, Decidable (Ordinary frames) := fun frames =>
  decidable_of_iff (frames.any fun
    | .script _ | .builtin => true
    | _ => false) (by
    rw [List.any_eq_true]
    exact exists_congr fun frame => and_congr_right fun _ => by cases frame <;> simp)

instance : ∀ frames, Decidable (LeavesQuietly frames)
  | .script .execute :: rest | .script (.construct _) :: rest =>
      inferInstanceAs (Decidable ¬Ordinary rest)
  | .script (.callFn _) :: _ => inferInstanceAs (Decidable (_ ∨ _))
  | .script .inlineCall :: _ | .script .executeModuleAsync :: _
  | .script (.executeModuleNested _) :: _ | .builtin :: _ | .job _ :: _ | .drainingJobs _ :: _
  | .reporting _ :: _ | .tracker :: _ | [] => isTrue trivial

instance : ∀ event, Decidable (KeepsJobs heap event)
  | .enqueue _ _ => inferInstanceAs (Decidable (_ → _))
  | .leave | .hostDrain => inferInstanceAs (Decidable (_ ∨ _))
  | .settleCombinator => inferInstanceAs (Decidable (_ = _))
  | .handlerReturns =>
      inferInstanceAs (Decidable (_ → heap.microtaskQueue.drop (jobCursor heap.frames) = []))
  | .enter _ | .nextJob | .jobEnds | .jobsDone | .enterTracker | .leaveTracker | .drainEnds
  | .interrupt | .clearInterrupt => isTrue trivial

-----------------------------------------------------------------------------------------
-- One drain at a time
-----------------------------------------------------------------------------------------

/-- The drain of the frame set the flag. -/
def holdsFlag : Frame → Bool
  | .drainingJobs _ => true
  | .reporting jobs => jobs
  | _ => false

@[simp] theorem flags_cons (frame : Frame) (rest : List Frame)
    : (frame :: rest).countP holdsFlag = rest.countP holdsFlag + (holdsFlag frame).toNat := by
  rw [List.countP_cons]
  cases holdsFlag frame <;> rfl

/-- The flag says how many drains have set it, none or one, and the loop of a drain stays inside
the queue.
-/
structure OneDrain (heap : JobHeap J) : Prop where
  flagged : heap.frames.countP holdsFlag = heap.microtaskDraining.toNat
  inside : jobCursor heap.frames ≤ heap.microtaskQueue.length

theorem jobCursor_zero {frames : List Frame} (unflagged : frames.countP holdsFlag = 0)
    : jobCursor frames = 0 := by
  induction frames with
  | nil => rfl
  | cons frame rest ih =>
      rw [flags_cons] at unflagged
      cases frame with
      | drainingJobs cursor => simp [holdsFlag] at unflagged
      | _ => exact ih (by omega)

/-- Where the flag is clear no drain is in its loop. -/
theorem OneDrain.clear (oneDrain : OneDrain heap) (clear : heap.microtaskDraining = false)
    : heap.frames.countP holdsFlag = 0 ∧ jobCursor heap.frames = 0 := by
  have none : heap.frames.countP holdsFlag = 0 := by
    rw [oneDrain.flagged, clear]
    rfl
  exact ⟨none, jobCursor_zero none⟩

/-- Under a drain that holds the flag there is no other. -/
theorem OneDrain.under (oneDrain : OneDrain heap) {frame : Frame} {rest : List Frame}
    (frames : heap.frames = frame :: rest) (holds : holdsFlag frame = true)
    : heap.microtaskDraining = true ∧ rest.countP holdsFlag = 0 := by
  have flagged := oneDrain.flagged
  rw [frames, flags_cons, holds] at flagged
  cases draining : heap.microtaskDraining with
  | false => simp [draining] at flagged
  | true => exact ⟨rfl, by simpa [draining] using flagged⟩

theorem OneDrain.drainMicrotasks (oneDrain : OneDrain heap) : OneDrain heap.drainMicrotasks := by
  unfold JobHeap.drainMicrotasks
  split
  · exact oneDrain
  · rename_i clear
    rw [Bool.not_eq_true] at clear
    obtain ⟨none, _⟩ := oneDrain.clear clear
    split
    · exact ⟨by simp [holdsFlag, none, clear], oneDrain.inside⟩
    · exact ⟨by simp [holdsFlag, none], Nat.zero_le _⟩

/-- Other frames come and go. -/
theorem OneDrain.withFrames (oneDrain : OneDrain heap) (frames : List Frame)
    (flagged : frames.countP holdsFlag = heap.frames.countP holdsFlag)
    (cursor : jobCursor frames = jobCursor heap.frames) (activationCount : Nat)
    : OneDrain { heap with frames := frames, activationCount := activationCount } :=
  ⟨flagged.trans oneDrain.flagged, cursor ▸ oneDrain.inside⟩

/-- Every event leaves at most one drain holding the flag. -/
theorem OneDrain.step (oneDrain : OneDrain heap) {event : JobEvent J}
    (taken : heap.step event = some next)
    : OneDrain next := by
  have flagged := oneDrain.flagged
  have inside := oneDrain.inside
  cases JobHeap.takes_of_step taken with
  | @enqueue job grows =>
      unfold JobHeap.enqueueMicrotask
      simp only
      split
      · exact ⟨flagged, inside⟩
      · refine ⟨flagged, ?_⟩
        simp only [List.length_append]
        omega
  | @enter call => cases call <;> exact ⟨by simpa [JobHeap.enter, holdsFlag] using flagged, inside⟩
  | @leaveScript entry rest frames =>
      have left := oneDrain.withFrames rest (by simp [frames, holdsFlag])
        (by simp [frames, jobCursor])
      cases entry with
      | execute => exact (left 0).drainMicrotasks
      | inlineCall | executeModuleAsync | executeModuleNested => exact left _
      | callFn savedActCount =>
          simp only [JobHeap.leaveScript]
          split
          · exact (left savedActCount).drainMicrotasks
          · exact left savedActCount
      | construct savedActCount => exact (left savedActCount).drainMicrotasks
  | settleCombinator frames => exact oneDrain.drainMicrotasks
  | hostDrain => exact oneDrain.drainMicrotasks
  | interrupt => exact ⟨flagged, inside⟩
  | clearInterrupt => exact ⟨flagged, inside⟩
  | nextJob frames more =>
      obtain ⟨bound, _⟩ := List.getElem?_eq_some_iff.mp more
      exact ⟨by simpa [frames, holdsFlag] using flagged, bound⟩
  | interrupted frames uncatchable =>
      exact ⟨by simpa [frames, holdsFlag] using flagged, Nat.le_refl _⟩
  | jobsDone frames done =>
      obtain ⟨_, none⟩ := oneDrain.under frames rfl
      refine ⟨by simpa [frames, holdsFlag] using flagged, ?_⟩
      simp [jobCursor, jobCursor_zero none]
  | @drainEnds jobs rest frames =>
      have inside : jobCursor rest ≤ heap.microtaskQueue.length := by
        simpa [frames, jobCursor] using inside
      cases jobs with
      | false => exact ⟨by simpa [frames, holdsFlag] using flagged, inside⟩
      | true => exact ⟨by simpa using (oneDrain.under frames rfl).2, inside⟩
  | leaveBuiltin frames =>
      exact ⟨by simpa [frames, holdsFlag] using flagged, by simpa [frames, jobCursor] using inside⟩
  | handlerReturns frames catchable =>
      exact ⟨by simpa [frames, holdsFlag] using flagged, by simpa [frames, jobCursor] using inside⟩
  | jobEnds frames =>
      exact ⟨by simpa [frames, holdsFlag] using flagged, by simpa [frames, jobCursor] using inside⟩
  | enterTracker frames =>
      exact ⟨by simpa [frames, holdsFlag] using flagged, by simpa [frames, jobCursor] using inside⟩
  | leaveTracker frames =>
      exact ⟨by simpa [frames, holdsFlag] using flagged, by simpa [frames, jobCursor] using inside⟩

-----------------------------------------------------------------------------------------
-- What becomes of the jobs
-----------------------------------------------------------------------------------------

/-- What an event can do to the jobs. -/
inductive JobFlow (heap : JobHeap J) : JobEvent J → JobHeap J → Prop where
  | kept {event : JobEvent J} {next : JobHeap J} (requested : next.requested = heap.requested)
    (started : next.started = heap.started) (pending : pendingJobs next = pendingJobs heap)
    : JobFlow heap event next
  | queued {event : JobEvent J} {next : JobHeap J} {job : J}
    (requested : next.requested = heap.requested ++ [job])
    (started : next.started = heap.started)
    (pending : pendingJobs next = pendingJobs heap ++ [job])
    : JobFlow heap event next
  | refused {next : JobHeap J} {job : J}
    (full : heap.microtaskCapacity ≤ heap.microtaskQueue.length)
    (requested : next.requested = heap.requested ++ [job])
    (started : next.started = heap.started) (pending : pendingJobs next = pendingJobs heap)
    : JobFlow heap (.enqueue job false) next
  | begun {event : JobEvent J} {next : JobHeap J} {job : J} {cursor : Nat} {rest : List Frame}
    (frames : heap.frames = .drainingJobs cursor :: rest)
    (requested : next.requested = heap.requested)
    (started : next.started = heap.started ++ [(job, rest)])
    (pending : pendingJobs heap = job :: pendingJobs next)
    : JobFlow heap event next
  | dropped {next : JobHeap J} (uncatchable : heap.uncatchableThrow = true)
    (requested : next.requested = heap.requested) (started : next.started = heap.started)
    (pending : pendingJobs next = [])
    : JobFlow heap .handlerReturns next

theorem pendingJobs_drainMicrotasks (oneDrain : OneDrain heap)
    : pendingJobs heap.drainMicrotasks = pendingJobs heap := by
  unfold JobHeap.drainMicrotasks
  split
  · rfl
  · rename_i clear
    rw [Bool.not_eq_true] at clear
    split
    · rfl
    · simp [pendingJobs, jobCursor, (oneDrain.clear clear).2]

@[simp] theorem drainMicrotasks_requested (heap : JobHeap J)
    : heap.drainMicrotasks.requested = heap.requested := by
  unfold JobHeap.drainMicrotasks
  split_ifs <;> rfl

@[simp] theorem drainMicrotasks_started (heap : JobHeap J)
    : heap.drainMicrotasks.started = heap.started := by
  unfold JobHeap.drainMicrotasks
  split_ifs <;> rfl

/-- A drain keeps the jobs. -/
theorem JobFlow.drain {middle : JobHeap J} {event : JobEvent J} (oneDrain : OneDrain middle)
    (requested : middle.requested = heap.requested) (started : middle.started = heap.started)
    (pending : pendingJobs middle = pendingJobs heap)
    : JobFlow heap event middle.drainMicrotasks := by
  refine .kept ?_ ?_ ?_
  · rw [drainMicrotasks_requested, requested]
  · rw [drainMicrotasks_started, started]
  · rw [pendingJobs_drainMicrotasks oneDrain, pending]

/-- Every event does one of these things to the jobs. -/
theorem OneDrain.jobFlow (oneDrain : OneDrain heap) {event : JobEvent J}
    (taken : heap.step event = some next)
    : JobFlow heap event next := by
  cases JobHeap.takes_of_step taken with
  | @enqueue job grows =>
      unfold JobHeap.enqueueMicrotask
      simp only
      split
      · rename_i refused
        obtain ⟨full, rfl⟩ := refused
        exact .refused (by omega) rfl rfl rfl
      · refine .queued rfl rfl ?_
        exact List.drop_append_of_le_length oneDrain.inside
  | @enter call => cases call <;> exact .kept rfl rfl rfl
  | @leaveScript entry rest frames =>
      have left := oneDrain.withFrames rest (by simp [frames, holdsFlag])
        (by simp [frames, jobCursor])
      have pending : heap.microtaskQueue.drop (jobCursor rest) = pendingJobs heap := by
        simp [pendingJobs, frames, jobCursor]
      cases entry with
      | execute => exact .drain (left 0) rfl rfl pending
      | inlineCall | executeModuleAsync | executeModuleNested => exact .kept rfl rfl pending
      | callFn savedActCount =>
          simp only [JobHeap.leaveScript]
          split
          · exact .drain (left savedActCount) rfl rfl pending
          · exact .kept rfl rfl pending
      | construct savedActCount => exact .drain (left savedActCount) rfl rfl pending
  | settleCombinator frames => exact .drain oneDrain rfl rfl rfl
  | hostDrain => exact .drain oneDrain rfl rfl rfl
  | interrupt => exact .kept rfl rfl rfl
  | clearInterrupt => exact .kept rfl rfl rfl
  | leaveBuiltin frames => exact .kept rfl rfl (by simp [pendingJobs, frames, jobCursor])
  | nextJob frames more =>
      refine .begun frames rfl rfl ?_
      obtain ⟨bound, rfl⟩ := List.getElem?_eq_some_iff.mp more
      simp only [pendingJobs, frames, jobCursor]
      exact List.drop_eq_getElem_cons bound
  | interrupted frames uncatchable =>
      exact .dropped uncatchable rfl rfl (by simp [pendingJobs, jobCursor])
  | handlerReturns frames catchable =>
      exact .kept rfl rfl (by simp [pendingJobs, frames, jobCursor])
  | jobEnds frames => exact .kept rfl rfl (by simp [pendingJobs, frames, jobCursor])
  | jobsDone frames done =>
      refine .kept rfl rfl ?_
      simp [pendingJobs, frames, jobCursor, done]
  | enterTracker frames => exact .kept rfl rfl (by simp [pendingJobs, frames, jobCursor])
  | leaveTracker frames => exact .kept rfl rfl (by simp [pendingJobs, frames, jobCursor])
  | @drainEnds jobs rest frames =>
      exact .kept rfl rfl (by simp [pendingJobs, frames, jobCursor])

-----------------------------------------------------------------------------------------
-- Where drains begin
-----------------------------------------------------------------------------------------

/-- The frames around each drain in its loop are recorded. -/
def DrainsRecorded (drains : List (List Frame)) : List Frame → Prop
  | [] => True
  | .drainingJobs _ :: rest => rest ∈ drains ∧ DrainsRecorded drains rest
  | _ :: rest => DrainsRecorded drains rest

theorem DrainsRecorded.mono {drains : List (List Frame)} {frames : List Frame}
    (recorded : DrainsRecorded drains frames) (around : List Frame)
    : DrainsRecorded (around :: drains) frames := by
  induction frames with
  | nil => trivial
  | cons frame rest ih =>
      cases frame with
      | drainingJobs cursor => exact ⟨List.mem_cons_of_mem _ recorded.1, ih recorded.2⟩
      | _ => exact ih recorded

/-- No drain was let in in the middle of other code, and those in their loop are recorded. -/
structure DrainsOutside (heap : JobHeap J) : Prop where
  undisturbed : ∀ frames ∈ heap.drains, ¬Ordinary frames
  recorded : DrainsRecorded heap.drains heap.frames

theorem DrainsOutside.drainMicrotasks (outside : DrainsOutside heap)
    (quiet : heap.microtaskDraining = true ∨ ¬Ordinary heap.frames)
    : DrainsOutside heap.drainMicrotasks := by
  unfold JobHeap.drainMicrotasks
  split
  · exact outside
  · rename_i clear
    have undisturbed : ∀ frames ∈ heap.frames :: heap.drains, ¬Ordinary frames := by
      intro frames member
      rcases List.mem_cons.mp member with rfl | member
      · exact quiet.resolve_left clear
      · exact outside.undisturbed frames member
    split
    · exact ⟨undisturbed, outside.recorded.mono _⟩
    · exact ⟨undisturbed, List.mem_cons_self .., outside.recorded.mono _⟩

/-- An event that calls for no drain in the middle of other code lets none in. -/
theorem DrainsOutside.step (outside : DrainsOutside heap) {event : JobEvent J}
    (keeps : KeepsJobs heap event) (taken : heap.step event = some next)
    : DrainsOutside next := by
  have undisturbed := outside.undisturbed
  have recorded := outside.recorded
  cases JobHeap.takes_of_step taken with
  | @enqueue job grows =>
      unfold JobHeap.enqueueMicrotask
      simp only
      split <;> exact ⟨undisturbed, recorded⟩
  | @enter call => cases call <;> exact ⟨undisturbed, recorded⟩
  | @leaveScript entry rest frames =>
      rw [frames] at recorded
      have left : ∀ count,
          DrainsOutside { heap with frames := rest, activationCount := count } :=
        fun _ => ⟨undisturbed, recorded⟩
      simp only [KeepsJobs, frames] at keeps
      cases entry with
      | execute => exact (left 0).drainMicrotasks keeps
      | inlineCall | executeModuleAsync | executeModuleNested => exact left _
      | callFn savedActCount =>
          simp only [JobHeap.leaveScript]
          split
          · rename_i outermost
            apply (left savedActCount).drainMicrotasks
            simpa [LeavesQuietly, outermost] using keeps
          · exact left savedActCount
      | construct savedActCount => exact (left savedActCount).drainMicrotasks keeps
  | settleCombinator frames => exact outside.drainMicrotasks (.inl keeps)
  | hostDrain => exact outside.drainMicrotasks keeps
  | interrupt => exact ⟨undisturbed, recorded⟩
  | clearInterrupt => exact ⟨undisturbed, recorded⟩
  | leaveBuiltin frames => exact ⟨undisturbed, by simpa [frames, DrainsRecorded] using recorded⟩
  | nextJob frames more => exact ⟨undisturbed, by simpa [frames, DrainsRecorded] using recorded⟩
  | interrupted frames uncatchable =>
      exact ⟨undisturbed, by simpa [frames, DrainsRecorded] using recorded⟩
  | handlerReturns frames catchable =>
      exact ⟨undisturbed, by simpa [frames, DrainsRecorded] using recorded⟩
  | jobEnds frames => exact ⟨undisturbed, by simpa [frames, DrainsRecorded] using recorded⟩
  | jobsDone frames done =>
      rw [frames] at recorded
      exact ⟨undisturbed, recorded.2⟩
  | enterTracker frames => exact ⟨undisturbed, by simpa [frames, DrainsRecorded] using recorded⟩
  | leaveTracker frames => exact ⟨undisturbed, by simpa [frames, DrainsRecorded] using recorded⟩
  | drainEnds frames => exact ⟨undisturbed, by simpa [frames, DrainsRecorded] using recorded⟩

/-- Drains stay recorded. -/
theorem drains_step {event : JobEvent J} (taken : heap.step event = some next)
    {frames : List Frame} (member : frames ∈ heap.drains)
    : frames ∈ next.drains := by
  have drained : ∀ {middle : JobHeap J}, frames ∈ middle.drains →
      frames ∈ middle.drainMicrotasks.drains := by
    intro middle member
    unfold JobHeap.drainMicrotasks
    split_ifs <;> simp [member]
  cases JobHeap.takes_of_step taken with
  | @enqueue job grows =>
      unfold JobHeap.enqueueMicrotask
      simp only
      split <;> exact member
  | @enter call => cases call <;> exact member
  | @leaveScript entry rest frames =>
      cases entry with
      | execute => exact drained member
      | inlineCall | executeModuleAsync | executeModuleNested => exact member
      | callFn savedActCount =>
          simp only [JobHeap.leaveScript]
          split
          · exact drained member
          · exact member
      | construct savedActCount => exact drained member
  | settleCombinator _ => exact drained member
  | hostDrain => exact drained member
  | _ => exact member

/-- A drain called for where the flag is clear is recorded. -/
theorem mem_drains (clear : heap.microtaskDraining ≠ true)
    : heap.frames ∈ heap.drainMicrotasks.drains := by
  unfold JobHeap.drainMicrotasks
  rw [if_neg clear]
  split <;> exact List.mem_cons_self ..

/-- The end of a script frame that is not left quietly lets a drain in in the middle of other
code.
-/
theorem leaveScript_disturbs {entry : Entry} {rest : List Frame}
    (frames : heap.frames = .script entry :: rest) (fails : ¬KeepsJobs heap .leave)
    : Ordinary rest ∧ rest ∈ (heap.leaveScript rest entry).drains := by
  simp only [KeepsJobs, frames, not_or] at fails
  obtain ⟨clear, loud⟩ := fails
  have drained : ∀ count, rest
      ∈ { heap with frames := rest, activationCount := count }.drainMicrotasks.drains :=
    fun _ => mem_drains clear
  cases entry with
  | execute =>
      simp only [LeavesQuietly, not_not] at loud
      exact ⟨loud, drained _⟩
  | inlineCall | executeModuleAsync | executeModuleNested => exact absurd trivial loud
  | callFn savedActCount =>
      simp only [LeavesQuietly, ne_eq, not_or, not_not] at loud
      obtain ⟨rfl, loud⟩ := loud
      exact ⟨loud, drained _⟩
  | construct savedActCount =>
      simp only [LeavesQuietly, not_not] at loud
      exact ⟨loud, drained _⟩

-----------------------------------------------------------------------------------------
-- Whole runs
-----------------------------------------------------------------------------------------

/-- The state that every event keeping the condition keeps. -/
structure JobsKept (heap : JobHeap J) : Prop where
  oneDrain : OneDrain heap
  drainsOutside : DrainsOutside heap
  order : heap.requested = heap.started.map Prod.fst ++ pendingJobs heap
  outside : ∀ start ∈ heap.started, ¬Ordinary start.2

theorem JobsKept.init : JobsKept (.init : JobHeap J) :=
  ⟨⟨rfl, Nat.le_refl 0⟩, ⟨fun _ member => absurd member List.not_mem_nil, trivial⟩, rfl,
    fun _ member => absurd member List.not_mem_nil⟩

theorem JobsKept.inOrder (kept : JobsKept heap) : JobsInOrder heap :=
  ⟨kept.order, kept.outside, kept.drainsOutside.undisturbed⟩

/-- An event that keeps the condition keeps the jobs. -/
theorem JobsKept.step (kept : JobsKept heap) {event : JobEvent J}
    (keeps : KeepsJobs heap event) (taken : heap.step event = some next)
    : JobsKept next := by
  have order := kept.order
  refine ⟨kept.oneDrain.step taken, kept.drainsOutside.step keeps taken, ?_, ?_⟩
  · cases kept.oneDrain.jobFlow taken with
    | kept requested started pending => rw [requested, started, pending, order]
    | queued requested started pending =>
        rw [requested, started, pending, order, List.append_assoc]
    | refused full requested started pending => cases keeps full
    | begun frames requested started pending =>
        rw [requested, started, order, pending]
        simp
    | dropped uncatchable requested started pending =>
        rw [requested, started, pending, order, keeps uncatchable]
  · cases kept.oneDrain.jobFlow taken with
    | begun frames requested started pending =>
        have recorded := kept.drainsOutside.recorded
        rw [frames] at recorded
        rw [started]
        intro start member
        rcases List.mem_append.mp member with before | now
        · exact kept.outside start before
        · rw [List.mem_singleton.mp now]
          exact kept.drainsOutside.undisturbed _ recorded.1
    | kept requested started pending => exact started ▸ kept.outside
    | queued requested started pending => exact started ▸ kept.outside
    | refused full requested started pending => exact started ▸ kept.outside
    | dropped uncatchable requested started pending => exact started ▸ kept.outside

/-- A job is missing, or a drain was let in in the middle of other code. -/
def Broken (heap : JobHeap J) : Prop :=
  heap.started.length + (pendingJobs heap).length < heap.requested.length
    ∨ ∃ frames ∈ heap.drains, Ordinary frames

/-- What is broken stays broken. -/
theorem Broken.step (broken : Broken heap) (oneDrain : OneDrain heap) {event : JobEvent J}
    (taken : heap.step event = some next)
    : Broken next := by
  rcases broken with missing | ⟨frames, member, ordinary⟩
  · refine .inl ?_
    cases oneDrain.jobFlow taken with
    | kept requested started pending =>
        rw [requested, started, pending]
        exact missing
    | queued requested started pending =>
        rw [requested, started, pending]
        simp only [List.length_append, List.length_singleton]
        omega
    | refused full requested started pending =>
        rw [requested, started, pending]
        simp only [List.length_append, List.length_singleton]
        omega
    | begun frames requested started pending =>
        rw [pending, List.length_cons] at missing
        rw [requested, started]
        simp only [List.length_append, List.length_singleton]
        omega
    | dropped uncatchable requested started pending =>
        rw [requested, started, pending]
        simp only [List.length_nil]
        omega
  · exact .inr ⟨frames, drains_step taken member, ordinary⟩

theorem Broken.notInOrder (broken : Broken heap) : ¬JobsInOrder heap := by
  intro inOrder
  rcases broken with missing | ⟨frames, member, ordinary⟩
  · have length := congrArg List.length inOrder.order
    simp only [List.length_append, List.length_map] at length
    omega
  · exact inOrder.undisturbed frames member ordinary

/-- An event that does not keep the condition breaks the jobs. -/
theorem JobsKept.breaks (kept : JobsKept heap) {event : JobEvent J}
    (fails : ¬KeepsJobs heap event) (taken : heap.step event = some next)
    : Broken next := by
  have length := congrArg List.length kept.order
  simp only [List.length_append, List.length_map] at length
  cases JobHeap.takes_of_step taken with
  | @enqueue job grows =>
      simp only [KeepsJobs, Classical.not_imp, Bool.not_eq_true] at fails
      obtain ⟨full, rfl⟩ := fails
      have refused : heap.microtaskCapacity < heap.microtaskQueue.length + 1 ∧ false = false :=
        ⟨by omega, rfl⟩
      refine .inl ?_
      simp only [JobHeap.enqueueMicrotask, refused, and_self, if_true, pendingJobs,
        List.length_append, List.length_singleton]
      rw [length]
      exact Nat.lt_succ_self _
  | leaveScript frames =>
      obtain ⟨ordinary, member⟩ := leaveScript_disturbs frames fails
      exact .inr ⟨_, member, ordinary⟩
  | leaveBuiltin frames => simp [KeepsJobs, LeavesQuietly, frames] at fails
  | settleCombinator frames =>
      refine .inr ⟨_, mem_drains fails, ?_⟩
      exact ⟨.builtin, frames ▸ List.mem_cons_self .., .inr rfl⟩
  | hostDrain =>
      simp only [KeepsJobs, not_or, not_not] at fails
      exact .inr ⟨_, mem_drains fails.1, fails.2⟩
  | interrupted frames uncatchable =>
      simp only [KeepsJobs, uncatchable, true_imp_iff] at fails
      have some := List.length_pos_iff.mpr fails
      refine .inl ?_
      simp only [pendingJobs, jobCursor, List.drop_length, List.length_nil]
      omega
  | handlerReturns frames catchable => simp [KeepsJobs, catchable] at fails
  | _ => exact absurd trivial fails

/-- In every run of the engine, from its start, each job is started once, in the order the jobs
were handed to the queue, outside all other code, and no drain begins in the middle of other
code, exactly when the queue finds memory to grow, no interrupt ends a job that others wait
behind, every combinator that settles does so in a job, and no script that the host or a
builtin has the interpreter run, and whose end drains the queue, ends in the middle of other
code outside a job.
-/
theorem jobQueue_run {events : List (JobEvent J)}
    (run : replay JobHeap.step .init events = some last)
    : JobsInOrder last ↔ Along JobHeap.step KeepsJobs .init events := by
  constructor
  · intro inOrder
    by_contra fails
    obtain ⟨_, event, _, here, next, _, reached, along, broken, taken, rest⟩ :=
      Along.first_failure run fails
    have kept : JobsKept here :=
      along.preserves (fun kept keeps taken => kept.step keeps taken) .init reached
    have stays : ∀ {heap : JobHeap J} {event next}, OneDrain heap ∧ Broken heap →
        heap.step event = some next → OneDrain next ∧ Broken next :=
      fun before taken => ⟨before.1.step taken, before.2.step before.1 taken⟩
    have broken := kept.breaks broken taken
    have ends := replay_preserves stays ⟨kept.oneDrain.step taken, broken⟩ rest
    exact ends.2.notInOrder inOrder
  · intro along
    have kept : JobsKept last :=
      along.preserves (fun kept keeps taken => kept.step keeps taken) .init run
    exact kept.inOrder

/-- `Promise.all([])` in a script, with a job in the queue: the job starts inside it. -/
theorem jobQueue_startsInside
    : ∃ last : JobHeap Nat, replay JobHeap.step .init
          [.enter .execute, .enqueue 7 true, .enter .builtin, .settleCombinator, .nextJob]
          = some last
      ∧ last.started = [(7, [.builtin, .script .execute])] ∧ ¬JobsInOrder last := by
  refine ⟨_, rfl, rfl, ?_⟩
  intro inOrder
  exact inOrder.outside _ (List.mem_singleton.mpr rfl)
    ⟨.builtin, List.mem_cons_self .., .inr rfl⟩

/-- Two jobs that a script enqueues, of which the first enqueues a third one while the queue is
drained, and a module that is evaluated behind them.
-/
def threeJobs : List (JobEvent Nat) :=
  [.enter .execute, .enqueue 1 true, .enqueue 2 true, .leave,
    .nextJob, .enter .callFn, .enqueue 3 true, .leave, .handlerReturns, .jobEnds,
    .nextJob, .handlerReturns, .jobEnds, .nextJob, .handlerReturns, .jobEnds, .jobsDone, .drainEnds,
    .enter .executeModuleAsync, .leave, .hostDrain, .drainEnds]

theorem jobQueue_run_threeJobs
    : ∃ last : JobHeap Nat, replay JobHeap.step .init threeJobs = some last
      ∧ last.started = [(1, []), (2, []), (3, [])] ∧ JobsInOrder last := by
  have along : Along JobHeap.step KeepsJobs .init threeJobs := by decide +kernel
  exact ⟨_, rfl, rfl, (jobQueue_run rfl).mpr along⟩

end Boomkat.Correctness
