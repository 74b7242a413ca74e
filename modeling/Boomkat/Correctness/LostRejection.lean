import Boomkat.Correctness.ReportRun
import Mathlib.Data.List.Nodup

/-! An event that spares no slots loses a promise for good, so a report is complete exactly when
no tracker leaves the list longer than the report has come.
-/

namespace Boomkat.Correctness
open Boomkat.Foundation Boomkat.Promise

variable {V : Type} {heap here next last : RejectionHeap V} {owed : List Nat} {promise : Nat}

/-- A settled promise that no slot holds and no report has taken up. -/
structure Lost (promise : Nat) (heap : RejectionHeap V) : Prop where
  settled : (heap.promises promise).state ≠ .pending
  nowhere : ∀ slot, heap.unhandledRejections slot ≠ some promise
  untaken : promise ∉ takenUp heap

/-- A lost promise stays lost. -/
theorem Lost.step (lost : Lost promise heap) {event : RejectionEvent V}
    (taken : heap.step event = some next)
    : Lost promise next := by
  have stays := SettledStays.step lost.settled taken
  refine ⟨stays.settled, fun slot holds => lost.nowhere slot (stays.held slot holds), ?_⟩
  intro member
  rcases stays.taken member with before | ⟨slot, holds⟩
  · exact lost.untaken before
  · exact lost.nowhere slot holds

/-- A lost promise is neither listed nor taken up. -/
theorem Lost.unaccounted (lost : Lost promise heap)
    : ¬heap.onList promise ∧ (takenUp heap).count promise = 0 := by
  refine ⟨?_, List.count_eq_zero.mpr lost.untaken⟩
  rintro ⟨slot, _, holds⟩
  exact lost.nowhere slot holds

-----------------------------------------------------------------------------------------
-- Where the condition fails
-----------------------------------------------------------------------------------------

/-- A slot in use that is overwritten or cleared held the only trace of its promise. -/
theorem InStep.loses (inStep : InStep owed heap) {slot : Nat}
    (used : InUse heap.unhandledCount heap.walks slot)
    : ∃ promise, heap.unhandledRejections slot = some promise
      ∧ (promise ∈ owed ∨ promise ∈ heap.unobserved)
      ∧ (heap.promises promise).state ≠ .pending ∧ promise ∉ takenUp heap
      ∧ ∀ other, heap.unhandledRejections other = some promise → other = slot := by
  obtain ⟨promise, holds⟩ := inStep.filled slot used
  have flag := (inStep.flagged slot promise holds).mpr used
  refine ⟨promise, holds, inStep.known promise flag, inStep.settled slot promise holds, ?_, ?_⟩
  · intro member
    rw [(inStep.taken promise member).1] at flag
    cases flag
  · intro other held
    exact inStep.distinct other slot promise ((inStep.flagged other promise held).mp flag) used
      held holds

/-- A rejection noted past the end of the list overwrites a slot that a report has yet to
visit, or finds no memory.
-/
theorem InStep.settleLoses (inStep : InStep owed heap) (running : heap.running = true)
    {rejected : Nat} {state : PromiseState} {val : V} {grows : Bool} (final : state ≠ .pending)
    (fails : ¬SparesSlots heap (.settle rejected state val grows))
    : ∃ promise, Lost promise (heap.promiseSettle rejected state val grows)
      ∧ (promise ∈ owed
        ∨ promise ∈ (heap.promiseSettle rejected state val grows).unobserved) := by
  simp only [SparesSlots, Classical.not_imp] at fails
  obtain ⟨⟨pending, rfl, unhandled⟩, wrong⟩ := fails
  have unflagged := inStep.notFlagged pending
  simp only [RejectionHeap.promiseSettle, RejectionHeap.trackRejection, pending, unhandled,
    unflagged, ne_eq, not_true_eq_false, if_false, and_self, if_true, Function.update_self,
    Bool.false_eq_true]
  by_cases full : heap.unhandledCapacity < heap.unhandledCount + 1 ∧ grows = false
  · refine ⟨rejected, ?_, ?_⟩
    · simp only [full, and_self, if_true]
      refine ⟨by simp, ?_, ?_⟩
      · intro slot holds
        exact inStep.settled slot rejected holds pending
      · intro member
        exact (inStep.taken rejected member).2 pending
    · simp [full]
  · obtain ⟨walk, active, low, high⟩ : ∃ walk ∈ heap.walks,
        walk.index < heap.unhandledCount ∧ heap.unhandledCount < walk.length := by
      by_contra none
      refine wrong ⟨?_, ?_⟩
      · intro walk active
        by_contra between
        exact none ⟨walk, active, by omega, by omega⟩
      · intro short
        by_contra refused
        exact full ⟨by omega, by simpa using refused⟩
    have awaits : Awaits walk heap.unhandledCount := by
      refine ⟨?_, high⟩
      simp only [Walk.rest, inStep.allVisiting running walk active, if_true]
      omega
    obtain ⟨promise, holds, known, settled, untaken, only⟩ :=
      inStep.loses (.inr ⟨walk, active, awaits⟩)
    have different : promise ≠ rejected := by
      rintro rfl
      exact settled pending
    refine ⟨promise, ?_, ?_⟩
    · simp only [full, if_false]
      refine ⟨by simpa [different] using settled, ?_, untaken⟩
      intro slot held
      by_cases atEnd : slot = heap.unhandledCount
      · simp [atEnd, different.symm] at held
      · exact atEnd (only slot (by simpa [atEnd] using held))
    · simp only [full, if_false]
      exact known.imp_right (List.mem_cons_of_mem _)

/-- An event that does not spare the slots in use loses a promise. -/
theorem InStep.breaks (inStep : InStep owed heap) {event : RejectionEvent V}
    (fails : ¬SparesSlots heap event) (taken : heap.step event = some next)
    : ∃ promise, Lost promise next ∧ (promise ∈ owed ∨ promise ∈ next.unobserved) := by
  cases RejectionHeap.takes_of_step taken with
  | settle running final => exact inStep.settleLoses running final fails
  | observe running => exact absurd trivial fails
  | report running => exact absurd trivial fails
  | visit walks between more => exact absurd trivial fails
  | @resume walk outer walks entered =>
      simp only [SparesSlots, walks, List.head?_cons, Option.mem_def, Option.some.injEq,
        forall_eq', Nat.not_le] at fails
      obtain ⟨promise, holds, known, settled, untaken, only⟩ := inStep.loses (.inl fails)
      refine ⟨promise, ⟨settled, ?_, untaken⟩, known⟩
      intro slot held
      by_cases cleared : slot = walk.index
      · simp [RejectionHeap.clearSlot, cleared] at held
      · exact cleared (only slot (by simpa [RejectionHeap.clearSlot, cleared] using held))
  | finish draining walks between done => exact absurd trivial fails

-----------------------------------------------------------------------------------------
-- Whole runs
-----------------------------------------------------------------------------------------

/-- A settled promise that is not listed anew. -/
theorem stays_unlisted {events : List (RejectionEvent V)}
    (settled : (heap.promises promise).state ≠ .pending) (unlisted : ¬heap.onList promise)
    (run : replay RejectionHeap.step heap events = some last)
    : ¬last.onList promise := by
  have kept : ∀ {heap : RejectionHeap V} {event next}, (heap.promises promise).state ≠ .pending
      ∧ ¬heap.onList promise → heap.step event = some next →
      (next.promises promise).state ≠ .pending ∧ ¬next.onList promise := by
    intro heap event next before taken
    have stays := SettledStays.step before.1 taken
    exact ⟨stays.settled, fun listed => before.2 (stays.listed listed)⟩
  exact (replay_preserves kept ⟨settled, unlisted⟩ run).2

/-- A report lists nothing that was listed when it began. -/
theorem startReport_unlists (jobs : Bool) : ¬(heap.startReport jobs).onList promise := by
  unfold RejectionHeap.startReport
  split
  · rename_i none
    rintro ⟨slot, inside, _⟩
    omega
  · rintro ⟨slot, inside, _⟩
    exact absurd inside (Nat.not_lt_zero slot)

/-- Outside every report a heap in step is fit for the next one. -/
theorem InStep.beforeReport (inStep : InStep owed heap) (rejected : SlotsRejected heap)
    (idle : heap.walks = [])
    : BeforeReport (RejectionHeap.fresh heap) := by
  have used : ∀ slot, InUse heap.unhandledCount heap.walks slot ↔ slot < heap.unhandledCount := by
    intro slot
    rw [idle, inUse_idle]
  refine ⟨idle, rfl, rfl, ?_, ?_, ?_, inStep.listed, rejected⟩
  · intro slot inside
    exact inStep.filled slot ((used slot).mpr inside)
  · intro slot promise holds
    exact (inStep.flagged slot promise holds).trans (used slot)
  · intro slot slot' promise inside inside'
    exact inStep.distinct slot slot' promise ((used slot).mpr inside) ((used slot').mpr inside')

/-- A heap in step accounts for every promise that is owed a report or was noted. -/
theorem InStep.accountedFor (inStep : InStep owed heap) (idle : heap.walks = [])
    (debt : promise ∈ owed ∨ promise ∈ heap.unobserved)
    : AccountedFor heap promise := by
  have flag : heap.onList promise → (heap.promises promise).inRejectList = true := by
    rintro ⟨slot, inside, holds⟩
    exact (inStep.flagged slot promise holds).mpr (.inl inside)
  by_cases member : promise ∈ takenUp heap
  · refine .inr ⟨?_, List.count_eq_one_of_mem inStep.once member⟩
    intro listed
    rw [(inStep.taken promise member).1] at flag
    cases flag listed
  · have flagged := (inStep.accounted promise debt).resolve_right member
    obtain ⟨slot, holds⟩ := inStep.listed promise flagged
    have used := (inStep.flagged slot promise holds).mp flagged
    rw [idle, inUse_idle] at used
    exact .inl ⟨⟨slot, used, holds⟩, member⟩

/-- The tracker is called for what was due when it was taken up, as nothing is taken up twice. -/
theorem InStep.verdicts (inStep : InStep owed last) {events : List (RejectionEvent V)}
    (unvisited : heap.visited = [])
    (run : replay RejectionHeap.step heap events = some last) (member : promise ∈ takenUp last)
    : ∃ before after here,
        events = before ++ .visit :: after ∧ replay RejectionHeap.step heap before = some here
          ∧ (promise, dueReport here promise) ∈ takesUp here .visit
          ∧ ((promise, true) ∈ last.visited ↔ dueReport here promise = true) := by
  obtain ⟨⟨_, reported⟩, visited, rfl⟩ := List.mem_map.mp member
  rcases visited_run run visited with earlier | ⟨before, after, here, is, reached, takes, rfl⟩
  · rw [unvisited] at earlier
    exact absurd earlier List.not_mem_nil
  · refine ⟨before, after, here, is, reached, takes, fun called => ?_, fun called => ?_⟩
    · have same := List.inj_on_of_nodup_map inStep.once called visited rfl
      exact (Prod.mk.inj same).2.symm
    · rw [← called]
      exact visited

/-- A run that spares the slots in use reports completely. -/
theorem reportComplete_of_along (before : BeforeReport heap) {jobs : Bool}
    {events : List (RejectionEvent V)}
    (run : replay RejectionHeap.step heap (.report jobs :: events) = some last)
    (ends : last.walks = [])
    (along : Along RejectionHeap.step SparesSlots heap (.report jobs :: events))
    : ReportComplete heap (.report jobs :: events) last := by
  have inStep : InStep (listedPromises heap) last :=
    along.preserves (fun inStep spares taken => inStep.step spares taken) before.inStep run
  have rejected : SlotsRejected last :=
    replay_preserves (fun rejected taken => rejected.step taken) before.rejected run
  refine ⟨?_, ?_, notesExact_run _ _, fun promise => inStep.verdicts before.unvisited run,
    inStep.beforeReport rejected ends⟩
  · intro promise listed
    obtain ⟨next, taken, rest⟩ := replay_cons.mp run
    have settled : (heap.promises promise).state ≠ .pending := by
      obtain ⟨slot, _, holds⟩ := listed
      exact before.inStep.settled slot promise holds
    have unlisted : ¬last.onList promise := by
      refine stays_unlisted (SettledStays.step settled taken).settled ?_ rest
      cases RejectionHeap.takes_of_step taken with
      | report running => exact startReport_unlists jobs
    have accounted := inStep.accountedFor ends (.inl ((mem_listedPromises heap promise).mpr listed))
    rcases accounted with ⟨again, _⟩ | ⟨_, once⟩
    · exact absurd again unlisted
    · exact ⟨unlisted, once⟩
  · intro promise noted
    exact inStep.accountedFor ends (.inr noted)

/-- A complete report spared the slots in use.
Witness: the first event that does not loses a promise, which stays lost.
-/
theorem along_of_reportComplete (before : BeforeReport heap) {jobs : Bool}
    {events : List (RejectionEvent V)}
    (run : replay RejectionHeap.step heap (.report jobs :: events) = some last)
    (complete : ReportComplete heap (.report jobs :: events) last)
    : Along RejectionHeap.step SparesSlots heap (.report jobs :: events) := by
  by_contra fails
  obtain ⟨_, event, _, here, next, _, reached, along, broken, taken, rest⟩ :=
    Along.first_failure run fails
  have inStep : InStep (listedPromises heap) here :=
    along.preserves (fun inStep spares taken => inStep.step spares taken) before.inStep reached
  obtain ⟨promise, lost, known⟩ := inStep.breaks broken taken
  have lostLast : Lost promise last :=
    replay_preserves (fun lost taken => lost.step taken) lost rest
  obtain ⟨unlisted, never⟩ := lostLast.unaccounted
  rcases known with listed | noted
  · have once := (complete.once promise ((mem_listedPromises heap promise).mp listed)).2
    omega
  · have keeps : ∀ {heap : RejectionHeap V} {event next}, promise ∈ heap.unobserved →
        heap.step event = some next → promise ∈ next.unobserved :=
      fun noted taken => unobserved_step taken noted
    have noted := replay_preserves keeps noted rest
    rcases complete.noted promise noted with ⟨listed, _⟩ | ⟨_, once⟩
    · exact unlisted listed
    · omega

/-- From a heap before a report, every run that begins with the report and ends outside every
report loses nothing and repeats nothing, and calls the tracker exactly for what is still rejected
and unhandled when it is taken up, exactly when no rejection meets a slot that a report
in progress has yet to visit or a list that cannot grow, and no tracker returns to a report
that the list has outgrown.
-/
theorem unhandledReport_run (before : BeforeReport heap) {jobs : Bool}
    {events : List (RejectionEvent V)}
    (run : replay RejectionHeap.step heap (.report jobs :: events) = some last)
    (ends : last.walks = [])
    : ReportComplete heap (.report jobs :: events) last
      ↔ Along RejectionHeap.step SparesSlots heap (.report jobs :: events) :=
  ⟨along_of_reportComplete before run, reportComplete_of_along before run ends⟩

-----------------------------------------------------------------------------------------
-- A tracker that rejects
-----------------------------------------------------------------------------------------

/-- The first promises are rejected and listed, all others are pending, and there is a tracker. -/
def firstRejected (n : Nat) : RejectionHeap Unit :=
  {
    promises := fun promise =>
      if promise < n then
        { state := .rejected, result := (), isHandled := false, inRejectList := true }
      else .init ()
    unhandledRejections := fun slot => if slot < n then some slot else none
    unhandledCount := n
    unhandledCapacity := 8
    hasTracker := true
    microtaskDraining := false
    walks := []
    unobserved := []
    visited := []
  }

theorem firstRejected_beforeReport (n : Nat) : BeforeReport (firstRejected n) := by
  have held : ∀ {slot promise}, (firstRejected n).unhandledRejections slot = some promise →
      slot < n ∧ slot = promise := by
    intro slot promise holds
    simpa only [firstRejected, Option.ite_none_right_eq_some, Option.some.injEq] using holds
  refine ⟨rfl, rfl, rfl, ?_, ?_, ?_, ?_, ?_⟩
  · intro slot inside
    exact ⟨slot, if_pos inside⟩
  · intro slot promise holds
    obtain ⟨inside, rfl⟩ := held holds
    simp [firstRejected, inside]
  · intro slot slot' promise _ _ holds holds'
    exact (held holds).2.trans (held holds').2.symm
  · intro promise flag
    refine ⟨promise, if_pos ?_⟩
    by_contra outside
    simp [firstRejected, outside, PromiseRecord.init] at flag
  · intro slot promise holds
    obtain ⟨inside, rfl⟩ := held holds
    simp [firstRejected, inside]

/-- The tracker called for promise 0 rejects promise 1, whose slot the report then clears. -/
theorem unhandledReport_forgets
    : ∃ last, BeforeReport (firstRejected 1)
      ∧ replay RejectionHeap.step (firstRejected 1)
          [.report false, .visit, .settle 1 .rejected () true, .resume, .finish] = some last
      ∧ last.walks = []
      ∧ ¬ReportComplete (firstRejected 1)
          [.report false, .visit, .settle 1 .rejected () true, .resume, .finish] last := by
  refine ⟨_, firstRejected_beforeReport 1, rfl, rfl, ?_⟩
  intro complete
  rcases complete.noted 1 (List.mem_singleton.mpr rfl) with ⟨⟨slot, inside, holds⟩, _⟩ | ⟨_, once⟩
  · have first : slot = 0 := Nat.lt_one_iff.mp inside
    subst first
    cases holds
  · cases once

/-- Two promises are listed. The tracker called for the first one observes the second, which is not
reported then; the third promise is rejected after that and left on the list.
-/
theorem unhandledReport_run_observing
    : ∃ last, replay RejectionHeap.step (firstRejected 2)
          [.report false, .visit, .observe 1, .resume, .visit, .finish] = some last
      ∧ ReportComplete (firstRejected 2)
          [.report false, .visit, .observe 1, .resume, .visit, .finish] last
      ∧ last.visited = [(1, false), (0, true)] := by
  refine ⟨_, rfl, (unhandledReport_run (firstRejected_beforeReport 2) rfl rfl).mpr ?_, rfl⟩
  refine ⟨trivial, ?_⟩
  rintro _ ⟨⟩
  refine ⟨trivial, ?_⟩
  rintro _ ⟨⟩
  refine ⟨trivial, ?_⟩
  rintro _ ⟨⟩
  refine ⟨?_, ?_⟩
  · rintro walk ⟨⟩
    exact Nat.le_refl 0
  · rintro _ ⟨⟩
    refine ⟨trivial, ?_⟩
    rintro _ ⟨⟩
    refine ⟨trivial, ?_⟩
    rintro _ ⟨⟩
    trivial

end Boomkat.Correctness
