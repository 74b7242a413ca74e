import Boomkat.Correctness.RejectionReport

/-! Runs that begin with a report and end outside every report: they lose nothing and repeat
nothing exactly when each of their events spares the slots in use.
-/

namespace Boomkat.Correctness
open Boomkat.Foundation Boomkat.Promise

variable {V : Type} {heap next last : RejectionHeap V} {owed : List Nat}

/-- The promises on the list. -/
def listedPromises (heap : RejectionHeap V) : List Nat :=
  (List.range heap.unhandledCount).filterMap heap.unhandledRejections

theorem mem_listedPromises (heap : RejectionHeap V) (promise : Nat)
    : promise ∈ listedPromises heap ↔ heap.onList promise := by
  simp [listedPromises, RejectionHeap.onList]

/-- Outside every report the slots in use are those of the list. -/
theorem inUse_idle (count slot : Nat) : InUse count [] slot ↔ slot < count := by
  simp [InUse]

/-- A heap before a report is in step. -/
theorem BeforeReport.inStep (before : BeforeReport heap)
    : InStep (listedPromises heap) heap where
  filled slot used := by
    rw [before.idle, inUse_idle] at used
    exact before.filled slot used
  flagged slot promise holds := by
    rw [before.idle, inUse_idle]
    exact before.flagged slot promise holds
  distinct slot slot' promise used used' := by
    rw [before.idle, inUse_idle] at used used'
    exact before.distinct slot slot' promise used used'
  listed := before.held
  settled slot promise holds := by
    rw [before.rejected slot promise holds]
    exact PromiseState.noConfusion
  apart := by simp [before.idle]
  nested := by simp [before.idle]
  visiting := by simp [before.idle]
  inside := by simp [before.idle]
  once := by simp [takenUp, before.unvisited]
  taken := by simp [takenUp, before.unvisited]
  accounted promise debt := by
    rw [before.nothingNoted, mem_listedPromises] at debt
    obtain ⟨slot, inside, holds⟩ := debt.resolve_right List.not_mem_nil
    exact .inl ((before.flagged slot promise holds).mpr inside)
  known promise flag := by
    obtain ⟨slot, holds⟩ := before.held promise flag
    have inside := (before.flagged slot promise holds).mp flag
    exact .inl ((mem_listedPromises heap promise).mpr ⟨slot, inside, holds⟩)

/-- What can become of a settled promise: it stays settled, comes into no slot and onto no list
anew, and is taken up from a slot only.
-/
structure SettledStays (promise : Nat) (heap next : RejectionHeap V) : Prop where
  settled : (next.promises promise).state ≠ .pending
  held : ∀ slot, next.unhandledRejections slot = some promise →
    heap.unhandledRejections slot = some promise
  listed : next.onList promise → heap.onList promise
  taken : promise ∈ takenUp next →
    promise ∈ takenUp heap ∨ ∃ slot, heap.unhandledRejections slot = some promise

variable {promise : Nat}

theorem SettledStays.clearSlot {middle : RejectionHeap V}
    (stays : SettledStays promise heap middle) (walk : Walk) (outer : List Walk)
    : SettledStays promise heap (middle.clearSlot walk outer) := by
  have held : ∀ slot, (middle.clearSlot walk outer).unhandledRejections slot = some promise →
      middle.unhandledRejections slot = some promise := by
    intro slot holds
    by_cases here : slot = walk.index
    · simp [RejectionHeap.clearSlot, here] at holds
    · simpa [RejectionHeap.clearSlot, here] using holds
  refine ⟨stays.settled, fun slot holds => stays.held slot (held slot holds), ?_, stays.taken⟩
  rintro ⟨slot, inside, holds⟩
  exact stays.listed ⟨slot, inside, held slot holds⟩

theorem SettledStays.visitSlot (settled : (heap.promises promise).state ≠ .pending) (walk : Walk)
    (outer : List Walk)
    : SettledStays promise heap (heap.visitSlot walk outer) := by
  have unchanged : SettledStays promise heap heap :=
    ⟨settled, fun _ holds => holds, fun listed => listed, .inl⟩
  unfold RejectionHeap.visitSlot
  split
  · exact unchanged.clearSlot walk outer
  · rename_i other holds
    have taken : promise ∈ other :: takenUp heap → promise ∈ takenUp heap
        ∨ ∃ slot, heap.unhandledRejections slot = some promise := by
      intro member
      rcases List.mem_cons.mp member with rfl | member
      · exact .inr ⟨walk.index, holds⟩
      · exact .inl member
    have stays : ∀ record : PromiseRecord V, record.state = (heap.promises other).state →
        (Function.update heap.promises other record promise).state ≠ .pending := by
      intro record same
      by_cases here : promise = other
      · subst here
        simpa [same] using settled
      · simpa [here] using settled
    simp only
    split
    · refine ⟨?_, fun _ holds => holds, fun listed => listed, taken⟩
      apply stays
      rfl
    · apply SettledStays.clearSlot
      refine ⟨?_, fun _ holds => holds, fun listed => listed, taken⟩
      apply stays
      rfl

theorem SettledStays.promiseSettle (settled : (heap.promises promise).state ≠ .pending)
    (other : Nat) (state : PromiseState) (val : V) (grows : Bool)
    : SettledStays promise heap (heap.promiseSettle other state val grows) := by
  have unchanged : SettledStays promise heap heap :=
    ⟨settled, fun _ holds => holds, fun listed => listed, .inl⟩
  unfold RejectionHeap.promiseSettle
  simp only
  split
  · exact unchanged
  · rename_i pending
    rw [ne_eq, Decidable.not_not] at pending
    have different : promise ≠ other := by
      rintro rfl
      exact settled pending
    split
    · unfold RejectionHeap.trackRejection
      split
      · exact ⟨by simpa [different] using settled, fun _ holds => holds, fun listed => listed, .inl⟩
      · simp only
        split
        · exact ⟨by simpa [different] using settled, fun _ holds => holds, fun listed => listed,
            .inl⟩
        · have held : ∀ {slot},
              Function.update heap.unhandledRejections heap.unhandledCount (some other) slot
                = some promise →
              slot ≠ heap.unhandledCount ∧ heap.unhandledRejections slot = some promise := by
            intro slot holds
            by_cases here : slot = heap.unhandledCount
            · simp [here, different.symm] at holds
            · exact ⟨here, by simpa [here] using holds⟩
          refine ⟨by simpa [different] using settled, fun slot holds => (held holds).2, ?_, .inl⟩
          rintro ⟨slot, inside, holds⟩
          obtain ⟨elsewhere, holds⟩ := held holds
          exact ⟨slot, by simp only at inside; omega, holds⟩
    · exact ⟨by simpa [different] using settled, fun _ holds => holds, fun listed => listed, .inl⟩

/-- No event brings a settled promise back. -/
theorem SettledStays.step (settled : (heap.promises promise).state ≠ .pending)
    {event : RejectionEvent V} (taken : heap.step event = some next)
    : SettledStays promise heap next := by
  have unchanged : SettledStays promise heap heap :=
    ⟨settled, fun _ holds => holds, fun listed => listed, .inl⟩
  cases RejectionHeap.takes_of_step taken with
  | settle running final => exact .promiseSettle settled _ _ _ _
  | @observe other running =>
      refine ⟨?_, fun _ holds => holds, fun listed => listed, .inl⟩
      by_cases here : promise = other
      · subst here
        simpa [RejectionHeap.observe] using settled
      · simpa [RejectionHeap.observe, here] using settled
  | report running =>
      unfold RejectionHeap.startReport
      split
      · exact unchanged
      · refine ⟨settled, fun _ holds => holds, ?_, .inl⟩
        rintro ⟨slot, inside, _⟩
        exact absurd inside (Nat.not_lt_zero slot)
  | visit walks between more => exact .visitSlot settled _ _
  | resume walks entered => exact unchanged.clearSlot _ _
  | finish draining walks between done =>
      exact ⟨settled, fun _ holds => holds, fun listed => listed, .inl⟩

-----------------------------------------------------------------------------------------
-- What is noted
-----------------------------------------------------------------------------------------

/-- Every event notes exactly what it takes up and rejects, whatever the slots hold. -/
theorem notesExact_step {event : RejectionEvent V} (taken : heap.step event = some next)
    : NotesExact heap event next := by
  cases RejectionHeap.takes_of_step taken with
  | @settle promise state val grows running final =>
      refine ⟨?_, ?_, fun same => by cases same⟩
      · simp only [RejectionHeap.promiseSettle, RejectionHeap.trackRejection, takesUp]
        split_ifs <;> rfl
      · simp only [RejectionHeap.promiseSettle, RejectionHeap.trackRejection, rejects,
          RejectsUnobserved]
        by_cases pending : (heap.promises promise).state = .pending
        · by_cases rejected : state = .rejected ∧ (heap.promises promise).isHandled = false
          · simp only [pending, rejected, ne_eq, not_true_eq_false, if_false, and_self, if_true]
            split_ifs <;> rfl
          · simp [pending, rejected]
        · simp [pending]
  | observe running => exact ⟨rfl, rfl, fun same => by cases same⟩
  | report running =>
      refine ⟨?_, ?_, fun same => by cases same⟩
      all_goals
        unfold RejectionHeap.startReport
        split <;> rfl
  | @visit walk outer walks between more =>
      have taken : takesUp heap .visit = (heap.unhandledRejections walk.index).toList.map
          fun promise => (promise, dueReport heap promise) := by
        rw [takesUp, walks, List.head?_cons, Option.bind_some]
      cases holds : heap.unhandledRejections walk.index with
      | none =>
          simp only [holds, Option.toList_none, List.map_nil] at taken
          refine ⟨?_, ?_, fun _ => ?_⟩
          · simp [RejectionHeap.visitSlot, holds, taken, RejectionHeap.clearSlot]
          · simp [RejectionHeap.visitSlot, holds, rejects, RejectionHeap.clearSlot]
          · simp [RejectionHeap.visitSlot, holds, taken, RejectionHeap.clearSlot,
              RejectionHeap.running]
      | some promise =>
          simp only [holds, Option.toList_some, List.map_cons, List.map_nil] at taken
          have verdict : ((!(heap.promises promise).isHandled
              && (heap.promises promise).state = .rejected) && heap.hasTracker)
              = dueReport heap promise := by
            simp only [dueReport]
            ac_rfl
          simp only [RejectionHeap.visitSlot, holds, verdict]
          by_cases called : dueReport heap promise = true
          · rw [if_pos called]
            refine ⟨by simp [taken, called], rfl, fun _ => ?_⟩
            simp [taken, called, RejectionHeap.running]
          · rw [if_neg called]
            rw [Bool.not_eq_true] at called
            refine ⟨by simp [taken, called, RejectionHeap.clearSlot], rfl, fun _ => ?_⟩
            simp [taken, called, RejectionHeap.clearSlot, RejectionHeap.running]
  | resume walks entered => exact ⟨rfl, rfl, fun same => by cases same⟩
  | finish draining walks between done => exact ⟨rfl, rfl, fun same => by cases same⟩

theorem notesExact_run (heap : RejectionHeap V) (events : List (RejectionEvent V))
    : Along RejectionHeap.step
        (fun here event => ∀ next, here.step event = some next → NotesExact here event next) heap
        events := by
  induction events generalizing heap with
  | nil => trivial
  | cons event events ih => exact ⟨fun _ => notesExact_step, fun next _ => ih next⟩

/-- A promise noted as rejected without a handler stays noted. -/
theorem unobserved_step {event : RejectionEvent V} (taken : heap.step event = some next)
    (noted : promise ∈ heap.unobserved)
    : promise ∈ next.unobserved := by
  rw [(notesExact_step taken).unobserved]
  exact List.mem_append_right _ noted

/-- What is taken up in a run is taken up by one of its visits, with the verdict of that moment. -/
theorem visited_run {events : List (RejectionEvent V)} {reported : Bool}
    (run : replay RejectionHeap.step heap events = some last)
    (visited : (promise, reported) ∈ last.visited)
    : (promise, reported) ∈ heap.visited
      ∨ ∃ before after here, events = before ++ .visit :: after
        ∧ replay RejectionHeap.step heap before = some here
        ∧ (promise, dueReport here promise) ∈ takesUp here .visit
        ∧ reported = dueReport here promise := by
  induction events generalizing heap with
  | nil =>
      cases run
      exact .inl visited
  | cons event events ih =>
      obtain ⟨next, taken, rest⟩ := replay_cons.mp run
      rcases ih rest with now | ⟨before, after, here, rfl, reached, takes, verdict⟩
      · rw [(notesExact_step taken).visited, List.mem_append] at now
        rcases now with takes | earlier
        · refine .inr ⟨[], events, heap, ?_, rfl, ?_⟩
          · cases event with
            | visit => rfl
            | _ => exact absurd takes List.not_mem_nil
          · cases event with
            | visit =>
                obtain ⟨other, _, same⟩ := List.mem_map.mp takes
                obtain ⟨rfl, rfl⟩ := Prod.mk.inj same
                exact ⟨takes, rfl⟩
            | _ => exact absurd takes List.not_mem_nil
        · exact .inl earlier
      · exact .inr ⟨event :: before, after, here, rfl, replay_cons.mpr ⟨next, taken, reached⟩,
          takes, verdict⟩

-----------------------------------------------------------------------------------------
-- What the slots hold
-----------------------------------------------------------------------------------------

/-- Slots hold rejected promises. -/
def SlotsRejected (heap : RejectionHeap V) : Prop :=
  ∀ slot promise, heap.unhandledRejections slot = some promise →
    (heap.promises promise).state = .rejected

theorem SlotsRejected.clearSlot (rejected : SlotsRejected heap) (walk : Walk) (outer : List Walk)
    : SlotsRejected (heap.clearSlot walk outer) := by
  intro slot promise holds
  by_cases here : slot = walk.index
  · simp [RejectionHeap.clearSlot, here] at holds
  · exact rejected slot promise (by simpa [RejectionHeap.clearSlot, here] using holds)

/-- Changes of a promise that leave its state alone. -/
theorem SlotsRejected.withPromise (rejected : SlotsRejected heap) {promise : Nat}
    {record : PromiseRecord V} (same : record.state = (heap.promises promise).state)
    : ∀ slot other, heap.unhandledRejections slot = some other →
      (Function.update heap.promises promise record other).state = .rejected := by
  intro slot other holds
  by_cases here : other = promise
  · subst here
    simpa [same] using rejected slot other holds
  · simpa [here] using rejected slot other holds

theorem SlotsRejected.visitSlot (rejected : SlotsRejected heap) (walk : Walk) (outer : List Walk)
    : SlotsRejected (heap.visitSlot walk outer) := by
  unfold RejectionHeap.visitSlot
  split
  · exact rejected.clearSlot walk outer
  · simp only
    split
    · exact rejected.withPromise rfl
    · apply SlotsRejected.clearSlot
      exact rejected.withPromise rfl

/-- Settling a pending promise adds no promise to the slots but that one, once rejected. -/
theorem SlotsRejected.settling {middle : RejectionHeap V} (rejected : SlotsRejected heap)
    (pending : (heap.promises promise).state = .pending)
    (others : ∀ other, other ≠ promise →
      (middle.promises other).state = (heap.promises other).state)
    (slots : ∀ slot other, middle.unhandledRejections slot = some other →
      heap.unhandledRejections slot = some other
        ∨ (other = promise ∧ (middle.promises promise).state = .rejected))
    : SlotsRejected middle := by
  intro slot other holds
  rcases slots slot other holds with before | ⟨rfl, now⟩
  · have rejected := rejected slot other before
    have different : other ≠ promise := by
      rintro rfl
      cases pending.symm.trans rejected
    exact (others other different).trans rejected
  · exact now

theorem SlotsRejected.promiseSettle (rejected : SlotsRejected heap) (promise : Nat)
    (state : PromiseState) (val : V) (grows : Bool)
    : SlotsRejected (heap.promiseSettle promise state val grows) := by
  unfold RejectionHeap.promiseSettle
  simp only
  split
  · exact rejected
  · rename_i pending
    rw [ne_eq, Decidable.not_not] at pending
    split
    · rename_i rejects
      unfold RejectionHeap.trackRejection
      split
      · refine rejected.settling pending (fun other different => ?_) fun _ _ holds => .inl holds
        simp [different]
      · simp only
        split
        · refine rejected.settling pending (fun other different => ?_) fun _ _ holds => .inl holds
          simp [different]
        · refine rejected.settling pending (fun other different => ?_) fun slot other holds => ?_
          · simp [different]
          · by_cases here : slot = heap.unhandledCount
            · simp only [here, Function.update_self, Option.some.injEq] at holds
              exact .inr ⟨holds.symm, by simp [rejects.1]⟩
            · exact .inl (by simpa [here] using holds)
    · refine rejected.settling pending (fun other different => ?_) fun _ _ holds => .inl holds
      simp [different]

/-- Every event leaves rejected promises in the slots. -/
theorem SlotsRejected.step (rejected : SlotsRejected heap) {event : RejectionEvent V}
    (taken : heap.step event = some next)
    : SlotsRejected next := by
  cases RejectionHeap.takes_of_step taken with
  | settle running final => exact rejected.promiseSettle _ _ _ _
  | observe running => exact rejected.withPromise rfl
  | report running =>
      unfold RejectionHeap.startReport
      split <;> exact rejected
  | visit walks between inside => exact rejected.visitSlot _ _
  | resume walks entered => exact rejected.clearSlot _ _
  | finish draining walks between done => exact rejected

end Boomkat.Correctness
