import Boomkat.Foundation.Replay
import Boomkat.Promise.Record
import Mathlib.Logic.Function.Basic

/-! Unhandled rejections: promises are noted when they are rejected, and the notes are walked
at the end of a drain. The tracker called for a note is host code, which may settle and observe
promises and drain again.
-/

namespace Boomkat.Promise
open Boomkat.Foundation

variable {V : Type}

/-- A call of `report_unhandled_rejections` in progress: the number of slots it walks, its
position, and whether it is inside the tracker. `jobs` says that its drain had jobs, so that
`microtask_draining` is set.
-/
structure Walk where
  length : Nat
  index : Nat
  visiting : Bool
  jobs : Bool
  deriving DecidableEq, Repr

/-- The heap as far as rejections concern it. The slots of `unhandled_rejections` hold a promise
or `undefined`. `walks` are the active reports, the innermost first. The last two fields are
no data of the heap: they record which promises were rejected without a handler, and which a
report has taken up, with the verdict that called the tracker or not.
-/
structure RejectionHeap (V : Type) where
  promises : Nat → PromiseRecord V
  unhandledRejections : Nat → Option Nat
  unhandledCount : Nat
  unhandledCapacity : Nat
  hasTracker : Bool
  microtaskDraining : Bool
  walks : List Walk
  unobserved : List Nat
  visited : List (Nat × Bool)

/-- What can happen: some code settles a promise (`grows` is the answer of the allocator, should
the list need more room) or attaches a reaction to one, a drain comes to its report, and the
report takes a step.
-/
inductive RejectionEvent (V : Type) where
  | settle (promise : Nat) (state : PromiseState) (val : V) (grows : Bool)
  | observe (promise : Nat)
  | report (jobs : Bool)
  | visit
  | resume
  | finish

/-- `track_rejection` -/
def RejectionHeap.trackRejection (heap : RejectionHeap V) (promise : Nat) (grows : Bool)
    : RejectionHeap V :=
  if (heap.promises promise).inRejectList then heap
  else
    let needed := heap.unhandledCount + 1
    if heap.unhandledCapacity < needed ∧ grows = false then heap
    else
      {
        heap with
        unhandledCapacity :=
          if heap.unhandledCapacity < needed then
            if heap.unhandledCapacity = 0 then 8 else heap.unhandledCapacity * 2
          else heap.unhandledCapacity
        unhandledRejections :=
          Function.update heap.unhandledRejections heap.unhandledCount (some promise)
        unhandledCount := heap.unhandledCount + 1
        promises :=
          Function.update heap.promises promise
            { heap.promises promise with inRejectList := true }
      }

/-- `promise_settle` -/
def RejectionHeap.promiseSettle (heap : RejectionHeap V) (promise : Nat) (state : PromiseState)
    (val : V) (grows : Bool) : RejectionHeap V :=
  let record := heap.promises promise
  if record.state ≠ .pending then heap
  else
    let settled :=
      {
        heap with
        promises :=
          Function.update heap.promises promise { record with result := val, state := state }
      }
    if state = .rejected ∧ record.isHandled = false then
      { settled with unobserved := promise :: heap.unobserved }.trackRejection promise grows
    else settled

/-- `promise_add_reaction`, as far as it concerns rejections. -/
def RejectionHeap.observe (heap : RejectionHeap V) (promise : Nat) : RejectionHeap V :=
  {
    heap with
    promises :=
      Function.update heap.promises promise { heap.promises promise with isHandled := true }
  }

/-- The entry of `report_unhandled_rejections`. -/
def RejectionHeap.startReport (heap : RejectionHeap V) (jobs : Bool) : RejectionHeap V :=
  if heap.unhandledCount = 0 then heap
  else
    {
      heap with
      unhandledCount := 0
      microtaskDraining := heap.microtaskDraining || jobs
      walks :=
        { length := heap.unhandledCount, index := 0, visiting := false, jobs := jobs }
          :: heap.walks
    }

/-- The end of the loop body: the slot is cleared. -/
def RejectionHeap.clearSlot (heap : RejectionHeap V) (walk : Walk) (outer : List Walk)
    : RejectionHeap V :=
  {
    heap with
    unhandledRejections := Function.update heap.unhandledRejections walk.index none
    walks := { walk with index := walk.index + 1, visiting := false } :: outer
  }

/-- The loop body up to the tracker, or all of it when the tracker is not called. -/
def RejectionHeap.visitSlot (heap : RejectionHeap V) (walk : Walk) (outer : List Walk)
    : RejectionHeap V :=
  match heap.unhandledRejections walk.index with
  | none => heap.clearSlot walk outer
  | some promise =>
      let record := heap.promises promise
      let stillUnhandled := !record.isHandled && record.state = .rejected
      if stillUnhandled && heap.hasTracker then
        {
          heap with
          promises :=
            Function.update heap.promises promise
              { record with inRejectList := false, isHandled := true }
          walks := { walk with visiting := true } :: outer
          visited := (promise, true) :: heap.visited
        }
      else
        {
          heap with
          promises :=
            Function.update heap.promises promise { record with inRejectList := false }
          visited := (promise, false) :: heap.visited
        }.clearSlot walk outer

/-- Code runs outside every report and inside a tracker. -/
def RejectionHeap.running (heap : RejectionHeap V) : Bool :=
  match heap.walks with
  | [] => true
  | walk :: _ => walk.visiting

/-- One event. -/
def RejectionHeap.step (heap : RejectionHeap V) : RejectionEvent V → Option (RejectionHeap V)
  | .settle promise state val grows =>
      if heap.running && state ≠ .pending then
        some (heap.promiseSettle promise state val grows)
      else none
  | .observe promise => if heap.running then some (heap.observe promise) else none
  | .report jobs =>
      if heap.running && !heap.microtaskDraining then some (heap.startReport jobs) else none
  | .visit =>
      match heap.walks with
      | walk :: outer =>
          if !walk.visiting && walk.index < walk.length then some (heap.visitSlot walk outer)
          else none
      | [] => none
  | .resume =>
      match heap.walks with
      | walk :: outer => if walk.visiting then some (heap.clearSlot walk outer) else none
      | [] => none
  | .finish =>
      match heap.walks with
      | walk :: outer =>
          if !walk.visiting && walk.length ≤ walk.index then
            some
              {
                heap with
                walks := outer
                microtaskDraining := heap.microtaskDraining && !walk.jobs
              }
          else none
      | [] => none

/-- The events by what they require and do. -/
inductive RejectionHeap.Takes (heap : RejectionHeap V)
    : RejectionEvent V → RejectionHeap V → Prop where
  | settle {promise state val grows} (running : heap.running = true) (final : state ≠ .pending)
    : Takes heap (.settle promise state val grows) (heap.promiseSettle promise state val grows)
  | observe {promise} (running : heap.running = true)
    : Takes heap (.observe promise) (heap.observe promise)
  | report {jobs} (running : heap.running = true)
    : Takes heap (.report jobs) (heap.startReport jobs)
  | visit {walk outer} (walks : heap.walks = walk :: outer) (between : walk.visiting = false)
    (more : walk.index < walk.length)
    : Takes heap .visit (heap.visitSlot walk outer)
  | resume {walk outer} (walks : heap.walks = walk :: outer) (entered : walk.visiting = true)
    : Takes heap .resume (heap.clearSlot walk outer)
  | finish {walk outer} (draining : Bool) (walks : heap.walks = walk :: outer)
    (between : walk.visiting = false) (done : walk.length ≤ walk.index)
    : Takes heap .finish { heap with walks := outer, microtaskDraining := draining }

/-- Every event is taken in one of these ways. -/
theorem RejectionHeap.takes_of_step {heap next : RejectionHeap V} {event : RejectionEvent V}
    (taken : heap.step event = some next)
    : heap.Takes event next := by
  cases event with
  | settle promise state val grows =>
      simp only [RejectionHeap.step, Option.ite_none_right_eq_some, Bool.and_eq_true,
        decide_eq_true_eq, Option.some.injEq] at taken
      obtain ⟨⟨running, final⟩, rfl⟩ := taken
      exact .settle running final
  | observe promise =>
      simp only [RejectionHeap.step, Option.ite_none_right_eq_some, Option.some.injEq] at taken
      obtain ⟨running, rfl⟩ := taken
      exact .observe running
  | report jobs =>
      simp only [RejectionHeap.step, Option.ite_none_right_eq_some, Bool.and_eq_true,
        Option.some.injEq] at taken
      obtain ⟨⟨running, _⟩, rfl⟩ := taken
      exact .report running
  | visit =>
      cases walks : heap.walks with
      | nil => simp [RejectionHeap.step, walks] at taken
      | cons walk outer =>
          simp only [RejectionHeap.step, walks, Option.ite_none_right_eq_some, Bool.and_eq_true,
            Bool.not_eq_true', decide_eq_true_eq, Option.some.injEq] at taken
          obtain ⟨⟨between, more⟩, rfl⟩ := taken
          exact .visit walks between more
  | resume =>
      cases walks : heap.walks with
      | nil => simp [RejectionHeap.step, walks] at taken
      | cons walk outer =>
          simp only [RejectionHeap.step, walks, Option.ite_none_right_eq_some,
            Option.some.injEq] at taken
          obtain ⟨entered, rfl⟩ := taken
          exact .resume walks entered
  | finish =>
      cases walks : heap.walks with
      | nil => simp [RejectionHeap.step, walks] at taken
      | cons walk outer =>
          simp only [RejectionHeap.step, walks, Option.ite_none_right_eq_some, Bool.and_eq_true,
            Bool.not_eq_true', decide_eq_true_eq, Option.some.injEq] at taken
          obtain ⟨⟨between, done⟩, rfl⟩ := taken
          exact .finish _ walks between done

/-- A promise in the list as it stands outside the reports in progress. -/
def RejectionHeap.onList (heap : RejectionHeap V) (promise : Nat) : Prop :=
  ∃ slot < heap.unhandledCount, heap.unhandledRejections slot = some promise

end Boomkat.Promise
