import Boomkat.Foundation.Replay

/-! The queue of promise jobs and the places of the engine that drain it. Code nests on a stack
of frames, so that a drain sees who called it.
-/

namespace Boomkat.Promise
open Boomkat.Foundation

variable {J : Type}

/-- How a script frame was entered. The functions that start a nested run of the interpreter
save the number of activations. The bodies of modules with a top-level `await` and of modules that
are imported while code runs are entered on their own ways.
-/
inductive Entry where
  | execute
  | inlineCall
  | callFn (savedActCount : Nat)
  | construct (savedActCount : Nat)
  | executeModuleAsync
  | executeModuleNested (savedActCount : Nat)
  deriving DecidableEq, Repr

/-- What is active: script and builtins, the handler of a job or what follows it, the two parts
of a drain, and a rejection tracker. `reporting` says whether its drain had jobs.
-/
inductive Frame where
  | script (entry : Entry)
  | builtin
  | job (settling : Bool)
  | drainingJobs (cursor : Nat)
  | reporting (jobs : Bool)
  | tracker
  deriving DecidableEq, Repr

/-- The heap as far as jobs concern it. The last three fields are no data of the heap: they
record the jobs handed to the queue, the jobs started with the frames around their drain, and
the frames around each drain that was let in.
-/
structure JobHeap (J : Type) where
  microtaskQueue : List J
  microtaskCapacity : Nat
  microtaskDraining : Bool
  uncatchableThrow : Bool
  activationCount : Nat
  frames : List Frame
  requested : List J
  started : List (J × List Frame)
  drains : List (List Frame)

/-- The heap when the engine starts. -/
def JobHeap.init : JobHeap J :=
  {
    microtaskQueue := []
    microtaskCapacity := 0
    microtaskDraining := false
    uncatchableThrow := false
    activationCount := 0
    frames := []
    requested := []
    started := []
    drains := []
  }

/-- The calls that add a frame. -/
inductive Call where
  | execute
  | inlineCall
  | callFn
  | construct
  | executeModuleAsync
  | executeModuleNested
  | builtin
  deriving DecidableEq, Repr

/-- What can happen. `grows` is the answer of the allocator, should the queue need more room.
`settleCombinator` is the end of a combinator or of one of its element functions that settles
the outer capability.
-/
inductive JobEvent (J : Type) where
  | enqueue (job : J) (grows : Bool)
  | enter (call : Call)
  | leave
  | settleCombinator
  | hostDrain
  | nextJob
  | handlerReturns
  | jobEnds
  | jobsDone
  | enterTracker
  | leaveTracker
  | drainEnds
  | interrupt
  | clearInterrupt

/-- `Heap.enqueue_microtask` -/
def JobHeap.enqueueMicrotask (heap : JobHeap J) (job : J) (grows : Bool) : JobHeap J :=
  let noted := { heap with requested := heap.requested ++ [job] }
  let needed := heap.microtaskQueue.length + 1
  if heap.microtaskCapacity < needed ∧ grows = false then noted
  else
    {
      noted with
      microtaskCapacity :=
        if heap.microtaskCapacity < needed then
          if heap.microtaskCapacity = 0 then 16 else heap.microtaskCapacity * 2
        else heap.microtaskCapacity
      microtaskQueue := heap.microtaskQueue ++ [job]
    }

/-- The entry of `Heap.drain_microtasks`. -/
def JobHeap.drainMicrotasks (heap : JobHeap J) : JobHeap J :=
  if heap.microtaskDraining then heap
  else if heap.microtaskQueue = [] then
    { heap with frames := .reporting false :: heap.frames, drains := heap.frames :: heap.drains }
  else
    {
      heap with
      microtaskDraining := true
      frames := .drainingJobs 0 :: heap.frames
      drains := heap.frames :: heap.drains
    }

/-- A call. -/
def JobHeap.enter (heap : JobHeap J) : Call → JobHeap J
  | .execute => { heap with frames := .script .execute :: heap.frames, activationCount := 1 }
  | .inlineCall =>
      {
        heap with
        frames := .script .inlineCall :: heap.frames
        activationCount := heap.activationCount + 1
      }
  | .callFn =>
      {
        heap with
        frames := .script (.callFn heap.activationCount) :: heap.frames
        activationCount := 1
      }
  | .construct =>
      {
        heap with
        frames := .script (.construct heap.activationCount) :: heap.frames
        activationCount := 1
      }
  | .executeModuleAsync =>
      { heap with frames := .script .executeModuleAsync :: heap.frames, activationCount := 1 }
  | .executeModuleNested =>
      {
        heap with
        frames := .script (.executeModuleNested heap.activationCount) :: heap.frames
        activationCount := 1
      }
  | .builtin => { heap with frames := .builtin :: heap.frames }

/-- The end of the script frame entered this way, with the drain of the function that started
the interpreter. The functions for modules never drain the queue.
-/
def JobHeap.leaveScript (heap : JobHeap J) (rest : List Frame) : Entry → JobHeap J
  | .execute => { heap with frames := rest, activationCount := 0 }.drainMicrotasks
  | .inlineCall => { heap with frames := rest, activationCount := heap.activationCount - 1 }
  | .callFn savedActCount =>
      let restored := { heap with frames := rest, activationCount := savedActCount }
      if savedActCount = 0 then restored.drainMicrotasks else restored
  | .construct savedActCount =>
      { heap with frames := rest, activationCount := savedActCount }.drainMicrotasks
  | .executeModuleAsync => { heap with frames := rest, activationCount := 0 }
  | .executeModuleNested savedActCount =>
      { heap with frames := rest, activationCount := savedActCount }

/-- Code runs on top of these frames. -/
def running : List Frame → Bool
  | .drainingJobs _ :: _ => false
  | .reporting _ :: _ => false
  | _ => true

/-- The host or the engine's own code runs on top of these frames: outside every function, in a
tracker, or in a builtin (a host function, the continuation of a module).
-/
def hosted : List Frame → Bool
  | [] => true
  | .tracker :: _ => true
  | .builtin :: _ => true
  | _ => false

/-- The call can be made on top of these frames. -/
def mayEnter (frames : List Frame) : Call → Bool
  | .execute | .executeModuleAsync => hosted frames
  | .inlineCall =>
      match frames with
      | .script _ :: _ => true
      | _ => false
  | _ => running frames

/-- One event. -/
def JobHeap.step (heap : JobHeap J) : JobEvent J → Option (JobHeap J)
  | .enqueue job grows =>
      if running heap.frames then some (heap.enqueueMicrotask job grows) else none
  | .enter call => if mayEnter heap.frames call then some (heap.enter call) else none
  | .leave =>
      match heap.frames with
      | .script entry :: rest => some (heap.leaveScript rest entry)
      | .builtin :: rest => some { heap with frames := rest }
      | _ => none
  | .settleCombinator =>
      match heap.frames with
      | .builtin :: _ => some heap.drainMicrotasks
      | _ => none
  | .hostDrain => if hosted heap.frames then some heap.drainMicrotasks else none
  | .nextJob =>
      match heap.frames with
      | .drainingJobs cursor :: rest =>
          match heap.microtaskQueue[cursor]? with
          | some job =>
              some
                {
                  heap with
                  frames := .job false :: .drainingJobs (cursor + 1) :: rest
                  started := heap.started ++ [(job, rest)]
                }
          | none => none
      | _ => none
  | .handlerReturns =>
      match heap.frames with
      | .job false :: .drainingJobs cursor :: rest =>
          if heap.uncatchableThrow then
            some { heap with frames := .drainingJobs heap.microtaskQueue.length :: rest }
          else some { heap with frames := .job true :: .drainingJobs cursor :: rest }
      | _ => none
  | .jobEnds =>
      match heap.frames with
      | .job true :: rest => some { heap with frames := rest }
      | _ => none
  | .jobsDone =>
      match heap.frames with
      | .drainingJobs cursor :: rest =>
          if heap.microtaskQueue.length ≤ cursor then
            some { heap with microtaskQueue := [], frames := .reporting true :: rest }
          else none
      | _ => none
  | .enterTracker =>
      match heap.frames with
      | .reporting jobs :: rest => some { heap with frames := .tracker :: .reporting jobs :: rest }
      | _ => none
  | .leaveTracker =>
      match heap.frames with
      | .tracker :: rest => some { heap with frames := rest }
      | _ => none
  | .drainEnds =>
      match heap.frames with
      | .reporting jobs :: rest =>
          some { heap with frames := rest, microtaskDraining := heap.microtaskDraining && !jobs }
      | _ => none
  | .interrupt => if running heap.frames then some { heap with uncatchableThrow := true } else none
  | .clearInterrupt =>
      if hosted heap.frames then some { heap with uncatchableThrow := false } else none

/-- The events by what they require and do. -/
inductive JobHeap.Takes (heap : JobHeap J) : JobEvent J → JobHeap J → Prop where
  | enqueue {job grows} : Takes heap (.enqueue job grows) (heap.enqueueMicrotask job grows)
  | enter {call} : Takes heap (.enter call) (heap.enter call)
  | leaveScript {entry rest} (frames : heap.frames = .script entry :: rest)
    : Takes heap .leave (heap.leaveScript rest entry)
  | leaveBuiltin {rest} (frames : heap.frames = .builtin :: rest)
    : Takes heap .leave { heap with frames := rest }
  | settleCombinator {rest} (frames : heap.frames = .builtin :: rest)
    : Takes heap .settleCombinator heap.drainMicrotasks
  | hostDrain : Takes heap .hostDrain heap.drainMicrotasks
  | nextJob {cursor rest job} (frames : heap.frames = .drainingJobs cursor :: rest)
    (more : heap.microtaskQueue[cursor]? = some job)
    : Takes heap .nextJob
        {
          heap with
          frames := .job false :: .drainingJobs (cursor + 1) :: rest
          started := heap.started ++ [(job, rest)]
        }
  | interrupted {cursor rest} (frames : heap.frames = .job false :: .drainingJobs cursor :: rest)
    (uncatchable : heap.uncatchableThrow = true)
    : Takes heap .handlerReturns
        { heap with frames := .drainingJobs heap.microtaskQueue.length :: rest }
  | handlerReturns {cursor rest}
    (frames : heap.frames = .job false :: .drainingJobs cursor :: rest)
    (catchable : heap.uncatchableThrow = false)
    : Takes heap .handlerReturns
        { heap with frames := .job true :: .drainingJobs cursor :: rest }
  | jobEnds {rest} (frames : heap.frames = .job true :: rest)
    : Takes heap .jobEnds { heap with frames := rest }
  | jobsDone {cursor rest} (frames : heap.frames = .drainingJobs cursor :: rest)
    (done : heap.microtaskQueue.length ≤ cursor)
    : Takes heap .jobsDone { heap with microtaskQueue := [], frames := .reporting true :: rest }
  | enterTracker {jobs rest} (frames : heap.frames = .reporting jobs :: rest)
    : Takes heap .enterTracker { heap with frames := .tracker :: .reporting jobs :: rest }
  | leaveTracker {rest} (frames : heap.frames = .tracker :: rest)
    : Takes heap .leaveTracker { heap with frames := rest }
  | drainEnds {jobs rest} (frames : heap.frames = .reporting jobs :: rest)
    : Takes heap .drainEnds
        { heap with frames := rest, microtaskDraining := heap.microtaskDraining && !jobs }
  | interrupt : Takes heap .interrupt { heap with uncatchableThrow := true }
  | clearInterrupt : Takes heap .clearInterrupt { heap with uncatchableThrow := false }

/-- Every event is taken in one of these ways. -/
theorem JobHeap.takes_of_step {heap next : JobHeap J} {event : JobEvent J}
    (taken : heap.step event = some next)
    : heap.Takes event next := by
  cases event with
  | enqueue job grows =>
      simp only [JobHeap.step, Option.ite_none_right_eq_some, Option.some.injEq] at taken
      obtain ⟨_, rfl⟩ := taken
      exact .enqueue
  | enter call =>
      simp only [JobHeap.step, Option.ite_none_right_eq_some, Option.some.injEq] at taken
      obtain ⟨_, rfl⟩ := taken
      exact .enter
  | leave =>
      simp only [JobHeap.step] at taken
      split at taken
      · rename_i frames
        cases taken
        exact .leaveScript frames
      · rename_i frames
        cases taken
        exact .leaveBuiltin frames
      · cases taken
  | settleCombinator =>
      simp only [JobHeap.step] at taken
      split at taken
      · rename_i frames
        cases taken
        exact .settleCombinator frames
      · cases taken
  | hostDrain =>
      simp only [JobHeap.step, Option.ite_none_right_eq_some, Option.some.injEq] at taken
      obtain ⟨_, rfl⟩ := taken
      exact .hostDrain
  | nextJob =>
      simp only [JobHeap.step] at taken
      split at taken
      · rename_i frames
        split at taken
        · rename_i more
          cases taken
          exact .nextJob frames more
        · cases taken
      · cases taken
  | handlerReturns =>
      simp only [JobHeap.step] at taken
      split at taken
      · rename_i frames
        split at taken
        · rename_i uncatchable
          cases taken
          exact .interrupted frames uncatchable
        · rename_i catchable
          cases taken
          exact .handlerReturns frames (Bool.not_eq_true _ ▸ catchable)
      · cases taken
  | jobEnds =>
      simp only [JobHeap.step] at taken
      split at taken
      · rename_i frames
        cases taken
        exact .jobEnds frames
      · cases taken
  | jobsDone =>
      simp only [JobHeap.step] at taken
      split at taken
      · rename_i frames
        simp only [Option.ite_none_right_eq_some, Option.some.injEq] at taken
        obtain ⟨done, rfl⟩ := taken
        exact .jobsDone frames done
      · cases taken
  | enterTracker =>
      simp only [JobHeap.step] at taken
      split at taken
      · rename_i frames
        cases taken
        exact .enterTracker frames
      · cases taken
  | leaveTracker =>
      simp only [JobHeap.step] at taken
      split at taken
      · rename_i frames
        cases taken
        exact .leaveTracker frames
      · cases taken
  | drainEnds =>
      simp only [JobHeap.step] at taken
      split at taken
      · rename_i frames
        cases taken
        exact .drainEnds frames
      · cases taken
  | interrupt =>
      simp only [JobHeap.step, Option.ite_none_right_eq_some, Option.some.injEq] at taken
      obtain ⟨_, rfl⟩ := taken
      exact .interrupt
  | clearInterrupt =>
      simp only [JobHeap.step, Option.ite_none_right_eq_some, Option.some.injEq] at taken
      obtain ⟨_, rfl⟩ := taken
      exact .clearInterrupt

end Boomkat.Promise
