import Boomkat.Promise.JobQueue
import Boomkat.Promise.Record
import Mathlib.Logic.Function.Basic

/-! Settling promises: the functions of a capability, reactions, thenables, and the jobs that
settle what `then` returns. Functions of the script are called, and what they do is told by the
events that follow.
-/

namespace Boomkat.Promise
open Boomkat.Foundation

variable {V F : Type}

/-- A value as far as promises tell values apart. `chainingCycle` is the error of a promise
resolved with itself.
-/
inductive TVal (V : Type) where
  | undefined
  | primitive (val : V)
  | object (val : V)
  | promise (id : Nat)
  | chainingCycle
  deriving DecidableEq, Repr

def TVal.isObject : TVal V → Bool
  | .undefined => false
  | .primitive _ => false
  | .object _ => true
  | .promise _ => true
  | .chainingCycle => true

def TVal.isPromise (value : TVal V) (promise : Nat) : Bool :=
  match value with
  | .promise id => id = promise
  | _ => false

/-- What a reaction and its job settle: a promise created by `then`, a capability made by a
constructor of the script, or nothing.
-/
inductive Downstream (F : Type) where
  | none
  | promise (id : Nat)
  | capability (capResolve capReject : F)
  deriving DecidableEq, Repr

/-- A reaction record. A handler that cannot be called is `none`. -/
structure Reaction (F : Type) where
  id : Nat
  onFulfilled : Option F
  onRejected : Option F
  downstream : Downstream F
  deriving DecidableEq, Repr

/-- The handler of a job. `resolveThenable` is the job that hands the functions of a new
capability to the `then` of a resolution.
-/
inductive JobHandler (V F : Type) where
  | callable (function : F)
  | promiseIdentity
  | promiseThrower
  | resolveThenable (thenMethod : F) (resolution : TVal V) (cell : Nat)
  deriving DecidableEq, Repr

/-- An entry of the queue. `source` is no data of the queue: it records the reaction that the job
was made for, and its promise.
-/
structure Job (V F : Type) where
  handler : JobHandler V F
  arg : TVal V
  downstream : Downstream F
  source : Option (Nat × Reaction F)
  deriving DecidableEq, Repr

/-- The fields of a promise that settling reads. `RejectionReport` has the others. -/
structure PromiseObject (V F : Type) where
  state : PromiseState
  result : TVal V
  reactions : List (Reaction F)
  deriving DecidableEq, Repr

/-- `promise_init` -/
def PromiseObject.init : PromiseObject V F :=
  { state := .pending, result := .undefined, reactions := [] }

/-- The cell that the two functions of a capability share, with their promise. `thenable` is no
data of the cell: it records that the functions were made for a thenable.
-/
structure CapabilityCell where
  promise : Nat
  alreadyResolved : Bool
  thenable : Bool
  deriving DecidableEq, Repr

/-- One of the two functions of a capability. -/
structure ResolvingFunction where
  cell : Nat
  resolves : Bool
  deriving DecidableEq, Repr

/-- What waits for code of the script to return: the constructor for its executor, a resolution
for the reading of `then`, a job for the `then` of its resolution, and a drain for a handler.
-/
inductive Activation (V F : Type) where
  | executor (cell : Nat)
  | gettingThen (promise : Nat) (value : TVal V)
  | callingThen (cell : Nat)
  | handler (job : Job V F)
  deriving DecidableEq, Repr

/-- The loop of `promise_trigger_reactions`: its promise, with the state and the result read at
its start, and what is left of the detached list.
-/
structure ReactionWalk (V F : Type) where
  promise : Nat
  state : PromiseState
  result : TVal V
  reaction : Reaction F
  rest : List (Reaction F)
  deriving DecidableEq, Repr

/-- Who resolves or rejects a promise: a function of a capability or the job of a reaction. -/
inductive Resolver where
  | function (cell : Nat)
  | job (reaction : Nat)
  deriving DecidableEq, Repr

/-- A call of a function of a capability by the job of a reaction. -/
structure CapabilityUse (V F : Type) where
  reaction : Nat
  function : F
  arg : TVal V
  deriving DecidableEq, Repr

/-- The heap as far as settling concerns it. Promises and cells are numbered in the order they
are allocated; what is yet to be allocated is as `promise_init` leaves it. The last five fields
are no data of the heap: they record the reactions attached with their promises, their jobs that
the queue has taken, who has resolved or rejected a pending promise, the capabilities called by
jobs, and the reactions whose jobs have ended.
-/
structure PromiseHeap (V F : Type) where
  promises : Nat → PromiseObject V F
  promiseCount : Nat
  cells : Nat → CapabilityCell
  cellCount : Nat
  jobs : JobHeap (Job V F)
  activations : List (Activation V F)
  walking : Option (ReactionWalk V F)
  attached : List (Nat × Reaction F)
  queued : List (Job V F)
  resolutions : List (Nat × Resolver)
  capabilityUses : List (CapabilityUse V F)
  completed : List Nat

def PromiseHeap.init : PromiseHeap V F :=
  {
    promises := fun _ => .init
    promiseCount := 0
    cells := fun _ => { promise := 0, alreadyResolved := false, thenable := false }
    cellCount := 0
    jobs := .init
    activations := []
    walking := none
    attached := []
    queued := []
    resolutions := []
    capabilityUses := []
    completed := []
  }

/-- What reading `then` of a resolution comes to: it throws, there is no function to call (or no
memory for a job), or there is one.
-/
inductive ThenRead (V F : Type) where
  | threw (reason : TVal V)
  | notThenable
  | thenable (thenMethod : F)

/-- How the handler of a job ends. -/
inductive HandlerOutcome (V : Type) where
  | returned (val : TVal V)
  | threw (reason : TVal V)
  deriving DecidableEq, Repr

/-- The answers of the allocator for a reaction: for the wrapper of its capability, and for the
queue.
-/
structure ReactionMemory where
  wrapper : Bool
  grows : Bool
  deriving DecidableEq, Repr

/-- What can happen. `jobs` is any event of the queue but those told apart here. -/
inductive PromiseEvent (V F : Type) where
  | construct
  | executorReturns (thrown : Option (TVal V))
  | call (function : ResolvingFunction) (val : TVal V)
  | thenRead (outcome : ThenRead V F) (grows : Bool)
  | protoThen (promise : Nat) (onFulfilled onRejected : Option F) (capability : Option (F × F))
  | react (memory : ReactionMemory)
  | nextJob
  | thenReturns (thrown : Option (TVal V))
  | handlerReturns (outcome : HandlerOutcome V)
  | jobs (event : JobEvent (Job V F))

-----------------------------------------------------------------------------------------
-- Settling
-----------------------------------------------------------------------------------------

/-- `promise_settle` -/
def PromiseHeap.settle (heap : PromiseHeap V F) (promise : Nat) (state : PromiseState)
    (val : TVal V) : PromiseHeap V F :=
  if (heap.promises promise).state ≠ .pending then heap
  else
    {
      heap with
      promises := Function.update heap.promises promise
        { heap.promises promise with state := state, result := val }
    }

/-- The loop over a list that is left, if any is. -/
def reactionWalk (promise : Nat) (state : PromiseState) (result : TVal V)
    : List (Reaction F) → Option (ReactionWalk V F)
  | [] => none
  | reaction :: rest =>
      some
        {
          promise := promise
          state := state
          result := result
          reaction := reaction
          rest := rest
        }

/-- The entry of `promise_trigger_reactions`. -/
def PromiseHeap.triggerReactions (heap : PromiseHeap V F) (promise : Nat) : PromiseHeap V F :=
  let object := heap.promises promise
  if object.state = .pending then heap
  else
    {
      heap with
      promises := Function.update heap.promises promise { object with reactions := [] }
      walking := reactionWalk promise object.state object.result object.reactions
    }

/-- The job of a reaction. -/
def Reaction.job (reaction : Reaction F) (promise : Nat) (state : PromiseState)
    (result : TVal V) : Job V F :=
  let handler := if state = .fulfilled then reaction.onFulfilled else reaction.onRejected
  {
    handler := match handler with
      | some function => .callable function
      | none => if state = .fulfilled then .promiseIdentity else .promiseThrower
    arg := result
    downstream := reaction.downstream
    source := some (promise, reaction)
  }

/-- The queue finds no room for a job. -/
def refuses {J : Type} (jobs : JobHeap J) (grows : Bool) : Bool :=
  jobs.microtaskCapacity < jobs.microtaskQueue.length + 1 && !grows

/-- One turn of the loop of `promise_trigger_reactions`. Without memory for the wrapper the job
carries the reaction's own downstream value, which is no object beside a capability.
-/
def PromiseHeap.react (heap : PromiseHeap V F) (walk : ReactionWalk V F)
    (memory : ReactionMemory) : PromiseHeap V F :=
  let job := walk.reaction.job walk.promise walk.state walk.result
  let carried := match walk.reaction.downstream with
    | .capability _ _ => if memory.wrapper then job else { job with downstream := .none }
    | _ => job
  {
    heap with
    walking := reactionWalk walk.promise walk.state walk.result walk.rest
    jobs := heap.jobs.enqueueMicrotask carried memory.grows
    queued := if refuses heap.jobs memory.grows then heap.queued else heap.queued ++ [carried]
  }

/-- A pending promise is about to be resolved or rejected. -/
def PromiseHeap.noteResolution (heap : PromiseHeap V F) (promise : Nat) (resolver : Resolver)
    : PromiseHeap V F :=
  if (heap.promises promise).state = .pending then
    { heap with resolutions := heap.resolutions ++ [(promise, resolver)] }
  else heap

/-- `promise_settle`, then `promise_trigger_reactions`. -/
def PromiseHeap.settleAndTrigger (heap : PromiseHeap V F) (promise : Nat) (state : PromiseState)
    (val : TVal V) : PromiseHeap V F :=
  (heap.settle promise state val).triggerReactions promise

/-- `promise_resolve_with_value`, up to the reading of `then`. -/
def PromiseHeap.resolveWithValue (heap : PromiseHeap V F) (promise : Nat)
    (value : TVal V) : PromiseHeap V F :=
  if (heap.promises promise).state ≠ .pending then heap
  else if value.isPromise promise then heap.settleAndTrigger promise .rejected .chainingCycle
  else if !value.isObject then heap.settleAndTrigger promise .fulfilled value
  else { heap with activations := .gettingThen promise value :: heap.activations }

/-- `promise_new_capability`, and the number of its cell. -/
def PromiseHeap.newCapability (heap : PromiseHeap V F) (promise : Nat) (thenable : Bool)
    : PromiseHeap V F × Nat :=
  ({
    heap with
    cells := Function.update heap.cells heap.cellCount
      { promise := promise, alreadyResolved := false, thenable := thenable }
    cellCount := heap.cellCount + 1
  }, heap.cellCount)

/-- The rest of `promise_resolve_with_value`. -/
def PromiseHeap.thenRead (heap : PromiseHeap V F) (promise : Nat) (value : TVal V)
    (grows : Bool) : ThenRead V F → PromiseHeap V F
  | .threw reason => heap.settleAndTrigger promise .rejected reason
  | .notThenable => heap.settleAndTrigger promise .fulfilled value
  | .thenable thenMethod =>
      let (made, cell) := heap.newCapability promise true
      let job :=
        {
          handler := .resolveThenable thenMethod value cell
          arg := .undefined
          downstream := .none
          source := none
        }
      { made with jobs := made.jobs.enqueueMicrotask job grows }

/-- `promise_mark_already_called` -/
def PromiseHeap.markAlreadyCalled (heap : PromiseHeap V F) (cell : Nat) : PromiseHeap V F :=
  {
    heap with
    cells := Function.update heap.cells cell { heap.cells cell with alreadyResolved := true }
  }

/-- `builtin_promise_resolve_callback` and `builtin_promise_reject_callback`. -/
def PromiseHeap.callback (heap : PromiseHeap V F) (function : ResolvingFunction)
    (val : TVal V) : PromiseHeap V F :=
  let cell := heap.cells function.cell
  if cell.alreadyResolved then heap
  else
    let marked := (heap.markAlreadyCalled function.cell).noteResolution cell.promise
      (.function function.cell)
    if function.resolves then marked.resolveWithValue cell.promise val
    else if (marked.promises cell.promise).state ≠ .pending then marked
    else marked.settleAndTrigger cell.promise .rejected val

/-- The reject function of a capability is called with an error, if there is one. -/
def PromiseHeap.rejectThrown (heap : PromiseHeap V F) (cell : Nat)
    : Option (TVal V) → PromiseHeap V F
  | none => heap
  | some reason => heap.callback { cell := cell, resolves := false } reason

-----------------------------------------------------------------------------------------
-- Reactions and their jobs
-----------------------------------------------------------------------------------------

/-- `promise_add_reaction` -/
def PromiseHeap.addReaction (heap : PromiseHeap V F) (promise : Nat) (reaction : Reaction F)
    : PromiseHeap V F :=
  let object := heap.promises promise
  {
    heap with
    promises := Function.update heap.promises promise
      { object with reactions := object.reactions ++ [reaction] }
    attached := heap.attached ++ [(promise, reaction)]
  }

/-- The end of `builtin_promise_proto_then`: a promise is created where the constructor is
`Promise` itself, and the reaction is attached. A settled promise is triggered.
-/
def PromiseHeap.protoThen (heap : PromiseHeap V F) (promise : Nat)
    (onFulfilled onRejected : Option F) (capability : Option (F × F)) : PromiseHeap V F :=
  let reaction downstream : Reaction F :=
    {
      id := heap.attached.length
      onFulfilled := onFulfilled
      onRejected := onRejected
      downstream := downstream
    }
  let added := match capability with
    | some (capResolve, capReject) =>
        heap.addReaction promise (reaction (.capability capResolve capReject))
    | none =>
        { heap with promiseCount := heap.promiseCount + 1 }.addReaction promise
          (reaction (.promise heap.promiseCount))
  if (heap.promises promise).state = .pending then added else added.triggerReactions promise

/-- `promise_microtask_after` -/
def PromiseHeap.microtaskAfter (heap : PromiseHeap V F) (job : Job V F)
    (outcome : HandlerOutcome V) : PromiseHeap V F :=
  let reaction := job.source.map fun source => source.2.id
  let ended := { heap with completed := heap.completed ++ reaction.toList }
  match job.downstream with
  | .none => ended
  | .capability capResolve capReject =>
      let use reaction : CapabilityUse V F := match outcome with
        | .returned val => { reaction := reaction, function := capResolve, arg := val }
        | .threw reason => { reaction := reaction, function := capReject, arg := reason }
      { ended with capabilityUses := ended.capabilityUses ++ reaction.toList.map use }
  | .promise downstream =>
      if (heap.promises downstream).state ≠ .pending then ended
      else
        let noted := match reaction with
          | some id => ended.noteResolution downstream (.job id)
          | none => ended
        match outcome with
        | .threw reason => noted.settleAndTrigger downstream .rejected reason
        | .returned val => noted.resolveWithValue downstream val

/-- The handler can end so: the substitutes for a missing handler return or throw their
argument, and the job of a thenable catches what is thrown.
-/
def Job.mayEnd [DecidableEq V] (job : Job V F) (outcome : HandlerOutcome V) : Bool :=
  match job.handler with
  | .callable _ => true
  | .promiseIdentity => outcome = .returned job.arg
  | .promiseThrower => outcome = .threw job.arg
  | .resolveThenable _ _ _ => outcome = .returned .undefined

/-- The job at the cursor of a drain. -/
def JobHeap.atCursor {J : Type} (jobs : JobHeap J) : Option J :=
  match jobs.frames with
  | .drainingJobs cursor :: _ => jobs.microtaskQueue[cursor]?
  | _ => none

/-- What the start of a job calls: its handler, and in the job of a thenable the `then`. -/
def Job.calling (job : Job V F) : List (Activation V F) :=
  match job.handler with
  | .resolveThenable _ _ cell => [.callingThen cell, .handler job]
  | _ => [.handler job]

/-- The events of the queue that change no job: not those of the loop over the queue. -/
def leavesJobs : JobEvent (Job V F) → Bool
  | .enqueue _ _ => false
  | .nextJob => false
  | .handlerReturns => false
  | _ => true

/-- An event between two walks. -/
def PromiseHeap.codeStep [DecidableEq V] (heap : PromiseHeap V F) (event : PromiseEvent V F)
    : Option (PromiseHeap V F) :=
  match event with
  | .construct =>
      if running heap.jobs.frames then
        let (made, cell) := { heap with promiseCount := heap.promiseCount + 1 }.newCapability
          heap.promiseCount false
        some { made with activations := .executor cell :: heap.activations }
      else none
  | .executorReturns thrown =>
      match heap.activations with
      | .executor cell :: rest =>
          some ({ heap with activations := rest }.rejectThrown cell thrown)
      | _ => none
  | .call function val =>
      if running heap.jobs.frames ∧ function.cell < heap.cellCount then
        some (heap.callback function val)
      else none
  | .thenRead outcome grows =>
      match heap.activations with
      | .gettingThen promise value :: rest =>
          some ({ heap with activations := rest }.thenRead promise value grows outcome)
      | _ => none
  | .protoThen promise onFulfilled onRejected capability =>
      if running heap.jobs.frames ∧ promise < heap.promiseCount then
        some (heap.protoThen promise onFulfilled onRejected capability)
      else none
  | .react _ => none
  | .nextJob =>
      match heap.jobs.step .nextJob, heap.jobs.atCursor with
      | some jobs, some job =>
          some { heap with jobs := jobs, activations := job.calling ++ heap.activations }
      | _, _ => none
  | .thenReturns thrown =>
      match heap.activations with
      | .callingThen cell :: rest =>
          some ({ heap with activations := rest }.rejectThrown cell thrown)
      | _ => none
  | .handlerReturns outcome =>
      match heap.activations, heap.jobs.step .handlerReturns with
      | .handler job :: rest, some jobs =>
          let returned := { heap with jobs := jobs, activations := rest }
          if heap.jobs.uncatchableThrow then some returned
          else if job.mayEnd outcome then some (returned.microtaskAfter job outcome)
          else none
      | _, _ => none
  | .jobs event =>
      if leavesJobs event then
        (heap.jobs.step event).map fun jobs => { heap with jobs := jobs }
      else none

/-- One event. A walk over a detached list runs no code of the script. -/
def PromiseHeap.step [DecidableEq V] (heap : PromiseHeap V F) (event : PromiseEvent V F)
    : Option (PromiseHeap V F) :=
  match heap.walking with
  | some walk =>
      match event with
      | .react memory => some (heap.react walk memory)
      | _ => none
  | none => heap.codeStep event

end Boomkat.Promise
