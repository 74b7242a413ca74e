import Boomkat.Promise.Settlement

/-! What each event of the promise heap does. A promise is settled, and its list detached, in one
go; so a settled promise has no reactions, and the walk over a detached list reads the promise as
it stays.
-/

namespace Boomkat.Correctness
open Boomkat.Foundation Boomkat.Promise

variable {V F : Type} {heap next : PromiseHeap V F} {promise : Nat}

/-- A settled promise has no list, and the walk under way carries what its promise holds. -/
structure Walks (heap : PromiseHeap V F) : Prop where
  drained : ∀ promise, (heap.promises promise).state ≠ .pending →
    (heap.promises promise).reactions = []
  walked : ∀ walk, heap.walking = some walk →
    (heap.promises walk.promise).state = walk.state
    ∧ (heap.promises walk.promise).result = walk.result ∧ walk.state ≠ .pending

/-- A pending promise after it is settled and its list is detached. -/
def settledHeap (heap : PromiseHeap V F) (promise : Nat) (state : PromiseState) (val : TVal V)
    : PromiseHeap V F :=
  {
    heap with
    promises := Function.update heap.promises promise
      { state := state, result := val, reactions := [] }
    walking := reactionWalk promise state val (heap.promises promise).reactions
  }

/-- What resolving or rejecting a promise comes to: nothing, where it is settled; its settlement;
or the reading of `then`.
-/
inductive Resolution (heap : PromiseHeap V F) (promise : Nat) : PromiseHeap V F → Prop where
  | ignored (settled : (heap.promises promise).state ≠ .pending) : Resolution heap promise heap
  | settled {state : PromiseState} {val : TVal V}
    (pending : (heap.promises promise).state = .pending) (final : state ≠ .pending)
    : Resolution heap promise (settledHeap heap promise state val)
  | reading {value : TVal V} (pending : (heap.promises promise).state = .pending)
    : Resolution heap promise
        { heap with activations := .gettingThen promise value :: heap.activations }

/-- Settling comes to a resolution. Witness: on a settled promise both the settlement and the
detachment of an empty list change nothing.
-/
theorem Walks.settleAndTrigger (walks : Walks heap) (quiet : heap.walking = none)
    {state : PromiseState} {val : TVal V} (final : state ≠ .pending)
    : Resolution heap promise (heap.settleAndTrigger promise state val) := by
  by_cases pending : (heap.promises promise).state = .pending
  · have detached : heap.settleAndTrigger promise state val
        = settledHeap heap promise state val := by
      simp [PromiseHeap.settleAndTrigger, PromiseHeap.settle, PromiseHeap.triggerReactions,
        settledHeap, pending, final]
    rw [detached]
    exact .settled pending final
  · have same : heap.settleAndTrigger promise state val = heap := by
      have drained := walks.drained promise pending
      have object : { heap.promises promise with reactions := [] } = heap.promises promise := by
        rw [← drained]
      simp [PromiseHeap.settleAndTrigger, PromiseHeap.settle, PromiseHeap.triggerReactions,
        pending, object, drained, reactionWalk, ← quiet]
    rw [same]
    exact .ignored pending

theorem Walks.resolveWithValue (walks : Walks heap) (quiet : heap.walking = none)
    (value : TVal V)
    : Resolution heap promise (heap.resolveWithValue promise value) := by
  unfold PromiseHeap.resolveWithValue
  split
  · exact .ignored ‹_›
  · rename_i pending
    rw [ne_eq, not_not] at pending
    split
    · exact walks.settleAndTrigger quiet nofun
    · split
      · exact walks.settleAndTrigger quiet nofun
      · exact .reading pending

theorem noteResolution_eq (heap : PromiseHeap V F) (promise : Nat) (resolver : Resolver)
    : heap.noteResolution promise resolver
      = {
          heap with
          resolutions :=
            if (heap.promises promise).state = .pending then
              heap.resolutions ++ [(promise, resolver)]
            else heap.resolutions
        } := by
  unfold PromiseHeap.noteResolution
  split <;> rfl

/-- The heap once a function of the cell counts as called. -/
def calledHeap (heap : PromiseHeap V F) (cell : Nat) : PromiseHeap V F :=
  {
    heap with
    cells := Function.update heap.cells cell { heap.cells cell with alreadyResolved := true }
    resolutions :=
      if (heap.promises (heap.cells cell).promise).state = .pending then
        heap.resolutions ++ [((heap.cells cell).promise, .function cell)]
      else heap.resolutions
  }

/-- The first call of a capability comes to a resolution of its promise. -/
theorem Walks.callback (walks : Walks heap) (quiet : heap.walking = none)
    {function : ResolvingFunction} (val : TVal V)
    (unused : (heap.cells function.cell).alreadyResolved = false)
    : Resolution (calledHeap heap function.cell) (heap.cells function.cell).promise
        (heap.callback function val) := by
  have marked : Walks (calledHeap heap function.cell) := ⟨walks.drained, walks.walked⟩
  have taken : (heap.markAlreadyCalled function.cell).noteResolution
      (heap.cells function.cell).promise (.function function.cell)
      = calledHeap heap function.cell := noteResolution_eq ..
  simp only [PromiseHeap.callback, unused, Bool.false_eq_true, if_false, taken]
  split
  · exact marked.resolveWithValue quiet val
  · split
    · exact .ignored ‹_›
    · exact marked.settleAndTrigger quiet nofun

/-- A later call of a capability does nothing. -/
theorem callback_used {function : ResolvingFunction} (val : TVal V)
    (used : (heap.cells function.cell).alreadyResolved = true)
    : heap.callback function val = heap := by
  simp [PromiseHeap.callback, used]

/-- The cell whose function the event calls. -/
def calledCell (heap : PromiseHeap V F) : PromiseEvent V F → Option Nat
  | .call function _ => some function.cell
  | .executorReturns (some _) =>
      match heap.activations with
      | .executor cell :: _ => some cell
      | _ => none
  | .thenReturns (some _) =>
      match heap.activations with
      | .callingThen cell :: _ => some cell
      | _ => none
  | _ => none

/-- The reaction that a call of `then` attaches. -/
def thenReaction (heap : PromiseHeap V F) (onFulfilled onRejected : Option F)
    (capability : Option (F × F)) : Reaction F :=
  {
    id := heap.attached.length
    onFulfilled := onFulfilled
    onRejected := onRejected
    downstream := match capability with
      | some (capResolve, capReject) => .capability capResolve capReject
      | none => .promise heap.promiseCount
  }

/-- The promises once `then` has made the one it returns. -/
def promisesAfterThen (heap : PromiseHeap V F) (capability : Option (F × F)) : Nat :=
  heap.promiseCount + if capability.isNone then 1 else 0

/-- A reaction waits in the list of a pending promise. -/
theorem protoThen_pending (onFulfilled onRejected : Option F) (capability : Option (F × F))
    (pending : (heap.promises promise).state = .pending)
    : heap.protoThen promise onFulfilled onRejected capability
      = {
          heap with
          promiseCount := promisesAfterThen heap capability
          promises := Function.update heap.promises promise
            {
              heap.promises promise with
              reactions := (heap.promises promise).reactions
                ++ [thenReaction heap onFulfilled onRejected capability]
            }
          attached := heap.attached
            ++ [(promise, thenReaction heap onFulfilled onRejected capability)]
        } := by
  cases capability <;>
    simp [PromiseHeap.protoThen, PromiseHeap.addReaction, thenReaction, promisesAfterThen, pending]

/-- A reaction to a settled promise is walked over at once. -/
theorem Walks.protoThen_settled (walks : Walks heap) (onFulfilled onRejected : Option F)
    (capability : Option (F × F)) (settled : (heap.promises promise).state ≠ .pending)
    : heap.protoThen promise onFulfilled onRejected capability
      = {
          heap with
          promiseCount := promisesAfterThen heap capability
          walking := reactionWalk promise (heap.promises promise).state
            (heap.promises promise).result
            [thenReaction heap onFulfilled onRejected capability]
          attached := heap.attached
            ++ [(promise, thenReaction heap onFulfilled onRejected capability)]
        } := by
  have drained := walks.drained promise settled
  have object : { heap.promises promise with reactions := [] } = heap.promises promise := by
    rw [← drained]
  cases capability <;>
    simp [PromiseHeap.protoThen, PromiseHeap.addReaction, PromiseHeap.triggerReactions,
      thenReaction, promisesAfterThen, settled, drained, object]

/-- What `promise_microtask_after` comes to. -/
inductive AfterJob (heap : PromiseHeap V F) (job : Job V F) : PromiseHeap V F → Prop where
  | nothing (downstream : job.downstream = .none)
    : AfterJob heap job
        {
          heap with
          completed := heap.completed ++ (job.source.map fun source => source.2.id).toList
        }
  | capability {capResolve capReject : F} {function : F} {arg : TVal V}
    (downstream : job.downstream = .capability capResolve capReject)
    (own : function = capResolve ∨ function = capReject)
    : AfterJob heap job
        {
          heap with
          completed := heap.completed ++ (job.source.map fun source => source.2.id).toList
          capabilityUses := heap.capabilityUses
            ++ (job.source.map fun source => source.2.id).toList.map fun reaction =>
              { reaction := reaction, function := function, arg := arg }
        }
  | settled {downstream : Nat} (carried : job.downstream = .promise downstream)
    (settled : (heap.promises downstream).state ≠ .pending)
    : AfterJob heap job
        {
          heap with
          completed := heap.completed ++ (job.source.map fun source => source.2.id).toList
        }
  | resolved {downstream : Nat} {next : PromiseHeap V F}
    (carried : job.downstream = .promise downstream)
    (pending : (heap.promises downstream).state = .pending)
    (resolution : Resolution
      {
        heap with
        completed := heap.completed ++ (job.source.map fun source => source.2.id).toList
        resolutions := heap.resolutions
          ++ (job.source.map fun source => source.2.id).toList.map fun reaction =>
            (downstream, .job reaction)
      }
      downstream next)
    : AfterJob heap job next

theorem Walks.microtaskAfter (walks : Walks heap) (quiet : heap.walking = none) (job : Job V F)
    (outcome : HandlerOutcome V)
    : AfterJob heap job (heap.microtaskAfter job outcome) := by
  unfold PromiseHeap.microtaskAfter
  cases carried : job.downstream with
  | none => exact .nothing carried
  | capability capResolve capReject =>
      cases outcome with
      | returned val => exact .capability carried (.inl rfl)
      | threw reason => exact .capability carried (.inr rfl)
  | promise downstream =>
      simp only
      split
      · exact .settled carried ‹_›
      · rename_i pending
        rw [ne_eq, not_not] at pending
        refine .resolved carried pending ?_
        cases reacted : job.source with
        | none =>
            simp only [Option.map_none, Option.toList_none, List.append_nil, List.map_nil]
            cases outcome with
            | threw reason => exact walks.settleAndTrigger quiet nofun
            | returned val => exact walks.resolveWithValue quiet val
        | some source =>
            simp only [Option.map_some, Option.toList_some, List.map_cons, List.map_nil,
              noteResolution_eq, pending, if_true]
            have kept : Walks
                {
                  heap with
                  completed := heap.completed ++ [source.2.id]
                  resolutions := heap.resolutions ++ [(downstream, .job source.2.id)]
                } :=
              ⟨walks.drained, walks.walked⟩
            cases outcome with
            | threw reason => exact kept.settleAndTrigger quiet nofun
            | returned val => exact kept.resolveWithValue quiet val

/-- Somebody can call the functions of the cell: the script, or what waits for it. -/
def Held (heap : PromiseHeap V F) (cell : Nat) : Prop :=
  cell < heap.cellCount ∨ .executor cell ∈ heap.activations
  ∨ .callingThen cell ∈ heap.activations

/-- What an event does. A call of a function comes from the script or from the engine, which gives
the function of a capability what its executor or thenable has thrown; `rest` is what remains of
the activations.
-/
inductive Effect (heap : PromiseHeap V F) : PromiseEvent V F → PromiseHeap V F → Prop where
  | react {walk : ReactionWalk V F} {memory : ReactionMemory}
    (walking : heap.walking = some walk)
    : Effect heap (.react memory) (heap.react walk memory)
  | construct (quiet : heap.walking = none)
    : Effect heap .construct
        {
          heap with
          promiseCount := heap.promiseCount + 1
          cells := Function.update heap.cells heap.cellCount
            { promise := heap.promiseCount, alreadyResolved := false, thenable := false }
          cellCount := heap.cellCount + 1
          activations := .executor heap.cellCount :: heap.activations
        }
  | called {event : PromiseEvent V F} {cell : Nat} {rest : List (Activation V F)}
    {next : PromiseHeap V F} (quiet : heap.walking = none) (suffix : rest <:+ heap.activations)
    (calls : calledCell heap event = some cell)
    (unused : (heap.cells cell).alreadyResolved = false)
    (held : Held heap cell)
    (resolution : Resolution (calledHeap { heap with activations := rest } cell)
      (heap.cells cell).promise next)
    : Effect heap event next
  | returned {event : PromiseEvent V F} {rest : List (Activation V F)}
    (quiet : heap.walking = none) (suffix : rest <:+ heap.activations)
    (used : ∀ cell, calledCell heap event = some cell →
      Held heap cell ∧ (heap.cells cell).alreadyResolved = true)
    : Effect heap event { heap with activations := rest }
  | thenRead {promise : Nat} {value : TVal V} {rest : List (Activation V F)}
    {outcome : ThenRead V F} {grows : Bool} {next : PromiseHeap V F} (quiet : heap.walking = none)
    (activations : heap.activations = .gettingThen promise value :: rest)
    (resolution : Resolution { heap with activations := rest } promise next)
    : Effect heap (.thenRead outcome grows) next
  | thenable {promise : Nat} {value : TVal V} {rest : List (Activation V F)} {thenMethod : F}
    {grows : Bool} (quiet : heap.walking = none)
    (activations : heap.activations = .gettingThen promise value :: rest)
    : Effect heap (.thenRead (.thenable thenMethod) grows)
        ({ heap with activations := rest }.thenRead promise value grows (.thenable thenMethod))
  | attached {promise : Nat} {onFulfilled onRejected : Option F} {capability : Option (F × F)}
    (quiet : heap.walking = none) (made : promise < heap.promiseCount)
    : Effect heap (.protoThen promise onFulfilled onRejected capability)
        (heap.protoThen promise onFulfilled onRejected capability)
  | begun {jobs : JobHeap (Job V F)} {job : Job V F} (quiet : heap.walking = none)
    (taken : heap.jobs.step .nextJob = some jobs) (cursor : heap.jobs.atCursor = some job)
    : Effect heap .nextJob
        { heap with jobs := jobs, activations := job.calling ++ heap.activations }
  | interrupted {jobs : JobHeap (Job V F)} {job : Job V F} {rest : List (Activation V F)}
    {outcome : HandlerOutcome V} (quiet : heap.walking = none)
    (taken : heap.jobs.step .handlerReturns = some jobs)
    (activations : heap.activations = .handler job :: rest)
    : Effect heap (.handlerReturns outcome)
        { heap with jobs := jobs, activations := rest }
  | ended {jobs : JobHeap (Job V F)} {job : Job V F} {rest : List (Activation V F)}
    {outcome : HandlerOutcome V} {next : PromiseHeap V F} (quiet : heap.walking = none)
    (taken : heap.jobs.step .handlerReturns = some jobs)
    (activations : heap.activations = .handler job :: rest)
    (after : AfterJob { heap with jobs := jobs, activations := rest } job next)
    : Effect heap (.handlerReturns outcome) next
  | jobs {event : JobEvent (Job V F)} {jobs : JobHeap (Job V F)} (quiet : heap.walking = none)
    (leaves : leavesJobs event = true) (taken : heap.jobs.step event = some jobs)
    : Effect heap (.jobs event) { heap with jobs := jobs }

/-- A function of a capability is called, or has been before. -/
theorem Walks.functionCalled (walks : Walks heap) (quiet : heap.walking = none)
    {event : PromiseEvent V F} {function : ResolvingFunction} {rest : List (Activation V F)}
    (val : TVal V) (suffix : rest <:+ heap.activations)
    (calls : calledCell heap event = some function.cell) (held : Held heap function.cell)
    : Effect heap event ({ heap with activations := rest }.callback function val) := by
  cases used : (heap.cells function.cell).alreadyResolved with
  | true =>
      have same : { heap with activations := rest }.callback function val
          = { heap with activations := rest } := callback_used val used
      rw [same]
      refine .returned quiet suffix ?_
      intro cell called
      obtain rfl : function.cell = cell := Option.some.inj (calls.symm.trans called)
      exact ⟨held, used⟩
  | false =>
      have left : Walks { heap with activations := rest } := ⟨walks.drained, walks.walked⟩
      exact .called quiet suffix calls used held (left.callback quiet val used)

/-- Every event has one of these effects. -/
theorem Walks.effect [DecidableEq V] (walks : Walks heap) {event : PromiseEvent V F}
    (taken : heap.step event = some next)
    : Effect heap event next := by
  cases walking : heap.walking with
  | some walk =>
      simp only [PromiseHeap.step, walking] at taken
      cases event with
      | react memory =>
          cases taken
          exact .react walking
      | _ => cases taken
  | none =>
      have quiet := walking
      simp only [PromiseHeap.step, walking] at taken
      unfold PromiseHeap.codeStep at taken
      cases event with
      | construct =>
          simp only [Option.ite_none_right_eq_some, Option.some.injEq] at taken
          obtain ⟨_, rfl⟩ := taken
          exact .construct quiet
      | executorReturns thrown =>
          simp only at taken
          split at taken
          · rename_i cell rest activations
            cases taken
            have suffix : rest <:+ heap.activations := activations ▸ List.suffix_cons ..
            cases thrown with
            | none => exact .returned quiet suffix nofun
            | some reason =>
                refine walks.functionCalled quiet reason suffix ?_ (.inr (.inl ?_))
                · simp [calledCell, activations]
                · rw [activations]
                  exact List.mem_cons_self ..
          · cases taken
      | call function val =>
          simp only [Option.ite_none_right_eq_some, Option.some.injEq] at taken
          obtain ⟨⟨_, made⟩, rfl⟩ := taken
          exact walks.functionCalled quiet val (List.suffix_refl _) rfl (.inl made)
      | thenRead outcome grows =>
          simp only at taken
          split at taken
          · rename_i promise value rest activations
            cases taken
            have left : Walks { heap with activations := rest } := ⟨walks.drained, walks.walked⟩
            cases outcome with
            | threw reason => exact .thenRead quiet activations (left.settleAndTrigger quiet nofun)
            | notThenable => exact .thenRead quiet activations (left.settleAndTrigger quiet nofun)
            | thenable thenMethod => exact .thenable quiet activations
          · cases taken
      | protoThen promise onFulfilled onRejected capability =>
          simp only [Option.ite_none_right_eq_some, Option.some.injEq] at taken
          obtain ⟨⟨_, made⟩, rfl⟩ := taken
          exact .attached quiet made
      | react memory => cases taken
      | nextJob =>
          simp only at taken
          split at taken
          · rename_i jobs job begun cursor
            cases taken
            exact .begun quiet begun cursor
          · cases taken
      | thenReturns thrown =>
          simp only at taken
          split at taken
          · rename_i cell rest activations
            cases taken
            have suffix : rest <:+ heap.activations := activations ▸ List.suffix_cons ..
            cases thrown with
            | none => exact .returned quiet suffix nofun
            | some reason =>
                refine walks.functionCalled quiet reason suffix ?_ (.inr (.inr ?_))
                · simp [calledCell, activations]
                · rw [activations]
                  exact List.mem_cons_self ..
          · cases taken
      | handlerReturns outcome =>
          simp only at taken
          split at taken
          · rename_i job rest jobs activations returned
            split at taken
            · cases taken
              exact .interrupted quiet returned activations
            · split at taken
              · cases taken
                have left : Walks { heap with jobs := jobs, activations := rest } :=
                  ⟨walks.drained, walks.walked⟩
                exact .ended quiet returned activations (left.microtaskAfter quiet job outcome)
              · cases taken
          · cases taken
      | jobs event =>
          simp only [Option.ite_none_right_eq_some, Option.map_eq_some_iff] at taken
          obtain ⟨leaves, jobs, taken, rfl⟩ := taken
          exact .jobs quiet leaves taken

end Boomkat.Correctness
