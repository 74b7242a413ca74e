import Boomkat.Correctness.SettlementSteps

/-! Each reaction attached to a promise becomes one job, in the order of attachment and with what
the promise was settled with, as long as the allocator refuses neither the queue nor a wrapper.
-/

namespace Boomkat.Correctness
open Boomkat.Foundation Boomkat.Promise

variable {V F : Type} {heap next : PromiseHeap V F} {promise : Nat}

-----------------------------------------------------------------------------------------
-- The condition and the property
-----------------------------------------------------------------------------------------

/-- The reactions among these that are attached to the promise. -/
def reactionsOf (promise : Nat) (sources : List (Nat × Reaction F)) : List (Reaction F) :=
  sources.filterMap fun source => if source.1 = promise then some source.2 else none

/-- The reactions attached to a promise so far. -/
def attachedTo (heap : PromiseHeap V F) (promise : Nat) : List (Reaction F) :=
  reactionsOf promise heap.attached

/-- The jobs that the queue has taken for reactions of a promise. -/
def queuedFor (heap : PromiseHeap V F) (promise : Nat) : List (Job V F) :=
  heap.queued.filter fun job => job.source.map Prod.fst = some promise

/-- The reactions of a promise that the walk under way has yet to come to. -/
def walkingOn (heap : PromiseHeap V F) (promise : Nat) : List (Reaction F) :=
  match heap.walking with
  | none => []
  | some walk => if walk.promise = promise then walk.reaction :: walk.rest else []

/-- The job that a reaction of a settled promise is to become. -/
def jobOf (heap : PromiseHeap V F) (promise : Nat) (reaction : Reaction F) : Job V F :=
  reaction.job promise (heap.promises promise).state (heap.promises promise).result

/-- No reaction of a pending promise has become a job, and of a settled one each has become its
own, in order, but those that the walk under way has yet to come to.
-/
structure JobPerReaction (heap : PromiseHeap V F) (promise : Nat) : Prop where
  pending : (heap.promises promise).state = .pending → queuedFor heap promise = []
  settled : (heap.promises promise).state ≠ .pending →
    queuedFor heap promise ++ (walkingOn heap promise).map (jobOf heap promise)
      = (attachedTo heap promise).map (jobOf heap promise)

/-- The allocator refuses neither the queue nor the wrapper of a capability while a walk makes a
job.
-/
def KeepsReactions (heap : PromiseHeap V F) : PromiseEvent V F → Prop
  | .react memory =>
      refuses heap.jobs memory.grows = false
      ∧ ∀ walk capResolve capReject, heap.walking = some walk →
        walk.reaction.downstream = .capability capResolve capReject → memory.wrapper = true
  | _ => True

-----------------------------------------------------------------------------------------
-- Settled promises stay
-----------------------------------------------------------------------------------------

/-- A settled promise keeps its state and its result. -/
def KeepsSettled (heap next : PromiseHeap V F) : Prop :=
  ∀ promise, (heap.promises promise).state ≠ .pending →
    (next.promises promise).state = (heap.promises promise).state
    ∧ (next.promises promise).result = (heap.promises promise).result

theorem KeepsSettled.of_same (same : next.promises = heap.promises) : KeepsSettled heap next := by
  intro promise _
  rw [same]
  exact ⟨rfl, rfl⟩

theorem KeepsSettled.trans {middle : PromiseHeap V F} (first : KeepsSettled heap middle)
    (second : KeepsSettled middle next)
    : KeepsSettled heap next := by
  intro promise settled
  obtain ⟨state, result⟩ := first promise settled
  obtain ⟨state', result'⟩ := second promise (state ▸ settled)
  exact ⟨state'.trans state, result'.trans result⟩

theorem reactionWalk_some {state : PromiseState} {result : TVal V} {reactions : List (Reaction F)}
    {walk : ReactionWalk V F} (walking : reactionWalk promise state result reactions = some walk)
    : walk.promise = promise ∧ walk.state = state ∧ walk.result = result
      ∧ reactions = walk.reaction :: walk.rest := by
  cases reactions with
  | nil => cases walking
  | cons reaction rest =>
      cases walking
      exact ⟨rfl, rfl, rfl, rfl⟩

/-- The walk under way over these reactions. -/
theorem walkingOn_reactionWalk {state : PromiseState} {result : TVal V}
    {reactions : List (Reaction F)} {other : Nat}
    (walking : heap.walking = reactionWalk promise state result reactions)
    : walkingOn heap other = if promise = other then reactions else [] := by
  unfold walkingOn
  rw [walking]
  cases reactions with
  | nil => simp [reactionWalk]
  | cons reaction rest => rfl

/-- The reactions of a promise that are yet to become jobs. -/
def waitingOn (heap : PromiseHeap V F) (promise : Nat) : List (Reaction F) :=
  walkingOn heap promise ++ (heap.promises promise).reactions

theorem Resolution.keepsSettled (resolution : Resolution heap promise next)
    : KeepsSettled heap next := by
  cases resolution with
  | ignored _ => exact .of_same rfl
  | settled pending final =>
      intro other settled
      have different : other ≠ promise := fun same => settled (same ▸ pending)
      simp [settledHeap, Function.update_of_ne different]
  | reading _ => exact .of_same rfl

theorem Resolution.walks (walks : Walks heap) (resolution : Resolution heap promise next)
    : Walks next := by
  cases resolution with
  | ignored _ => exact walks
  | @settled state val pending final =>
      constructor
      · intro other settled
        simp only [settledHeap] at settled ⊢
        by_cases same : other = promise
        · rw [same, Function.update_self]
        · rw [Function.update_of_ne same] at settled ⊢
          exact walks.drained other settled
      · intro walk walking
        obtain ⟨rfl, rfl, rfl, _⟩ := reactionWalk_some walking
        simpa [settledHeap] using final
  | reading _ => exact ⟨walks.drained, walks.walked⟩

/-- A resolution moves reactions of its promise to the walk, and changes none. -/
theorem Resolution.waiting (quiet : heap.walking = none)
    (resolution : Resolution heap promise next) (other : Nat)
    : waitingOn next other = waitingOn heap other := by
  have still : ∀ other, walkingOn heap other = [] := fun other => by simp [walkingOn, quiet]
  cases resolution with
  | ignored _ => rfl
  | @settled state val pending final =>
      unfold waitingOn
      rw [walkingOn_reactionWalk rfl, still]
      simp only [settledHeap]
      by_cases same : promise = other
      · rw [← same, if_pos rfl, Function.update_self, List.append_nil, List.nil_append]
      · rw [if_neg same, Function.update_of_ne (Ne.symm same)]
  | reading _ => rfl

-----------------------------------------------------------------------------------------
-- What becomes of reactions
-----------------------------------------------------------------------------------------

/-- The job that a walk hands to the queue: without its wrapper where memory fails. -/
def carriedJob (walk : ReactionWalk V F) (memory : ReactionMemory) : Job V F :=
  let job := walk.reaction.job walk.promise walk.state walk.result
  match walk.reaction.downstream with
  | .capability _ _ => if memory.wrapper then job else { job with downstream := .none }
  | _ => job

@[simp] theorem carriedJob_source (walk : ReactionWalk V F) (memory : ReactionMemory)
    : (carriedJob walk memory).source = some (walk.promise, walk.reaction) := by
  unfold carriedJob
  simp only
  split
  · split <;> rfl
  · rfl

/-- What an event can do to reactions and their jobs. -/
inductive ReactionFlow (heap : PromiseHeap V F)
    : PromiseEvent V F → PromiseHeap V F → Prop where
  | kept {event : PromiseEvent V F} {next : PromiseHeap V F}
    (attached : next.attached = heap.attached) (queued : next.queued = heap.queued)
    (waiting : ∀ promise, waitingOn next promise = waitingOn heap promise)
    : ReactionFlow heap event next
  | added {event : PromiseEvent V F} {next : PromiseHeap V F} {promise : Nat}
    {reaction : Reaction F} (attached : next.attached = heap.attached ++ [(promise, reaction)])
    (queued : next.queued = heap.queued)
    (waiting : ∀ other, waitingOn next other
      = waitingOn heap other ++ if promise = other then [reaction] else [])
    : ReactionFlow heap event next
  | queued {memory : ReactionMemory} {walk : ReactionWalk V F} {next : PromiseHeap V F}
    (walking : heap.walking = some walk) (room : refuses heap.jobs memory.grows = false)
    (attached : next.attached = heap.attached)
    (queued : next.queued = heap.queued ++ [carriedJob walk memory])
    (waiting : ∀ promise, waitingOn heap promise
      = (if walk.promise = promise then [walk.reaction] else []) ++ waitingOn next promise)
    : ReactionFlow heap (.react memory) next
  | lost {memory : ReactionMemory} {walk : ReactionWalk V F} {next : PromiseHeap V F}
    (walking : heap.walking = some walk) (full : refuses heap.jobs memory.grows = true)
    (attached : next.attached = heap.attached) (queued : next.queued = heap.queued)
    (waiting : ∀ promise, waitingOn heap promise
      = (if walk.promise = promise then [walk.reaction] else []) ++ waitingOn next promise)
    : ReactionFlow heap (.react memory) next

theorem react_promises (heap : PromiseHeap V F) (walk : ReactionWalk V F)
    (memory : ReactionMemory)
    : (heap.react walk memory).promises = heap.promises := rfl

/-- A turn of the walk takes the reaction it has come to off those that wait. -/
theorem react_waiting {walk : ReactionWalk V F} (memory : ReactionMemory)
    (walking : heap.walking = some walk) (promise : Nat)
    : waitingOn heap promise
      = (if walk.promise = promise then [walk.reaction] else [])
        ++ waitingOn (heap.react walk memory) promise := by
  have left : (heap.react walk memory).walking
      = reactionWalk walk.promise walk.state walk.result walk.rest := rfl
  unfold waitingOn
  rw [walkingOn_reactionWalk left, react_promises]
  simp only [walkingOn, walking]
  split <;> rfl

/-- What an event does to promises and reactions. -/
structure ReactionAdvance (heap : PromiseHeap V F) (event : PromiseEvent V F) (next : PromiseHeap V F)
    : Prop where
  walks : Walks next
  settled : KeepsSettled heap next
  flow : ReactionFlow heap event next

/-- An event that resolves a promise changes no reaction. -/
theorem Resolution.advances {middle : PromiseHeap V F} {event : PromiseEvent V F}
    (resolution : Resolution middle promise next) (walks : Walks heap)
    (quiet : heap.walking = none) (promises : middle.promises = heap.promises)
    (walking : middle.walking = heap.walking) (attached : middle.attached = heap.attached)
    (queued : middle.queued = heap.queued)
    : ReactionAdvance heap event next := by
  have before : Walks middle := by
    constructor
    · rw [promises]
      exact walks.drained
    · rw [promises, walking]
      exact walks.walked
  refine ⟨resolution.walks before, (KeepsSettled.of_same promises).trans resolution.keepsSettled,
    .kept ?_ ?_ ?_⟩
  · rw [← attached]
    cases resolution <;> rfl
  · rw [← queued]
    cases resolution <;> rfl
  · intro other
    rw [resolution.waiting (walking.trans quiet), waitingOn, waitingOn, walkingOn, walkingOn,
      promises, walking]

/-- An event of other parts of the heap changes neither promises nor reactions. -/
theorem ReactionAdvance.of_same {event : PromiseEvent V F} (walks : Walks heap)
    (promises : next.promises = heap.promises) (walking : next.walking = heap.walking)
    (attached : next.attached = heap.attached) (queued : next.queued = heap.queued)
    : ReactionAdvance heap event next := by
  refine ⟨⟨?_, ?_⟩, .of_same promises, .kept attached queued ?_⟩
  · rw [promises]
    exact walks.drained
  · rw [promises, walking]
    exact walks.walked
  · intro other
    rw [waitingOn, waitingOn, walkingOn, walkingOn, promises, walking]

/-- A turn of the walk. -/
theorem Walks.react (walks : Walks heap) {walk : ReactionWalk V F} (memory : ReactionMemory)
    (walking : heap.walking = some walk)
    : ReactionAdvance heap (.react memory) (heap.react walk memory) := by
  refine ⟨⟨walks.drained, ?_⟩, .of_same rfl, ?_⟩
  · intro later left
    obtain ⟨promise, state, result, _⟩ := reactionWalk_some left
    rw [promise, state, result]
    exact walks.walked walk walking
  · cases full : refuses heap.jobs memory.grows with
    | false =>
        refine .queued walking full rfl ?_ (react_waiting memory walking)
        simp only [PromiseHeap.react, full, Bool.false_eq_true, if_false]
        rfl
    | true =>
        refine .lost walking full rfl ?_ (react_waiting memory walking)
        simp only [PromiseHeap.react, full, if_true]

/-- A call of `then` adds its reaction to those that wait. -/
theorem Walks.protoThen (walks : Walks heap) (quiet : heap.walking = none)
    (onFulfilled onRejected : Option F) (capability : Option (F × F))
    : ReactionAdvance heap (.protoThen promise onFulfilled onRejected capability)
        (heap.protoThen promise onFulfilled onRejected capability) := by
  by_cases pending : (heap.promises promise).state = .pending
  · rw [protoThen_pending _ _ _ pending]
    have drained : ∀ other, (heap.promises other).state ≠ .pending → other ≠ promise :=
      fun other settled same => settled (same ▸ pending)
    refine ⟨⟨?_, ?_⟩, ?_, .added rfl rfl ?_⟩
    · intro other settled
      have different : other ≠ promise := by
        rintro rfl
        simp [pending] at settled
      simp only [Function.update_of_ne different] at settled ⊢
      exact walks.drained other settled
    · intro walk walking
      rw [quiet] at walking
      cases walking
    · intro other settled
      simp [Function.update_of_ne (drained other settled)]
    · intro other
      simp only [waitingOn, walkingOn, quiet]
      by_cases same : promise = other
      · rw [← same, Function.update_self, if_pos rfl, List.append_assoc]
      · rw [Function.update_of_ne (Ne.symm same), if_neg same, List.append_nil]
  · rw [walks.protoThen_settled _ _ _ pending]
    refine ⟨⟨walks.drained, ?_⟩, .of_same rfl, .added rfl rfl ?_⟩
    · intro walk walking
      simp only [reactionWalk, Option.some.injEq] at walking
      subst walking
      exact ⟨rfl, rfl, pending⟩
    · intro other
      simp only [waitingOn, walkingOn, quiet, reactionWalk, List.nil_append]
      by_cases same : promise = other
      · rw [← same, if_pos rfl, walks.drained promise pending]
        rfl
      · rw [if_neg same, List.append_nil, List.nil_append]

/-- Every event keeps settled promises and moves reactions on. -/
theorem Walks.advances [DecidableEq V] (walks : Walks heap) {event : PromiseEvent V F}
    (taken : heap.step event = some next)
    : ReactionAdvance heap event next := by
  cases walks.effect taken with
  | react walking => exact walks.react _ walking
  | construct quiet => exact .of_same walks rfl rfl rfl rfl
  | called quiet suffix calls unused made resolution =>
      exact resolution.advances walks quiet rfl rfl rfl rfl
  | returned quiet suffix used => exact .of_same walks rfl rfl rfl rfl
  | thenRead quiet activations resolution =>
      exact resolution.advances walks quiet rfl rfl rfl rfl
  | thenable quiet activations => exact .of_same walks rfl rfl rfl rfl
  | attached quiet made => exact walks.protoThen quiet _ _ _
  | begun quiet taken cursor => exact .of_same walks rfl rfl rfl rfl
  | interrupted quiet taken activations => exact .of_same walks rfl rfl rfl rfl
  | ended quiet taken activations after =>
      cases after with
      | nothing downstream => exact .of_same walks rfl rfl rfl rfl
      | capability downstream own => exact .of_same walks rfl rfl rfl rfl
      | settled carried settled => exact .of_same walks rfl rfl rfl rfl
      | resolved carried pending resolution =>
          exact resolution.advances walks quiet rfl rfl rfl rfl
  | jobs quiet leaves taken => exact .of_same walks rfl rfl rfl rfl

-----------------------------------------------------------------------------------------
-- Runs that keep reactions
-----------------------------------------------------------------------------------------

/-- The reactions of a promise that have become jobs. -/
def reactionsQueued (heap : PromiseHeap V F) (promise : Nat) : List (Reaction F) :=
  reactionsOf promise (heap.queued.filterMap Job.source)

theorem reactionsOf_append (promise : Nat) (first second : List (Nat × Reaction F))
    : reactionsOf promise (first ++ second)
      = reactionsOf promise first ++ reactionsOf promise second :=
  List.filterMap_append

theorem reactionsOf_singleton (promise other : Nat) (reaction : Reaction F)
    : reactionsOf promise [(other, reaction)] = if other = promise then [reaction] else [] := by
  by_cases same : other = promise <;> simp [reactionsOf, same]

/-- Each job is that of its reaction, and the jobs and the reactions that wait are those attached,
in order.
-/
structure InOrder (heap : PromiseHeap V F) : Prop where
  content : ∀ job ∈ heap.queued, ∃ promise reaction, job.source = some (promise, reaction)
    ∧ (heap.promises promise).state ≠ .pending ∧ job = jobOf heap promise reaction
  order : ∀ promise, reactionsQueued heap promise ++ waitingOn heap promise
    = attachedTo heap promise

/-- The jobs taken for a promise are those of the reactions they were made for. -/
theorem InOrder.queuedFor (inOrder : InOrder heap) (promise : Nat)
    : queuedFor heap promise = (reactionsQueued heap promise).map (jobOf heap promise) := by
  unfold Correctness.queuedFor reactionsQueued
  have content := inOrder.content
  generalize heap.queued = jobs at content
  induction jobs with
  | nil => rfl
  | cons job jobs ih =>
      have rest := ih fun job member => content job (List.mem_cons_of_mem _ member)
      obtain ⟨owner, reaction, source, _, made⟩ := content job (List.mem_cons_self ..)
      rw [List.filterMap_cons, source, List.filter_cons, source]
      by_cases same : owner = promise
      · subst same
        simpa [reactionsOf, ← made] using rest
      · simpa [reactionsOf, same] using rest

theorem InOrder.jobPerReaction (inOrder : InOrder heap) (walks : Walks heap) (promise : Nat)
    : JobPerReaction heap promise := by
  constructor
  · intro pending
    apply List.eq_nil_iff_forall_not_mem.mpr
    intro job member
    obtain ⟨member, source⟩ := List.mem_filter.mp member
    obtain ⟨owner, reaction, own, settled, _⟩ := inOrder.content job member
    obtain rfl : owner = promise := by simpa [own] using source
    exact settled pending
  · intro settled
    have order := inOrder.order promise
    rw [waitingOn, walks.drained promise settled, List.append_nil] at order
    rw [inOrder.queuedFor, ← List.map_append, order]

/-- The job made for a reaction whose wrapper is not refused is its own. -/
theorem carriedJob_kept {walk : ReactionWalk V F} {memory : ReactionMemory}
    (wrapped : ∀ capResolve capReject,
      walk.reaction.downstream = .capability capResolve capReject → memory.wrapper = true)
    : carriedJob walk memory = walk.reaction.job walk.promise walk.state walk.result := by
  unfold carriedJob
  simp only
  split
  · rename_i capResolve capReject downstream
    rw [wrapped capResolve capReject downstream, if_pos rfl]
  · rfl

/-- A job stays that of its reaction. -/
theorem jobOf_kept (settled : KeepsSettled heap next)
    (before : (heap.promises promise).state ≠ .pending) (reaction : Reaction F)
    : jobOf next promise reaction = jobOf heap promise reaction := by
  obtain ⟨state, result⟩ := settled promise before
  rw [jobOf, jobOf, state, result]

theorem InOrder.content_kept (inOrder : InOrder heap) (settled : KeepsSettled heap next)
    : ∀ job ∈ heap.queued, ∃ promise reaction, job.source = some (promise, reaction)
      ∧ (next.promises promise).state ≠ .pending ∧ job = jobOf next promise reaction := by
  intro job member
  obtain ⟨promise, reaction, source, before, made⟩ := inOrder.content job member
  refine ⟨promise, reaction, source, ?_, ?_⟩
  · rw [(settled promise before).1]
    exact before
  · rw [made, jobOf_kept settled before]

/-- An event that meets the condition keeps reactions and jobs in order. -/
theorem InOrder.step (inOrder : InOrder heap) (walks : Walks heap) {event : PromiseEvent V F}
    (keeps : KeepsReactions heap event) (advances : ReactionAdvance heap event next)
    : InOrder next := by
  have order := inOrder.order
  have content := inOrder.content_kept advances.settled
  cases advances.flow with
  | kept attached queued waiting =>
      refine ⟨queued ▸ content, fun promise => ?_⟩
      rw [reactionsQueued, attachedTo, queued, attached, waiting]
      exact order promise
  | added attached queued waiting =>
      refine ⟨queued ▸ content, fun promise => ?_⟩
      rw [reactionsQueued, attachedTo, queued, attached, waiting, reactionsOf_append,
        reactionsOf_singleton, ← List.append_assoc]
      exact congrArg (· ++ _) (order promise)
  | @queued memory walk next walking room attached queued waiting =>
      have kept := carriedJob_kept fun capResolve capReject =>
        keeps.2 walk capResolve capReject walking
      obtain ⟨state, result, final⟩ := walks.walked walk walking
      obtain ⟨state', result'⟩ := advances.settled walk.promise (state ▸ final)
      refine ⟨?_, fun promise => ?_⟩
      · intro job member
        rw [queued] at member
        rcases List.mem_append.mp member with before | now
        · exact content job before
        · refine ⟨walk.promise, walk.reaction, ?_, ?_, ?_⟩
          · rw [List.mem_singleton.mp now, carriedJob_source]
          · rw [state', state]
            exact final
          · rw [List.mem_singleton.mp now, kept, jobOf, state', result', state, result]
      · have split := order promise
        rw [waiting promise] at split
        rw [reactionsQueued, attachedTo, queued, attached, List.filterMap_append,
          List.filterMap_cons, carriedJob_source, List.filterMap_nil, reactionsOf_append,
          reactionsOf_singleton, List.append_assoc]
        exact split
  | lost walking full attached queued waiting =>
      rw [keeps.1] at full
      cases full

-----------------------------------------------------------------------------------------
-- Runs that lose reactions
-----------------------------------------------------------------------------------------

/-- A settled promise has fewer jobs than reactions, or a job that is not its reaction's own. -/
def ReactionLost (heap : PromiseHeap V F) : Prop :=
  ∃ promise, (heap.promises promise).state ≠ .pending
    ∧ ((reactionsQueued heap promise).length + (waitingOn heap promise).length
          < (attachedTo heap promise).length
      ∨ ∃ job ∈ heap.queued, ∃ reaction, job.source = some (promise, reaction)
        ∧ job.downstream ≠ reaction.downstream)

/-- What is lost stays lost. -/
theorem ReactionLost.step (lost : ReactionLost heap) {event : PromiseEvent V F}
    (advances : ReactionAdvance heap event next)
    : ReactionLost next := by
  obtain ⟨promise, settled, lost⟩ := lost
  refine ⟨promise, (advances.settled promise settled).1 ▸ settled, ?_⟩
  rcases lost with fewer | ⟨job, member, wrong⟩
  · refine .inl ?_
    cases advances.flow with
    | kept attached queued waiting =>
        rw [reactionsQueued, attachedTo, queued, attached, waiting]
        exact fewer
    | added attached queued waiting =>
        rw [reactionsQueued, attachedTo, queued, attached, waiting, reactionsOf_append,
          reactionsOf_singleton, List.length_append, List.length_append]
        unfold reactionsQueued attachedTo at fewer
        omega
    | queued walking room attached queued waiting =>
        rw [waiting promise, List.length_append] at fewer
        rw [reactionsQueued, attachedTo, queued, attached, List.filterMap_append,
          List.filterMap_cons, carriedJob_source, List.filterMap_nil, reactionsOf_append,
          reactionsOf_singleton, List.length_append]
        unfold reactionsQueued attachedTo at fewer
        omega
    | lost walking full attached queued waiting =>
        rw [waiting promise, List.length_append] at fewer
        rw [reactionsQueued, attachedTo, queued, attached]
        unfold reactionsQueued attachedTo at fewer
        omega
  · refine .inr ⟨job, ?_, wrong⟩
    cases advances.flow with
    | kept attached queued waiting => exact queued ▸ member
    | added attached queued waiting => exact queued ▸ member
    | queued walking room attached queued waiting =>
        rw [queued]
        exact List.mem_append_left _ member
    | lost walking full attached queued waiting => exact queued ▸ member

theorem react_of_step [DecidableEq V] {memory : ReactionMemory}
    (taken : heap.step (.react memory) = some next)
    : ∃ walk, heap.walking = some walk ∧ next = heap.react walk memory := by
  simp only [PromiseHeap.step] at taken
  cases walking : heap.walking with
  | none =>
      rw [walking] at taken
      cases taken
  | some walk =>
      rw [walking] at taken
      exact ⟨walk, rfl, (Option.some.inj taken).symm⟩

/-- A walk that the allocator refuses something loses a reaction. -/
theorem InOrder.loses [DecidableEq V] (inOrder : InOrder heap) (walks : Walks heap)
    {event : PromiseEvent V F} (fails : ¬KeepsReactions heap event)
    (taken : heap.step event = some next)
    : ReactionLost next := by
  cases event with
  | react memory =>
      obtain ⟨walk, walking, rfl⟩ := react_of_step taken
      obtain ⟨state, _, final⟩ := walks.walked walk walking
      refine ⟨walk.promise, state ▸ final, ?_⟩
      have order := congrArg List.length (inOrder.order walk.promise)
      rw [react_waiting memory walking walk.promise, if_pos rfl] at order
      simp only [List.length_append, List.length_singleton] at order
      cases full : refuses heap.jobs memory.grows with
      | true =>
          refine .inl ?_
          have queued : (heap.react walk memory).queued = heap.queued := by
            simp only [PromiseHeap.react, full, if_true]
          have attached : (heap.react walk memory).attached = heap.attached := rfl
          unfold reactionsQueued attachedTo at order ⊢
          rw [queued, attached]
          omega
      | false =>
          have queued : (heap.react walk memory).queued
              = heap.queued ++ [carriedJob walk memory] := by
            simp only [PromiseHeap.react, full, Bool.false_eq_true, if_false]
            rfl
          refine .inr ⟨carriedJob walk memory, ?_, walk.reaction, carriedJob_source .., ?_⟩
          · rw [queued]
            exact List.mem_append_right _ (List.mem_singleton_self _)
          · intro same
            refine fails ⟨full, fun walk' capResolve capReject walking' downstream => ?_⟩
            obtain rfl : walk = walk' := Option.some.inj (walking.symm.trans walking')
            by_contra refused
            simp [carriedJob, downstream, refused] at same
  | _ => exact absurd trivial fails

theorem queuedFor_length (heap : PromiseHeap V F) (promise : Nat)
    : (queuedFor heap promise).length = (reactionsQueued heap promise).length := by
  unfold queuedFor reactionsQueued
  induction heap.queued with
  | nil => rfl
  | cons job jobs ih =>
      cases source : job.source with
      | none => simpa [source] using ih
      | some owner =>
          by_cases same : owner.1 = promise <;>
            simpa [reactionsOf, source, same] using ih

/-- A promise that has lost a reaction is not in order. -/
theorem ReactionLost.notInOrder (lost : ReactionLost heap) (walks : Walks heap)
    : ¬∀ promise, JobPerReaction heap promise := by
  intro inOrder
  obtain ⟨promise, settled, lost⟩ := lost
  have jobs := (inOrder promise).settled settled
  rcases lost with fewer | ⟨job, member, reaction, source, wrong⟩
  · have length := congrArg List.length jobs
    simp only [List.length_append, List.length_map, queuedFor_length] at length
    rw [waitingOn, walks.drained promise settled, List.append_nil] at fewer
    omega
  · have own : job ∈ queuedFor heap promise :=
      List.mem_filter.mpr ⟨member, by simp [source]⟩
    have listed : job ∈ (attachedTo heap promise).map (jobOf heap promise) := by
      rw [← jobs]
      exact List.mem_append_left _ own
    obtain ⟨other, _, rfl⟩ := List.mem_map.mp listed
    cases Option.some.inj source
    exact wrong rfl

end Boomkat.Correctness
