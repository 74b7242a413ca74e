import Boomkat.Correctness.JobOwnership
import Mathlib.Data.List.Nodup

/-! Along a run each promise that `then` returned is settled by its own job. The number of a
reaction is that of its place among those attached, so at most one job is queued for it, and that
job starts and ends at most once.
-/

namespace Boomkat.Correctness
open Boomkat.Foundation Boomkat.Promise

variable {V F : Type} {heap next : PromiseHeap V F}

/-- The jobs and the reactions that wait are among those attached, in order. -/
def Accounted (heap : PromiseHeap V F) : Prop :=
  ∀ promise, (reactionsQueued heap promise ++ waitingOn heap promise).Sublist
    (attachedTo heap promise)

theorem Accounted.step (accounted : Accounted heap) {event : PromiseEvent V F}
    (advances : ReactionAdvance heap event next)
    : Accounted next := by
  intro promise
  have before := accounted promise
  cases advances.flow with
  | kept attached queued waiting =>
      rw [reactionsQueued, attachedTo, queued, attached, waiting]
      exact before
  | added attached queued waiting =>
      rw [reactionsQueued, attachedTo, queued, attached, waiting, reactionsOf_append,
        reactionsOf_singleton, ← List.append_assoc]
      exact before.append (List.Sublist.refl _)
  | queued walking room attached queued waiting =>
      rw [waiting promise] at before
      rw [reactionsQueued, attachedTo, queued, attached, List.filterMap_append,
        List.filterMap_cons, carriedJob_source, List.filterMap_nil, reactionsOf_append,
        reactionsOf_singleton, List.append_assoc]
      exact before
  | lost walking full attached queued waiting =>
      rw [waiting promise] at before
      rw [reactionsQueued, attachedTo, queued, attached]
      refine List.Sublist.trans ?_ before
      exact (List.sublist_append_right _ _).append_left _

theorem mem_reactionsOf {promise : Nat} {sources : List (Nat × Reaction F)}
    {reaction : Reaction F}
    : reaction ∈ reactionsOf promise sources ↔ (promise, reaction) ∈ sources := by
  unfold reactionsOf
  rw [List.mem_filterMap]
  constructor
  · rintro ⟨⟨owner, other⟩, member, chosen⟩
    by_cases same : owner = promise
    · simp only [same, if_true, Option.some.injEq] at chosen
      rw [← same, ← chosen]
      exact member
    · simp [same] at chosen
  · intro member
    exact ⟨(promise, reaction), member, by simp⟩

/-- The reactions of one promise are among all. -/
theorem reactionsOf_sublist (promise : Nat) (sources : List (Nat × Reaction F))
    : (reactionsOf promise sources).Sublist (sources.map Prod.snd) := by
  unfold reactionsOf
  induction sources with
  | nil => exact List.Sublist.refl _
  | cons source sources ih =>
      rw [List.filterMap_cons, List.map_cons]
      by_cases same : source.1 = promise
      · rw [if_pos same]
        exact ih.cons_cons _
      · rw [if_neg same]
        exact ih.cons _

/-- Reactions have the numbers of their places. -/
theorem Owned.ids (owned : Owned heap)
    : heap.attached.map (fun source => source.2.id) = List.range heap.attached.length := by
  apply List.ext_getElem
  · simp
  · intro place inside _
    rw [List.length_map] at inside
    rw [List.getElem_map, List.getElem_range]
    exact owned.numbered place _ (List.getElem?_eq_getElem inside)

/-- The number tells which reaction it is. -/
theorem Owned.same (owned : Owned heap) {source other : Nat × Reaction F}
    (member : source ∈ heap.attached) (among : other ∈ heap.attached)
    (ids : source.2.id = other.2.id)
    : source = other := by
  obtain ⟨place, there⟩ := List.mem_iff_getElem?.mp member
  obtain ⟨place', there'⟩ := List.mem_iff_getElem?.mp among
  have place_eq : place = place' := by
    rw [← owned.numbered place source there, ids, owned.numbered place' other there']
  rw [place_eq, there'] at there
  exact (Option.some.inj there).symm

/-- At most one job is queued for a reaction. Witness: two would be two entries of one promise
with one number.
-/
theorem Owned.queuedOnce (owned : Owned heap) (accounted : Accounted heap)
    : (reactionIds heap.queued).Nodup := by
  have ids : reactionIds heap.queued
      = (heap.queued.filterMap Job.source).map fun source => source.2.id := by
    rw [reactionIds, List.map_filterMap]
  have among : ∀ source ∈ heap.queued.filterMap Job.source, source ∈ heap.attached := by
    intro source member
    apply mem_reactionsOf.mp
    refine (accounted source.1).subset (List.mem_append_left _ ?_)
    exact mem_reactionsOf.mpr member
  rw [ids, List.nodup_iff_sublist]
  intro id twice
  obtain ⟨pair, sub, mapped⟩ := List.sublist_map_iff.mp twice
  obtain ⟨source, others, rfl, one, mapped⟩ := List.map_eq_cons_iff.mp mapped.symm
  obtain ⟨other, none, rfl, two, mapped⟩ := List.map_eq_cons_iff.mp mapped
  obtain rfl := List.map_eq_nil_iff.mp mapped
  have first := among source (sub.subset (List.mem_cons_self ..))
  have second := among other (sub.subset (List.mem_cons_of_mem _ (List.mem_cons_self ..)))
  obtain rfl := owned.same first second (one.trans two.symm)
  have doubled : [source.2, source.2].Sublist (attachedTo heap source.1) := by
    have chosen : reactionsOf source.1 [source, source] = [source.2, source.2] := by
      simp [reactionsOf]
    rw [← chosen]
    refine List.Sublist.trans ?_ (accounted source.1)
    exact (sub.filterMap _).trans (List.sublist_append_left _ _)
  have distinct : (heap.attached.map fun source => source.2.id).Nodup := by
    rw [owned.ids]
    exact List.nodup_range
  have both := (doubled.trans (reactionsOf_sublist source.1 heap.attached)).map Reaction.id
  rw [List.map_map] at both
  exact List.nodup_iff_sublist.mp distinct _ both

/-- A job that was queued, and so one that has ended, was for a reaction attached. -/
theorem Accounted.attached_of_queued (accounted : Accounted heap) {job : Job V F}
    {source : Nat × Reaction F} (member : job ∈ heap.queued) (made : job.source = some source)
    : source ∈ heap.attached := by
  apply mem_reactionsOf.mp
  refine (accounted source.1).subset (List.mem_append_left _ ?_)
  exact mem_reactionsOf.mpr (List.mem_filterMap.mpr ⟨job, member, made⟩)

theorem Owned.completed_lt (owned : Owned heap) (accounted : Accounted heap) {id : Nat}
    (completed : id ∈ heap.completed)
    : id < heap.attached.length := by
  have once := owned.once id
  have some := List.count_pos_iff.mpr completed
  have queued : id ∈ reactionIds heap.queued := List.count_pos_iff.mp (by omega)
  obtain ⟨job, member, own⟩ := List.mem_filterMap.mp queued
  obtain ⟨source, made, rfl⟩ := Option.map_eq_some_iff.mp own
  have attached := accounted.attached_of_queued member made
  obtain ⟨place, there⟩ := List.mem_iff_getElem?.mp attached
  rw [owned.numbered place source there]
  exact (List.getElem?_eq_some_iff.mp there).1

/-- A reaction is attached, with the promise that `then` returns. -/
theorem Owned.attach (owned : Owned heap) (accounted : Accounted heap) {promise : Nat}
    {onFulfilled onRejected : Option F} {capability : Option (F × F)}
    {promises : Nat → PromiseObject V F} {walking : Option (ReactionWalk V F)}
    (states : ∀ other, (promises other).state = (heap.promises other).state)
    : Owned
        {
          heap with
          promiseCount := promisesAfterThen heap capability
          promises := promises
          walking := walking
          attached := heap.attached
            ++ [(promise, thenReaction heap onFulfilled onRejected capability)]
        } := by
  have own : ∀ other,
      (thenReaction heap onFulfilled onRejected capability).downstream = .promise other →
        other = heap.promiseCount ∧ promisesAfterThen heap capability = heap.promiseCount + 1 := by
    intro other downstream
    cases capability with
    | none =>
        cases downstream
        exact ⟨rfl, rfl⟩
    | some _ => cases downstream
  have more : heap.promiseCount ≤ promisesAfterThen heap capability := Nat.le_add_right ..
  have old : ∀ source ∈ heap.attached, ∀ other, source.2.downstream = .promise other →
      other ≠ heap.promiseCount :=
    fun source member other downstream =>
      Nat.ne_of_lt (owned.made source member other downstream)
  refine {
    owned with
    numbered := ?_
    made := ?_
    distinct := ?_
    cells := ?_
    activations := ?_
    pending := ?_
    reserved := ?_
    taken := ?_
  }
  · intro place source there
    rcases Nat.lt_trichotomy place heap.attached.length with inside | rfl | outside
    · rw [List.getElem?_append_left inside] at there
      exact owned.numbered place source there
    · rw [List.getElem?_concat_length] at there
      cases there
      rfl
    · rw [List.getElem?_eq_none (by simp; omega)] at there
      cases there
  · intro source member other downstream
    rcases List.mem_append.mp member with before | now
    · exact Nat.lt_of_lt_of_le (owned.made source before other downstream) more
    · obtain rfl := List.mem_singleton.mp now
      obtain ⟨rfl, count⟩ := own other downstream
      exact count ▸ Nat.lt_succ_self _
  · intro source member other among promise downstream downstream'
    rcases List.mem_append.mp member with before | now <;>
      rcases List.mem_append.mp among with before' | now'
    · exact owned.distinct source before other before' promise downstream downstream'
    · obtain rfl := List.mem_singleton.mp now'
      exact absurd (own promise downstream').1 (old source before promise downstream)
    · obtain rfl := List.mem_singleton.mp now
      exact absurd (own promise downstream).1 (old other before' promise downstream')
    · rw [List.mem_singleton.mp now, List.mem_singleton.mp now']
  · intro cell inside
    obtain ⟨allocated, plain⟩ := owned.cells cell inside
    refine ⟨Nat.lt_of_lt_of_le allocated more, ?_⟩
    intro made source member downstream
    rcases List.mem_append.mp member with before | now
    · exact plain made source before downstream
    · obtain rfl := List.mem_singleton.mp now
      exact Nat.ne_of_lt allocated (own _ downstream).1
  · intro activation member
    exact (owned.activations activation member).mono (Nat.le_refl _) more
      (List.subset_append_left _ _) (List.Subset.refl _)
  · intro job member
    exact (owned.pending job member).mono (Nat.le_refl _) (List.subset_append_left _ _)
      (List.Subset.refl _)
  · intro other reserved
    have before : Reserved heap other := by
      rcases reserved with unallocated | ⟨source, member, downstream, left⟩
      · exact .inl (Nat.le_trans more unallocated)
      · rcases List.mem_append.mp member with before | now
        · exact .inr ⟨source, before, downstream, left⟩
        · obtain rfl := List.mem_singleton.mp now
          exact .inl (Nat.le_of_eq (own other downstream).1.symm)
    have untouched := owned.reserved other before
    exact ⟨(states other).trans untouched.pending, untouched.uncelled, untouched.unread,
      untouched.unresolved⟩
  · intro source member other downstream completed
    rcases List.mem_append.mp member with before | now
    · exact owned.taken source before other downstream completed
    · obtain rfl := List.mem_singleton.mp now
      exact absurd (owned.completed_lt accounted completed) (Nat.lt_irrefl _)

theorem Owned.protoThen (owned : Owned heap) (accounted : Accounted heap) (walks : Walks heap)
    (promise : Nat) (onFulfilled onRejected : Option F) (capability : Option (F × F))
    : Owned (heap.protoThen promise onFulfilled onRejected capability) := by
  by_cases pending : (heap.promises promise).state = .pending
  · rw [protoThen_pending _ _ _ pending]
    refine owned.attach accounted ?_
    intro other
    by_cases same : other = promise
    · rw [same, Function.update_self]
    · rw [Function.update_of_ne same]
  · rw [walks.protoThen_settled _ _ _ pending]
    exact owned.attach accounted fun _ => rfl

-----------------------------------------------------------------------------------------
-- Events of jobs
-----------------------------------------------------------------------------------------

/-- The walk hands a job to the queue. -/
theorem Owned.react (owned : Owned heap) (accounted : Accounted heap) {walk : ReactionWalk V F}
    (memory : ReactionMemory) (walking : heap.walking = some walk)
    : Owned (heap.react walk memory) := by
  have attached : (walk.promise, walk.reaction) ∈ heap.attached := by
    apply mem_reactionsOf.mp
    refine (accounted walk.promise).subset (List.mem_append_right _ ?_)
    rw [react_waiting memory walking, if_pos rfl]
    exact List.mem_append_left _ (List.mem_singleton_self _)
  have pending := pendingJobs_enqueueMicrotask owned.oneDrain (carriedJob walk memory)
    memory.grows
  have jobs : (heap.react walk memory).jobs
      = heap.jobs.enqueueMicrotask (carriedJob walk memory) memory.grows := rfl
  have queued : (heap.react walk memory).queued
      = if refuses heap.jobs memory.grows then heap.queued
        else heap.queued ++ [carriedJob walk memory] := rfl
  have more : heap.queued ⊆ (heap.react walk memory).queued := by
    rw [queued]
    split
    · exact List.Subset.refl _
    · exact List.subset_append_left _ _
  refine {
    owned with
    oneDrain := ?_
    activations := ?_
    pending := ?_
    once := ?_
    reserved := ?_
  }
  · rw [jobs]
    exact owned.oneDrain.enqueueMicrotask _ _
  · intro activation member
    exact (owned.activations activation member).mono (Nat.le_refl _) (Nat.le_refl _)
      (List.Subset.refl _) more
  · intro job member
    rw [jobs, pending] at member
    cases full : refuses heap.jobs memory.grows with
    | true =>
        rw [full, if_pos rfl] at member
        exact (owned.pending job member).mono (Nat.le_refl _) (List.Subset.refl _) more
    | false =>
        rw [full, if_neg Bool.false_ne_true] at member
        rcases List.mem_append.mp member with before | now
        · exact (owned.pending job before).mono (Nat.le_refl _) (List.Subset.refl _) more
        · obtain rfl := List.mem_singleton.mp now
          refine ⟨?_, ?_, ?_⟩
          · intro thenMethod resolution cell handler
            exact absurd handler (carriedJob_handler walk memory thenMethod resolution cell)
          · intro unsourced
            simp at unsourced
          · intro source made
            rw [carriedJob_source, Option.some.injEq] at made
            subst made
            refine ⟨attached, ?_, carriedJob_carries walk memory⟩
            rw [queued, full, if_neg Bool.false_ne_true]
            exact List.mem_append_right _ (List.mem_singleton_self _)
  · intro id
    have once := owned.once id
    rw [jobs, pending, queued]
    cases full : refuses heap.jobs memory.grows with
    | true =>
        simp only [if_true]
        exact once
    | false =>
        simp only [Bool.false_eq_true, if_false, reactionIds, List.filterMap_append,
          List.count_append]
        unfold reactionIds at once
        have same : (heap.react walk memory).completed = heap.completed := rfl
        have running : (heap.react walk memory).activations = heap.activations := rfl
        rw [same, running]
        omega
  · intro promise reserved
    have untouched := owned.reserved promise reserved
    exact ⟨untouched.pending, untouched.uncelled, untouched.unread, untouched.unresolved⟩

theorem runningJobs_calling (job : Job V F) (activations : List (Activation V F))
    : runningJobs (job.calling ++ activations) = job :: runningJobs activations := by
  unfold Job.calling
  split <;> rfl

/-- A job starts. -/
theorem Owned.begun (owned : Owned heap) {jobs : JobHeap (Job V F)} {job : Job V F}
    (taken : heap.jobs.step .nextJob = some jobs) (cursor : heap.jobs.atCursor = some job)
    : Owned { heap with jobs := jobs, activations := job.calling ++ heap.activations } := by
  have pending := pendingJobs_nextJob taken cursor
  have sound : JobSound heap job := owned.pending job (pending ▸ List.mem_cons_self ..)
  refine {
    owned with
    oneDrain := owned.oneDrain.step taken
    activations := ?_
    pending := ?_
    once := ?_
    reserved := ?_
  }
  · intro activation member
    rcases List.mem_append.mp member with now | before
    · have calls : activation = .handler job ∨ ∃ cell, activation = .callingThen cell
          ∧ cell < heap.cellCount := by
        unfold Job.calling at now
        split at now
        · rename_i thenMethod resolution cell handler
          rcases List.mem_cons.mp now with rfl | now
          · exact .inr ⟨cell, rfl, sound.cell thenMethod resolution cell handler⟩
          · exact .inl (List.mem_singleton.mp now)
        · exact .inl (List.mem_singleton.mp now)
      rcases calls with rfl | ⟨cell, rfl, inside⟩
      · exact JobSound.mono sound (Nat.le_refl _) (List.Subset.refl _) (List.Subset.refl _)
      · exact inside
    · exact (owned.activations activation before).mono (Nat.le_refl _) (Nat.le_refl _)
        (List.Subset.refl _) (List.Subset.refl _)
  · intro other member
    refine (owned.pending other ?_).mono (Nat.le_refl _) (List.Subset.refl _)
      (List.Subset.refl _)
    rw [pending]
    exact List.mem_cons_of_mem _ member
  · intro id
    have once := owned.once id
    rw [pending] at once
    rw [runningJobs_calling]
    have split : ∀ jobs : List (Job V F), reactionIds (job :: jobs)
        = reactionIds [job] ++ reactionIds jobs := fun jobs => by
      unfold reactionIds
      rw [← List.filterMap_append, List.singleton_append]
    rw [split, List.count_append] at once ⊢
    simp only
    omega
  · intro promise reserved
    have untouched := owned.reserved promise reserved
    refine ⟨untouched.pending, untouched.uncelled, ?_, untouched.unresolved⟩
    intro value member
    rcases List.mem_append.mp member with now | before
    · unfold Job.calling at now
      split at now <;> simp at now
    · exact untouched.unread value before

/-- A handler returns to its drain, and the job is given up or about to settle. -/
theorem Owned.returned (owned : Owned heap) {jobs : JobHeap (Job V F)} {job : Job V F}
    {rest : List (Activation V F)} (taken : heap.jobs.step .handlerReturns = some jobs)
    (activations : heap.activations = .handler job :: rest)
    : Owned { heap with jobs := jobs, activations := rest } := by
  have left := owned.withRest (activations ▸ List.suffix_cons (Activation.handler job) rest)
  refine left.withJobs (owned.oneDrain.step taken) ?_ ?_
  · intro other member
    rcases pendingJobs_handlerReturns taken with none | same
    · rw [none] at member
      cases member
    · rw [same] at member
      exact left.pending other member
  · intro id
    rcases pendingJobs_handlerReturns taken with none | same
    · rw [none]
      exact Nat.zero_le _
    · exact Nat.le_of_eq (by rw [same])

/-- The job of a reaction has not ended while its handler runs. -/
theorem Owned.unended (owned : Owned heap) (accounted : Accounted heap) {job : Job V F}
    {rest : List (Activation V F)} (source : Nat × Reaction F)
    (activations : heap.activations = .handler job :: rest) (made : job.source = some source)
    : source.2.id ∉ heap.completed := by
  intro completed
  have once := owned.once source.2.id
  have ended := List.count_pos_iff.mpr completed
  have atMost := List.nodup_iff_count_le_one.mp (owned.queuedOnce accounted) source.2.id
  have runs : source.2.id ∈ reactionIds (runningJobs heap.activations) := by
    rw [activations]
    exact List.mem_filterMap.mpr ⟨job, List.mem_cons_self .., by rw [made]; rfl⟩
  have runs := List.count_pos_iff.mpr runs
  omega

/-- A job ends, and resolves the promise it was to settle, if it was to settle one. -/
theorem Owned.finish (owned : Owned heap) (accounted : Accounted heap)
    {jobs : JobHeap (Job V F)} {job : Job V F} {rest : List (Activation V F)}
    {source : Nat × Reaction F} (resolutions : List (Nat × Resolver))
    (capabilityUses : List (CapabilityUse V F))
    (taken : heap.jobs.step .handlerReturns = some jobs)
    (activations : heap.activations = .handler job :: rest) (made : job.source = some source)
    (resolves : ∀ promise, source.2.downstream = .promise promise →
      resolutionsOf { heap with resolutions := resolutions } promise
        = resolutionsOf heap promise ++ [.job source.2.id])
    (leaves : ∀ promise, source.2.downstream ≠ .promise promise →
      resolutionsOf { heap with resolutions := resolutions } promise
        = resolutionsOf heap promise)
    (uses : ∀ use ∈ capabilityUses, use ∈ heap.capabilityUses ∨ use.reaction = source.2.id)
    : Owned
        {
          heap with
          jobs := jobs
          activations := rest
          completed := heap.completed ++ [source.2.id]
          resolutions := resolutions
          capabilityUses := capabilityUses
        } := by
  have returned := owned.returned taken activations
  have unended := owned.unended accounted source activations made
  have sound : JobSound heap job :=
    owned.activations (.handler job) (activations ▸ List.mem_cons_self ..)
  obtain ⟨attached, _, _⟩ := sound.sourced source made
  refine {
    returned with
    activations := ?_
    pending := ?_
    once := ?_
    reserved := ?_
    taken := ?_
    uses := ?_
  }
  · intro activation member
    exact (returned.activations activation member).mono (Nat.le_refl _) (Nat.le_refl _)
      (List.Subset.refl _) (List.Subset.refl _)
  · intro other member
    exact (returned.pending other member).mono (Nat.le_refl _) (List.Subset.refl _)
      (List.Subset.refl _)
  · intro id
    have once := owned.once id
    have fewer : (reactionIds (pendingJobs jobs)).count id
        ≤ (reactionIds (pendingJobs heap.jobs)).count id := by
      rcases pendingJobs_handlerReturns taken with none | same
      · rw [none]
        exact Nat.zero_le _
      · exact Nat.le_of_eq (by rw [same])
    have running : reactionIds (runningJobs heap.activations)
        = source.2.id :: reactionIds (runningJobs rest) := by
      rw [activations]
      simp [runningJobs, reactionIds, made]
    rw [running, List.count_cons] at once
    rw [List.count_append, List.count_singleton]
    simp only
    omega
  · intro promise reserved
    have before : Reserved heap promise := by
      rcases reserved with unallocated | ⟨other, member, downstream, left⟩
      · exact .inl unallocated
      · exact .inr ⟨other, member, downstream,
          fun completed => left (List.mem_append_left _ completed)⟩
    have foreign : source.2.downstream ≠ .promise promise := by
      intro own
      rcases reserved with unallocated | ⟨other, member, downstream, left⟩
      · exact absurd (owned.made source attached promise own) (Nat.not_lt_of_le unallocated)
      · apply left
        rw [owned.distinct other member source attached promise downstream own]
        exact List.mem_append_right _ (List.mem_singleton_self _)
    have untouched := owned.reserved promise before
    refine ⟨untouched.pending, untouched.uncelled, ?_, ?_⟩
    · intro value member
      exact untouched.unread value (activations ▸ List.mem_cons_of_mem _ member)
    · exact (leaves promise foreign).trans untouched.unresolved
  · intro other member promise downstream completed
    by_cases own : source.2.downstream = .promise promise
    · have same := owned.distinct other member source attached promise downstream own
      have untouched := owned.reserved promise (.inr ⟨source, attached, own, unended⟩)
      refine ⟨[], ?_, fun _ no => by cases no⟩
      have resolved := resolves promise own
      rw [untouched.unresolved] at resolved
      rw [same]
      exact resolved
    · rcases List.mem_append.mp completed with before | now
      · obtain ⟨cells, resolved, thenables⟩ := owned.taken other member promise downstream before
        exact ⟨cells, (leaves promise own).trans resolved, thenables⟩
      · have same := owned.same member attached (List.mem_singleton.mp now)
        exact absurd (same ▸ downstream) own
  · intro use member
    rcases uses use member with before | own
    · exact List.mem_append_left _ (owned.uses use before)
    · rw [own]
      exact List.mem_append_right _ (List.mem_singleton_self _)

/-- A job that is to settle something was made for a reaction that is to. -/
theorem JobSound.source {job : Job V F} (sound : JobSound heap job)
    (carried : job.downstream ≠ .none)
    : ∃ source, job.source = some source ∧ source ∈ heap.attached
      ∧ source.2.downstream = job.downstream := by
  cases made : job.source with
  | none => exact absurd (sound.unsourced made) carried
  | some source =>
      obtain ⟨attached, _, same | ⟨_, _, _, refused⟩⟩ := sound.sourced source made
      · exact ⟨source, rfl, attached, same.symm⟩
      · exact absurd refused carried

/-- A job ends. -/
theorem Owned.ended (owned : Owned heap) (accounted : Accounted heap)
    {jobs : JobHeap (Job V F)} {job : Job V F} {rest : List (Activation V F)}
    (taken : heap.jobs.step .handlerReturns = some jobs)
    (activations : heap.activations = .handler job :: rest)
    (after : AfterJob { heap with jobs := jobs, activations := rest } job next)
    : Owned next := by
  have sound : JobSound heap job :=
    owned.activations (.handler job) (activations ▸ List.mem_cons_self ..)
  cases after with
  | nothing downstream =>
      cases made : job.source with
      | none => simpa [made] using owned.returned taken activations
      | some source =>
          obtain ⟨_, _, carries⟩ := sound.sourced source made
          refine owned.finish accounted _ _ taken activations made ?_ (fun _ _ => rfl)
            (fun use member => .inl member)
          intro promise own
          rcases carries with same | ⟨_, _, other, _⟩
          · rw [downstream, own] at same
            cases same
          · rw [own] at other
            cases other
  | @capability capResolve capReject function arg downstream own =>
      obtain ⟨source, made, _, same⟩ := sound.source (by rw [downstream]; nofun)
      simp only [made, Option.map_some, Option.toList_some, List.map_cons, List.map_nil]
      refine owned.finish accounted _ _ taken activations made ?_ (fun _ _ => rfl) ?_
      · intro promise promised
        rw [same, downstream] at promised
        cases promised
      · intro use member
        rcases List.mem_append.mp member with before | now
        · exact .inl before
        · exact .inr (by rw [List.mem_singleton.mp now])
  | @settled downstream carried settled =>
      obtain ⟨source, made, attached, same⟩ := sound.source (by rw [carried]; nofun)
      have reserved : Reserved heap downstream :=
        .inr ⟨source, attached, same.trans carried,
          owned.unended accounted source activations made⟩
      exact absurd (owned.reserved downstream reserved).pending settled
  | @resolved downstream _ carried pending resolution =>
      obtain ⟨source, made, attached, same⟩ := sound.source (by rw [carried]; nofun)
      simp only [made, Option.map_some, Option.toList_some, List.map_cons, List.map_nil]
        at resolution
      have own := same.trans carried
      have finished := owned.finish accounted
        (heap.resolutions ++ [(downstream, .job source.2.id)]) heap.capabilityUses
        taken activations made ?_ ?_ (fun use member => .inl member)
      · refine finished.resolution ?_ resolution
        rintro (unallocated | ⟨other, member, promised, left⟩)
        · exact absurd (owned.made source attached downstream own)
            (Nat.not_lt_of_le unallocated)
        · apply left
          rw [owned.distinct other member source attached downstream promised own]
          exact List.mem_append_right _ (List.mem_singleton_self _)
      · intro promise promised
        rw [own, Downstream.promise.injEq] at promised
        simp [resolutionsOf, promised]
      · intro promise foreign
        have different : downstream ≠ promise := fun same => foreign (same ▸ own)
        simp [resolutionsOf, different]

theorem Owned.made_of_held (owned : Owned heap) {cell : Nat} (held : Held heap cell)
    : cell < heap.cellCount := by
  rcases held with inside | active | active
  · exact inside
  · exact owned.activations _ active
  · exact owned.activations _ active

/-- Every event leaves promises to their jobs. -/
theorem Owned.step [DecidableEq V] (owned : Owned heap) (accounted : Accounted heap)
    (walks : Walks heap) {event : PromiseEvent V F} (taken : heap.step event = some next)
    : Owned next := by
  cases walks.effect taken with
  | react walking => exact owned.react accounted _ walking
  | construct quiet => exact owned.construct
  | @called _ cell rest _ quiet suffix calls unused held resolution =>
      have inside := owned.made_of_held held
      have called := (owned.withRest suffix).called inside
      refine called.resolution ?_ resolution
      have free := called.free_of_cell inside
      rwa [(calledHeap_cell _ cell cell).1] at free
  | returned quiet suffix used => exact owned.withRest suffix
  | @thenRead promise value rest outcome grows _ quiet activations resolution =>
      have reading := owned.free_of_reading (activations ▸ List.mem_cons_self ..)
      have suffix : rest <:+ heap.activations := activations ▸ List.suffix_cons ..
      exact (owned.withRest suffix).resolution reading resolution
  | @thenable promise value rest thenMethod grows quiet activations =>
      have reading := owned.free_of_reading (activations ▸ List.mem_cons_self ..)
      have suffix : rest <:+ heap.activations := activations ▸ List.suffix_cons ..
      exact (owned.withRest suffix).thenable _ _ _ reading
  | attached quiet made => exact owned.protoThen accounted walks _ _ _ _
  | begun quiet begun cursor => exact owned.begun begun cursor
  | interrupted quiet returned activations => exact owned.returned returned activations
  | ended quiet returned activations after => exact owned.ended accounted returned activations after
  | @jobs event jobs quiet leaves changed =>
      have pending := pendingJobs_of_leavesJobs owned.oneDrain leaves changed
      refine owned.withJobs (owned.oneDrain.step changed) ?_ fun id => ?_
      · rw [pending]
        exact owned.pending
      · exact Nat.le_of_eq (by rw [pending])

end Boomkat.Correctness
