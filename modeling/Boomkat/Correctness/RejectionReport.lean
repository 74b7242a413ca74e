import Boomkat.Promise.RejectionReport
import Mathlib.Data.List.Basic

/-! A report takes up every listed promise exactly once and keeps every promise rejected
meanwhile, exactly when no tracker leaves more promises on the list than the report has passed.
-/

namespace Boomkat.Correctness
open Boomkat.Foundation Boomkat.Promise

variable {V : Type} {heap next : RejectionHeap V}

-----------------------------------------------------------------------------------------
-- The condition and the property
-----------------------------------------------------------------------------------------

/-- Settling the promise rejects it without a handler. -/
def RejectsUnobserved (heap : RejectionHeap V) (promise : Nat) (state : PromiseState) : Prop :=
  (heap.promises promise).state = .pending ∧ state = .rejected
    ∧ (heap.promises promise).isHandled = false

instance (heap : RejectionHeap V) (promise : Nat) (state : PromiseState)
    : Decidable (RejectsUnobserved heap promise state) :=
  inferInstanceAs (Decidable (_ ∧ _ ∧ _))

/-- The event spares every slot that a report in progress has yet to visit, loses no slot in
use, and finds memory where the list has to grow.
-/
def SparesSlots (heap : RejectionHeap V) : RejectionEvent V → Prop
  | .settle promise state _ grows =>
      RejectsUnobserved heap promise state →
        (∀ walk ∈ heap.walks,
          heap.unhandledCount ≤ walk.index ∨ walk.length ≤ heap.unhandledCount)
        ∧ (heap.unhandledCapacity ≤ heap.unhandledCount → grows = true)
  | .resume => ∀ walk ∈ heap.walks.head?, heap.unhandledCount ≤ walk.index
  | _ => True

/-- The promises that reports have taken up. -/
def takenUp (heap : RejectionHeap V) : List Nat := heap.visited.map Prod.fst

/-- A promise is on the list or was taken up once. -/
def AccountedFor (heap : RejectionHeap V) (promise : Nat) : Prop :=
  (heap.onList promise ∧ promise ∉ takenUp heap)
    ∨ (¬heap.onList promise ∧ (takenUp heap).count promise = 1)

/-- The heap before a report: its list holds distinct promises, every slot a rejected one, and
the flag of each promise says whether it is listed.
-/
structure BeforeReport (heap : RejectionHeap V) : Prop where
  idle : heap.walks = []
  unvisited : heap.visited = []
  nothingNoted : heap.unobserved = []
  filled : ∀ slot, slot < heap.unhandledCount →
    ∃ promise, heap.unhandledRejections slot = some promise
  flagged : ∀ slot promise, heap.unhandledRejections slot = some promise →
    ((heap.promises promise).inRejectList = true ↔ slot < heap.unhandledCount)
  distinct : ∀ slot slot' promise, slot < heap.unhandledCount → slot' < heap.unhandledCount →
    heap.unhandledRejections slot = some promise →
    heap.unhandledRejections slot' = some promise → slot = slot'
  held : ∀ promise, (heap.promises promise).inRejectList = true →
    ∃ slot, heap.unhandledRejections slot = some promise
  rejected : ∀ slot promise, heap.unhandledRejections slot = some promise →
    (heap.promises promise).state = .rejected

/-- The heap with no record of the reports so far. -/
def RejectionHeap.fresh (heap : RejectionHeap V) : RejectionHeap V :=
  { heap with unobserved := [], visited := [] }

/-- A promise is due a report: there is a tracker, the promise is rejected and nothing handles it. -/
def dueReport (heap : RejectionHeap V) (promise : Nat) : Bool :=
  heap.hasTracker && (heap.promises promise).state = .rejected
    && !(heap.promises promise).isHandled

/-- The promise that an event takes up, with its verdict: a visit takes up what is in the next slot
of the innermost report.
-/
def takesUp (heap : RejectionHeap V) : RejectionEvent V → List (Nat × Bool)
  | .visit =>
      (heap.walks.head?.bind fun walk => heap.unhandledRejections walk.index).toList.map
        fun promise => (promise, dueReport heap promise)
  | _ => []

/-- The promise that an event rejects without a handler. -/
def rejects (heap : RejectionHeap V) : RejectionEvent V → List Nat
  | .settle promise state _ _ =>
      if RejectsUnobserved heap promise state then [promise] else []
  | _ => []

/-- An event notes exactly the promises that it takes up or rejects, and a visit calls the tracker
exactly for a promise that is due then.
-/
structure NotesExact (heap : RejectionHeap V) (event : RejectionEvent V)
    (next : RejectionHeap V) : Prop where
  visited : next.visited = takesUp heap event ++ heap.visited
  unobserved : next.unobserved = rejects heap event ++ heap.unobserved
  tracker : event = .visit →
    (next.running = true ↔ ∃ promise, (promise, true) ∈ takesUp heap event)

/-- Reporting has lost nothing and repeated nothing since `heap`: the promises listed there
have been taken up once, those rejected without a handler since are on the list or have been
taken up once, the tracker was called for each promise exactly if it was due when a visit took it
up, and the list is fit for the next report.
-/
structure ReportComplete (heap : RejectionHeap V) (events : List (RejectionEvent V))
    (last : RejectionHeap V) : Prop where
  once : ∀ promise, heap.onList promise →
    ¬last.onList promise ∧ (takenUp last).count promise = 1
  noted : ∀ promise ∈ last.unobserved, AccountedFor last promise
  notes : Along RejectionHeap.step
    (fun here event => ∀ next, here.step event = some next → NotesExact here event next) heap events
  reported : ∀ promise ∈ takenUp last, ∃ before after here,
    events = before ++ .visit :: after ∧ replay RejectionHeap.step heap before = some here
      ∧ (promise, dueReport here promise) ∈ takesUp here .visit
      ∧ ((promise, true) ∈ last.visited ↔ dueReport here promise = true)
  ready : BeforeReport (RejectionHeap.fresh last)

-----------------------------------------------------------------------------------------
-- The slots in use
-----------------------------------------------------------------------------------------

/-- The first slot that the rest of a report looks at. -/
def Walk.rest (walk : Walk) : Nat := if walk.visiting then walk.index + 1 else walk.index

/-- A report in progress has yet to visit the slot. -/
def Awaits (walk : Walk) (slot : Nat) : Prop := Walk.rest walk ≤ slot ∧ slot < walk.length

/-- The list of this length or the rest of a report will reach the slot. -/
def InUse (count : Nat) (walks : List Walk) (slot : Nat) : Prop :=
  slot < count ∨ ∃ walk ∈ walks, Awaits walk slot

/-- The list and the reports in progress share no slot, every slot in use holds its own
rejected promise, the flag of a promise says whether a slot in use holds it, and every promise
that is `owed` a report or was noted since is either in use or was taken up once.
-/
structure InStep (owed : List Nat) (heap : RejectionHeap V) : Prop where
  filled : ∀ slot, InUse heap.unhandledCount heap.walks slot →
    ∃ promise, heap.unhandledRejections slot = some promise
  flagged : ∀ slot promise, heap.unhandledRejections slot = some promise →
    ((heap.promises promise).inRejectList = true ↔ InUse heap.unhandledCount heap.walks slot)
  distinct : ∀ slot slot' promise, InUse heap.unhandledCount heap.walks slot →
    InUse heap.unhandledCount heap.walks slot' →
    heap.unhandledRejections slot = some promise →
    heap.unhandledRejections slot' = some promise → slot = slot'
  listed : ∀ promise, (heap.promises promise).inRejectList = true →
    ∃ slot, heap.unhandledRejections slot = some promise
  settled : ∀ slot promise, heap.unhandledRejections slot = some promise →
    (heap.promises promise).state ≠ .pending
  apart : ∀ walk ∈ heap.walks, ∀ slot, Awaits walk slot → heap.unhandledCount ≤ slot
  nested : heap.walks.Pairwise fun walk outer => ∀ slot < walk.length, ¬Awaits outer slot
  visiting : ∀ walk ∈ heap.walks.tail, walk.visiting = true
  inside : ∀ walk ∈ heap.walks, walk.visiting = true → walk.index < walk.length
  once : (takenUp heap).Nodup
  taken : ∀ promise ∈ takenUp heap, (heap.promises promise).inRejectList = false
    ∧ (heap.promises promise).state ≠ .pending
  accounted : ∀ promise, promise ∈ owed ∨ promise ∈ heap.unobserved →
    (heap.promises promise).inRejectList = true ∨ promise ∈ takenUp heap
  known : ∀ promise, (heap.promises promise).inRejectList = true →
    promise ∈ owed ∨ promise ∈ heap.unobserved

variable {owed : List Nat}

/-- Changes of promises that leave the flags alone and settle promises only. -/
theorem InStep.withPromises (inStep : InStep owed heap) {promises : Nat → PromiseRecord V}
    (flags : ∀ promise, (promises promise).inRejectList = (heap.promises promise).inRejectList)
    (settles : ∀ promise, (heap.promises promise).state ≠ .pending →
      (promises promise).state ≠ .pending)
    : InStep owed { heap with promises := promises } := by
  refine
    {
      filled := inStep.filled
      flagged := ?flagged
      distinct := inStep.distinct
      listed := ?listed
      settled := ?settled
      apart := inStep.apart
      nested := inStep.nested
      visiting := inStep.visiting
      inside := inStep.inside
      once := inStep.once
      taken := ?taken
      accounted := ?accounted
      known := ?known
    }
  case flagged =>
    intro slot promise holds
    simp only [flags]
    exact inStep.flagged slot promise holds
  case listed =>
    intro promise flag
    simp only [flags] at flag
    exact inStep.listed promise flag
  case settled =>
    intro slot promise holds
    exact settles promise (inStep.settled slot promise holds)
  case taken =>
    intro promise visited
    simp only [flags]
    obtain ⟨flag, state⟩ := inStep.taken promise visited
    exact ⟨flag, settles promise state⟩
  case accounted =>
    intro promise
    simp only [flags]
    exact inStep.accounted promise
  case known =>
    intro promise
    simp only [flags]
    exact inStep.known promise

/-- A promise in no slot is pending or was taken up. -/
theorem InStep.notFlagged (inStep : InStep owed heap) {promise : Nat}
    (pending : (heap.promises promise).state = .pending)
    : (heap.promises promise).inRejectList = false := by
  by_contra flag
  rw [Bool.not_eq_false] at flag
  obtain ⟨slot, holds⟩ := inStep.listed promise flag
  exact inStep.settled slot promise holds pending

theorem inUse_succ (count : Nat) (walks : List Walk) (slot : Nat)
    : InUse (count + 1) walks slot ↔ InUse count walks slot ∨ slot = count := by
  simp only [InUse, Nat.lt_succ_iff_lt_or_eq]
  exact or_right_comm

/-- A promise that no slot has held goes to the slot after the list, which nothing uses. -/
theorem InStep.track (inStep : InStep owed heap) {promise : Nat}
    (pending : (heap.promises promise).state = .pending)
    (free : ¬InUse heap.unhandledCount heap.walks heap.unhandledCount)
    {promises : Nat → PromiseRecord V}
    (others : ∀ other, other ≠ promise → promises other = heap.promises other)
    (flag : (promises promise).inRejectList = true)
    (state : (promises promise).state ≠ .pending) (capacity : Nat)
    : InStep owed
        {
          heap with
          unhandledCapacity := capacity
          unhandledRejections :=
            Function.update heap.unhandledRejections heap.unhandledCount (some promise)
          unhandledCount := heap.unhandledCount + 1
          promises := promises
          unobserved := promise :: heap.unobserved
        } := by
  have apart : ∀ {slot other}, heap.unhandledRejections slot = some other → other ≠ promise := by
    rintro slot other holds rfl
    exact inStep.settled slot other holds pending
  have held : ∀ {slot other},
      Function.update heap.unhandledRejections heap.unhandledCount (some promise) slot
        = some other →
      (slot = heap.unhandledCount ∧ other = promise)
        ∨ (slot ≠ heap.unhandledCount ∧ other ≠ promise
          ∧ heap.unhandledRejections slot = some other) := by
    intro slot other holds
    by_cases here : slot = heap.unhandledCount
    · subst here
      rw [Function.update_self] at holds
      exact .inl ⟨rfl, (Option.some.inj holds).symm⟩
    · rw [Function.update_of_ne here] at holds
      exact .inr ⟨here, apart holds, holds⟩
  refine
    {
      filled := ?filled
      flagged := ?flagged
      distinct := ?distinct
      listed := ?listed
      settled := ?settled
      apart := ?apart
      nested := inStep.nested
      visiting := inStep.visiting
      inside := inStep.inside
      once := inStep.once
      taken := ?taken
      accounted := ?accounted
      known := ?known
    }
  case filled =>
    intro slot used
    by_cases here : slot = heap.unhandledCount
    · exact ⟨promise, by simp [here]⟩
    · obtain ⟨other, holds⟩ := inStep.filled slot
        (((inUse_succ _ _ _).mp used).resolve_right here)
      exact ⟨other, by simp [here, holds]⟩
  case flagged =>
    intro slot other holds
    simp only [inUse_succ]
    rcases held holds with ⟨rfl, rfl⟩ | ⟨elsewhere, different, holds⟩
    · simp [flag]
    · rw [others other different, inStep.flagged slot other holds]
      simp [elsewhere]
  case distinct =>
    intro slot slot' other used used' holds holds'
    rcases held holds with ⟨rfl, rfl⟩ | ⟨elsewhere, different, holds⟩
    · rcases held holds' with ⟨rfl, _⟩ | ⟨_, same, _⟩
      · rfl
      · exact absurd rfl same
    · rcases held holds' with ⟨_, rfl⟩ | ⟨elsewhere', _, holds'⟩
      · exact absurd rfl different
      · exact inStep.distinct slot slot' other
          (((inUse_succ _ _ _).mp used).resolve_right elsewhere)
          (((inUse_succ _ _ _).mp used').resolve_right elsewhere') holds holds'
  case listed =>
    intro other flagged
    by_cases same : other = promise
    · exact ⟨heap.unhandledCount, by simp [same]⟩
    · simp only [others other same] at flagged
      obtain ⟨slot, holds⟩ := inStep.listed other flagged
      have elsewhere : slot ≠ heap.unhandledCount := by
        rintro rfl
        exact free ((inStep.flagged _ other holds).mp flagged)
      exact ⟨slot, by simp [elsewhere, holds]⟩
  case settled =>
    intro slot other holds
    rcases held holds with ⟨rfl, rfl⟩ | ⟨_, different, holds⟩
    · exact state
    · simp only [others other different]
      exact inStep.settled slot other holds
  case apart =>
    intro walk active slot awaits
    have after := inStep.apart walk active slot awaits
    have elsewhere : slot ≠ heap.unhandledCount := by
      rintro rfl
      exact free (.inr ⟨walk, active, awaits⟩)
    simp only
    omega
  case taken =>
    intro other taken
    have different : other ≠ promise := by
      rintro rfl
      exact (inStep.taken other taken).2 pending
    simp only [others other different]
    exact inStep.taken other taken
  case accounted =>
    intro other debt
    by_cases same : other = promise
    · simp [same, flag]
    · simp only [List.mem_cons, same, false_or] at debt
      simp only [others other same]
      exact inStep.accounted other debt
  case known =>
    intro other flagged
    by_cases same : other = promise
    · simp [same]
    · simp only [others other same] at flagged
      simp only [List.mem_cons, same, false_or]
      exact inStep.known other flagged

/-- A report starts with the whole list.
Witness: the slots in use are the same, and lie in no report around.
-/
theorem InStep.startReport (inStep : InStep owed heap) (jobs : Bool)
    (running : ∀ walk ∈ heap.walks, walk.visiting = true)
    : InStep owed (heap.startReport jobs) := by
  unfold RejectionHeap.startReport
  split
  · exact inStep
  · have used : ∀ slot,
        InUse 0
          ({ length := heap.unhandledCount, index := 0, visiting := false, jobs := jobs }
            :: heap.walks) slot
          ↔ InUse heap.unhandledCount heap.walks slot := by
      intro slot
      simp [InUse, Awaits, Walk.rest]
    refine ⟨?_, ?_, ?_, inStep.listed, inStep.settled, ?_, ?_, running, ?_, inStep.once,
      inStep.taken, inStep.accounted, inStep.known⟩
    · intro slot
      simp only [used]
      exact inStep.filled slot
    · intro slot promise
      simp only [used]
      exact inStep.flagged slot promise
    · intro slot slot' promise
      simp only [used]
      exact inStep.distinct slot slot' promise
    · intro walk active slot awaits
      exact Nat.zero_le slot
    · refine List.pairwise_cons.mpr ⟨?_, inStep.nested⟩
      intro walk active slot inside awaits
      have := inStep.apart walk active slot awaits
      simp only at inside
      omega
    · intro walk active entered
      rcases List.mem_cons.mp active with rfl | active
      · cases entered
      · exact inStep.inside walk active entered

section Walking

variable {walk : Walk} {outer : List Walk}

/-- A slot that a report has yet to visit is used by nothing else. -/
theorem InStep.awaited (inStep : InStep owed heap) (walks : heap.walks = walk :: outer)
    {slot : Nat} (awaits : Awaits walk slot)
    : heap.unhandledCount ≤ slot ∧ ∀ around ∈ outer, ¬Awaits around slot := by
  have nested := inStep.nested
  rw [walks] at nested
  refine ⟨inStep.apart walk (walks ▸ List.mem_cons_self ..) slot awaits, ?_⟩
  intro around active
  exact List.rel_of_pairwise_cons nested active slot awaits.2

/-- Taking up the promise in the next slot of a report takes the slot out of use. -/
theorem InStep.takeUp (inStep : InStep owed heap) (walks : heap.walks = walk :: outer)
    (between : walk.visiting = false) (more : walk.index < walk.length) {promise : Nat}
    (holds : heap.unhandledRejections walk.index = some promise)
    {promises : Nat → PromiseRecord V}
    (others : ∀ other, other ≠ promise → promises other = heap.promises other)
    (flag : (promises promise).inRejectList = false)
    (state : (promises promise).state = (heap.promises promise).state) (reported : Bool)
    : InStep owed
        {
          heap with
          promises := promises
          walks := { walk with visiting := true } :: outer
          visited := (promise, reported) :: heap.visited
        } := by
  have awaits : Awaits walk walk.index := ⟨by simp [Walk.rest, between], more⟩
  obtain ⟨after, notOuter⟩ := inStep.awaited walks awaits
  have used : InUse heap.unhandledCount heap.walks walk.index :=
    .inr ⟨walk, walks ▸ List.mem_cons_self .., awaits⟩
  have stillUsed : ∀ slot,
      InUse heap.unhandledCount ({ walk with visiting := true } :: outer) slot
        ↔ InUse heap.unhandledCount heap.walks slot ∧ slot ≠ walk.index := by
    intro slot
    simp only [InUse, walks, List.mem_cons, exists_eq_or_imp, Awaits, Walk.rest, between,
      if_true, Bool.false_eq_true, if_false]
    constructor
    · rintro (listed | ⟨low, high⟩ | ⟨around, active, awaits⟩)
      · exact ⟨.inl listed, by omega⟩
      · exact ⟨.inr (.inl ⟨by omega, high⟩), by omega⟩
      · refine ⟨.inr (.inr ⟨around, active, awaits⟩), ?_⟩
        rintro rfl
        exact notOuter around active awaits
    · rintro ⟨listed | ⟨low, high⟩ | outside, elsewhere⟩
      · exact .inl listed
      · exact .inr (.inl ⟨by omega, high⟩)
      · exact .inr (.inr outside)
  have flagged := (inStep.flagged _ promise holds).mpr used
  have only : ∀ {slot}, heap.unhandledRejections slot = some promise → slot = walk.index := by
    intro slot held
    exact inStep.distinct slot _ promise ((inStep.flagged slot promise held).mp flagged) used
      held holds
  constructor
  case filled =>
    intro slot use
    exact inStep.filled slot ((stillUsed slot).mp use).1
  case flagged =>
    intro slot other held
    simp only [stillUsed]
    by_cases same : other = promise
    · subst same
      simp [flag, only held]
    · have elsewhere : slot ≠ walk.index := by
        rintro rfl
        exact same (Option.some.inj (held.symm.trans holds))
      rw [others other same, inStep.flagged slot other held]
      simp [elsewhere]
  case distinct =>
    intro slot slot' other use use'
    exact inStep.distinct slot slot' other ((stillUsed slot).mp use).1
      ((stillUsed slot').mp use').1
  case listed =>
    intro other flagged'
    have different : other ≠ promise := by
      rintro rfl
      simp [flag] at flagged'
    simp only [others other different] at flagged'
    exact inStep.listed other flagged'
  case settled =>
    intro slot other held
    by_cases same : other = promise
    · subst same
      simp only [state]
      exact inStep.settled slot other held
    · simp only [others other same]
      exact inStep.settled slot other held
  case apart =>
    intro around active slot awaits
    rcases List.mem_cons.mp active with rfl | active
    · simp only [Awaits, Walk.rest, if_true] at awaits
      have := inStep.apart walk (walks ▸ List.mem_cons_self ..) slot
        ⟨by simp only [Walk.rest, between, Bool.false_eq_true, if_false]; omega, awaits.2⟩
      exact this
    · exact inStep.apart around (walks ▸ List.mem_cons_of_mem _ active) slot awaits
  case nested =>
    have nested := inStep.nested
    rw [walks] at nested
    exact List.pairwise_cons.mpr (List.pairwise_cons.mp nested)
  case visiting =>
    have visiting := inStep.visiting
    rw [walks] at visiting
    exact visiting
  case inside =>
    intro around active entered
    rcases List.mem_cons.mp active with rfl | active
    · exact more
    · exact inStep.inside around (walks ▸ List.mem_cons_of_mem _ active) entered
  case once =>
    refine List.nodup_cons.mpr ⟨?_, inStep.once⟩
    intro taken
    simp [(inStep.taken promise taken).1] at flagged
  case taken =>
    intro other taken
    by_cases same : other = promise
    · subst same
      simp only [flag, state, true_and]
      exact inStep.settled _ other holds
    · simp only [others other same]
      exact inStep.taken other ((List.mem_cons.mp taken).resolve_left same)
  case accounted =>
    intro other debt
    by_cases same : other = promise
    · exact .inr (same ▸ List.mem_cons_self ..)
    · simp only [others other same]
      exact (inStep.accounted other debt).imp_right (List.mem_cons_of_mem _)
  case known =>
    intro other flagged'
    have different : other ≠ promise := by
      rintro rfl
      simp [flag] at flagged'
    simp only [others other different] at flagged'
    exact inStep.known other flagged'

/-- Clearing a slot that is not in use ends a visit. -/
theorem InStep.clearSlot (inStep : InStep owed heap) (walks : heap.walks = walk :: outer)
    (entered : walk.visiting = true)
    (free : ¬InUse heap.unhandledCount heap.walks walk.index)
    : InStep owed (heap.clearSlot walk outer) := by
  have used : ∀ slot,
      InUse heap.unhandledCount
        ({ walk with index := walk.index + 1, visiting := false } :: outer) slot
        ↔ InUse heap.unhandledCount heap.walks slot := by
    intro slot
    simp [InUse, walks, Awaits, Walk.rest, entered]
  have kept : ∀ {slot}, InUse heap.unhandledCount heap.walks slot → slot ≠ walk.index := by
    rintro slot use rfl
    exact free use
  have held : ∀ {slot promise},
      Function.update heap.unhandledRejections walk.index none slot = some promise →
      slot ≠ walk.index ∧ heap.unhandledRejections slot = some promise := by
    intro slot promise holds
    by_cases here : slot = walk.index
    · simp [here] at holds
    · rw [Function.update_of_ne here] at holds
      exact ⟨here, holds⟩
  unfold RejectionHeap.clearSlot
  refine
    {
      filled := ?filled
      flagged := ?flagged
      distinct := ?distinct
      listed := ?listed
      settled := ?settled
      apart := ?apart
      nested := ?nested
      visiting := ?visiting
      inside := ?inside
      once := inStep.once
      taken := inStep.taken
      accounted := inStep.accounted
      known := inStep.known
    }
  case filled =>
    intro slot use
    have use := (used slot).mp use
    obtain ⟨promise, holds⟩ := inStep.filled slot use
    exact ⟨promise, by simp [kept use, holds]⟩
  case flagged =>
    intro slot promise holds
    simp only [used]
    exact inStep.flagged slot promise (held holds).2
  case distinct =>
    intro slot slot' promise use use' holds holds'
    exact inStep.distinct slot slot' promise ((used slot).mp use) ((used slot').mp use')
      (held holds).2 (held holds').2
  case listed =>
    intro promise flag
    obtain ⟨slot, holds⟩ := inStep.listed promise flag
    exact ⟨slot, by simp [kept ((inStep.flagged slot promise holds).mp flag), holds]⟩
  case settled =>
    intro slot promise holds
    exact inStep.settled slot promise (held holds).2
  case apart =>
    intro around active slot awaits
    rcases List.mem_cons.mp active with rfl | active
    · exact inStep.apart walk (walks ▸ List.mem_cons_self ..) slot
        (by simpa [Awaits, Walk.rest, entered] using awaits)
    · exact inStep.apart around (walks ▸ List.mem_cons_of_mem _ active) slot awaits
  case nested =>
    have nested := inStep.nested
    rw [walks] at nested
    exact List.pairwise_cons.mpr (List.pairwise_cons.mp nested)
  case visiting =>
    have visiting := inStep.visiting
    rw [walks] at visiting
    exact visiting
  case inside =>
    intro around active entered'
    rcases List.mem_cons.mp active with rfl | active
    · cases entered'
    · exact inStep.inside around (walks ▸ List.mem_cons_of_mem _ active) entered'

/-- A slot being visited is not in use when the list is no longer than the report has come. -/
theorem InStep.visitedFree (inStep : InStep owed heap) (walks : heap.walks = walk :: outer)
    (entered : walk.visiting = true) (short : heap.unhandledCount ≤ walk.index)
    : ¬InUse heap.unhandledCount heap.walks walk.index := by
  have more := inStep.inside walk (walks ▸ List.mem_cons_self ..) entered
  have nested := inStep.nested
  rw [walks] at nested ⊢
  rintro (listed | ⟨around, active, awaits⟩)
  · omega
  · rcases List.mem_cons.mp active with rfl | active
    · have low := awaits.1
      simp only [Walk.rest, entered, if_true] at low
      omega
    · exact List.rel_of_pairwise_cons nested active walk.index more awaits

/-- The next slot of a report is visited. -/
theorem InStep.visitSlot (inStep : InStep owed heap) (walks : heap.walks = walk :: outer)
    (between : walk.visiting = false) (more : walk.index < walk.length)
    : InStep owed (heap.visitSlot walk outer) := by
  have awaits : Awaits walk walk.index := ⟨by simp [Walk.rest, between], more⟩
  obtain ⟨promise, holds⟩ := inStep.filled walk.index
    (.inr ⟨walk, walks ▸ List.mem_cons_self .., awaits⟩)
  simp only [RejectionHeap.visitSlot, holds]
  split
  · refine inStep.takeUp walks between more holds ?_ ?_ ?_ true
    · intro other different
      exact Function.update_of_ne different ..
    · rw [Function.update_self]
    · rw [Function.update_self]
  · have taken : InStep owed
        {
          heap with
          promises :=
            Function.update heap.promises promise
              { heap.promises promise with inRejectList := false }
          walks := { walk with visiting := true } :: outer
          visited := (promise, false) :: heap.visited
        } := by
      refine inStep.takeUp walks between more holds ?_ ?_ ?_ false
      · intro other different
        exact Function.update_of_ne different ..
      · rw [Function.update_self]
      · rw [Function.update_self]
    have free := taken.visitedFree rfl rfl (inStep.awaited walks awaits).1
    have cleared := taken.clearSlot rfl rfl free
    exact cleared

/-- A report that has come to its end is left. -/
theorem InStep.leave (inStep : InStep owed heap) (walks : heap.walks = walk :: outer)
    (between : walk.visiting = false) (done : walk.length ≤ walk.index) (draining : Bool)
    : InStep owed { heap with walks := outer, microtaskDraining := draining } := by
  have used : ∀ slot, InUse heap.unhandledCount outer slot
      ↔ InUse heap.unhandledCount heap.walks slot := by
    intro slot
    have past : ¬Awaits walk slot := by
      simp only [Awaits, Walk.rest, between, Bool.false_eq_true, if_false]
      omega
    simp [InUse, walks, past]
  have tail : ∀ {around}, around ∈ outer → around ∈ heap.walks :=
    fun active => walks ▸ List.mem_cons_of_mem _ active
  refine ⟨?_, ?_, ?_, inStep.listed, inStep.settled, ?_, ?_, ?_, ?_, inStep.once, inStep.taken,
    inStep.accounted, inStep.known⟩
  · intro slot
    simp only [used]
    exact inStep.filled slot
  · intro slot promise
    simp only [used]
    exact inStep.flagged slot promise
  · intro slot slot' promise
    simp only [used]
    exact inStep.distinct slot slot' promise
  · intro around active
    exact inStep.apart around (tail active)
  · have nested := inStep.nested
    rw [walks] at nested
    exact (List.pairwise_cons.mp nested).2
  · have visiting := inStep.visiting
    rw [walks] at visiting
    intro around active
    exact visiting around (List.mem_of_mem_tail active)
  · intro around active
    exact inStep.inside around (tail active)

end Walking

-----------------------------------------------------------------------------------------
-- Every event
-----------------------------------------------------------------------------------------

/-- Where code runs, every report in progress is inside its tracker. -/
theorem InStep.allVisiting (inStep : InStep owed heap) (running : heap.running = true)
    : ∀ walk ∈ heap.walks, walk.visiting = true := by
  have visiting := inStep.visiting
  unfold RejectionHeap.running at running
  intro walk active
  cases walks : heap.walks with
  | nil => simp [walks] at active
  | cons top outer =>
      rw [walks] at running visiting active
      rcases List.mem_cons.mp active with rfl | active
      · exact running
      · exact visiting walk active

/-- Settling a promise keeps step where the list has room that no report needs. -/
theorem InStep.promiseSettle (inStep : InStep owed heap) (running : heap.running = true)
    {promise : Nat} {state : PromiseState} (final : state ≠ .pending) (val : V) (grows : Bool)
    (spares : SparesSlots heap (.settle promise state val grows))
    : InStep owed (heap.promiseSettle promise state val grows) := by
  have settles : InStep owed
      {
        heap with
        promises :=
          Function.update heap.promises promise
            { heap.promises promise with result := val, state := state }
      } := by
    refine inStep.withPromises ?_ ?_
    · intro other
      by_cases same : other = promise <;> simp [same]
    · intro other settled
      by_cases same : other = promise <;> simp [same, final, settled]
  unfold RejectionHeap.promiseSettle
  simp only
  split
  · exact inStep
  · rename_i pending
    rw [ne_eq, Decidable.not_not] at pending
    split
    · rename_i rejects
      obtain ⟨room, memory⟩ := spares ⟨pending, rejects⟩
      have unflagged := inStep.notFlagged pending
      have free : ¬InUse heap.unhandledCount heap.walks heap.unhandledCount := by
        rintro (listed | ⟨walk, active, low, high⟩)
        · omega
        · simp only [Walk.rest, inStep.allVisiting running walk active, if_true] at low
          have := room walk active
          omega
      have grown : ¬(heap.unhandledCapacity < heap.unhandledCount + 1 ∧ grows = false) := by
        rintro ⟨full, refused⟩
        rw [memory (by omega)] at refused
        cases refused
      simp only [RejectionHeap.trackRejection, Function.update_self, unflagged, grown,
        Bool.false_eq_true, if_false]
      refine inStep.track pending free ?_ ?_ ?_ _
      · intro other different
        simp [Function.update_of_ne different]
      · simp
      · simpa using final
    · exact settles

/-- Every event that spares the slots in use keeps step. -/
theorem InStep.step (inStep : InStep owed heap) {event : RejectionEvent V}
    (spares : SparesSlots heap event) (taken : heap.step event = some next)
    : InStep owed next := by
  cases RejectionHeap.takes_of_step taken with
  | settle running final => exact inStep.promiseSettle running final _ _ spares
  | @observe promise running =>
      refine inStep.withPromises ?_ ?_
      · intro other
        by_cases same : other = promise <;> simp [same]
      · intro other settled
        by_cases same : other = promise
        · subst same
          simpa using settled
        · simpa [same] using settled
  | report running => exact inStep.startReport _ (inStep.allVisiting running)
  | visit walks between more => exact inStep.visitSlot walks between more
  | resume walks entered =>
      simp only [SparesSlots, walks, List.head?_cons, Option.mem_def, Option.some.injEq,
        forall_eq'] at spares
      exact inStep.clearSlot walks entered (inStep.visitedFree walks entered spares)
  | finish draining walks between done => exact inStep.leave walks between done draining

end Boomkat.Correctness
