import Boomkat.Correctness.SafepointSweep

/-! A whole collection at a safepoint without a native frame, where the counts cover the references
that it releases.
-/

namespace Boomkat.Correctness
open Collector Tracing
open Strings (Addr stringPinnedRefcount)

-----------------------------------------------------------------------------------------
-- What the counts cover
-----------------------------------------------------------------------------------------

/-- The lists of the heap are complete, and have each node once and strings of one kind. -/
structure WellKept (heap : Heap) : Prop extends HeapLists heap where
  allocated : ∀ a ∈ heap.heapAllocated, (heap.nodes a).isSome = true
  every
    : ∀ a, (heap.nodes a).isSome = true → heap.isString a = false → a ∈ heap.heapAllocated
  distinct : heap.heapAllocated.Nodup
  interned : ∀ s ∈ heap.strTable, heap.nodes s = some (.string true)
  large : ∀ s ∈ heap.largeStrings, heap.nodes s = some (.string false)
  distinctStrings : heap.strTable.Nodup ∧ heap.largeStrings.Nodup

open Classical in
/-- The listed nodes out of reach. -/
noncomputable def outOfReach (heap : Heap) : List Addr :=
  heap.heapAllocated.filter fun a => ¬InReach heap a

/-- The generator states that only nodes out of reach hold. -/
noncomputable def endingStates (heap : Heap) : List Addr :=
  heap.generatorStates.filter fun gs =>
    (heap.generators gs).any fun state =>
      state.refCount == objectsDue heap (outOfReach heap) (.generator gs) && 0 < state.refCount

/-- How often the teardowns of the nodes out of reach release something. -/
noncomputable def owedBy (heap : Heap) : Release → Nat :=
  due heap [] (objectsDue heap (outOfReach heap)) (endingStates heap)

/-- What nodes out of reach release is allocated, and counted at least as often as they release it.
A string in reach, or in the table of interned strings, has a count beyond that.
-/
structure CountsCover (heap : Heap) : Prop where
  aims : ∀ step, owedBy heap step ≠ 0 → Aimed heap step
  generators
    : ∀ gs, 0 < objectsDue heap (outOfReach heap) (.generator gs) → gs ∈ heap.generatorStates
        ∧ ∃ state, heap.generators gs = some state
          ∧ objectsDue heap (outOfReach heap) (.generator gs) ≤ state.refCount
  strings
    : ∀ s, heap.isString s = true → heap.refcount s = stringPinnedRefcount
        ∨ (heap.refcount s).toNat < stringPinnedRefcount.toNat ∧ 0 < (heap.refcount s).toNat
          ∧ owedBy heap (.drop s) ≤ (heap.refcount s).toNat
  held
    : ∀ s, heap.isString s = true → InReach heap s ∨ s ∈ heap.strTable
        → heap.refcount s = stringPinnedRefcount
          ∨ owedBy heap (.drop s) < (heap.refcount s).toNat
  distinctStates : heap.generatorStates.Nodup

variable {heap : Heap} {a s : Addr}

/-- The count of a string beyond what is owed. -/
noncomputable def slackOf (heap : Heap) (s : Addr) : Nat :=
  (heap.refcount s).toNat - owedBy heap (.drop s)

/-- A string is paid for: it is pinned, or its count covers what is owed and its slack. -/
theorem CountsCover.string (covers : CountsCover heap) (string : heap.isString s = true)
    : StringPaid (heap.refcount s) (heap.refcount s) (heap.nodes s) (heap.nodes s)
      (slackOf heap s) (owedBy heap (.drop s)) := by
  rcases covers.strings s string with pinned | ⟨few, some, enough⟩
  · exact .pinned pinned pinned rfl
  · refine .counted (fun pinned => ?_) few some (by rw [slackOf]; omega) rfl
    rw [pinned] at few
    exact Nat.lt_irrefl _ few

/-- No generator is released by the end of a generator state. -/
theorem owedBy_generator (heap : Heap) (gs : Addr)
    : owedBy heap (.generator gs) = objectsDue heap (outOfReach heap) (.generator gs) := by
  rw [owedBy, due, generator_not_due, List.count_nil]
  omega

/-- A state ends when its count is what nodes out of reach hold of it. -/
theorem mem_endingStates {gs : Addr} {state : GeneratorState}
    (found : heap.generators gs = some state)
    : gs ∈ endingStates heap ↔ gs ∈ heap.generatorStates
      ∧ state.refCount = owedBy heap (.generator gs) ∧ 0 < state.refCount := by
  rw [owedBy_generator, endingStates, List.mem_filter, found]
  simp

/-- A generator state is paid for likewise. -/
theorem CountsCover.generator (covers : CountsCover heap) (gs : Addr)
    : GeneratorPaid (heap.generators gs) (stateReleases heap gs) (gs ∈ endingStates heap)
      (owedBy heap (.generator gs)) where
  ending ends := by
    cases found : heap.generators gs with
    | none =>
        rw [endingStates, List.mem_filter, found] at ends
        cases ends.2
    | some state =>
        obtain ⟨-, count, some⟩ := (mem_endingStates found).mp ends
        exact ⟨state, rfl, count, count ▸ some, by rw [stateReleases, found]; rfl⟩
  staying stays some := by
    rw [owedBy_generator] at some
    obtain ⟨member, state, found, enough⟩ := covers.generators gs some
    rw [mem_endingStates found, owedBy_generator] at stays
    refine ⟨state, found, ?_⟩
    rw [owedBy_generator]
    refine Nat.lt_of_le_of_ne enough fun same => stays ⟨member, same.symm, ?_⟩
    omega

-----------------------------------------------------------------------------------------
-- The sweep
-----------------------------------------------------------------------------------------

/-- The heap when its dying nodes have been unlinked. -/
def unlinked (heap : Heap) : Heap :=
  { heap with
    heapAllocated := heap.heapAllocated.filter fun a => !heap.isDying a
    sweeping := true }

def dyingNodes (heap : Heap) : List Addr := (heap.heapAllocated.filter heap.isDying).reverse

/-- The end of a sweep. -/
def sweepEnd (heap swept : Heap) : Heap :=
  { swept with
    sweeping := false
    liveObjCount := (heap.heapAllocated.filter fun a => !heap.isDying a).length }

/-- The heap when what dies has been freed and the flags of the survivors have been cleared. -/
def sweptHeap (heap torn : Heap) : Heap :=
  sweepEnd heap (reset (freed torn (dyingNodes heap) torn.strayed) torn.heapAllocated torn.strayed)

/-- The heap when the blocks of what dies have been freed. -/
def freedHeap (heap : Heap) : Heap :=
  (dyingNodes heap).foldl Heap.freeBlock ((dyingNodes heap).foldl Heap.teardown (unlinked heap))

/-- A sweep in its steps: teardowns, frees, flags. -/
theorem sweep_eq (heap : Heap)
    : heap.sweep
      = sweepEnd heap ((freedHeap heap).heapAllocated.foldl Heap.resetSurvivor (freedHeap heap)) :=
  rfl

theorem mem_dyingNodes : a ∈ dyingNodes heap ↔ a ∈ heap.heapAllocated ∧ heap.isDying a = true := by
  rw [dyingNodes, List.mem_reverse, List.mem_filter]

/-- The sweep of a heap whose counts cover what is owed. -/
theorem sweep_pays {slack : Addr → Nat} {owed : Release → Nat} {states : List Addr}
    (kept : WellKept heap) (few : states.length ≤ heap.generatorStates.length)
    (unpinned : ∀ a ∈ heap.heapAllocated, heap.reachable a = false → heap.temproot a = false)
    (owes : owed = due heap [] (objectsDue heap (dyingNodes heap)) states)
    (pays : Pays (unlinked heap) slack (unlinked heap) owed states)
    : ∃ torn, Pays (unlinked heap) slack torn (fun _ => 0) [] ∧ heap.sweep = sweptHeap heap torn := by
  have quiet : Quiet (unlinked heap) := {
    unpinned := fun a there plain => unpinned a (kept.every a there plain)
    interned := kept.interned
    large := kept.large
    distinct := kept.distinctStrings }
  have alive (a : Addr) (member : a ∈ dyingNodes heap)
      : heap.isString a = false ∧ (heap.nodes a).isSome = true := by
    have listed := (mem_dyingNodes.mp member).1
    exact ⟨kept.plain a listed, kept.allocated a listed⟩
  rw [owes] at pays
  have torn := teardowns_pay quiet alive few pays
  refine ⟨_, torn, ?_⟩
  rw [sweep_eq, freedHeap]
  generalize (dyingNodes heap).foldl Heap.teardown (unlinked heap) = torn' at torn
  have distinct : (dyingNodes heap).Nodup := List.nodup_reverse.mpr (kept.distinct.filter _)
  rw [foldl_freeBlock_allocated distinct fun a member => by
    rw [torn.plain a (alive a member).1]
    exact (alive a member).2]
  have survivors (a : Addr) (member : a ∈ torn'.heapAllocated)
      : ((freed torn' (dyingNodes heap) torn'.strayed).nodes a).isSome = true := by
    rw [torn.listed] at member
    obtain ⟨listed, lives⟩ := List.mem_filter.mp member
    have spared : a ∉ dyingNodes heap := fun dies => by
      rw [(mem_dyingNodes.mp dies).2] at lives
      cases lives
    refine (congrArg Option.isSome (if_neg spared)).trans ?_
    rw [torn.plain a (kept.plain a listed)]
    exact kept.allocated a listed
  exact congrArg (sweepEnd heap) (foldl_resetSurvivor_allocated survivors)

-----------------------------------------------------------------------------------------
-- The whole collection
-----------------------------------------------------------------------------------------

/-- The heap when its marks have been set. -/
def markedHeap (heap : Heap) (m : Marking Addr) (work : Nat) : Heap :=
  withMarks (cleared heap true) m work

variable {m : Marking Addr} {work : Nat}

/-- Marking leaves the lists as they were. -/
theorem markedHeap_kept (kept : WellKept heap) : WellKept (markedHeap heap m work) where
  plain := kept.plain
  objects := kept.objects
  strings := kept.strings
  largeStrings := kept.largeStrings
  allocated := kept.allocated
  every := kept.every
  distinct := kept.distinct
  interned := kept.interned
  large := kept.large
  distinctStrings := kept.distinctStrings

/-- Without a native frame there are no temporary roots left to keep. -/
theorem markedHeap_temproot (quiescent : heap.nativeFrameDepth = 0)
    (member : a ∈ heap.heapAllocated) : (markedHeap heap m work).temproot a = false := by
  refine (cleared_temproot member).trans ?_
  rw [keepsTemproot, quiescent]
  exact Bool.and_false _

/-- A node in reach is marked, and a listed node or string only then. -/
def MarksReach (heap : Heap) (m : Marking Addr) : Prop :=
  ∀ a, m.marked a = true ↔ InReach heap a ∨ (cleared heap true).reachable a = true

/-- A listed node is marked exactly if it is in reach, as its flag was cleared before. -/
theorem MarksReach.listed (marks : MarksReach heap m) (member : a ∈ heap.heapAllocated)
    : m.marked a = true ↔ InReach heap a := by
  rw [marks a, cleared_unmarked member, or_iff_left Bool.false_ne_true]

/-- So is a string of either list. -/
theorem MarksReach.string (marks : MarksReach heap m)
    (member : s ∈ heap.strTable ∨ s ∈ heap.largeStrings) : m.marked s = true ↔ InReach heap s := by
  have unmarked : (cleared heap true).reachable s = false := by
    rcases member with member | member <;> simp [cleared, Heap.clearFlags, member]
  rw [marks s, unmarked, or_iff_left Bool.false_ne_true]

/-- What dies in the sweep is what is out of reach, in the order of the list turned around. -/
theorem dyingNodes_marked (marks : MarksReach heap m) (quiescent : heap.nativeFrameDepth = 0)
    : dyingNodes (markedHeap heap m work) = (outOfReach heap).reverse := by
  classical
  rw [dyingNodes, outOfReach]
  refine congrArg List.reverse (List.filter_congr fun a member => ?_)
  have unpinned := @markedHeap_temproot heap a m work quiescent member
  rw [Heap.isDying, unpinned, Bool.not_false, Bool.and_true]
  change (!m.marked a) = _
  by_cases reached : InReach heap a
  · rw [(marks.listed member).mpr reached]
    simp [reached]
  · rw [Bool.eq_false_iff.mpr (mt (marks.listed member).mp reached)]
    simp [reached]

/-- What is owed is what the teardowns of the marked heap release. -/
theorem owedBy_marked (marks : MarksReach heap m) (quiescent : heap.nativeFrameDepth = 0)
    : owedBy heap
      = due (markedHeap heap m work) []
        (objectsDue (markedHeap heap m work) (dyingNodes (markedHeap heap m work)))
        (endingStates heap) := by
  rw [dyingNodes_marked marks quiescent, owedBy]
  have objects : objectsDue heap (outOfReach heap)
      = objectsDue (markedHeap heap m work) (outOfReach heap).reverse := by
    funext step
    exact (((outOfReach heap).reverse_perm.flatMap_right _).count_eq step).symm
  rw [objects]
  rfl

/-- The teardowns begin with what the counts cover. -/
theorem markedHeap_pays (kept : WellKept heap) (covers : CountsCover heap)
    : Pays (unlinked (markedHeap heap m work)) (slackOf heap) (unlinked (markedHeap heap m work))
      (owedBy heap) (endingStates heap) where
  sweeping := rfl
  flags := rfl
  temproots _ unpinned := unpinned
  strayed := rfl
  plain _ _ := rfl
  strings _ string := covers.string string
  table s := by
    refine ⟨fun member => ⟨member, ?_⟩, fun entry => entry.1⟩
    exact congrArg Option.isSome (kept.interned s member)
  largeTable s := by
    refine ⟨fun member => ⟨member, ?_⟩, fun entry => entry.1⟩
    exact congrArg Option.isSome (kept.large s member)
  sublists := ⟨.refl _, .refl _⟩
  nodup := covers.distinctStates.filter _
  generators gs := covers.generator gs
  aims := covers.aims
  listed := rfl
  known := rfl
  sweepsStrings := rfl

-----------------------------------------------------------------------------------------
-- The strings
-----------------------------------------------------------------------------------------

/-- The tables of strings have nothing that is freed and nothing twice. -/
structure TablesSound (heap : Heap) : Prop where
  table : ∀ s ∈ heap.strTable, (heap.nodes s).isSome = true
  large : ∀ s ∈ heap.largeStrings, (heap.nodes s).isSome = true
  apart : ∀ s ∈ heap.strTable, s ∉ heap.largeStrings
  distinct : heap.strTable.Nodup
  distinctLarge : heap.largeStrings.Nodup

def tableGone (heap : Heap) : List Addr := heap.strTable.filter (onlyInTable heap)

def largeGone (heap : Heap) : List Addr := heap.largeStrings.filter fun s => !heap.reachable s

/-- The sweeps of strings free what only the tables have, and read no freed header. -/
theorem stringsSwept_sound (sound : TablesSound heap) (safe : heap.stringSweepSafe = true)
    : (stringsSwept heap).strayed = heap.strayed
      ∧ ∀ b, (stringsSwept heap).nodes b
        = if b ∈ largeGone heap then none else if b ∈ tableGone heap then none else heap.nodes b := by
  rw [stringsSwept, if_pos safe]
  have table : heap.sweepStrings
      = freed { heap with
          markWorkLast := heap.markWorkLast + heap.strTableSize
          strTable := heap.strTable.filter fun s => !onlyInTable heap s } (tableGone heap)
        heap.strayed :=
    foldl_freeBlock_allocated (sound.distinct.filter _) fun s member =>
      sound.table s (List.mem_of_mem_filter member)
  have large : heap.sweepStrings.sweepLargeStrings
      = freed { heap.sweepStrings with
          largeStrings := heap.sweepStrings.largeStrings.filter heap.sweepStrings.reachable }
        (largeGone heap) heap.strayed := by
    rw [table]
    refine foldl_freeBlock_allocated (sound.distinctLarge.filter _) fun s member => ?_
    have inLarge := List.mem_of_mem_filter member
    have outside : s ∉ tableGone heap := fun gone =>
      sound.apart s (List.mem_of_mem_filter gone) inLarge
    exact (congrArg Option.isSome (if_neg outside)).trans (sound.large s inLarge)
  rw [large, table]
  exact ⟨rfl, fun _ => rfl⟩

/-- What a collection at a quiet safepoint leaves. -/
structure SafelyCollected (heap heap' : Heap) : Prop where
  strayed : heap'.strayed = heap.strayed
  listed
    : ∀ a ∈ heap.heapAllocated, (InReach heap a → heap'.nodes a = heap.nodes a)
        ∧ (¬InReach heap a → heap'.nodes a = none)
  strings : ∀ s, heap.isString s = true → InReach heap s → heap'.nodes s = heap.nodes s
  large : ∀ s ∈ heap.largeStrings, ¬InReach heap s → heap'.nodes s = none
  interned
    : ∀ s ∈ heap.strTable, ¬InReach heap s → heap.refcount s ≠ stringPinnedRefcount
        → (heap.refcount s).toNat = owedBy heap (.drop s) + 1 → heap'.nodes s = none

/-- The whole collection. The counts pay for all releases, so that the teardowns read no freed header,
and the sweeps of strings find what is left over.
-/
theorem markAndSweep_quiet (fits : ReachFits heap) (kept : WellKept heap)
    (covers : CountsCover heap) (idle : heap.gcRunning = false) (empty : heap.grayObjects = [])
    (quiescent : heap.nativeFrameDepth = 0) (safe : heap.stringSweepSafe = true)
    : SafelyCollected heap (heap.markAndSweep true) := by
  have collected := (markAndSweep_exact fits kept.toHeapLists idle empty true).1
  obtain ⟨m, work, is_marked, gray, marks⟩ := cleared_marks fits kept.toHeapLists empty true
  obtain ⟨trigger, whole⟩ := markAndSweep_eq idle true
  obtain ⟨torn, pays, is_swept⟩ := sweep_pays (markedHeap_kept kept)
    (List.length_filter_le ..)
    (fun a member _ => @markedHeap_temproot heap a m work quiescent member)
    (owedBy_marked marks quiescent) (markedHeap_pays kept covers)
  rw [is_marked, show withMarks (cleared heap true) m work = markedHeap heap m work from rfl,
    is_swept] at whole
  have plain (s : Addr) (string : heap.isString s = true) : s ∉ heap.heapAllocated := fun listed => by
    rw [kept.plain s listed] at string
    cases string
  have nodes (s : Addr) (string : heap.isString s = true)
      : (sweptHeap (markedHeap heap m work) torn).nodes s = torn.nodes s :=
    if_neg fun dies : s ∈ dyingNodes (markedHeap heap m work) =>
      plain s string (mem_dyingNodes.mp dies).1
  have flags (s : Addr) (string : heap.isString s = true)
      : (sweptHeap (markedHeap heap m work) torn).reachable s = m.marked s := by
    have outside : s ∉ torn.heapAllocated := fun listed => by
      rw [pays.listed] at listed
      exact plain s string (List.mem_of_mem_filter listed)
    change (torn.reachable s && !decide (s ∈ torn.heapAllocated)) = _
    rw [pays.flags, decide_eq_false outside, Bool.not_false, Bool.and_true]
    rfl
  have tables : TablesSound (sweptHeap (markedHeap heap m work) torn) := {
    table := fun s member => by
      obtain ⟨entry, there⟩ := (pays.table s).mp member
      rw [nodes s (kept.strings s entry)]
      exact there
    large := fun s member => by
      obtain ⟨entry, there⟩ := (pays.largeTable s).mp member
      rw [nodes s (kept.largeStrings s entry)]
      exact there
    apart := fun s member large => by
      cases (kept.interned s ((pays.table s).mp member).1).symm.trans
        (kept.large s ((pays.largeTable s).mp large).1)
    distinct := kept.distinctStrings.1.sublist pays.sublists.1
    distinctLarge := kept.distinctStrings.2.sublist pays.sublists.2 }
  obtain ⟨strayed, left⟩ := stringsSwept_sound tables (pays.sweepsStrings.trans safe)
  rw [← show (heap.markAndSweep true).strayed = _ from congrArg Heap.strayed whole] at strayed
  rw [← show (heap.markAndSweep true).nodes = _ from congrArg Heap.nodes whole] at left
  have inLarge (s : Addr) (entry : s ∈ heap.largeStrings)
      : (heap.markAndSweep true).nodes s = none ∨ m.marked s = true := by
    cases alive : torn.nodes s with
    | none =>
        left
        rw [left, nodes s (kept.largeStrings s entry), alive, ite_self, ite_self]
    | some node =>
        cases marked : m.marked s with
        | true => exact .inr rfl
        | false =>
            left
            rw [left, if_pos]
            refine List.mem_filter.mpr ⟨(pays.largeTable s).mpr ⟨entry, ?_⟩, ?_⟩
            · rw [alive]
              rfl
            · rw [flags s (kept.largeStrings s entry), marked]
              rfl
  refine ⟨strayed.trans pays.strayed, fun a member => ⟨fun reached => ?_, fun apart => ?_⟩,
    fun s string reached => ?_, fun s entry apart => ?_, fun s entry apart unpinned count => ?_⟩
  · exact ((collected a member).inReach reached).1
  · refine ((collected a member).outOfReach apart ?_).1
    rw [keepsTemproot, quiescent]
    exact Bool.and_false _
  · have marked : m.marked s = true := (marks s).mpr (.inl reached)
    have alive : torn.nodes s = heap.nodes s := by
      cases pays.strings s string with
      | pinned _ _ same => exact same
      | counted _ _ _ _ same => exact same
      | gone unpinned noSlack _ _ =>
          have more := (covers.held s string (.inl reached)).resolve_left unpinned
          rw [slackOf] at noSlack
          omega
    rw [left, if_neg, if_neg, nodes s string, alive]
    · intro gone
      have only := (List.mem_filter.mp gone).2
      rw [onlyInTable, flags s string, marked] at only
      simp at only
    · intro gone
      have unmarked := (List.mem_filter.mp gone).2
      rw [flags s string, marked] at unmarked
      cases unmarked
  · exact (inLarge s entry).resolve_right (mt (MarksReach.string marks (.inr entry)).mp apart)
  · have unmarked : m.marked s = false :=
      Bool.eq_false_iff.mpr (mt (MarksReach.string marks (.inl entry)).mp apart)
    have string := kept.strings s entry
    have one : slackOf heap s = 1 := by
      rw [slackOf]
      omega
    cases pays.strings s string with
    | pinned was _ _ => exact absurd was unpinned
    | gone _ noSlack _ _ =>
        rw [one] at noSlack
        cases noSlack
    | counted _ _ _ covers same =>
        have alive : torn.nodes s = some (.string true) := same.trans (kept.interned s entry)
        have gone : s ∈ tableGone (sweptHeap (markedHeap heap m work) torn) := by
          refine List.mem_filter.mpr ⟨(pays.table s).mpr ⟨entry, by rw [alive]; rfl⟩, ?_⟩
          have last : torn.refcount s = 1 := UInt32.toNat_inj.mp (by rw [covers, one]; rfl)
          rw [onlyInTable, flags s string, unmarked, Bool.not_false, Bool.and_true]
          exact beq_iff_eq.mpr last
        rw [left, if_pos gone, ite_self]

/-- The heap in which strings may be swept. -/
def stringsSafe (heap : Heap) : Heap :=
  { heap with stringSweepSafe := heap.nativeFrameDepth == 0 }

theorem sameGraph_stringsSafe (heap : Heap) : SameGraph heap (stringsSafe heap) :=
  ⟨rfl, rfl, rfl, rfl, rfl⟩

theorem owedBy_stringsSafe (heap : Heap) : owedBy (stringsSafe heap) = owedBy heap := by
  classical
  have apart : outOfReach (stringsSafe heap) = outOfReach heap :=
    List.filter_congr fun a _ => decide_eq_decide.mpr
      (not_congr ((sameGraph_stringsSafe heap).inReach a))
  have states : endingStates (stringsSafe heap) = endingStates heap := by
    rw [endingStates, apart]
    rfl
  rw [owedBy, apart, states]
  rfl

/-- The flag for the sweeps of strings owes nothing. -/
theorem CountsCover.stringsSafe (covers : CountsCover heap) : CountsCover (stringsSafe heap) := by
  have owed := owedBy_stringsSafe heap
  refine ⟨fun step => ?_, fun gs some => ?_, fun s string => ?_, fun s string held => ?_,
    covers.distinctStates⟩
  · rw [owed]
    exact covers.aims step
  · rw [← owedBy_generator, owed, owedBy_generator] at some
    rw [← owedBy_generator, owed, owedBy_generator]
    exact covers.generators gs some
  · rw [owed]
    exact covers.strings s string
  · rw [owed]
    exact covers.held s string (held.imp_left ((sameGraph_stringsSafe heap).inReach s).mp)

/-- A collection at a safepoint without a native frame. Where the counts cover what it releases, it
reads and frees no header of freed memory, keeps the nodes and strings in reach as they are, and
frees the nodes and the large strings out of reach, and the interned strings that only their table
holds on.
-/
theorem safepointGc_quiet (fits : ReachFits heap) (kept : WellKept heap)
    (covers : CountsCover heap) (idle : heap.gcRunning = false) (empty : heap.grayObjects = [])
    (quiescent : heap.nativeFrameDepth = 0)
    : SafelyCollected heap heap.safepointGc := by
  have same := sameGraph_stringsSafe heap
  have kept' : WellKept (stringsSafe heap) := {
    plain := kept.plain
    objects := kept.objects
    strings := kept.strings
    largeStrings := kept.largeStrings
    allocated := kept.allocated
    every := kept.every
    distinct := kept.distinct
    interned := kept.interned
    large := kept.large
    distinctStrings := kept.distinctStrings }
  have done := markAndSweep_quiet (same.reachFits fits) kept' covers.stringsSafe idle empty quiescent
    (beq_iff_eq.mpr quiescent)
  have nodes : heap.safepointGc.nodes = ((stringsSafe heap).markAndSweep true).nodes := rfl
  refine ⟨done.strayed, fun a member => ?_, fun s string reached => ?_, fun s entry apart => ?_,
    fun s entry apart unpinned count => ?_⟩
  · rw [nodes]
    exact ⟨fun reached => (done.listed a member).1 ((same.inReach a).mpr reached),
      fun apart => (done.listed a member).2 (mt (same.inReach a).mp apart)⟩
  · exact done.strings s string ((same.inReach s).mpr reached)
  · exact done.large s entry (mt (same.inReach s).mp apart)
  · refine done.interned s entry (mt (same.inReach s).mp apart) unpinned ?_
    rw [owedBy_stringsSafe]
    exact count

/-- The lists of the heap with two objects are complete. -/
theorem twoObjects_kept : WellKept twoObjects where
  toHeapLists := twoObjects_lists
  allocated a member := by
    simp only [twoObjects, List.mem_cons, List.not_mem_nil, or_false] at member
    rcases member with rfl | rfl <;> rfl
  every a there plain := by
    unfold Heap.isString twoObjects at plain
    unfold twoObjects at there ⊢
    dsimp only at there plain ⊢
    split at there
    · simp
    · cases plain
    · simp
    · cases there
  distinct := by decide
  interned s member := by
    cases List.mem_singleton.mp member
    rfl
  large s member := absurd member List.not_mem_nil
  distinctStrings := ⟨List.nodup_singleton 2, List.nodup_nil⟩

theorem twoObjects_inReach (reached : InReach twoObjects a) : a = 1 ∨ a = 2 := by
  refine Accessible.induct (P := fun a => a = 1 ∨ a = 2) ?_ ?_ reached
  · intro a root
    obtain ⟨item, member, target⟩ := List.mem_filterMap.mp root
    simp [Heap.rootMarks, twoObjects, oneRoot, quietVm, Heap.isObject, Node.isObject,
      Heap.generatorMarks, Vm.marks, activationMarks] at member
    rcases member with rfl | rfl | rfl
    · exact .inl (Option.some.inj target).symm
    · cases target
    · cases target
  · intro a reached b edge
    rcases reached with rfl | rfl
    · simp [children, twoObjects, HObject.marks, stringHolder, HObjectExtra.marks, markAddr] at edge
      exact .inr edge.symm
    · simp [children, twoObjects] at edge

theorem twoObjects_out : outOfReach twoObjects = [3] := by
  classical
  have reached : InReach twoObjects 1 := by
    refine .root (List.mem_filterMap.mpr ⟨.object (some 1), ?_, rfl⟩)
    simp [Heap.rootMarks, twoObjects, oneRoot, Heap.isObject, Node.isObject]
  have apart : ¬InReach twoObjects 3 := fun reached =>
    absurd (twoObjects_inReach reached) (by decide)
  have listed : twoObjects.heapAllocated = [3, 1] := rfl
  rw [outOfReach, listed]
  simp [reached, apart]

/-- Only the object at 3 dies, and it releases the string at 2 once. -/
theorem twoObjects_owed (step : Release) : owedBy twoObjects step = [Release.drop 2].count step := by
  rw [owedBy, due, objectsDue, twoObjects_out]
  have states : endingStates twoObjects = [] := rfl
  have own : releasesAt twoObjects 3 = [.drop 2] := rfl
  rw [states, List.flatMap_singleton, own]
  exact Nat.zero_add _

theorem twoObjects_string (string : twoObjects.isString s = true)
    : (twoObjects.refcount s).toNat = 3 ∧ owedBy twoObjects (.drop s) = 1 := by
  have two : s = 2 := by
    unfold Heap.isString twoObjects at string
    dsimp only at string
    split at string
    · cases string
    · rfl
    · cases string
    · cases string
  subst two
  rw [twoObjects_owed]
  decide

/-- The count of the string covers that release. -/
theorem twoObjects_covers : CountsCover twoObjects where
  aims step some := by
    rw [twoObjects_owed] at some
    cases List.mem_singleton.mp (List.count_pos_iff.mp (Nat.pos_of_ne_zero some))
    rfl
  generators gs some := by
    rw [← owedBy_generator, twoObjects_owed] at some
    cases List.mem_singleton.mp (List.count_pos_iff.mp some)
  strings s string := by
    obtain ⟨count, owed⟩ := twoObjects_string string
    rw [count, owed]
    exact .inr (by decide)
  held s string _ := by
    obtain ⟨count, owed⟩ := twoObjects_string string
    rw [count, owed]
    exact .inr (by decide)
  distinctStates := List.nodup_nil

theorem safepointGc_twoObjects : SafelyCollected twoObjects twoObjects.safepointGc :=
  safepointGc_quiet twoObjects_fits twoObjects_kept twoObjects_covers rfl rfl rfl

end Boomkat.Correctness
