import Boomkat.Correctness.Sweep

/-! A collection at a quiet safepoint touches no memory that it freed and keeps the strings in
reach, where the counts cover the references that it releases.
-/

namespace Boomkat.Correctness
open Collector Tracing
open Strings (Addr stringPinnedRefcount)

-----------------------------------------------------------------------------------------
-- What is owed
-----------------------------------------------------------------------------------------

/-- What the teardown of the node at an address releases. -/
def releasesAt (heap : Heap) (a : Addr) : List Release :=
  match heap.nodes a with
  | some (.object obj) => obj.releases
  | _ => []

/-- What the end of a generator state releases. -/
def stateReleases (heap : Heap) (gs : Addr) : List Release :=
  ((heap.generators gs).map GeneratorState.releases).getD []

/-- How often a release is to come: from the work at hand, from the rest of the objects and from the
generator states that these end.
-/
def due (base : Heap) (work : List Release) (rest : Release → Nat) (states : List Addr)
    (step : Release) : Nat :=
  work.count step + rest step + (states.flatMap (stateReleases base)).count step

/-- A release that is to come is for an allocated node. -/
def Aimed (base : Heap) : Release → Prop
  | .drop a => (base.nodes a).isSome = true
  | .generator _ => True
  | .unpin a => (base.nodes a).isSome = true ∧ base.isString a = false
  | .free _ => False

/-- A string while references to it are released: its count is fixed, or covers what is owed, or
nothing is owed and it is gone.
-/
inductive StringPaid (before count : UInt32) (node node' : Option Node) (slack owed : Nat) : Prop where
  | pinned (was : before = stringPinnedRefcount) (is : count = stringPinnedRefcount)
      (same : node' = node)
  | counted (unpinned : before ≠ stringPinnedRefcount)
      (few : count.toNat < stringPinnedRefcount.toNat) (some : 0 < count.toNat)
      (covers : count.toNat = slack + owed) (same : node' = node)
  | gone (unpinned : before ≠ stringPinnedRefcount) (noSlack : slack = 0) (paid : owed = 0)
      (none : node' = none)

/-- A generator state that ends has as many holders as releases of it are to come. Any other one has
more.
-/
structure GeneratorPaid (found : Option GeneratorState) (releases : List Release) (ends : Prop)
    (owed : Nat) : Prop where
  ending
    : ends → ∃ state, found = some state ∧ state.refCount = owed ∧ 0 < owed
        ∧ state.releases = releases
  staying : ¬ends → 0 < owed → ∃ state, found = some state ∧ owed < state.refCount

/-- The heap in the middle of the teardowns of a sweep. -/
structure Pays (base : Heap) (slack : Addr → Nat) (heap : Heap) (owed : Release → Nat)
    (states : List Addr)
    : Prop where
  sweeping : heap.sweeping = true
  flags : heap.reachable = base.reachable
  temproots : ∀ a, base.temproot a = false → heap.temproot a = false
  strayed : heap.strayed = base.strayed
  plain : ∀ a, base.isString a = false → heap.nodes a = base.nodes a
  strings
    : ∀ s, base.isString s = true
        → StringPaid (base.refcount s) (heap.refcount s) (base.nodes s) (heap.nodes s) (slack s)
          (owed (.drop s))
  table : ∀ s, s ∈ heap.strTable ↔ s ∈ base.strTable ∧ (heap.nodes s).isSome = true
  largeTable : ∀ s, s ∈ heap.largeStrings ↔ s ∈ base.largeStrings ∧ (heap.nodes s).isSome = true
  sublists : heap.strTable.Sublist base.strTable ∧ heap.largeStrings.Sublist base.largeStrings
  nodup : states.Nodup
  generators
    : ∀ gs, GeneratorPaid (heap.generators gs) (stateReleases base gs) (gs ∈ states)
        (owed (.generator gs))
  aims : ∀ step, owed step ≠ 0 → Aimed base step
  listed : heap.heapAllocated = base.heapAllocated
  known : heap.generatorStates = base.generatorStates
  sweepsStrings : heap.stringSweepSafe = base.stringSweepSafe

/-- The heap at the beginning of the teardowns. Nodes that are not marked are no temporary roots. -/
structure Quiet (base : Heap) : Prop where
  unpinned
    : ∀ a, (base.nodes a).isSome = true → base.isString a = false → base.reachable a = false
        → base.temproot a = false
  interned : ∀ s ∈ base.strTable, base.nodes s = some (.string true)
  large : ∀ s ∈ base.largeStrings, base.nodes s = some (.string false)
  distinct : base.strTable.Nodup ∧ base.largeStrings.Nodup

variable {base heap : Heap} {slack : Addr → Nat} {owed owed' : Release → Nat} {states : List Addr}
  {a gs : Addr} {step : Release}

/-- One release fewer is to come. -/
def Discharged (owed owed' : Release → Nat) (step : Release) : Prop :=
  ∀ other, owed other = owed' other + if other = step then 1 else 0

theorem Discharged.same (paid : Discharged owed owed' step) {other : Release} (different : other ≠ step)
    : owed other = owed' other := by
  rw [paid other, if_neg different, Nat.add_zero]

theorem Discharged.one (paid : Discharged owed owed' step) : owed step = owed' step + 1 := by
  rw [paid step, if_pos rfl]

theorem Discharged.aims (paid : Discharged owed owed' step)
    (aims : ∀ other, owed other ≠ 0 → Aimed base other) (other : Release) (some : owed' other ≠ 0)
    : Aimed base other :=
  aims other (by rw [paid other]; omega)

/-- Only counts change. -/
theorem Pays.recount (pays : Pays base slack heap owed states) (paid : Discharged owed owed' step)
    (plain : ∀ gs, step ≠ .generator gs) {refcount : Addr → UInt32}
    (strings : ∀ s, base.isString s = true
      → StringPaid (base.refcount s) (refcount s) (base.nodes s) (heap.nodes s) (slack s)
        (owed' (.drop s)))
    : Pays base slack { heap with refcount := refcount } owed' states :=
  { pays with
    strings := strings
    generators := fun gs => paid.same (plain gs).symm ▸ pays.generators gs
    aims := paid.aims pays.aims }

/-- In the sweep a reference to a node other than a string frees nothing: the node is freed later, or
it is marked.
-/
theorem decref_plain (there : (heap.nodes a).isSome = true) (plain : heap.isString a = false)
    (sweeping : heap.sweeping = true)
    (unpinned : heap.reachable a = false → heap.temproot a = false)
    : ∃ refcount, (∀ b, b ≠ a → refcount b = heap.refcount b)
      ∧ heap.decref a = ({ heap with refcount := refcount }, none) := by
  rw [Heap.decref, touch_allocated there]
  have recounted (count : UInt32) (b : Addr) (other : b ≠ a)
      : Function.update heap.refcount a count b = heap.refcount b := Function.update_of_ne other ..
  cases marked : heap.reachable a with
  | false =>
      refine ⟨heap.refcount, fun _ _ => rfl, if_pos ?_⟩
      simp only [sweeping, plain, unpinned marked, Bool.not_false, Bool.and_self]
  | true =>
      dsimp only
      rw [if_neg (by simp), if_neg (by simp [plain])]
      split
      · exact ⟨_, recounted _, rfl⟩
      split
      · rename_i found
        rw [Heap.isString, found] at plain
        cases plain
      · rw [if_pos (by rw [sweeping]; rfl)]
        exact ⟨_, recounted _, rfl⟩
      · exact ⟨_, recounted _, rfl⟩

theorem decref_plain_pays (quiet : Quiet base) (pays : Pays base slack heap owed states)
    (plain : base.isString a = false) (paid : Discharged owed owed' (.drop a))
    : (heap.decref a).2 = none ∧ Pays base slack (heap.decref a).1 owed' states := by
  have aimed : Aimed base (.drop a) := pays.aims _ (by rw [paid.one]; exact Nat.succ_ne_zero _)
  have nodes := pays.plain a plain
  obtain ⟨refcount, same, is⟩ := decref_plain (nodes ▸ aimed)
    (by rw [Heap.isString, nodes]; exact plain) pays.sweeping
    fun unmarked => pays.temproots a (quiet.unpinned a aimed plain (pays.flags ▸ unmarked))
  rw [is]
  refine ⟨rfl, pays.recount paid (fun gs equal => by cases equal) fun s string => ?_⟩
  have different : s ≠ a := fun equal => by
    rw [equal, plain] at string
    cases string
  rw [same s different, ← paid.same fun equal => different (by cases equal; rfl)]
  exact pays.strings s string

theorem isString_node (string : base.isString a = true)
    : ∃ isInterned, base.nodes a = some (.string isInterned) := by
  rw [Heap.isString] at string
  cases found : base.nodes a with
  | none =>
      rw [found] at string
      cases string
  | some node =>
      rw [found] at string
      cases node with
      | string isInterned => exact ⟨isInterned, rfl⟩
      | object obj => cases string
      | box => cases string

theorem freeBlock_allocated (there : (heap.nodes a).isSome = true)
    : heap.freeBlock a = { heap with nodes := Function.update heap.nodes a none } := by
  rw [Heap.freeBlock, touch_allocated there]

/-- The heap without a string whose last reference is dropped. -/
def stringFreed (heap : Heap) (s : Addr) (isInterned : Bool) : Heap :=
  { heap with
    refcount := Function.update heap.refcount s 0
    nodes := Function.update heap.nodes s none
    strTable := if isInterned then heap.strTable.erase s else heap.strTable
    largeStrings := if isInterned then heap.largeStrings else heap.largeStrings.erase s }

theorem decref_string {isInterned : Bool} (found : heap.nodes a = some (.string isInterned))
    : heap.decref a
      = if heap.refcount a = stringPinnedRefcount then (heap, none)
        else if heap.refcount a - 1 ≠ 0 then
          ({ heap with refcount := Function.update heap.refcount a (heap.refcount a - 1) }, none)
        else (stringFreed heap a isInterned, none) := by
  have string : heap.isString a = true := by
    rw [Heap.isString, found]
    rfl
  have there : (heap.nodes a).isSome = true := by
    rw [found]
    rfl
  rw [Heap.decref, touch_allocated there]
  dsimp only
  rw [if_neg (by simp [string])]
  by_cases pinned : heap.refcount a = stringPinnedRefcount
  · rw [if_pos pinned, if_pos (by simp [string, pinned])]
  · rw [if_neg pinned, if_neg (by simp [pinned])]
    by_cases last : heap.refcount a - 1 = 0
    · rw [if_neg (not_not.mpr last), if_neg (not_not.mpr last), found, last]
      cases isInterned with
      | true =>
          dsimp only
          rw [if_pos rfl]
          exact congrArg (·, none) (freeBlock_allocated there)
      | false =>
          dsimp only
          rw [if_neg Bool.false_ne_true]
          exact congrArg (·, none) (freeBlock_allocated there)
    · rw [if_pos last, if_pos last]

/-- The entries of a table without one that is freed. -/
theorem mem_erase_freed {table held : List Addr} {nodes : Addr → Option Node}
    (nodup : table.Nodup) (entries : ∀ s, s ∈ table ↔ s ∈ held ∧ (nodes s).isSome = true) (s : Addr)
    : s ∈ table.erase a ↔ s ∈ held ∧ (Function.update nodes a none s).isSome = true := by
  rw [nodup.mem_erase_iff, entries s]
  by_cases same : s = a
  · subst same
    simp
  · simp [same]

/-- The entries of a table that does not have a string that is freed. -/
theorem mem_other_freed {table held : List Addr} {nodes : Addr → Option Node} (outside : a ∉ held)
    (entries : ∀ s, s ∈ table ↔ s ∈ held ∧ (nodes s).isSome = true) (s : Addr)
    : s ∈ table ↔ s ∈ held ∧ (Function.update nodes a none s).isSome = true := by
  rw [entries s]
  refine and_congr_right fun member => ?_
  have other : s ≠ a := fun same => outside (same ▸ member)
  rw [Function.update_of_ne other]

/-- A string goes with the last reference to it. -/
theorem Pays.freed {isInterned : Bool} (quiet : Quiet base) (pays : Pays base slack heap owed states)
    (found : base.nodes a = some (.string isInterned)) (paid : Discharged owed owed' (.drop a))
    (was : base.refcount a ≠ stringPinnedRefcount) (noSlack : slack a = 0)
    (nothing : owed' (.drop a) = 0)
    : Pays base slack (stringFreed heap a isInterned) owed' states where
  sweeping := pays.sweeping
  flags := pays.flags
  temproots := pays.temproots
  strayed := pays.strayed
  plain b plain := by
    refine (Function.update_of_ne (fun same => ?_) ..).trans (pays.plain b plain)
    rw [same, Heap.isString, found] at plain
    cases plain
  strings s string := by
    by_cases same : s = a
    · subst same
      exact .gone was noSlack nothing (Function.update_self ..)
    · rw [← paid.same fun equal => same (by cases equal; rfl)]
      simp only [stringFreed, Function.update_of_ne same]
      exact pays.strings s string
  table := by
    cases isInterned with
    | true => exact mem_erase_freed (quiet.distinct.1.sublist pays.sublists.1) pays.table
    | false =>
        refine mem_other_freed (fun member => ?_) pays.table
        cases found.symm.trans (quiet.interned a member)
  largeTable := by
    cases isInterned with
    | false => exact mem_erase_freed (quiet.distinct.2.sublist pays.sublists.2) pays.largeTable
    | true =>
        refine mem_other_freed (fun member => ?_) pays.largeTable
        cases found.symm.trans (quiet.large a member)
  sublists := by
    cases isInterned with
    | true => exact ⟨List.erase_sublist.trans pays.sublists.1, pays.sublists.2⟩
    | false => exact ⟨pays.sublists.1, List.erase_sublist.trans pays.sublists.2⟩
  nodup := pays.nodup
  generators gs := by
    rw [← paid.same fun equal => by cases equal]
    exact pays.generators gs
  aims := paid.aims pays.aims
  listed := pays.listed
  known := pays.known
  sweepsStrings := pays.sweepsStrings

/-- A reference to a string is dropped. -/
theorem decref_string_pays (quiet : Quiet base) (pays : Pays base slack heap owed states)
    (string : base.isString a = true) (paid : Discharged owed owed' (.drop a))
    : (heap.decref a).2 = none ∧ Pays base slack (heap.decref a).1 owed' states := by
  have one := paid.one
  have generator (gs : Addr) : Release.drop a ≠ .generator gs := fun equal => by cases equal
  have others {s : Addr} (different : s ≠ a) : owed (.drop s) = owed' (.drop s) :=
    paid.same fun equal => different (by cases equal; rfl)
  obtain ⟨isInterned, found⟩ := isString_node string
  cases pays.strings a string with
  | gone _ _ nothing _ =>
      rw [one] at nothing
      cases nothing
  | pinned was is same =>
      rw [decref_string (same.trans found), if_pos is]
      refine ⟨rfl, pays.recount paid generator fun s string' => ?_⟩
      by_cases different : s = a
      · exact different ▸ .pinned was is same
      · exact others different ▸ pays.strings s string'
  | counted was few some covers same =>
      have unpinned : heap.refcount a ≠ stringPinnedRefcount := fun is => by
        rw [is] at few
        exact Nat.lt_irrefl _ few
      have fewer : (heap.refcount a - 1).toNat = (heap.refcount a).toNat - 1 := by
        rw [UInt32.toNat_sub_of_le]
        · rfl
        · exact UInt32.le_iff_toNat_le.mpr some
      rw [decref_string (same.trans found), if_neg unpinned]
      by_cases last : heap.refcount a - 1 = 0
      · rw [if_neg (not_not.mpr last)]
        have count : (heap.refcount a - 1).toNat = 0 := by rw [last]; rfl
        exact ⟨rfl, pays.freed quiet found paid was (by omega) (by omega)⟩
      · rw [if_pos last]
        refine ⟨rfl, pays.recount paid generator fun s string' => ?_⟩
        by_cases different : s = a
        · subst different
          rw [Function.update_self]
          have positive : (heap.refcount s - 1).toNat ≠ 0 := fun zero =>
            last (UInt32.toNat_inj.mp zero)
          exact .counted was (by omega) (by omega) (by omega) same
        · rw [Function.update_of_ne different, ← others different]
          exact pays.strings s string'

theorem decref_pays (quiet : Quiet base) (pays : Pays base slack heap owed states)
    (paid : Discharged owed owed' (.drop a))
    : (heap.decref a).2 = none ∧ Pays base slack (heap.decref a).1 owed' states := by
  cases string : base.isString a with
  | true => exact decref_string_pays quiet pays string paid
  | false => exact decref_plain_pays quiet pays string paid

theorem clearTemproot_pays (pays : Pays base slack heap owed states)
    (paid : Discharged owed owed' (.unpin a))
    : Pays base slack (heap.clearTemproot a) owed' states := by
  have aimed : Aimed base (.unpin a) := pays.aims _ (by rw [paid.one]; exact Nat.succ_ne_zero _)
  rw [Heap.clearTemproot, touch_allocated (by rw [pays.plain a aimed.2]; exact aimed.1)]
  have drops (s : Addr) : owed (.drop s) = owed' (.drop s) :=
    paid.same fun equal => by cases equal
  have ends (gs : Addr) : owed (.generator gs) = owed' (.generator gs) :=
    paid.same fun equal => by cases equal
  refine { pays with
    temproots := fun b unpinned => ?_
    strings := fun s string => drops s ▸ pays.strings s string
    generators := fun gs => ends gs ▸ pays.generators gs
    aims := paid.aims pays.aims }
  by_cases same : b = a
  · exact same ▸ Function.update_self ..
  · exact (Function.update_of_ne same ..).trans (pays.temproots b unpinned)

-----------------------------------------------------------------------------------------
-- Generator states
-----------------------------------------------------------------------------------------

theorem GeneratorPaid.congr {found : Option GeneratorState} {releases : List Release}
    {ends ends' : Prop} {n : Nat} (paid : GeneratorPaid found releases ends n) (same : ends ↔ ends')
    : GeneratorPaid found releases ends' n :=
  ⟨fun is => paid.ending (same.mpr is), fun is => paid.staying (mt same.mp is)⟩

/-- A holder of a generator state that stays goes. -/
theorem gsRelease_stays {state : GeneratorState} (found : heap.generators gs = some state)
    (more : state.refCount - 1 ≠ 0)
    : heap.gsRelease gs
      = ({
          heap with
          generators := Function.update heap.generators gs
            (some { state with refCount := state.refCount - 1 })
        }, []) := by
  simp only [Heap.gsRelease, found, if_pos more]

theorem gsRelease_ends {state : GeneratorState} (found : heap.generators gs = some state)
    (last : state.refCount - 1 = 0)
    : heap.gsRelease gs
      = ({ heap with generators := Function.update heap.generators gs none }, state.releases) := by
  simp only [Heap.gsRelease, found, if_neg (not_not.mpr last)]

/-- The other generator states are as they were. -/
theorem Pays.generator (pays : Pays base slack heap owed states)
    (paid : Discharged owed owed' (.generator gs)) {found : Option GeneratorState}
    {states' : List Addr} (nodup : states'.Nodup) (others : ∀ g, g ≠ gs → (g ∈ states ↔ g ∈ states'))
    (own : GeneratorPaid found (stateReleases base gs) (gs ∈ states') (owed' (.generator gs)))
    : Pays base slack { heap with generators := Function.update heap.generators gs found } owed'
      states' := by
  have drops (s : Addr) : owed (.drop s) = owed' (.drop s) :=
    paid.same fun equal => by cases equal
  refine { pays with
    strings := fun s string => drops s ▸ pays.strings s string
    nodup := nodup
    generators := fun g => ?_
    aims := paid.aims pays.aims }
  by_cases same : g = gs
  · subst same
    simp only [Function.update_self]
    exact own
  · have count : owed (.generator g) = owed' (.generator g) :=
      paid.same fun equal => same (by cases equal; rfl)
    simp only [Function.update_of_ne same, ← count]
    exact (pays.generators g).congr (others g same)

/-- A holder of a generator state goes, and the state with the last one. -/
theorem gsRelease_pays (pays : Pays base slack heap owed states)
    (paid : Discharged owed owed' (.generator gs))
    : (heap.gsRelease gs).2 = [] ∧ Pays base slack (heap.gsRelease gs).1 owed' states
      ∨ gs ∈ states ∧ (heap.gsRelease gs).2 = stateReleases base gs
        ∧ Pays base slack (heap.gsRelease gs).1 owed' (states.erase gs) := by
  have one := paid.one
  have own := pays.generators gs
  by_cases ends : gs ∈ states
  · obtain ⟨state, found, count, some, releases⟩ := own.ending ends
    by_cases last : state.refCount - 1 = 0
    · refine .inr ⟨ends, ?_, ?_⟩
      · rw [gsRelease_ends found last]
        exact releases
      · rw [gsRelease_ends found last]
        refine pays.generator paid (pays.nodup.erase gs)
          (fun g other => (List.mem_erase_of_ne other).symm) ⟨fun is => ?_, fun _ more => ?_⟩
        · exact absurd is pays.nodup.not_mem_erase
        · omega
    · refine .inl ?_
      rw [gsRelease_stays found last]
      refine ⟨rfl, pays.generator paid pays.nodup (fun _ _ => Iff.rfl)
        ⟨fun _ => ⟨_, rfl, ?_, ?_, releases⟩, fun is => absurd ends is⟩⟩
      · dsimp only
        omega
      · omega
  · obtain ⟨state, found, more⟩ := own.staying ends (by omega)
    have rest : state.refCount - 1 ≠ 0 := by omega
    refine .inl ?_
    rw [gsRelease_stays found rest]
    refine ⟨rfl, pays.generator paid pays.nodup (fun _ _ => Iff.rfl)
      ⟨fun is => absurd is ends, fun _ _ => ⟨_, rfl, ?_⟩⟩⟩
    dsimp only
    omega

-----------------------------------------------------------------------------------------
-- Teardowns
-----------------------------------------------------------------------------------------

theorem due_cons (base : Heap) (step : Release) (work : List Release) (rest : Release → Nat)
    (states : List Addr)
    : Discharged (due base (step :: work) rest states) (due base work rest states) step := by
  intro other
  have count : (step :: work).count other = work.count other + if other = step then 1 else 0 := by
    rw [List.count_cons]
    by_cases same : other = step
    · rw [if_pos same, if_pos (beq_iff_eq.mpr same.symm)]
    · rw [if_neg same, if_neg (fun is => same (beq_iff_eq.mp is).symm)]
  rw [due, due, count]
  omega

/-- What a generator state that ends releases is owed already. -/
theorem due_erase (base : Heap) (work : List Release) (rest : Release → Nat) (member : gs ∈ states)
    : due base (stateReleases base gs ++ work) rest (states.erase gs)
      = due base work rest states := by
  funext other
  have split : (states.flatMap (stateReleases base)).count other
      = (stateReleases base gs).count other
        + ((states.erase gs).flatMap (stateReleases base)).count other := by
    rw [((List.perm_cons_erase member).flatMap_right _).count_eq other, List.flatMap_cons,
      List.count_append]
  rw [due, due, split, List.count_append]
  omega

/-- The releases of a teardown free nothing that is needed, by induction over the turns of the loop.
-/
theorem release_pays (quiet : Quiet base) (fuel : Nat) (work : List Release) (heap : Heap)
    {rest : Release → Nat} {states : List Addr} (enough : states.length ≤ fuel)
    (pays : Pays base slack heap (due base work rest states) states)
    : ∃ states', states'.length ≤ states.length
      ∧ Pays base slack (Heap.release fuel work heap) (due base [] rest states') states' := by
  induction fuel, work, heap using Heap.release.induct generalizing states with
  | case1 _ heap =>
      rw [Heap.release]
      exact ⟨states, Nat.le_refl _, pays⟩
  | case2 fuel a work heap ih =>
      rw [Heap.release]
      exact ih enough (clearTemproot_pays pays (due_cons base _ work rest states))
  | case3 fuel a work heap ih =>
      have some := (due_cons base (.free a) work rest states).one
      exact (pays.aims (.free a) (by omega)).elim
  | case4 fuel a work heap heap' step ih =>
      have dropped := (decref_pays quiet pays (due_cons base _ work rest states)).2
      rw [step] at dropped
      rw [Heap.release, step]
      exact ih enough dropped
  | case5 a work heap heap' obj step =>
      have nothing := (decref_pays quiet pays (due_cons base _ work rest states)).1
      rw [step] at nothing
      cases nothing
  | case6 a work heap heap' obj step fuel ih =>
      have nothing := (decref_pays quiet pays (due_cons base _ work rest states)).1
      rw [step] at nothing
      cases nothing
  | case7 fuel gs work heap heap' step ih =>
      have released := gsRelease_pays pays (due_cons base _ work rest states)
      rw [step] at released
      rw [Heap.release, step]
      rcases released with ⟨-, pays⟩ | ⟨member, nothing, pays⟩
      · exact ih enough pays
      · rw [← due_erase base work rest member, ← nothing, List.nil_append] at pays
        obtain ⟨states', fewer, pays'⟩ := ih
          ((List.length_erase_le ..).trans enough) pays
        exact ⟨states', fewer.trans (List.length_erase_le ..), pays'⟩
  | case8 gs work heap heap' more some step =>
      have released := gsRelease_pays pays (due_cons base _ work rest states)
      rw [step] at released
      rcases released with ⟨nothing, -⟩ | ⟨member, -, -⟩
      · exact absurd nothing some
      · rw [List.eq_nil_of_length_eq_zero (Nat.le_zero.mp enough)] at member
        cases member
  | case9 gs work heap heap' more some step fuel ih =>
      have released := gsRelease_pays pays (due_cons base _ work rest states)
      rw [step] at released
      rcases released with ⟨nothing, -⟩ | ⟨member, is, pays⟩
      · exact absurd nothing some
      · obtain ⟨first, more, rfl⟩ := List.exists_cons_of_ne_nil some
        rw [Heap.release, step]
        rw [← due_erase base work rest member, ← is] at pays
        have length := List.length_erase_of_mem member
        have positive := List.length_pos_of_mem member
        obtain ⟨states', fewer, pays'⟩ := ih (by omega) pays
        exact ⟨states', by omega, pays'⟩

theorem generator_not_released (state : GeneratorState) (gs : Addr)
    : Release.generator gs ∉ state.releases := by
  have values (v : Collections.TVal) : Release.generator gs ∉ dropValue v := by
    intro member
    obtain ⟨_, _, same⟩ := List.mem_map.mp member
    cases same
  intro member
  rcases List.mem_append.mp member with member | member
  · rcases List.mem_append.mp member with member | member
    · rcases List.mem_append.mp member with member | member
      · obtain ⟨_, _, inside⟩ := List.mem_flatMap.mp member
        exact values _ inside
      · exact values _ member
    · obtain ⟨_, _, same⟩ := List.mem_map.mp member
      cases same
  · obtain ⟨_, _, inside⟩ := List.mem_flatMap.mp member
    exact values _ inside

theorem generator_not_due (base : Heap) (states : List Addr) (gs : Addr)
    : (states.flatMap (stateReleases base)).count (.generator gs) = 0 := by
  refine List.count_eq_zero.mpr fun member => ?_
  obtain ⟨g, _, inside⟩ := List.mem_flatMap.mp member
  rw [stateReleases] at inside
  cases found : base.generators g with
  | none =>
      rw [found] at inside
      cases inside
  | some state =>
      rw [found] at inside
      exact generator_not_released state gs inside

/-- How often the teardowns of objects release something. -/
def objectsDue (base : Heap) (objects : List Addr) (step : Release) : Nat :=
  (objects.flatMap (releasesAt base)).count step

/-- All teardowns of a sweep, by induction over the dying nodes. In the end nothing is owed. -/
theorem teardowns_pay (quiet : Quiet base) {dying : List Addr}
    (plain : ∀ a ∈ dying, base.isString a = false ∧ (base.nodes a).isSome = true) {heap : Heap}
    {states : List Addr} (enough : states.length ≤ base.generatorStates.length)
    (pays : Pays base slack heap (due base [] (objectsDue base dying) states) states)
    : Pays base slack (dying.foldl Heap.teardown heap) (fun _ => 0) [] := by
  induction dying generalizing heap states with
  | nil =>
      have none : states = [] := by
        refine List.eq_nil_iff_forall_not_mem.mpr fun gs member => ?_
        obtain ⟨_, _, _, some, _⟩ := (pays.generators gs).ending member
        rw [due, generator_not_due] at some
        exact Nat.lt_irrefl 0 some
      subst none
      exact pays
  | cons a dying ih =>
      obtain ⟨notString, there⟩ := plain a List.mem_cons_self
      have rest := fun b member => plain b (List.mem_cons_of_mem a member)
      have split : due base [] (objectsDue base (a :: dying)) states
          = due base (releasesAt base a) (objectsDue base dying) states := by
        funext step
        rw [due, due, objectsDue, objectsDue, List.flatMap_cons, List.count_append, List.count_nil]
        omega
      have nodes := pays.plain a notString
      rw [split] at pays
      rw [List.foldl_cons, Heap.teardown, nodes]
      cases found : base.nodes a with
      | none =>
          rw [found] at there
          cases there
      | some node =>
          cases node with
          | object obj =>
              have own : releasesAt base a = obj.releases := by simp only [releasesAt, found]
              rw [own] at pays
              obtain ⟨states', fewer, pays'⟩ := release_pays quiet
                (heap.heapAllocated.length + heap.generatorStates.length) obj.releases heap
                (by rw [pays.known]; omega) pays
              exact ih rest (fewer.trans enough) pays'
          | string isInterned | box =>
              have own : releasesAt base a = [] := by simp only [releasesAt, found]
              rw [own] at pays
              exact ih rest enough pays

-----------------------------------------------------------------------------------------
-- Freeing what is allocated
-----------------------------------------------------------------------------------------

theorem foldl_freeBlock_allocated {gone : List Addr} (distinct : gone.Nodup)
    (there : ∀ a ∈ gone, (heap.nodes a).isSome = true)
    : gone.foldl Heap.freeBlock heap = freed heap gone heap.strayed := by
  induction gone generalizing heap with
  | nil =>
      simp only [freed, List.not_mem_nil, if_false, List.foldl_nil]
  | cons a gone ih =>
      obtain ⟨fresh, distinct⟩ := List.nodup_cons.mp distinct
      obtain ⟨strayed, whole⟩ := foldl_freeBlock (a :: gone) heap
      have step := freeBlock_allocated (there a List.mem_cons_self)
      have rest := @ih (heap.freeBlock a) distinct fun b member => by
        have other : b ≠ a := fun same => fresh (same ▸ member)
        simp only [step, Function.update_of_ne other]
        exact there b (List.mem_cons_of_mem a member)
      have same : strayed = heap.strayed := by
        have strayed' := congrArg Heap.strayed (whole.symm.trans rest)
        rw [step] at strayed'
        exact strayed'
      rw [whole, same]

theorem foldl_resetSurvivor_allocated {survivors : List Addr}
    (there : ∀ a ∈ survivors, (heap.nodes a).isSome = true)
    : survivors.foldl Heap.resetSurvivor heap = reset heap survivors heap.strayed := by
  induction survivors generalizing heap with
  | nil =>
      simp only [reset, List.not_mem_nil, decide_false, Bool.not_false, Bool.and_true,
        Bool.false_and, List.foldl_nil]
  | cons a survivors ih =>
      obtain ⟨strayed, whole⟩ := foldl_resetSurvivor (a :: survivors) heap
      have touched := touch_allocated (there a List.mem_cons_self)
      have step : (heap.resetSurvivor a).strayed = heap.strayed
          ∧ (heap.resetSurvivor a).nodes = heap.nodes := by
        rw [Heap.resetSurvivor, touched]
        split <;> exact ⟨rfl, rfl⟩
      have rest := @ih (heap.resetSurvivor a) fun b member => by
        rw [step.2]
        exact there b (List.mem_cons_of_mem a member)
      have same : strayed = heap.strayed :=
        (congrArg Heap.strayed (whole.symm.trans rest)).trans step.1
      rw [whole, same]

end Boomkat.Correctness
