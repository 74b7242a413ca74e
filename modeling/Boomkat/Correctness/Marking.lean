import Boomkat.Collector.Mark
import Boomkat.Foundation.Tracing

/-! The mark phase sets the flags of what the roots reach, and of nothing else. -/

namespace Boomkat.Correctness
open Collector Tracing
open Strings (Addr)
open Collections (TVal)

-----------------------------------------------------------------------------------------
-- The graph of the heap
-----------------------------------------------------------------------------------------

/-- The address that a mark is for. -/
def markAddr : Mark → Option Addr
  | .value (.object a) => if a = 0 then none else some a
  | .value (.string a) => if a = 0 then none else some a
  | .value (.bigint a) => if a = 0 then none else some a
  | .value _ => none
  | .object obj => obj
  | .header hdr => hdr

def isLeaf (heap : Heap) (a : Addr) : Bool := !heap.isObject a

/-- A node without references is allocated at the address. -/
def LeafAt (heap : Heap) (a : Addr) : Prop := (heap.nodes a).isSome = true ∧ isLeaf heap a = true

/-- The address of a mark holds a node of the kind that the mark takes it for. -/
def MarkFits (heap : Heap) : Mark → Prop
  | .value (.object a) => a ≠ 0 → heap.isObject a = true
  | .value (.string a) => a ≠ 0 → LeafAt heap a
  | .value (.bigint a) => a ≠ 0 → LeafAt heap a
  | .value _ => True
  | .object obj => ∀ a, obj = some a → heap.isObject a = true
  | .header hdr => ∀ a, hdr = some a → LeafAt heap a

/-- What is marked for the object at an address. -/
def children (heap : Heap) (a : Addr) : List Addr :=
  match heap.nodes a with
  | some (.object obj) => (obj.marks heap).filterMap markAddr
  | _ => []

def isRoot (heap : Heap) (a : Addr) : Prop := a ∈ heap.rootMarks.filterMap markAddr

/-- References lead to the node from the roots. -/
def InReach (heap : Heap) (a : Addr) : Prop := Accessible (children heap) (isRoot heap) a

/-- What is in reach refers to nodes that are allocated, of the kinds that it takes them for. -/
structure ReachFits (heap : Heap) : Prop where
  roots : ∀ item ∈ heap.rootMarks, MarkFits heap item
  objects
    : ∀ a, InReach heap a → ∀ obj, heap.nodes a = some (.object obj)
        → ∀ item ∈ obj.marks heap, MarkFits heap item

/-- A leaf refers to nothing. -/
theorem children_leaf {heap : Heap} {a : Addr} (leaf : isLeaf heap a = true)
    : children heap a = [] := by
  rw [children]
  split
  · rename_i found
    rw [isLeaf, Heap.isObject, found] at leaf
    cases leaf
  · rfl

/-- An object refers to what its marks are for. -/
theorem children_object {heap : Heap} {a : Addr} {obj : HObject}
    (found : heap.nodes a = some (.object obj))
    : children heap a = (obj.marks heap).filterMap markAddr := by
  simp only [children, found]

/-- What is no leaf is an object. A free address counts as a leaf. -/
theorem object_of_inner {heap : Heap} {a : Addr} (inner : isLeaf heap a = false)
    : ∃ obj, heap.nodes a = some (.object obj) := by
  rw [isLeaf, Heap.isObject, Bool.not_eq_false'] at inner
  cases found : heap.nodes a with
  | none =>
      rw [found] at inner
      cases inner
  | some node =>
      rw [found] at inner
      cases node with
      | object obj => exact ⟨obj, rfl⟩
      | string isInterned => cases inner
      | box => cases inner

/-- Heaps that differ in headers, lists of strings and the state of the collector only. -/
structure SameGraph (heap heap' : Heap) : Prop where
  nodes : heap'.nodes = heap.nodes
  generators : heap'.generators = heap.generators
  reactionNextKey : heap'.reactionNextKey = heap.reactionNextKey
  bound : heap'.heapAllocated.length = heap.heapAllocated.length
  roots : heap'.roots = heap.roots

section
variable {heap heap' : Heap} (same : SameGraph heap heap')
include same

/-- The reactions of a promise are found through the nodes and `reactionNextKey` only. -/
theorem SameGraph.reactions (fuel : Nat) (head : Option Addr)
    : heap'.reactions fuel head = heap.reactions fuel head := by
  induction fuel generalizing head with
  | zero => cases head <;> rfl
  | succ fuel ih =>
      cases head with
      | none => rfl
      | some reaction =>
          have next : heap'.nextReaction reaction = heap.nextReaction reaction := by
            rw [Heap.nextReaction, Heap.nextReaction, same.nodes, same.reactionNextKey]
          rw [Heap.reactions, Heap.reactions, next, ih]

theorem SameGraph.views (fuel : Nat) (head : Option Addr)
    : heap'.views fuel head = heap.views fuel head := by
  induction fuel generalizing head with
  | zero => cases head <;> rfl
  | succ fuel ih =>
      cases head with
      | none => rfl
      | some view =>
          have next : heap'.nextView view = heap.nextView view := by
            rw [Heap.nextView, Heap.nextView, same.nodes]
          rw [Heap.views, Heap.views, next, ih]

/-- What a generator state holds is marked alike. -/
theorem SameGraph.generatorMarks (gs : Option Addr)
    : heap'.generatorMarks gs = heap.generatorMarks gs := by
  rw [Heap.generatorMarks, Heap.generatorMarks, same.generators]

/-- Every object is marked alike: one case for each kind of extra. -/
theorem SameGraph.marks (obj : HObject) : obj.marks heap' = obj.marks heap := by
  have extra : obj.extra.marks heap' = obj.extra.marks heap := by
    cases obj.extra with
    | asyncState gs capturedThis => exact same.generatorMarks gs
    | generator varEnv lexEnv generatorData =>
        exact congrArg (_ ++ ·) (same.generatorMarks generatorData)
    | promise result head =>
        rw [HObjectExtra.marks, HObjectExtra.marks, same.bound, same.reactions]
    | arraybuffer head =>
        rw [HObjectExtra.marks, HObjectExtra.marks, same.bound, same.views]
    | _ => rfl
  rw [HObject.marks, HObject.marks, extra]

theorem SameGraph.rootMarks : heap'.rootMarks = heap.rootMarks := by
  have isObject : heap'.isObject = heap.isObject := by
    funext a
    rw [Heap.isObject, Heap.isObject, same.nodes]
  have fields (act : Activation) : act.fieldMarks heap' = act.fieldMarks heap := by
    rw [Activation.fieldMarks, Activation.fieldMarks, same.generatorMarks]
  have frames (valstack : List TVal) (acts : List Activation)
      : activationMarks heap' valstack acts = activationMarks heap valstack acts := by
    induction acts with
    | nil => rfl
    | cons act inner ih => rw [activationMarks, activationMarks, fields, ih]
  have vm (vm : Vm) : vm.marks heap' = vm.marks heap := by
    simp only [Vm.marks, frames, fields]
  simp only [Heap.rootMarks, same.roots, isObject, vm, same.generatorMarks]

/-- The references are the same. -/
theorem SameGraph.children : children heap' = children heap := by
  funext a
  simp only [Correctness.children, same.nodes, same.marks]

/-- So the same nodes are in reach. -/
theorem SameGraph.inReach (a : Addr) : InReach heap' a ↔ InReach heap a := by
  have root : isRoot heap' = isRoot heap := by
    funext a
    rw [isRoot, isRoot, same.rootMarks]
  rw [InReach, InReach, same.children, root]

theorem SameGraph.markFits (item : Mark) : MarkFits heap' item ↔ MarkFits heap item := by
  have object (a : Addr) : heap'.isObject a = heap.isObject a := by
    rw [Heap.isObject, Heap.isObject, same.nodes]
  have leaf (a : Addr) : LeafAt heap' a ↔ LeafAt heap a := by
    rw [LeafAt, LeafAt, isLeaf, isLeaf, object, same.nodes]
  unfold MarkFits
  split <;> simp only [object, leaf]

/-- Whether what is in reach fits is a matter of the graph. -/
theorem SameGraph.reachFits (fits : ReachFits heap) : ReachFits heap' where
  roots item member := by
    rw [same.rootMarks] at member
    exact (same.markFits item).mpr (fits.roots item member)
  objects a reached obj found item member := by
    rw [same.marks] at member
    rw [same.nodes] at found
    exact (same.markFits item).mpr
      (fits.objects a ((same.inReach a).mp reached) obj found item member)

end

-----------------------------------------------------------------------------------------
-- Marks
-----------------------------------------------------------------------------------------

/-- The heap with other marks. -/
def withMarks (heap : Heap) (m : Marking Addr) (work : Nat) : Heap :=
  { heap with reachable := m.marked, grayObjects := m.gray, markWorkLast := work }

def marking (heap : Heap) : Marking Addr := ⟨heap.reachable, heap.grayObjects⟩

/-- Marks do not change the graph. -/
theorem sameGraph_withMarks (heap : Heap) (m : Marking Addr) (work : Nat)
    : SameGraph heap (withMarks heap m work) := ⟨rfl, rfl, rfl, rfl, rfl⟩

theorem withMarks_marking (heap : Heap)
    : withMarks heap (marking heap) heap.markWorkLast = heap := rfl

variable {heap : Heap} {a : Addr}

/-- Reading the header of an allocated node is not noted. -/
theorem touch_allocated (there : (heap.nodes a).isSome = true) : heap.touch a = heap := by
  have kept : (heap.strayed || (heap.nodes a).isNone) = heap.strayed := by
    rw [Option.isNone_eq_false_iff.mpr there, Bool.or_false]
  rw [Heap.touch, kept]

theorem isObject_isSome (object : heap.isObject a = true) : (heap.nodes a).isSome = true := by
  rw [Heap.isObject] at object
  cases found : heap.nodes a with
  | none =>
      rw [found] at object
      cases object
  | some node => rfl

/-- `mark_hobject` marks an object, and pushes it if it was not marked. -/
theorem markHobject_spec (object : heap.isObject a = true) (m : Marking Addr) (work : Nat)
    : (withMarks heap m work).markHobject a = withMarks heap (m.mark (isLeaf heap) a) work := by
  have touched : (withMarks heap m work).touch a = withMarks heap m work :=
    touch_allocated (isObject_isSome object)
  have inner : isLeaf heap a = false := by rw [isLeaf, object, Bool.not_true]
  rw [Heap.markHobject, Heap.setReachable, touched, Marking.mark, inner]
  by_cases marked : m.marked a = true
  · rw [if_neg Bool.false_ne_true, if_pos marked]
    exact if_pos marked
  · rw [if_neg Bool.false_ne_true, if_neg marked]
    exact if_neg marked

/-- Setting the flag of a leaf marks it. -/
theorem setReachable_spec (leaf : LeafAt heap a) (m : Marking Addr) (work : Nat)
    : (withMarks heap m work).setReachable a = withMarks heap (m.mark (isLeaf heap) a) work := by
  have touched : (withMarks heap m work).touch a = withMarks heap m work :=
    touch_allocated leaf.1
  rw [Heap.setReachable, touched, Marking.mark, if_pos leaf.2]
  rfl

/-- A mark of a node, or of nothing. -/
def markOne (heap : Heap) (m : Marking Addr) (target : Option Addr) : Marking Addr :=
  target.elim m (m.mark (isLeaf heap))

/-- A mark of any kind marks the node that it is for, one case for each kind. -/
theorem mark_spec {item : Mark} (fits : MarkFits heap item) (m : Marking Addr) (work : Nat)
    : ∃ work', (withMarks heap m work).mark item
      = withMarks heap (markOne heap m (markAddr item)) work' := by
  cases item with
  | value v =>
      refine ⟨work + 1, ?_⟩
      cases v with
      | object a =>
          by_cases null : a = 0
          · simp only [Heap.mark, Heap.markTval, markAddr, if_pos null]
            rfl
          · simp only [Heap.mark, Heap.markTval, markAddr, if_neg null]
            exact markHobject_spec (fits null) m (work + 1)
      | string a | bigint a =>
          by_cases null : a = 0
          · simp only [Heap.mark, Heap.markTval, markAddr, if_pos null]
            rfl
          · simp only [Heap.mark, Heap.markTval, markAddr, if_neg null]
            exact setReachable_spec (fits null) m (work + 1)
      | _ => rfl
  | object obj =>
      cases obj with
      | none => exact ⟨work, rfl⟩
      | some a => exact ⟨work, markHobject_spec (fits a rfl) m work⟩
  | header hdr =>
      cases hdr with
      | none => exact ⟨work, rfl⟩
      | some a => exact ⟨work, setReachable_spec (fits a rfl) m work⟩

/-- A list of marks marks the nodes that they are for, in order. -/
theorem markAll_spec {items : List Mark} (fits : ∀ item ∈ items, MarkFits heap item)
    (m : Marking Addr) (work : Nat)
    : ∃ work', (withMarks heap m work).markAll items
      = withMarks heap (m.markAll (isLeaf heap) (items.filterMap markAddr)) work' := by
  induction items generalizing m work with
  | nil => exact ⟨work, rfl⟩
  | cons item items ih =>
      obtain ⟨work₁, first⟩ := mark_spec (fits item List.mem_cons_self) m work
      obtain ⟨work₂, others⟩ := ih (fun other member => fits other (List.mem_cons_of_mem _ member))
        (markOne heap m (markAddr item)) work₁
      refine ⟨work₂, ?_⟩
      change ((withMarks heap m work).mark item).markAll items = _
      rw [first, others]
      cases target : markAddr item with
      | none =>
          rw [List.filterMap_cons_none target]
          rfl
      | some a =>
          rw [List.filterMap_cons_some target]
          rfl

-----------------------------------------------------------------------------------------
-- The stack
-----------------------------------------------------------------------------------------

/-- The marking of the heap: what is marked is in reach, or a leaf that was marked before. -/
abbrev HeapTraced (heap : Heap) (m : Marking Addr) : Prop :=
  Traced (children heap) (isLeaf heap) (fun a => isRoot heap a ∨ heap.reachable a = true)
    (fun _ => False) m

/-- Where only leaves are marked before, nothing else comes from them. -/
theorem reaches_iff (leaves : ∀ a, heap.reachable a = true → isLeaf heap a = true)
    : Accessible (children heap) (fun a => isRoot heap a ∨ heap.reachable a = true) a
      ↔ InReach heap a ∨ heap.reachable a = true := by
  constructor
  · intro reached
    refine Accessible.induct (P := fun a => InReach heap a ∨ heap.reachable a = true) ?_ ?_ reached
    · exact fun a => Or.imp_left .root
    · intro b reached c edge
      rcases reached with reached | marked
      · exact .inl (reached.step edge)
      · rw [children_leaf (leaves b marked)] at edge
        cases edge
  · rintro (reached | marked)
    · exact Accessible.induct (fun a root => .root (.inl root))
        (fun b reached c edge => reached.step edge) reached
    · exact .root (.inr marked)

/-- One turn of the loop: the object on top of the stack is popped and its children are marked.
Witness: the popped object is in reach, so its marks fit.
-/
theorem scanGray_spec (fits : ReachFits heap)
    (leaves : ∀ a, heap.reachable a = true → isLeaf heap a = true) {m : Marking Addr}
    (traced : HeapTraced heap m) (work : Nat)
    : ∃ work', (withMarks heap m work).scanGray
      = withMarks heap (m.scan (children heap) (isLeaf heap)) work' := by
  cases stack : m.gray with
  | nil =>
      refine ⟨work, ?_⟩
      have none : (withMarks heap m work).grayObjects = [] := stack
      rw [Heap.scanGray, none, Marking.scan, stack]
  | cons a gray =>
      have some : (withMarks heap m work).grayObjects = a :: gray := stack
      have onTop := traced.stacked a (by rw [stack]; exact List.mem_cons_self)
      obtain ⟨obj, found⟩ := object_of_inner onTop.2
      have reached : InReach heap a := by
        refine ((reaches_iff leaves).mp (traced.sound a onTop.1)).resolve_right fun marked => ?_
        rw [leaves a marked] at onTop
        cases onTop.2
      obtain ⟨work', marked⟩ := markAll_spec (fits.objects a reached obj found)
        { m with gray := gray } work
      refine ⟨work', ?_⟩
      have found' : (withMarks heap m work).nodes a = _ := found
      have scanned : m.scan (children heap) (isLeaf heap)
          = Marking.markAll (isLeaf heap) { m with gray := gray }
            ((obj.marks heap).filterMap markAddr) := by
        simp only [Marking.scan, stack, children_object found]
      simp only [Heap.scanGray, some, found', (sameGraph_withMarks heap m work).marks]
      rw [scanned]
      exact marked

/-- The loop is the drain of a marking, by induction on the turns. -/
theorem drainGray_spec (fits : ReachFits heap)
    (leaves : ∀ a, heap.reachable a = true → isLeaf heap a = true) {m : Marking Addr}
    (traced : HeapTraced heap m) (fuel work : Nat)
    : ∃ work', Heap.drainGray fuel (withMarks heap m work)
      = withMarks heap (m.drain (children heap) (isLeaf heap) fuel) work' := by
  induction fuel generalizing m work with
  | zero => exact ⟨work, rfl⟩
  | succ fuel ih =>
      obtain ⟨work₁, scanned⟩ := scanGray_spec fits leaves traced work
      rw [Heap.drainGray, scanned]
      exact ih traced.scan work₁

/-- The marking with which the roots begin. -/
theorem HeapTraced.start (leaves : ∀ a, heap.reachable a = true → isLeaf heap a = true)
    (empty : heap.grayObjects = []) : HeapTraced heap (marking heap) where
  sound a marked := .root (.inr marked)
  stacked a member := by
    rw [marking, empty] at member
    cases member
  nodup := by
    rw [marking, empty]
    exact List.nodup_nil
  closed a marked inner := by
    have leaf := leaves a marked
    rw [inner] at leaf
    cases leaf

/-- `mark_roots` sets the flags of what the roots reach, next to those of leaves that were set. The
stack runs empty, no freed header is read and nothing else changes.
-/
theorem markRoots_exact (fits : ReachFits heap) (empty : heap.grayObjects = [])
    (listed : ∀ a, heap.isObject a = true → a ∈ heap.heapAllocated)
    (leaves : ∀ a, heap.reachable a = true → isLeaf heap a = true)
    : ∃ m work, heap.markRoots = withMarks heap m work ∧ m.gray = []
      ∧ ∀ a, m.marked a = true ↔ InReach heap a ∨ heap.reachable a = true := by
  obtain ⟨work₁, rooted⟩ := markAll_spec fits.roots (marking heap) heap.markWorkLast
  rw [withMarks_marking] at rooted
  have traced := (HeapTraced.start leaves empty).markAll
    (fun a root => .root (.inl root) : ∀ a ∈ heap.rootMarks.filterMap markAddr, _)
  obtain ⟨work₂, drained⟩ := drainGray_spec fits leaves traced heap.heapAllocated.length work₁
  rw [Heap.markRoots, rooted, drained]
  have few : ((Marking.markAll (isLeaf heap) (marking heap)
      (heap.rootMarks.filterMap markAddr)).unscanned heap.heapAllocated.toFinset).card
      ≤ heap.heapAllocated.length :=
    (Finset.card_filter_le _ _).trans (List.toFinset_card_le _)
  have gray := traced.drain_gray (fun a reached inner => by
    rcases (reaches_iff leaves).mp reached with - | marked
    · refine List.mem_toFinset.mpr (listed a ?_)
      rwa [isLeaf, Bool.not_eq_false'] at inner
    · rw [leaves a marked] at inner
      cases inner) few
  refine ⟨_, work₂, rfl, gray, fun a => ?_⟩
  refine ((traced.drain _).marked_iff (fun a => children_leaf) (fun a root => ?_) gray).trans
    (reaches_iff leaves)
  apply Marking.drain_keeps
  rcases root with root | marked
  · exact Marking.markAll_marks root
  · exact Marking.markAll_keeps _ marked

-----------------------------------------------------------------------------------------
-- A heap with one root
-----------------------------------------------------------------------------------------

/-- Objects with the string at 2 as a property, and nothing else. -/
def stringHolder : HObject where
  prototype := none
  props := [(some 2, .string 2)]
  propAlloc := true
  arrayPart := none
  arrayUsed := 0
  extra := .plain

def quietVm : Vm where
  valstack := []
  valstackTop := 0
  activations := []
  shadowActivations := []
  returnVal := .undefined
  throwValue := .undefined

/-- The object at 1 is the only root. -/
def oneRoot : Roots where
  gcRoots := [1]
  capiSlots := []
  promotedBuiltins := []
  intrinsics := []
  vm := quietVm
  microtaskQueue := []
  unhandledRejections := []
  asyncWaiters := []
  symbolRegistry := []
  strs := []
  compiledFuncs := []
  wellKnownSymbols := []
  checkpointKeys := []
  errorValue := .undefined
  yieldValue := .undefined
  resumeGen := none
  genInitialGs := none
  genInitialObj := none
  genInitStackObj := []
  moduleCache := []

/-- A heap with an object in reach and one out of reach, which both hold an interned string. -/
def twoObjects : Heap where
  nodes a :=
    match a with
    | 1 => some (.object stringHolder)
    | 2 => some (.string true)
    | 3 => some (.object stringHolder)
    | _ => none
  refcount := fun a => if a = 2 then 3 else 1
  reachable _ := false
  temproot _ := true
  generators _ := none
  generatorStates := []
  heapAllocated := [3, 1]
  strTable := [2]
  strTableSize := 64
  largeStrings := []
  grayObjects := []
  reactionNextKey := none
  roots := oneRoot
  nativeFrameDepth := 0
  sweeping := false
  gcRunning := false
  gcPending := true
  stringSweepSafe := false
  gcTriggerCounter := 0
  liveObjCount := 2
  markWorkLast := 0
  strayed := false

theorem twoObjects_nodes {obj : HObject} (found : twoObjects.nodes a = some (.object obj))
    : obj = stringHolder ∧ (a = 1 ∨ a = 3) := by
  unfold twoObjects at found
  dsimp only at found
  split at found <;> cases found <;> simp

/-- The marks of the two objects and of the root fit. -/
theorem twoObjects_fits : ReachFits twoObjects where
  roots item member := by
    simp [Heap.rootMarks, twoObjects, oneRoot, quietVm, Heap.isObject, Node.isObject,
      Heap.generatorMarks, Vm.marks, activationMarks] at member
    rcases member with rfl | rfl | rfl
    all_goals simp [MarkFits, twoObjects, Heap.isObject, Node.isObject]
  objects a _ obj found item member := by
    obtain ⟨rfl, -⟩ := twoObjects_nodes found
    simp [HObject.marks, stringHolder, HObjectExtra.marks] at member
    rcases member with rfl | rfl | rfl
    all_goals
      simp [MarkFits, twoObjects, LeafAt, isLeaf, Heap.isObject, Node.isObject]

theorem twoObjects_listed (object : twoObjects.isObject a = true) : a ∈ [3, 1] := by
  rw [Heap.isObject] at object
  cases found : twoObjects.nodes a with
  | none =>
      rw [found] at object
      cases object
  | some node =>
      rw [found] at object
      cases node with
      | object obj =>
          rcases (twoObjects_nodes found).2 with rfl | rfl
          · exact List.mem_cons_of_mem _ List.mem_cons_self
          · exact List.mem_cons_self
      | string isInterned | box => cases object

theorem markRoots_twoObjects
    : ∃ m work, twoObjects.markRoots = withMarks twoObjects m work ∧ m.gray = []
      ∧ ∀ a, m.marked a = true ↔ InReach twoObjects a ∨ twoObjects.reachable a = true :=
  markRoots_exact twoObjects_fits rfl (fun _ => twoObjects_listed) fun _ marked => by cases marked

end Boomkat.Correctness
