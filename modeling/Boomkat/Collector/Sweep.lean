import Boomkat.Collector.Mark
import Mathlib.Logic.Function.Basic

/-! The sweep, with the teardown of the objects that it frees and the references that they release,
and a whole collection.
-/

namespace Boomkat.Collector
open Collections (TVal)
open Strings (Addr stringPinnedRefcount)

-----------------------------------------------------------------------------------------
-- Teardown
-----------------------------------------------------------------------------------------

/-- What a teardown does: a reference is dropped, a generator state is released, a pin is cleared,
or the block of an object is freed.
-/
inductive Release where
  | drop (a : Addr)
  | generator (gs : Addr)
  | unpin (a : Addr)
  | free (a : Addr)
  deriving DecidableEq

/-- The pointer of a value that holds a reference. -/
def heapPtr : TVal → Option Addr
  | .string s => if s = 0 then none else some s
  | .object obj => if obj = 0 then none else some obj
  | .buffer buf => if buf = 0 then none else some buf
  | .bigint b => if b = 0 then none else some b
  | _ => none

/-- `decref_tval` -/
def dropValue (v : TVal) : List Release := (heapPtr v).toList.map .drop

def dropObject (obj : Option Addr) : List Release := obj.toList.map .drop

/-- The fields that `hobject_free` releases before the properties and the elements. -/
def HObjectExtra.releases : HObjectExtra → List Release
  | .promise result _ => dropValue result
  | .getterSetter getter setter => dropValue getter ++ dropValue setter
  | .bound target this args => dropValue target ++ dropValue this ++ dropObject args
  | .asyncState gs capturedThis => dropValue capturedThis ++ gs.toList.map .generator
  | .function _ _ capturedThis _ => dropValue capturedThis
  | .error capturedStack => dropValue capturedStack
  | .iterator target => dropObject target
  | .generator _ _ generatorData => generatorData.toList.map .generator
  | _ => []

/-- `hobject_free`. Properties and elements are released only if they have left the object's own
block.
-/
def HObject.releases (obj : HObject) : List Release :=
  obj.extra.releases
    ++ if obj.propAlloc then
        obj.props.flatMap (fun prop => dropValue prop.2) ++ (obj.arrayPart.getD []).flatMap dropValue
      else []

/-- What the last holder of a generator state releases. -/
def GeneratorState.releases (gs : GeneratorState) : List Release :=
  (gs.savedRegs.getD []).flatMap dropValue ++ dropValue gs.thisBinding
    ++ (gs.forin.filterMap id).map .unpin
    ++ gs.cat.flatMap fun c => dropValue c.thrownVal

/-- A block goes back to the allocator. -/
def Heap.freeBlock (heap : Heap) (a : Addr) : Heap :=
  { heap.touch a with nodes := Function.update heap.nodes a none }

/-- `decref`, and the object whose teardown is left to do. -/
def Heap.decref (heap : Heap) (a : Addr) : Heap × Option HObject :=
  let heap := heap.touch a
  if heap.sweeping && !heap.isString a && !heap.reachable a && !heap.temproot a then (heap, none)
  else if heap.isString a && heap.refcount a == stringPinnedRefcount then (heap, none)
  else
    let count := heap.refcount a - 1
    let counted := { heap with refcount := Function.update heap.refcount a count }
    if count ≠ 0 then (counted, none)
    else
      match heap.nodes a with
      | some (.string isInterned) =>
          if isInterned then
            ({ counted with strTable := counted.strTable.erase a }.freeBlock a, none)
          else ({ counted with largeStrings := counted.largeStrings.erase a }.freeBlock a, none)
      | some node =>
          -- a marked node is live whatever its count says
          if heap.sweeping && heap.reachable a then
            ({ heap with refcount := Function.update heap.refcount a 1 }, none)
          else
            let unlinked := { counted with heapAllocated := counted.heapAllocated.erase a }
            match node with
            | .object obj => (unlinked, some obj)
            | _ => (unlinked.freeBlock a, none)
      | none => (counted, none)

/-- `gs_release`, and what is left to release. -/
def Heap.gsRelease (heap : Heap) (gs : Addr) : Heap × List Release :=
  match heap.generators gs with
  | none => ({ heap with strayed := true }, [])
  | some state =>
      if state.refCount - 1 ≠ 0 then
        ({ heap with
            generators :=
              Function.update heap.generators gs
                (some { state with refCount := state.refCount - 1 }) }, [])
      else
        ({ heap with generators := Function.update heap.generators gs none }, state.releases)

/-- The releases, with those of a node that is freed by them before the rest. Each use of the fuel
frees an object or a generator state.
-/
def Heap.release : Nat → List Release → Heap → Heap
  | _, [], heap => heap
  | fuel, .unpin a :: work, heap => Heap.release fuel work (heap.clearTemproot a)
  | fuel, .free a :: work, heap => Heap.release fuel work (heap.freeBlock a)
  | fuel, .drop a :: work, heap =>
      match heap.decref a with
      | (heap, none) => Heap.release fuel work heap
      | (heap, some obj) =>
          match fuel with
          | 0 => { heap with strayed := true }
          | fuel + 1 => Heap.release fuel (obj.releases ++ .free a :: work) heap
  | fuel, .generator gs :: work, heap =>
      match heap.gsRelease gs with
      | (heap, []) => Heap.release fuel work heap
      | (heap, more) =>
          match fuel with
          | 0 => { heap with strayed := true }
          | fuel + 1 => Heap.release fuel (more ++ work) heap
termination_by fuel work => (fuel, work.length)

/-- `hobject_free` for a dying node. The block is freed later. -/
def Heap.teardown (heap : Heap) (a : Addr) : Heap :=
  match heap.nodes a with
  | some (.object obj) =>
      Heap.release (heap.heapAllocated.length + heap.generatorStates.length) obj.releases heap
  | some _ => heap
  | none => { heap with strayed := true }

-----------------------------------------------------------------------------------------
-- Sweeping
-----------------------------------------------------------------------------------------

def Heap.isDying (heap : Heap) (a : Addr) : Bool := !heap.reachable a && !heap.temproot a

/-- A survivor that was marked loses both flags. -/
def Heap.resetSurvivor (heap : Heap) (a : Addr) : Heap :=
  if heap.reachable a then
    {
      heap.touch a with
      reachable := Function.update heap.reachable a false
      temproot := Function.update heap.temproot a false
    }
  else heap.touch a

/-- `sweep`: the dying nodes are unlinked, then all are torn down, and then their blocks are freed. -/
def Heap.sweep (heap : Heap) : Heap :=
  let dying := (heap.heapAllocated.filter heap.isDying).reverse
  let kept := heap.heapAllocated.filter fun a => !heap.isDying a
  let unlinked := { heap with heapAllocated := kept, sweeping := true }
  let torn := dying.foldl Heap.teardown unlinked
  let freed := dying.foldl Heap.freeBlock torn
  let reset := freed.heapAllocated.foldl Heap.resetSurvivor freed
  { reset with sweeping := false, liveObjCount := kept.length }

/-- `sweep_strings`: an entry goes if it is not marked and only the table holds it. -/
def Heap.sweepStrings (heap : Heap) : Heap :=
  let dead a := heap.refcount a == 1 && !heap.reachable a
  let swept :=
    {
      heap with
      markWorkLast := heap.markWorkLast + heap.strTableSize
      strTable := heap.strTable.filter fun a => !dead a
    }
  (heap.strTable.filter dead).foldl Heap.freeBlock swept

/-- `sweep_large_strings`: the count does not matter. -/
def Heap.sweepLargeStrings (heap : Heap) : Heap :=
  (heap.largeStrings.filter fun a => !heap.reachable a).foldl Heap.freeBlock
    { heap with largeStrings := heap.largeStrings.filter heap.reachable }

-----------------------------------------------------------------------------------------
-- A collection
-----------------------------------------------------------------------------------------

def gcInitialTrigger : Nat := 1

def gcTriggerGrowFactor : Nat := 1

def gcMarkWorkDivisor : Nat := 16

/-- The flags of all nodes and strings are cleared, and those of temporary roots if it is safe. -/
def Heap.clearFlags (heap : Heap) (clearTemproots : Bool) : Heap :=
  {
    heap with
    reachable := fun a =>
      heap.reachable a && !(a ∈ heap.heapAllocated || a ∈ heap.strTable || a ∈ heap.largeStrings)
    temproot := fun a => heap.temproot a && !(clearTemproots && a ∈ heap.heapAllocated)
  }

/-- `mark_and_sweep` -/
def Heap.markAndSweep (heap : Heap) (safepoint : Bool) : Heap :=
  if heap.gcRunning then heap
  else
    let started := { heap with gcRunning := true, markWorkLast := 0 }
    let clear := started.clearFlags (safepoint && heap.nativeFrameDepth == 0)
    let swept := clear.markRoots.sweep
    let strings := if swept.stringSweepSafe then swept.sweepStrings.sweepLargeStrings else swept
    let byNodes := strings.liveObjCount * gcTriggerGrowFactor
    let byWork := strings.markWorkLast / gcMarkWorkDivisor
    {
      strings with
      gcTriggerCounter := max gcInitialTrigger (max byWork byNodes)
      gcRunning := false
    }

/-- `trigger_gc` -/
def Heap.triggerGc (heap : Heap) : Heap := heap.markAndSweep false

/-- `safepoint_gc` -/
def Heap.safepointGc (heap : Heap) : Heap :=
  let quiescent := { heap with stringSweepSafe := heap.nativeFrameDepth == 0 }
  { quiescent.markAndSweep true with stringSweepSafe := false, gcPending := false }

end Boomkat.Collector
