import Boomkat.Collections.Collection
import Boomkat.Foundation.EntryList

/-! Iterators and `forEach` over a collection that changes meanwhile, and what the language says
of them: the same calls on a list of entries that is walked by cursors.
-/

namespace Boomkat.Collections
open Foundation

-----------------------------------------------------------------------------------------
-- Iterators
-----------------------------------------------------------------------------------------

/-- An iterator object, whose target is gone once it is exhausted, or a `forEach` call that is
running. The position of an iterator counts entries, that of the call counts slots.
-/
inductive Walker where
  | iterator (target : Bool) (index : Nat)
  | forEach (running : Bool) (i : Nat)

def Walker.running : Walker → Bool
  | .iterator target _ => target
  | .forEach running _ => running

/-- The slot where the walker goes on. -/
def Walker.place (stride : Nat) : Walker → Nat
  | .iterator _ index => index * stride
  | .forEach _ i => i

/-- The first slot from one on whose entry is not deleted, or one that is not below the bound. -/
def Coll.skipDeleted (coll : Coll) (bound : Nat) : Nat → Nat → Nat
  | 0, slot => slot
  | fuel + 1, slot =>
      if slot < bound ∧ coll.slot slot = .deleted then
        coll.skipDeleted bound fuel (slot + coll.cls.stride)
      else slot

/-- `builtin_map_iterator_next` and `builtin_set_iterator_next`, with the slot of the entry. -/
def Coll.iteratorNext (coll : Coll) (target : Bool) (index : Nat) : Walker × Option Nat :=
  if ¬target then (.iterator target index, none)
  else
    let slotIdx := coll.skipDeleted coll.arrayUsed (coll.arrayUsed + 1) (index * coll.cls.stride)
    if slotIdx < coll.arrayUsed ∧ coll.arrayPart ≠ [] then
      (.iterator true (slotIdx / coll.cls.stride + 1), some slotIdx)
    else (.iterator false index, none)

/-- The loop of `forEach` up to the next call of the callback, with the slot of the entry. A map
asks for the slot of the value to be there as well.
-/
def Coll.forEachNext (coll : Coll) (running : Bool) (i : Nat) : Walker × Option Nat :=
  if ¬running then (.forEach running i, none)
  else
    let bound := coll.arrayUsed - (coll.cls.stride - 1)
    let i := coll.skipDeleted bound (bound + 1) i
    if i < bound then (.forEach true (i + coll.cls.stride), some i) else (.forEach false i, none)

/-- The key and the value of the entry in a slot. A set has values alone. -/
def Coll.entryAt (coll : Coll) (slot : Nat) : TVal × TVal :=
  (coll.slot slot, if coll.cls.stride = 2 then coll.slot (slot + 1) else coll.slot slot)

/-- Calls of a script, also of the callbacks of `forEach` between two steps of its loop. -/
inductive WalkEvent where
  | call (op : CollOp) (memory : Memory)
  | createIterator
  | iteratorNext (walker : Nat)
  | forEach
  | forEachNext (walker : Nat)

/-- A collection with its walkers. The log has what each step of a walker came to. -/
structure Walked where
  coll : Coll
  walkers : List Walker
  log : List (Nat × Option (TVal × TVal))

def Walked.new (cls : CollClass) : Walked := ⟨.new cls, [], []⟩

/-- A walker goes on. -/
def Walked.goOn (state : Walked) (w : Nat) (next : Walker × Option Nat) : Walked :=
  { state with
    walkers := state.walkers.set w next.1
    log := state.log ++ [(w, next.2.map state.coll.entryAt)] }

def Walked.step (heap : HeapData) (state : Walked) : WalkEvent → Option Walked
  | .call op memory =>
      (state.coll.step heap (op, memory)).map fun coll => { state with coll := coll }
  | .createIterator => some { state with walkers := state.walkers ++ [.iterator true 0] }
  | .forEach => some { state with walkers := state.walkers ++ [.forEach true 0] }
  | .iteratorNext w =>
      match state.walkers[w]? with
      | some (.iterator target index) => some (state.goOn w (state.coll.iteratorNext target index))
      | _ => none
  | .forEachNext w =>
      match state.walkers[w]? with
      | some (.forEach running i) => some (state.goOn w (state.coll.forEachNext running i))
      | _ => none

-----------------------------------------------------------------------------------------
-- What the language says
-----------------------------------------------------------------------------------------

/-- A list of entries with the cursors of its iterators and `forEach` calls. -/
structure MapData where
  list : EntryList (TVal × TVal)
  log : List (Nat × Option (TVal × TVal))

def MapData.new : MapData := ⟨.empty, []⟩

/-- The place of a key. -/
def findKey (heap : HeapData) (cells : List (Option (TVal × TVal))) (key : TVal) : Option Nat :=
  cells.findIdx? fun cell => cell.any fun entry => sameValueZero heap entry.1 key

/-- Append an entry, unless the key is there. -/
def MapData.insert (heap : HeapData) (data : MapData) (key value : TVal) : MapData :=
  match findKey heap data.list.cells key with
  | some _ => data
  | none => { data with list := data.list.append (key, value) }

/-- Append an entry, or put the value in the one that has the key. -/
def MapData.set (heap : HeapData) (data : MapData) (key value : TVal) : MapData :=
  match findKey heap data.list.cells key with
  | some i =>
      { data with
        list := data.list.assign i (data.list.cells[i]?.join.map fun entry => (entry.1, value)) }
  | none => { data with list := data.list.append (key, value) }

def MapData.delete (heap : HeapData) (data : MapData) (key : TVal) : MapData :=
  match findKey heap data.list.cells key with
  | some i => { data with list := data.list.assign i none }
  | none => data

/-- A call on a map or a set. A method of another class throws. -/
def MapData.call (heap : HeapData) (cls : CollClass) (data : MapData) (op : CollOp) : MapData :=
  if ¬op.fits cls then data
  else
    match op with
    | .set key value | .computed key value =>
        data.set heap (canonicalizeKeyedCollectionKey key).val value.val
    | .getOrInsert key value =>
        data.insert heap (canonicalizeKeyedCollectionKey key).val value.val
    | .add value =>
        data.insert heap (canonicalizeKeyedCollectionKey value).val
          (canonicalizeKeyedCollectionKey value).val
    | .delete key => data.delete heap key.val
    | .clear => { data with list := data.list.clear }
    | .getOrInsertComputed _ | .lookup _ => data

/-- A cursor goes on, and the log gets the entry that it came to. -/
def MapData.goOn (data : MapData) (w : Nat) : Option MapData :=
  (data.list.advance w).map fun (list, found) =>
    { data with
      list := list
      log := data.log ++ [(w, found.bind fun i => data.list.cells[i]?.join)] }

def MapData.step (heap : HeapData) (cls : CollClass) (data : MapData) : WalkEvent → Option MapData
  | .call op _ => some (data.call heap cls op)
  | .createIterator | .forEach => some { data with list := data.list.openCursor }
  | .iteratorNext w | .forEachNext w => data.goOn w

end Boomkat.Collections
