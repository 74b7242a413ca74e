import Boomkat.Collections.Key
import Boomkat.Foundation.ProbeEnds

/-! Maps, sets and their weak variants: entries in the dense part of an object, with a hash index
that is built over them when there are enough.
-/

namespace Boomkat.Collections
open Foundation

inductive CollClass where
  | map
  | set
  | weakMap
  | weakSet
  deriving DecidableEq

/-- The slots of an entry: a key with its value, or a value alone. -/
def CollClass.stride : CollClass → Nat
  | .map | .weakMap => 2
  | .set | .weakSet => 1

def CollClass.isWeak : CollClass → Bool
  | .weakMap | .weakSet => true
  | .map | .set => false

/-- The index over the entries: positions in the dense part by the hash of the key there. Up to
`built` the dense part is indexed.
-/
structure CollHashInfo where
  slots : List (Slot Nat)
  used : Nat
  built : Nat

def CollHashInfo.mask (ci : CollHashInfo) : Nat := ci.slots.length - 1

/-- The fields of a collection's object. -/
structure Coll where
  cls : CollClass
  arrayPart : List TVal
  arrayUsed : Nat
  collHash : Option CollHashInfo

def Coll.new (cls : CollClass) : Coll := ⟨cls, [], 0, none⟩

def arrayInitialSize : Nat := 16

def collHashMinEntries : Nat := 8

def Coll.entries (coll : Coll) : Nat := coll.arrayUsed / coll.cls.stride

/-- A slot of the dense part. Behind its end there is nothing to read. -/
def Coll.slot (coll : Coll) (i : Nat) : TVal := coll.arrayPart.getD i .undefined

/-- The positions from `start` on at which an entry begins. -/
def positions (stride start stop : Nat) : List Nat :=
  List.range' start ((stop - start + stride - 1) / stride) stride

-----------------------------------------------------------------------------------------
-- The dense part
-----------------------------------------------------------------------------------------

/-- Double the size up to the target. There is no result beyond the limit. -/
def doubleUpTo (limit target : Nat) : Nat → Nat → Option Nat
  | 0, _ => none
  | fuel + 1, size =>
      if target ≤ size then some size
      else if limit ≤ size then none
      else doubleUpTo limit target fuel (size * 2)

/-- Grow the dense part, if the allocator has memory. -/
def Coll.growArray (coll : Coll) (newSize : Nat) (allocates : Bool) : Coll :=
  if newSize ≤ coll.arrayPart.length ∨ ¬allocates then coll
  else
    { coll with
      arrayPart := coll.arrayPart
        ++ List.replicate (newSize - coll.arrayPart.length) TVal.undefined }

/-- Grow the dense part until it has the slot, by doubling its size. -/
def Coll.reserve (coll : Coll) (idx : Nat) (allocates : Bool) : Coll :=
  let size := if coll.arrayPart.length = 0 then arrayInitialSize else coll.arrayPart.length
  if idx < coll.arrayPart.length then coll
  else
    match doubleUpTo 0x80000000 (idx + 1) 33 size with
    | some newSize => coll.growArray newSize allocates
    | none => coll

/-- Store a value, where `undefined` counts as a hole. A value is lost if the dense part cannot
grow.
-/
def Coll.setArrayIdx (coll : Coll) (idx : Nat) (val : TVal) (allocates : Bool) : Coll :=
  let coll := coll.reserve idx allocates
  if idx < coll.arrayPart.length then
    let oldVal := coll.slot idx
    let arrayUsed :=
      if oldVal = .undefined ∧ val ≠ .undefined then coll.arrayUsed + 1
      else if oldVal ≠ .undefined ∧ val = .undefined then coll.arrayUsed - 1
      else coll.arrayUsed
    { coll with arrayPart := coll.arrayPart.set idx val, arrayUsed := arrayUsed }
  else coll

-----------------------------------------------------------------------------------------
-- The index
-----------------------------------------------------------------------------------------

/-- Enter positions into free slots. There is no result where no slot is free. -/
def indexEntries (free : List (Slot Nat) → Nat → Nat → Option Nat) (hash : Nat → Nat)
    : List Nat → CollHashInfo → Option CollHashInfo
  | [], ci => some ci
  | i :: rest, ci =>
      (free ci.slots ci.slots.length (firstSlot ci.slots.length (hash i))).bind fun slot =>
        indexEntries free hash rest
          { ci with slots := ci.slots.set slot (.entry i), used := ci.used + 1 }

/-- The hash of the key at a position. -/
def Coll.hashAt (heap : HeapData) (coll : Coll) (i : Nat) : Nat :=
  (collHashKey heap (coll.slot i)).toNat

/-- The positions of entries from `start` on that are not deleted. -/
def Coll.livePositions (coll : Coll) (start : Nat) : List Nat :=
  (positions coll.cls.stride start coll.arrayUsed).filter fun i => coll.slot i != .deleted

/-- Replace the index by one over all the entries. Without memory there is none, and no result
where a probe never comes to an empty slot.
-/
def collHashBuild (heap : HeapData) (coll : Coll) (allocates : Bool) : Option Coll :=
  let dropped := { coll with collHash := none }
  match doubleUpTo 0x40000000 (coll.entries * 2 % 2 ^ 32) 33 16 with
  | some cap =>
      if ¬allocates ∨ coll.arrayPart = [] then some dropped
      else
        let ci : CollHashInfo := ⟨List.replicate cap .empty, 0, coll.arrayUsed⟩
        (indexEntries emptySlot (coll.hashAt heap) (coll.livePositions 0) ci).map fun ci =>
          { coll with collHash := some ci }
  | none => some dropped

/-- The linear scan. -/
def findInArrayPart (heap : HeapData) (coll : Coll) (val : TVal) : Option Nat :=
  (positions coll.cls.stride 0 coll.arrayUsed).find? fun i => sameValueZero heap (coll.slot i) val

/-- Index the entries that were appended since, while the load is low. -/
def Coll.catchUp (heap : HeapData) (coll : Coll) : Option Coll :=
  match coll.collHash with
  | some ci =>
      if ci.built < coll.arrayUsed ∧ ci.used * 2 ≤ ci.mask ∧ coll.arrayPart ≠ [] then
        (indexEntries vacantSlot (coll.hashAt heap) (coll.livePositions ci.built) ci).map fun ci =>
          { coll with collHash := some { ci with built := coll.arrayUsed } }
      else some coll
  | none => some coll

/-- The index cannot serve a lookup. -/
def Coll.needsBuild (coll : Coll) : Bool :=
  match coll.collHash with
  | some ci => ci.built != coll.arrayUsed || decide (ci.mask < ci.used * 2)
  | none => true

/-- Build the index anew unless it can serve a lookup. -/
def Coll.refresh (heap : HeapData) (coll : Coll) (allocates : Bool) : Option Coll :=
  if coll.needsBuild then collHashBuild heap coll allocates else some coll

/-- The position of a key, with what the lookup does to the index. There is no result where a
probe never ends.
-/
def collFind (heap : HeapData) (coll : Coll) (val : TVal) (allocates : Bool)
    : Option (Coll × Option Nat) :=
  if coll.entries < collHashMinEntries then some (coll, findInArrayPart heap coll val)
  else do
    let coll ← coll.catchUp heap
    let coll ← coll.refresh heap allocates
    match coll.collHash with
    | none => some (coll, findInArrayPart heap coll val)
    | some ci =>
        if coll.arrayPart = [] then some (coll, none)
        else
          let hit := fun i => decide (i < coll.arrayUsed) && sameValueZero heap (coll.slot i) val
          let start := firstSlot ci.slots.length (collHashKey heap val).toNat
          (probeEntry ci.slots hit ci.slots.length start).map fun found => (coll, found)

-----------------------------------------------------------------------------------------
-- Operations
-----------------------------------------------------------------------------------------

/-- What the allocator has memory for in a call: a new index, and the dense part at each of two
writes.
-/
structure Memory where
  index : Bool
  firstWrite : Bool
  secondWrite : Bool

/-- Append a key with its value. -/
def Coll.appendEntry (coll : Coll) (key value : TVal) (memory : Memory) : Coll :=
  let cnt := coll.arrayUsed
  let coll := coll.setArrayIdx cnt key memory.firstWrite
  let coll := coll.setArrayIdx (cnt + 1) value memory.secondWrite
  if coll.arrayUsed ≤ cnt + 1 then { coll with arrayUsed := cnt + 2 } else coll

/-- Overwrite the value of an entry. -/
def Coll.overwrite (coll : Coll) (found : Nat) (value : TVal) : Coll :=
  { coll with arrayPart := coll.arrayPart.set (found + 1) value }

/-- `coll_set_entry`. A key that cannot be held weakly throws. -/
def collSetEntry (heap : HeapData) (coll : Coll) (key value : ScriptVal) (memory : Memory)
    : Option Coll :=
  if coll.cls.isWeak ∧ ¬canBeHeldWeakly heap key.val then some coll
  else do
    let key := canonicalizeKeyedCollectionKey key
    let (coll, found) ← collFind heap coll key.val memory.index
    match found with
    | some found => some (coll.overwrite found value.val)
    | none => some (coll.appendEntry key.val value.val memory)

/-- `coll_get_or_insert`, without the value it returns. -/
def collGetOrInsert (heap : HeapData) (coll : Coll) (key value : ScriptVal) (memory : Memory)
    : Option Coll :=
  if coll.cls.isWeak ∧ ¬canBeHeldWeakly heap key.val then some coll
  else do
    let key := canonicalizeKeyedCollectionKey key
    let (coll, found) ← collFind heap coll key.val memory.index
    match found with
    | some _ => some coll
    | none => some (coll.appendEntry key.val value.val memory)

/-- `coll_add_value` -/
def collAddValue (heap : HeapData) (coll : Coll) (value : ScriptVal) (memory : Memory)
    : Option Coll :=
  if coll.cls.isWeak ∧ ¬canBeHeldWeakly heap value.val then some coll
  else do
    let value := canonicalizeKeyedCollectionKey value
    let (coll, found) ← collFind heap coll value.val memory.index
    match found with
    | some _ => some coll
    | none =>
        let idx := coll.arrayUsed
        let coll := coll.setArrayIdx idx value.val memory.firstWrite
        if ¬coll.cls.isWeak ∧ coll.arrayUsed ≤ idx then some { coll with arrayUsed := idx + 1 }
        else some coll

/-- Mark the slots of an entry as deleted. -/
def Coll.bury (coll : Coll) (found : Nat) : Coll :=
  { coll with
    arrayPart := (List.range' found coll.cls.stride).foldl (fun part i => part.set i .deleted)
      coll.arrayPart }

/-- Shift the later entries down over an entry. -/
def Coll.compact (coll : Coll) (found : Nat) : Coll :=
  let cnt := coll.arrayUsed
  let stride := coll.cls.stride
  let shifted := (List.range' found (cnt - stride - found)).foldl
    (fun part i => part.set i (part.getD (i + stride) .undefined)) coll.arrayPart
  { coll with
    arrayPart := (List.range' (cnt - stride) stride).foldl (fun part i => part.set i .undefined)
      shifted,
    arrayUsed := cnt - stride }

/-- `coll_delete`: entries of a weak collection do not stay as marks. -/
def collDelete (heap : HeapData) (coll : Coll) (key : ScriptVal) (memory : Memory)
    : Option Coll := do
  let (coll, found) ← collFind heap coll key.val memory.index
  match found with
  | some found => some (if coll.cls.isWeak then coll.compact found else coll.bury found)
  | none => some coll

/-- `builtin_map_proto_clear` and `builtin_set_proto_clear` -/
def collClear (coll : Coll) : Coll :=
  { coll with
    arrayPart := (List.range coll.arrayUsed).foldl (fun part i => part.set i .undefined)
      coll.arrayPart,
    arrayUsed := 0 }

/-- Calls on a collection. The call `getOrInsertComputed` is in two halves, with those calls in
between that its callback makes.
-/
inductive CollOp where
  | set (key value : ScriptVal)
  | getOrInsert (key value : ScriptVal)
  | getOrInsertComputed (key : ScriptVal)
  | computed (key value : ScriptVal)
  | add (value : ScriptVal)
  | delete (key : ScriptVal)
  | clear
  | lookup (key : ScriptVal)

/-- The method is one of the class. -/
def CollOp.fits : CollOp → CollClass → Bool
  | .set .., cls | .getOrInsert .., cls | .getOrInsertComputed _, cls | .computed .., cls =>
      cls.stride == 2
  | .add _, cls => cls.stride == 1
  | .clear, cls => !cls.isWeak
  | .delete _, _ | .lookup _, _ => true

/-- The collection after a call. A method on an object of another class throws. -/
def Coll.step (heap : HeapData) (coll : Coll) : CollOp × Memory → Option Coll
  | (op, memory) =>
      if ¬op.fits coll.cls then some coll
      else
        match op with
        | .set key value => collSetEntry heap coll key value memory
        | .getOrInsert key value => collGetOrInsert heap coll key value memory
        | .getOrInsertComputed key =>
            if coll.cls.isWeak ∧ ¬canBeHeldWeakly heap key.val then some coll
            else (collFind heap coll (canonicalizeKeyedCollectionKey key).val memory.index).map
              Prod.fst
        | .computed key value => collSetEntry heap coll key value memory
        | .add value => collAddValue heap coll value memory
        | .delete key => collDelete heap coll key memory
        | .clear => some (collClear coll)
        | .lookup key => (collFind heap coll key.val memory.index).map Prod.fst

end Boomkat.Collections
