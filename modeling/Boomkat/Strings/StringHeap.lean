import Boomkat.Foundation.OpenAddressing
import Boomkat.Strings.Encoding
import Mathlib.Logic.Function.Basic

/-! The strings of a heap, with the table of interned strings and the registry of the others. -/

namespace Boomkat.Strings
open Foundation

abbrev Addr := Nat

/-- A string allocation. `serial` tells it from others that had the same address. -/
structure HString where
  data : List UInt8
  hash : UInt32
  capacity : Nat
  refcount : UInt32
  isSymbol : Bool
  isInterned : Bool
  serial : Nat
  deriving DecidableEq

/-- The strings of a heap. `held` notes the strings that were entered into the table and not
removed since, and `refused` those that the registry had no memory for.
-/
structure StringHeap where
  strings : Addr → Option HString
  strTable : List (Slot Addr)
  strTableUsed : Nat
  largeStrings : List Addr
  largeStringCapacity : Nat
  hashSeed : UInt32
  symbolCounter : UInt32
  nextSerial : Nat
  held : List Addr
  refused : List Addr

/-- What the allocator does in an operation: whether it has memory for a scratch buffer, for a
table and for the registry, the references that a collection in it drops, and the address of a
new string.
-/
structure Answers where
  scratch : Bool
  table : Bool
  registry : Bool
  collected : List Addr
  string : Option Addr

def initialStrTableSize : Nat := 256

def maxInternBytes : Nat := 256

def concatAccumMin : Nat := 32

def maxStringBytes : Nat := 0x3FFFFFFF

def stringPinnedRefcount : UInt32 := 0x7FFFFFFF

def StringHeap.write (heap : StringHeap) (s : Addr) (str : HString) : StringHeap :=
  { heap with strings := Function.update heap.strings s (some str) }

/-- The hash that a table entry is found by. -/
def StringHeap.hashOf (heap : StringHeap) (s : Addr) : Nat :=
  match heap.strings s with
  | some str => str.hash.toNat
  | none => 0

-----------------------------------------------------------------------------------------
-- The string table
-----------------------------------------------------------------------------------------

/-- The conversion to a 32-bit float: 24 significant bits, to the nearest, ties to even. -/
def toFloat (n : Nat) : Nat :=
  let unit := 2 ^ (n.log2 - 23)
  let below := n / unit
  let rest := n % unit
  if 2 * rest > unit || (2 * rest == unit && below % 2 == 1) then (below + 1) * unit
  else below * unit

/-- The load factor would be over 0.70, which as a float is 11744051 over `2 ^ 24`. Sizes are
powers of two, so the quotient is exact.
-/
def overloaded (used size : Nat) : Bool := toFloat used * 2 ^ 24 > 11744051 * size

/-- Replace the table by one of another size. There is no result where the rehash never ends. -/
def StringHeap.resize (heap : StringHeap) (newSize : Nat) (allocates : Bool)
    : Option StringHeap :=
  let newSize := if newSize < initialStrTableSize then initialStrTableSize else newSize
  if allocates then
    (rehash heap.hashOf heap.strTable (List.replicate newSize .empty)).map fun table =>
      { heap with strTable := table }
  else some heap

def StringHeap.strTableGrow (heap : StringHeap) (allocates : Bool) : Option StringHeap :=
  heap.resize (heap.strTable.length * 2 % 2 ^ 32) allocates

def StringHeap.strTableShrink (heap : StringHeap) (allocates : Bool) : Option StringHeap :=
  heap.resize (heap.strTable.length / 2) allocates

/-- The entry has this hash and these bytes. -/
def StringHeap.isContent (heap : StringHeap) (data : List UInt8) (hash : UInt32) (s : Addr)
    : Bool :=
  match heap.strings s with
  | some str => str.hash == hash && str.data == data
  | none => false

def StringHeap.strTableLookup (heap : StringHeap) (data : List UInt8) (hash : UInt32)
    : Option Addr :=
  let size := heap.strTable.length
  if size = 0 then none
  else findEntry heap.strTable (heap.isContent data hash) size (firstSlot size hash.toNat)

def HString.incref (str : HString) : HString :=
  if str.refcount = stringPinnedRefcount then str else { str with refcount := str.refcount + 1 }

/-- The table owns a string that has got a slot. -/
def HString.adopt (str : HString) : HString := { str with isInterned := true }.incref

/-- Enter a string with its hash, whether or not a table that is overloaded can grow. The answer
tells whether there was a slot.
-/
def StringHeap.strTableInsert (heap : StringHeap) (s : Addr) (str : HString) (allocates : Bool)
    : Option (StringHeap × Bool) :=
  let grown :=
    if overloaded (heap.strTableUsed + 1) heap.strTable.length then heap.strTableGrow allocates
    else some heap
  grown.map fun heap =>
    let size := heap.strTable.length
    match insertionSlot heap.strTable size (firstSlot size str.hash.toNat) none with
    | some use =>
        ({
            heap.write s str.adopt with
            strTable := heap.strTable.set use (.entry s)
            strTableUsed := heap.strTableUsed + 1
            held := s :: heap.held
          },
          true)
    | none => (heap, false)

/-- Turn the slot of a string into a tombstone. -/
def StringHeap.strTableRemove (heap : StringHeap) (s : Addr) : StringHeap :=
  let size := heap.strTable.length
  let heap := { heap with held := heap.held.filter (· ≠ s) }
  if size = 0 then heap
  else
    match entrySlot heap.strTable s size (firstSlot size (heap.hashOf s)) with
    | some use =>
        {
          heap with
          strTable := heap.strTable.set use .tombstone
          strTableUsed := heap.strTableUsed - 1
        }
    | none => heap

-----------------------------------------------------------------------------------------
-- The registry of large strings
-----------------------------------------------------------------------------------------

/-- Append a string to the registry. A failed grow leaves it unregistered. -/
def StringHeap.largeStringRegister (heap : StringHeap) (s : Addr) (allocates : Bool)
    : StringHeap :=
  let full := heap.largeStrings.length = heap.largeStringCapacity
  if full ∧ !allocates then { heap with refused := s :: heap.refused }
  else
    {
      heap with
      largeStrings := heap.largeStrings ++ [s]
      largeStringCapacity :=
        if full then if heap.largeStringCapacity = 0 then 64 else heap.largeStringCapacity * 2
        else heap.largeStringCapacity
      refused := heap.refused.filter (· ≠ s)
    }

/-- Move the last entry into the slot of this one. -/
def swapRemove (entries : List Addr) (s : Addr) : List Addr :=
  match entries.idxOf? s, entries.getLast? with
  | some idx, some last => (entries.set idx last).dropLast
  | _, _ => entries

def StringHeap.largeStringUnregister (heap : StringHeap) (s : Addr) : StringHeap :=
  { heap with largeStrings := swapRemove heap.largeStrings s }

-----------------------------------------------------------------------------------------
-- References
-----------------------------------------------------------------------------------------

def StringHeap.freeString (heap : StringHeap) (s : Addr) : StringHeap :=
  { heap with strings := Function.update heap.strings s none }

/-- Drop a reference. At zero the string leaves its table and is freed. -/
def StringHeap.decref (heap : StringHeap) (s : Addr) : StringHeap :=
  match heap.strings s with
  | none => heap
  | some str =>
      if str.refcount = stringPinnedRefcount then heap
      else
        let heap := heap.write s { str with refcount := str.refcount - 1 }
        if str.refcount - 1 = 0 then
          (if str.isInterned then heap.strTableRemove s else heap.largeStringUnregister s).freeString s
        else heap

def StringHeap.increfString (heap : StringHeap) (s : Addr) : StringHeap :=
  match heap.strings s with
  | none => heap
  | some str => heap.write s str.incref

def StringHeap.setPinned (heap : StringHeap) (s : Addr) : StringHeap :=
  match heap.strings s with
  | none => heap
  | some str => heap.write s { str with refcount := stringPinnedRefcount }

/-- Only the table holds the string, and it was not marked. -/
def StringHeap.isDead (heap : StringHeap) (reachable : Addr → Bool) (s : Addr) : Bool :=
  match heap.strings s with
  | some str => str.refcount = 1 && !reachable s
  | none => false

/-- The loop of `sweep_strings` over the table. -/
def StringHeap.freeDead (heap : StringHeap) (dead : Addr → Bool) : StringHeap :=
  {
    heap with
    strings := fun s => if dead s ∧ .entry s ∈ heap.strTable then none else heap.strings s
    strTable := buryDead dead heap.strTable
    strTableUsed :=
      heap.strTableUsed
        - heap.strTable.countP fun
          | .entry s => dead s
          | _ => false
    held := heap.held.filter (!dead ·)
  }

/-- Free the dead strings of the table, and shrink a table that has emptied out. -/
def StringHeap.sweepStrings (heap : StringHeap) (reachable : Addr → Bool) (allocates : Bool)
    : Option StringHeap :=
  if heap.strTable.length = 0 then some heap
  else
    let swept := heap.freeDead (heap.isDead reachable)
    if swept.strTableUsed < swept.strTable.length / 4
        ∧ swept.strTable.length > initialStrTableSize then
      swept.strTableShrink allocates
    else some swept

/-- Free the registered strings that were not marked. -/
def StringHeap.sweepLargeStrings (heap : StringHeap) (reachable : Addr → Bool) : StringHeap :=
  {
    heap with
    strings := fun s => if !reachable s ∧ s ∈ heap.largeStrings then none else heap.strings s
    largeStrings := heap.largeStrings.filter reachable
  }

-----------------------------------------------------------------------------------------
-- New strings
-----------------------------------------------------------------------------------------

/-- A symbol starts with 0xFF. -/
def isSymbolData (data : List UInt8) : Bool := data.head? == some 0xFF

/-- `hstring_alloc_cap`. The allocator hands out an address that is not in use. -/
def StringHeap.hstringAllocCap (heap : StringHeap) (data : List UInt8) (hash : UInt32)
    (cap : Nat) (answers : Answers) : StringHeap × Option Addr :=
  if data.length > maxStringBytes ∨ cap > maxStringBytes then (heap, none)
  else
    let heap := answers.collected.foldl StringHeap.decref heap
    match answers.string with
    | none => (heap, none)
    | some s =>
        if (heap.strings s).isSome then (heap, none)
        else
          ({
              heap.write s
                {
                  data := data
                  hash := hash
                  capacity := if cap < data.length then data.length else cap
                  refcount := 0
                  isSymbol := isSymbolData data
                  isInterned := false
                  serial := heap.nextSerial
                } with
              nextSerial := heap.nextSerial + 1
              refused := heap.refused.filter (· ≠ s)
            },
            some s)

/-- Allocate a string that goes to the registry. -/
def StringHeap.allocRegistered (heap : StringHeap) (data : List UInt8) (hash : UInt32)
    (cap : Nat) (answers : Answers) : StringHeap × Option Addr :=
  match heap.hstringAllocCap data hash cap answers with
  | (heap, none) => (heap, none)
  | (heap, some s) => (heap.largeStringRegister s answers.registry, some s)

/-- The string's hash, computed if it was deferred. -/
def HString.contentHash (hashSeed : UInt32) (str : HString) : HString :=
  if str.hash = hashDeferred then { str with hash := hashString hashSeed str.data } else str

/-- Enter a string that is in neither of them into the table, or else into the registry. -/
def StringHeap.insertOrRegister (heap : StringHeap) (s : Addr) (str : HString)
    (answers : Answers) : Option StringHeap :=
  (heap.strTableInsert s str answers.table).map fun
    | (heap, true) => heap
    | (heap, false) => heap.largeStringRegister s answers.registry

/-- Intern a string: itself or the one with its content that is in the table. -/
def StringHeap.ensureInterned (heap : StringHeap) (s : Addr) (answers : Answers)
    : Option (StringHeap × Addr) :=
  (heap.strings s).bind fun str =>
    if str.isInterned then some (heap, s)
    else
      let str := str.contentHash heap.hashSeed
      let heap := heap.write s str
      match heap.strTableLookup str.data str.hash with
      | some existing => some (heap, existing)
      | none =>
          ((heap.largeStringUnregister s).insertOrRegister s str answers).map fun heap => (heap, s)

def StringHeap.strInternNormalized (heap : StringHeap) (data : List UInt8) (answers : Answers)
    : Option (StringHeap × Option Addr) :=
  if data.length > maxInternBytes then
    some (heap.allocRegistered data hashDeferred data.length answers)
  else
    let hash := hashString heap.hashSeed data
    match heap.strTableLookup data hash with
    | some existing => some (heap, some existing)
    | none =>
        match heap.hstringAllocCap data hash data.length answers with
        | (heap, none) => some (heap, none)
        | (heap, some s) =>
            (heap.strings s).bind fun str =>
              (heap.insertOrRegister s str answers).map fun heap => (heap, some s)

def StringHeap.strIntern (heap : StringHeap) (data : List UInt8) (answers : Answers)
    : Option (StringHeap × Option Addr) :=
  let canonical :=
    if hasRawUtf8Astral data && answers.scratch then normalizeToCesu8 data else data
  heap.strInternNormalized canonical answers

/-- `create_symbol_string`: a symbol is told from others by the hash it starts with. -/
def StringHeap.createSymbolString (heap : StringHeap) (desc : List UInt8) (hasDesc : Bool)
    (answers : Answers) : StringHeap × Option Addr :=
  let start : List UInt8 := if hasDesc then [0xFF, 0x01] else [0xFF]
  let data := start ++ desc.take (255 - start.length)
  { heap with symbolCounter := heap.symbolCounter + 1 }.allocRegistered data
    (heap.hashSeed ^^^ heap.symbolCounter) data.length answers

def StringHeap.createHiddenSymbol (heap : StringHeap) (desc : List UInt8) (answers : Answers)
    : StringHeap × Option Addr :=
  let data := [0xFF, 0xFF] ++ desc.take (255 - 2)
  { heap with symbolCounter := heap.symbolCounter + 1 }.allocRegistered data
    (heap.hashSeed ^^^ heap.symbolCounter) data.length answers

-----------------------------------------------------------------------------------------
-- Concatenation accumulators
-----------------------------------------------------------------------------------------

/-- Append in place, if the spare capacity allows. -/
def HString.tryAppendInPlace (str : HString) (tail : List UInt8) : Option HString :=
  if str.data.length + tail.length > str.capacity then none
  else some { str with data := str.data ++ tail, hash := hashDeferred }

/-- `vm_concat_birth`. -/
def StringHeap.concatBirth (heap : StringHeap) (data : List UInt8) (answers : Answers)
    : StringHeap × Option Addr :=
  if data.length < concatAccumMin then (heap, none)
  else
    let cap := data.length * 2
    let cap := if cap > maxStringBytes then data.length else cap
    heap.allocRegistered data hashDeferred cap answers

/-- `vm_concat_accumulate` on the register that holds `s`. With a second reference the next
instruction has to store the register back, which `storesBack` says.
-/
def StringHeap.concatAccumulate (heap : StringHeap) (s : Addr) (tail : List UInt8)
    (storesBack : Bool) (answers : Answers) : Option StringHeap :=
  (heap.strings s).map fun str =>
    if str.data.length < concatAccumMin || str.isInterned || str.isSymbol then heap
    else if !(str.refcount = 1 || (str.refcount = 2 && storesBack)) then heap
    else
      match str.tryAppendInPlace tail with
      | some longer => heap.write s longer
      | none =>
          let need := str.data.length + tail.length
          let want := if str.capacity * 2 < need then need else str.capacity * 2
          let want := if want > maxStringBytes then need else want
          if want > maxStringBytes then heap
          else
            match heap.allocRegistered str.data hashDeferred want answers with
            | (heap, none) => heap
            | (heap, some grown) =>
                match (heap.strings grown).bind (·.tryAppendInPlace tail) with
                | none => (heap.largeStringUnregister grown).freeString grown
                | some longer => ((heap.write grown longer).increfString grown).decref s

-----------------------------------------------------------------------------------------
-- Runs
-----------------------------------------------------------------------------------------

inductive StringEvent where
  | strIntern (data : List UInt8) (answers : Answers)
  | strInternNormalized (data : List UInt8) (answers : Answers)
  | ensureInterned (s : Addr) (answers : Answers)
  | createSymbolString (desc : List UInt8) (hasDesc : Bool) (answers : Answers)
  | createHiddenSymbol (desc : List UInt8) (answers : Answers)
  | concatBirth (data : List UInt8) (answers : Answers)
  | concatAccumulate (s : Addr) (tail : List UInt8) (storesBack : Bool) (answers : Answers)
  | incref (s : Addr)
  | decref (s : Addr)
  | setPinned (s : Addr)
  | strTableGrow (allocates : Bool)
  | strTableShrink (allocates : Bool)
  | sweepStrings (reachable : Addr → Bool) (allocates : Bool)
  | sweepLargeStrings (reachable : Addr → Bool)

/-- The heap after an operation, which is on a live string and comes to an end. -/
def StringHeap.step (heap : StringHeap) : StringEvent → Option StringHeap
  | .strIntern data answers => (heap.strIntern data answers).map Prod.fst
  | .strInternNormalized data answers => (heap.strInternNormalized data answers).map Prod.fst
  | .ensureInterned s answers => (heap.ensureInterned s answers).map Prod.fst
  | .createSymbolString desc hasDesc answers =>
      some (heap.createSymbolString desc hasDesc answers).1
  | .createHiddenSymbol desc answers => some (heap.createHiddenSymbol desc answers).1
  | .concatBirth data answers => some (heap.concatBirth data answers).1
  | .concatAccumulate s tail storesBack answers =>
      heap.concatAccumulate s tail storesBack answers
  | .incref s => some (heap.increfString s)
  | .decref s => some (heap.decref s)
  | .setPinned s => some (heap.setPinned s)
  | .strTableGrow allocates => heap.strTableGrow allocates
  | .strTableShrink allocates => heap.strTableShrink allocates
  | .sweepStrings reachable allocates => heap.sweepStrings reachable allocates
  | .sweepLargeStrings reachable => some (heap.sweepLargeStrings reachable)

def StringHeap.new : StringHeap where
  strings := fun _ => none
  strTable := List.replicate initialStrTableSize .empty
  strTableUsed := 0
  largeStrings := []
  largeStringCapacity := 0
  hashSeed := 0xDEADBEEF
  symbolCounter := 0
  nextSerial := 0
  held := []
  refused := []

end Boomkat.Strings
