import Boomkat.Machine.Value
import Boomkat.Json.Number
import Boomkat.Strings.StringHeap

/-! The keys of collections: when two of them are the same, and how they are hashed. -/

namespace Boomkat.Collections
open Machine (Double)
open Strings

/-- A tagged value. Heap values are addresses, and `deleted` marks a slot whose entry is gone. -/
inductive TVal where
  | undefined
  | null
  | boolean (b : Bool)
  | number (d : Double)
  | fastint (n : BitVec 48)
  | string (s : Addr)
  | object (addr : Addr)
  | buffer (addr : Addr)
  | pointer (addr : Addr)
  | lightfunc (payload : Addr)
  | bigint (addr : Addr)
  | deleted
  deriving DecidableEq

/-- A value that a script can have. -/
abbrev ScriptVal := { val : TVal // val ≠ .deleted }

/-- What the heap has behind the addresses of strings, of symbols and of bigints, and the symbols
that `Symbol.for` registered.
-/
structure HeapData where
  strings : Addr → HString
  bigints : Addr → BitVec 128
  registered : Addr → Bool
  hashSeed : UInt32

/-- The strings of a heap. An address without one stands for an empty string. -/
def HeapData.of (heap : StringHeap) (bigints : Addr → BitVec 128) (registered : Addr → Bool)
    : HeapData where
  strings s := (heap.strings s).getD
    { data := [], hash := hashString heap.hashSeed [], capacity := 0, refcount := 0,
      isSymbol := false, isInterned := false, serial := 0 }
  bigints := bigints
  registered := registered
  hashSeed := heap.hashSeed

-----------------------------------------------------------------------------------------
-- SameValue and SameValueZero
-----------------------------------------------------------------------------------------

/-- Interned strings are compared by address, others by content. Hashes are a fast reject where
both are known.
-/
def equalsHstring (heap : HeapData) (s t : Addr) : Bool :=
  if s = t then true
  else if ¬(heap.strings s).isInterned ∨ ¬(heap.strings t).isInterned then
    if (heap.strings s).data.length ≠ (heap.strings t).data.length then false
    else if (heap.strings s).hash ≠ (heap.strings t).hash
        ∧ (heap.strings s).hash ≠ hashDeferred ∧ (heap.strings t).hash ≠ hashDeferred then false
    else (heap.strings s).data == (heap.strings t).data
  else false

def isZero (d : Double) : Bool := Double.eq d 0

/-- Doubles are the same if both are NaN or they are equal. With `zeroSignsDistinct` zeros are
the same only if the quotients `1 / d` are equal, that is with one sign.
-/
def sameDouble (zeroSignsDistinct : Bool) (x y : Double) : Bool :=
  if x.isNan && y.isNan then true
  else if zeroSignsDistinct && isZero x && isZero y then x.isNegative == y.isNegative
  else Double.eq x y

/-- A fastint as a double. -/
def ofFastint (n : BitVec 48) : Double := Double.ofInt n.toInt

def sameValueImpl (heap : HeapData) (a b : TVal) (zeroSignsDistinct : Bool) : Bool :=
  match a, b with
  | .undefined, .undefined => true
  | .null, .null => true
  | .boolean x, .boolean y => x == y
  | .number x, .number y => sameDouble zeroSignsDistinct x y
  | .fastint m, .fastint n => m == n
  | .string s, .string t => equalsHstring heap s t
  | .object x, .object y => x == y
  | .lightfunc x, .lightfunc y => x == y
  | .bigint x, .bigint y => heap.bigints x == heap.bigints y
  | .number x, .fastint n => sameDouble zeroSignsDistinct x (ofFastint n)
  | .fastint m, .number y => sameDouble zeroSignsDistinct (ofFastint m) y
  | _, _ => false

def sameValueZero (heap : HeapData) (a b : TVal) : Bool := sameValueImpl heap a b false

-----------------------------------------------------------------------------------------
-- Hashes
-----------------------------------------------------------------------------------------

/-- The hash of a string, which is computed where it was deferred. -/
def contentHash (heap : HeapData) (s : Addr) : UInt32 :=
  if (heap.strings s).hash = hashDeferred then hashString heap.hashSeed (heap.strings s).data
  else (heap.strings s).hash

/-- Mix the bits of a double, with -0 folded onto +0. -/
def collHashDouble (d : Double) : UInt32 :=
  let x : UInt64 := if isZero d then 0 else UInt64.ofBitVec d
  let x := x ^^^ (x >>> 33)
  let x := x * 0xFF51AFD7ED558CCD
  (x ^^^ (x >>> 29)).toUInt32

def collHashKey (heap : HeapData) (v : TVal) : UInt32 :=
  match v with
  | .fastint n => collHashDouble (ofFastint n)
  | .number d => if d.isNan then 0x7FF80000 else collHashDouble d
  | .string s => contentHash heap s
  | .boolean b => if b then 0x9E3779B9 else 0x85EBCA6B
  | .undefined => 0xC2B2AE35
  | .null => 0x27D4EB2F
  | .bigint addr =>
      let b : UInt64 := UInt64.ofBitVec ((heap.bigints addr).setWidth 64)
      b.toUInt32 ^^^ (b >>> 32).toUInt32
  | .object addr | .buffer addr | .pointer addr | .lightfunc addr =>
      let p := UInt64.ofNat addr
      (p >>> 4).toUInt32 ^^^ (p >>> 32).toUInt32
  | .deleted => 0

/-- A zero of either sign becomes the fastint 0. -/
def canonicalizeKeyedCollectionKey (key : ScriptVal) : ScriptVal :=
  match key with
  | ⟨.number d, _⟩ => if isZero d then ⟨.fastint 0, nofun⟩ else key
  | _ => key

/-- A key of a weak collection: an object, or a symbol that is not registered. -/
def canBeHeldWeakly (heap : HeapData) (val : TVal) : Bool :=
  match val with
  | .object _ | .lightfunc _ => true
  | .string s => (heap.strings s).isSymbol && !heap.registered s
  | _ => false

end Boomkat.Collections
