import Boomkat.Json.Number

/-! Tagged values in 64 bits: setters, predicates and getters of the NaN-boxed build. -/

namespace Boomkat.Machine

-----------------------------------------------------------------------------------------
-- Kinds and stores
-----------------------------------------------------------------------------------------

/-- The discriminator of a value. -/
inductive TValTag where
  | undefined | nullVal | boolean | number | fastint | string | object | buffer | pointer
  | lightfunc | bigint | deleted
  deriving DecidableEq, Repr

/-- The kinds of values that hold a pointer. -/
inductive PointerKind where
  | string | object | buffer | pointer | lightfunc | bigint
  deriving DecidableEq, Repr

def PointerKind.tag : PointerKind → TValTag
  | string => .string
  | object => .object
  | buffer => .buffer
  | pointer => .pointer
  | lightfunc => .lightfunc
  | bigint => .bigint

/-- An integer of 48 bits. -/
abbrev Fastint := { n : Int // fastintMin ≤ n ∧ n ≤ fastintMax }

/-- What is stored into a value, with its argument. Pointers have 48 bits; the last store is
the marker of a binding that is not initialized.
-/
inductive Store where
  | undefined
  | deleted
  | null
  | boolean (val : Bool)
  | number (val : Double)
  | fastint (val : Fastint)
  | fastintOrNumber (val : BitVec 64)
  | pointer (kind : PointerKind) (ptr : BitVec 48)
  | tdzSentinel
  deriving DecidableEq

-----------------------------------------------------------------------------------------
-- The box
-----------------------------------------------------------------------------------------

def nanboxPayloadMask : BitVec 64 := 0x0000FFFFFFFFFFFF

def tagBits : TValTag → BitVec 64
  | .fastint => 0xFFF1
  | .bigint => 0xFFF2
  | .undefined => 0xFFF3
  | .nullVal => 0xFFF4
  | .boolean => 0xFFF5
  | .pointer => 0xFFF6
  | .lightfunc => 0xFFF7
  | .string => 0xFFF8
  | .object => 0xFFF9
  | .buffer => 0xFFFA
  | .deleted => 0xFFFF
  -- A double has no tag. This is the highest pattern one starts with.
  | .number => 0xFFF0

def nanboxEncodeTagged (tag payload : BitVec 64) : TVal :=
  (tag <<< 48) ||| (payload &&& nanboxPayloadMask)

def nanboxGetTag (v : TVal) : BitVec 64 := v >>> 48

def nanboxGetPayload (v : TVal) : BitVec 64 := v &&& nanboxPayloadMask

def nanboxIsDouble (v : TVal) : Bool := decide (v >>> 48 ≤ 0xFFF0)

namespace TVal

/-- The tag is decoded from the bits. -/
def getTag (self : TVal) : TValTag :=
  if nanboxIsDouble self then .number
  else if nanboxGetTag self = tagBits .undefined then .undefined
  else if nanboxGetTag self = tagBits .nullVal then .nullVal
  else if nanboxGetTag self = tagBits .boolean then .boolean
  else if nanboxGetTag self = tagBits .fastint then .fastint
  else if nanboxGetTag self = tagBits .string then .string
  else if nanboxGetTag self = tagBits .object then .object
  else if nanboxGetTag self = tagBits .buffer then .buffer
  else if nanboxGetTag self = tagBits .pointer then .pointer
  else if nanboxGetTag self = tagBits .lightfunc then .lightfunc
  else if nanboxGetTag self = tagBits .bigint then .bigint
  else if nanboxGetTag self = tagBits .deleted then .deleted
  else .undefined

-----------------------------------------------------------------------------------------
-- Predicates
-----------------------------------------------------------------------------------------

def isUndefined (self : TVal) : Bool := self == tagBits .undefined <<< 48

def isNull (self : TVal) : Bool := self == tagBits .nullVal <<< 48

def isDeleted (self : TVal) : Bool := self == tagBits .deleted <<< 48

def isBoolean (self : TVal) : Bool := nanboxGetTag self == tagBits .boolean

def isNumber (self : TVal) : Bool := nanboxIsDouble self

def isString (self : TVal) : Bool := nanboxGetTag self == tagBits .string

def isObject (self : TVal) : Bool := nanboxGetTag self == tagBits .object

def isBuffer (self : TVal) : Bool := nanboxGetTag self == tagBits .buffer

def isBigint (self : TVal) : Bool := nanboxGetTag self == tagBits .bigint

def isPointer (self : TVal) : Bool := nanboxGetTag self == tagBits .pointer

def isLightfunc (self : TVal) : Bool := nanboxGetTag self == tagBits .lightfunc

/-- Undefined and null have consecutive tags and a zero payload. -/
def isNullish (self : TVal) : Bool :=
  let tag := self >>> 48
  decide (tagBits .undefined ≤ tag) && decide (tag ≤ tagBits .nullVal)
    && self &&& nanboxPayloadMask == 0

def isNumeric (self : TVal) : Bool := decide (self >>> 48 ≤ tagBits .fastint)

def isHeapAllocated (self : TVal) : Bool :=
  let tag := self >>> 48
  (decide (tagBits .string ≤ tag) && decide (tag ≤ tagBits .buffer)) || tag == tagBits .bigint

/-- Undefined with a payload, which the real one never has. -/
def isTdzSentinel (self : TVal) : Bool :=
  !nanboxIsDouble self && nanboxGetTag self == tagBits .undefined
    && nanboxGetPayload self != 0

/-- Both values are integers, in one test of their differing bits. -/
def bothFastint (b c : TVal) : Bool :=
  ((b ^^^ (tagBits .fastint <<< 48)) ||| (c ^^^ (tagBits .fastint <<< 48))) >>> 48 == 0

def eitherHeapAllocated (b c : TVal) : Bool := b.isHeapAllocated || c.isHeapAllocated

-----------------------------------------------------------------------------------------
-- Getters
-----------------------------------------------------------------------------------------

def getBoolean (self : TVal) : Bool := nanboxGetPayload self != 0

def getNumber (self : TVal) : Double := self

def getHeapptr (self : TVal) : BitVec 64 := nanboxGetPayload self

-----------------------------------------------------------------------------------------
-- Setters
-----------------------------------------------------------------------------------------

/-- An integer result, as a double when it does not fit. -/
def setFastintOrNumber (val : BitVec 64) : TVal :=
  if fastintMin ≤ val.toInt ∧ val.toInt ≤ fastintMax then setFastint val.toInt
  else setNumber (Double.ofInt val.toInt)

def setPointer (kind : PointerKind) (ptr : BitVec 64) : TVal :=
  nanboxEncodeTagged (tagBits kind.tag) ptr

/-- The bits after a store, which leaves nothing of those before. -/
def store : Store → TVal
  | .undefined => tagBits .undefined <<< 48
  | .deleted => tagBits .deleted <<< 48
  | .null => tagBits .nullVal <<< 48
  | .boolean val => nanboxEncodeTagged (tagBits .boolean) (if val then 1 else 0)
  | .number val => setNumber val
  | .fastint val => setFastint val.val
  | .fastintOrNumber val => setFastintOrNumber val
  | .pointer kind ptr => setPointer kind (ptr.setWidth 64)
  | .tdzSentinel => nanboxEncodeTagged (tagBits .undefined) 1

end TVal

end Boomkat.Machine
