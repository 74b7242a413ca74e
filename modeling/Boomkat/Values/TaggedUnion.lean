import Boomkat.Values.NanBox

/-! Tagged values as a tag and a union: the build without NaN boxes. -/

namespace Boomkat.Machine

/-- The union of a value, with the member that was written last. -/
inductive Payload where
  | boolean (val : Bool)
  | number (val : Double)
  | fastint (val : Int)
  | pointer (ptr : BitVec 64)
  deriving DecidableEq

/-- A value of the build without NaN boxes. -/
structure TaggedUnion where
  tag : TValTag
  payload : Payload
  deriving DecidableEq

namespace TaggedUnion

-----------------------------------------------------------------------------------------
-- Predicates
-----------------------------------------------------------------------------------------

def getTag (self : TaggedUnion) : TValTag := self.tag

def isUndefined (self : TaggedUnion) : Bool := self.tag == .undefined

def isNull (self : TaggedUnion) : Bool := self.tag == .nullVal

def isDeleted (self : TaggedUnion) : Bool := self.tag == .deleted

def isBoolean (self : TaggedUnion) : Bool := self.tag == .boolean

def isNumber (self : TaggedUnion) : Bool := self.tag == .number

def isFastint (self : TaggedUnion) : Bool := self.tag == .fastint

def isString (self : TaggedUnion) : Bool := self.tag == .string

def isObject (self : TaggedUnion) : Bool := self.tag == .object

def isBuffer (self : TaggedUnion) : Bool := self.tag == .buffer

def isBigint (self : TaggedUnion) : Bool := self.tag == .bigint

def isPointer (self : TaggedUnion) : Bool := self.tag == .pointer

def isLightfunc (self : TaggedUnion) : Bool := self.tag == .lightfunc

def isNullish (self : TaggedUnion) : Bool := self.tag == .undefined || self.tag == .nullVal

def isNumeric (self : TaggedUnion) : Bool := self.tag == .number || self.tag == .fastint

def isHeapAllocated (self : TaggedUnion) : Bool :=
  self.tag == .string || self.tag == .object || self.tag == .buffer || self.tag == .bigint

def bothFastint (b c : TaggedUnion) : Bool := b.isFastint && c.isFastint

def eitherHeapAllocated (b c : TaggedUnion) : Bool := b.isHeapAllocated || c.isHeapAllocated

-----------------------------------------------------------------------------------------
-- Getters
-----------------------------------------------------------------------------------------

/-- A getter reads its member, which has an answer when that is the member written last. -/
def getBoolean (self : TaggedUnion) : Option Bool :=
  match self.payload with
  | .boolean val => some val
  | _ => none

def getNumber (self : TaggedUnion) : Option Double :=
  match self.payload with
  | .number val => some val
  | _ => none

def getFastint (self : TaggedUnion) : Option Int :=
  match self.payload with
  | .fastint val => some val
  | _ => none

def getHeapptr (self : TaggedUnion) : Option (BitVec 64) :=
  match self.payload with
  | .pointer ptr => some ptr
  | _ => none

def getNumberOrFastint (self : TaggedUnion) : Option Double :=
  if self.tag = .fastint then self.getFastint.map Double.ofInt else self.getNumber

/-- Undefined with a pointer that is not null. Undefined is only ever stored with a pointer. -/
def isTdzSentinel (self : TaggedUnion) : Bool :=
  self.tag == .undefined && self.getHeapptr.any (· != 0)

-----------------------------------------------------------------------------------------
-- Setters
-----------------------------------------------------------------------------------------

def setFastintOrNumber (val : BitVec 64) : TaggedUnion :=
  if fastintMin ≤ val.toInt ∧ val.toInt ≤ fastintMax then ⟨.fastint, .fastint val.toInt⟩
  else ⟨.number, .number (Double.ofInt val.toInt)⟩

/-- The value after a store. -/
def store : Store → TaggedUnion
  | .undefined => ⟨.undefined, .pointer 0⟩
  | .deleted => ⟨.deleted, .pointer 0⟩
  | .null => ⟨.nullVal, .pointer 0⟩
  | .boolean val => ⟨.boolean, .boolean val⟩
  | .number val => ⟨.number, .number val⟩
  | .fastint val => ⟨.fastint, .fastint val.val⟩
  | .fastintOrNumber val => setFastintOrNumber val
  | .pointer kind ptr => ⟨kind.tag, .pointer (ptr.setWidth 64)⟩
  | .tdzSentinel => ⟨.undefined, .pointer 1⟩

end TaggedUnion

end Boomkat.Machine
