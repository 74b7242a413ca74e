import Boomkat.Foundation.ByteBlock
import Mathlib.Algebra.Group.Int.Defs
import Mathlib.Algebra.Group.Nat.Defs

/-! Array buffers and the views over them: where a view lies in the buffer as it is, and the
addresses of its elements.
-/

namespace Boomkat.TypedArrays
open Foundation

/-- The value of an expression of 32 bits without a sign. -/
def uint (n : Nat) : Nat := n % 2 ^ 32

-----------------------------------------------------------------------------------------
-- Classes
-----------------------------------------------------------------------------------------

/-- The kinds of typed arrays, in the order of `ObjClass`. -/
inductive ElementClass where
  | int8array
  | uint8array
  | uint8clampedarray
  | int16array
  | uint16array
  | int32array
  | uint32array
  | float16array
  | float32array
  | float64array
  | bigint64array
  | biguint64array
  deriving DecidableEq

structure TAInfo where
  elemSize : Nat
  elemShift : Nat
  isBigint : Bool

def taInfo : ElementClass → TAInfo
  | .int8array | .uint8array | .uint8clampedarray => ⟨1, 0, false⟩
  | .int16array | .uint16array | .float16array => ⟨2, 1, false⟩
  | .int32array | .uint32array | .float32array => ⟨4, 2, false⟩
  | .float64array => ⟨8, 3, false⟩
  | .bigint64array | .biguint64array => ⟨8, 3, true⟩

def taElemSize (cls : ElementClass) : Nat := (taInfo cls).elemSize

def taElemShift (cls : ElementClass) : Nat := (taInfo cls).elemShift

def isBigintTypedArrayClass (cls : ElementClass) : Bool := (taInfo cls).isBigint

-----------------------------------------------------------------------------------------
-- Buffers
-----------------------------------------------------------------------------------------

/-- The length of a buffer that is detached. -/
def detachedLength : Nat := 0xFFFFFFFF

structure ArrayBuffer where
  data : Option ByteBlock
  byteLength : Nat
  resizable : Bool
  maxByteLength : Nat
  isShared : Bool

/-- An address in memory: a place in the block that was there when it was taken. -/
structure Pointer where
  block : Option Nat
  offset : Nat

def Pointer.plus (p : Pointer) (n : Nat) : Pointer := { p with offset := p.offset + n }

/-- The address of a buffer's first byte. -/
def ArrayBuffer.pointer (buf : ArrayBuffer) : Pointer := ⟨buf.data.map ByteBlock.addr, 0⟩

/-- The bytes at an address, each of which has to be one of the buffer's data. -/
def ArrayBuffer.load (buf : ArrayBuffer) (p : Pointer) (n : Nat) : Option (List UInt8) :=
  if n = 0 then some []
  else
    buf.data.bind fun block =>
      if p.block = some block.addr then block.load buf.byteLength p.offset n else none

/-- Put bytes at an address, each of which has to be one of the buffer's data. -/
def ArrayBuffer.store (buf : ArrayBuffer) (p : Pointer) (bytes : List UInt8) : Option ArrayBuffer :=
  if bytes = [] then some buf
  else
    buf.data.bind fun block =>
      if p.block = some block.addr then
        (block.store buf.byteLength p.offset bytes).map fun stored => { buf with data := stored }
      else none

-----------------------------------------------------------------------------------------
-- Views
-----------------------------------------------------------------------------------------

structure View where
  cls : ElementClass
  buffer : Nat
  byteOffset : Nat
  byteLength : Nat
  lengthTracking : Bool

/-- The number of a canonical numeric index. One that is not whole is taken by its floor. -/
inductive NumericIndex where
  | nan
  | infinite (negative : Bool)
  | negZero
  | fraction (floor : Int)
  | whole (n : Int)

/-- The interpreter converts the value for a store only if the number may be an index. -/
def NumericIndex.isPlausible : NumericIndex → Bool
  | .whole n => decide (0 ≤ n ∧ n < 2 ^ 63)
  | .negZero => true
  | .nan | .infinite _ | .fraction _ => false

variable (view : View) (buf : ArrayBuffer)

/-- `view_is_out_of_bounds`, for a view over the buffer. -/
def viewIsOutOfBounds : Bool :=
  if buf.byteLength = detachedLength then true
  else if ¬buf.resizable then false
  else if buf.byteLength < view.byteOffset then true
  else if view.lengthTracking then false
  else decide (buf.byteLength < uint (view.byteOffset + view.byteLength))

def viewEffectiveByteLength : Nat :=
  if viewIsOutOfBounds view buf then 0
  else if ¬view.lengthTracking then view.byteLength
  else
    let avail := buf.byteLength - view.byteOffset
    avail >>> taElemShift view.cls <<< taElemShift view.cls

def taElementCount : Nat := viewEffectiveByteLength view buf >>> taElemShift view.cls

/-- The index of an element, where `ta_is_valid_integer_index` says that it is one. -/
def taIsValidIntegerIndex : NumericIndex → Option Nat
  | .whole n =>
      if ¬viewIsOutOfBounds view buf ∧ 0 ≤ n ∧ n < taElementCount view buf then some n.toNat
      else none
  | .nan | .infinite _ | .negZero | .fraction _ => none

/-- The number of elements for an access of the interpreter. That of a buffer of a fixed length is
not looked at again.
-/
def fastElementCount : Nat :=
  if buf.resizable then taElementCount view buf else view.byteLength >>> taElemShift view.cls

/-- The index of an element for an access of the interpreter by a number, whose value as a `long`
has to be equal to it.
-/
def fastElementIndex : NumericIndex → Option Nat
  | .whole n =>
      if 0 ≤ n ∧ n < 2 ^ 63 ∧ buf.data.isSome ∧ n < fastElementCount view buf then some n.toNat
      else none
  | .negZero => if buf.data.isSome ∧ 0 < fastElementCount view buf then some 0 else none
  | .nan | .infinite _ | .fraction _ => none

/-- The address of a view's first element. -/
def View.base : Pointer := buf.pointer.plus view.byteOffset

/-- `ta_load_element`, the bytes alone. -/
def taLoadElement (p : Pointer) (cls : ElementClass) (idx : Nat) : Option (List UInt8) :=
  buf.load (p.plus (uint (idx <<< taElemShift cls))) (taElemSize cls)

end Boomkat.TypedArrays
