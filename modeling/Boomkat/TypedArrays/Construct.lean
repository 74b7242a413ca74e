import Boomkat.TypedArrays.Calls

/-! `typed_array_construct` with all that it takes: a length, a buffer, another typed array, an
iterable or an object with a length. The user code that runs in between is given by what it comes
to.
-/

namespace Boomkat.TypedArrays

open Foundation

-----------------------------------------------------------------------------------------
-- What a call comes to
-----------------------------------------------------------------------------------------

/-- The bytes of an element. -/
abbrev ElementBytes (cls : ElementClass) : Type :=
  {bytes : List UInt8 // bytes.length = taElemSize cls}

/-- Whether there is memory for a new buffer with its bytes, for the array, and for the items of an
iterator.
-/
structure Room where
  buffer : Bool
  object : Bool
  items : Bool

inductive Construction where
  | throws (outcome : Outcome)
  | undefined
  | array (view : View) (buf : ArrayBuffer)
  | strayed

/-- The user code behind the elements of a source and behind `newTarget.prototype`: whether a getter
throws, and what a value is converted to unless that throws.
-/
structure UserCode (cls : ElementClass) where
  getThrows : Nat → Bool
  convert : Nat → Option (ElementBytes cls)
  prototypeThrows : Bool

/-- The first argument with those behind it. A conversion, or the look-up of an iterator, has no
value if it throws. The buffer is given as it is when the offset is converted, when the length is,
and in the end.
-/
inductive Request where
  | length (len : Option Integer)
  | buffer (buf atLength atEnd : ArrayBuffer) (off len : Option Integer)
  | typedArray (src : View) (srcBuf : ArrayBuffer)
  | iterable (items : Option Nat)
  | arrayLike (len : Option Integer)

-----------------------------------------------------------------------------------------
-- New buffers
-----------------------------------------------------------------------------------------

/-- A buffer of a fixed length with its bytes. -/
def bufferOf (data : List UInt8) : ArrayBuffer where
  data := if data = [] then none else some ⟨0, data⟩
  byteLength := data.length
  resizable := false
  maxByteLength := 0
  isShared := false

/-- `typedarray_alloc_buffer` -/
def typedarrayAllocBuffer (room : Room) (byteLength : Nat) : Option ArrayBuffer :=
  if room.buffer then some (bufferOf (zeros byteLength)) else none

/-- A buffer while elements are stored to it. -/
inductive Filling where
  | filled (buf : ArrayBuffer)
  | throws (outcome : Outcome)
  | strayed

/-- An element of the source: what its value is converted to, or that there is no value. -/
inductive ElementRead where
  | value (converted : Except Outcome (List UInt8))
  | throws (outcome : Outcome)
  | strayed

/-- `typedarray_store_converted`. Without data nothing is converted. -/
def typedarrayStoreConverted (cls : ElementClass) (buf : ArrayBuffer) (idx : Nat)
    (converted : Except Outcome (List UInt8))
    : Filling :=
  if buf.data.isNone then .filled buf
  else
    match converted with
    | .error outcome => .throws outcome
    | .ok bytes =>
        match buf.store (buf.pointer.plus (uint (idx <<< taElemShift cls))) bytes with
        | some buf' => .filled buf'
        | none => .strayed

/-- The loops that store elements one by one, from an index on. -/
def fillFrom (cls : ElementClass) (read : Nat → ElementRead) (buf : ArrayBuffer) (i : Nat)
    : Nat → Filling
  | 0 => .filled buf
  | n + 1 =>
      match read i with
      | .throws outcome => .throws outcome
      | .strayed => .strayed
      | .value converted =>
          match typedarrayStoreConverted cls buf i converted with
          | .filled buf' => fillFrom cls read buf' (i + 1) n
          | .throws outcome => .throws outcome
          | .strayed => .strayed

-----------------------------------------------------------------------------------------
-- Sources
-----------------------------------------------------------------------------------------

variable {cls : ElementClass}

def UserCode.converted (code : UserCode cls) (i : Nat) : Except Outcome (List UInt8) :=
  match code.convert i with
  | some bytes => .ok bytes.val
  | none => .error .thrown

/-- An item of an iterator, which was collected before. -/
def UserCode.item (code : UserCode cls) (i : Nat) : ElementRead := .value (code.converted i)

/-- An element of an object with a length. -/
def UserCode.property (code : UserCode cls) (i : Nat) : ElementRead :=
  if code.getThrows i then .throws .thrown else .value (code.converted i)

/-- An element of another typed array of another class. -/
def loadedElement (convert : Conversion) (cls : ElementClass) (src : View) (srcBuf : ArrayBuffer)
    (i : Nat)
    : ElementRead :=
  match taLoadElement srcBuf (src.base srcBuf) src.cls i with
  | some bytes => .value (convertElement convert src.cls cls bytes)
  | none => .strayed

/-- The elements of another typed array: all at once where the classes are the same. -/
def fillTypedArray (convert : Conversion) (cls : ElementClass) (src : View) (srcBuf : ArrayBuffer)
    (count totalBytes : Nat) (buf : ArrayBuffer)
    : Filling :=
  if src.cls = cls then
    match (srcBuf.load (src.base srcBuf) totalBytes).bind (buf.store buf.pointer) with
    | some buf' => .filled buf'
    | none => .strayed
  else fillFrom cls (loadedElement convert cls src srcBuf) buf 0 count

/-- The items of an iterator when it is at its end. -/
inductive Collected where
  | items
  | noMemory
  | strayed

/-- The loop over an iterator: the array of items has its capacity doubled where it is full. -/
def collectItems (room : Room) (cap count : Nat) : Nat → Collected
  | 0 => .items
  | n + 1 =>
      if count = cap then
        if ¬room.items then .noMemory
        else if uint (cap * 2) ≤ count then .strayed
        else collectItems room (uint (cap * 2)) (count + 1) n
      else collectItems room cap (count + 1) n

/-- The cast of a double that is a natural number, by what it is where that does not fit. -/
def castUint (outside : Nat → Nat) (n : Nat) : Nat := if n < 2 ^ 32 then n else uint (outside n)

/-- The length of an object, up to 2^53 - 1. -/
def arrayLikeLength : Integer → Option Nat
  | .nan | .negInf => some 0
  | .int n => if 9007199254740991 < n then none else some n.toNat
  | .posInf => none

-----------------------------------------------------------------------------------------
-- The constructor
-----------------------------------------------------------------------------------------

/-- The end of the constructor: the prototype, and the array. -/
def finishArray (room : Room) (code : UserCode cls) (view : View) (buf : ArrayBuffer)
    : Construction :=
  if code.prototypeThrows then .throws .thrown
  else if ¬room.object then .undefined
  else .array view buf

/-- A new buffer of a size with what is stored to it. -/
def constructFilled (room : Room) (code : UserCode cls) (totalBytes : Nat)
    (fill : ArrayBuffer → Filling)
    : Construction :=
  match typedarrayAllocBuffer room totalBytes with
  | none => .throws (.rangeError "Out of memory allocating TypedArray")
  | some buf =>
      match fill buf with
      | .throws outcome => .throws outcome
      | .strayed => .strayed
      | .filled buf' => finishArray room code ⟨cls, 0, 0, totalBytes, false⟩ buf'

/-- The overload for a buffer and an explicit length. -/
def constructOver (room : Room) (code : UserCode cls) (buf atLength atEnd : ArrayBuffer)
    (off : Nat) (len : Option Integer)
    : Construction :=
  if off % taElemSize cls ≠ 0 then
    .throws (.rangeError "start offset must be a multiple of the element size")
  else if buf.byteLength = detachedLength then
    .throws (.typeError "Cannot construct TypedArray on a detached ArrayBuffer")
  else if buf.byteLength < off then .throws (.rangeError "start offset out of bounds")
  else
    match len with
    | none => .throws .thrown
    | some len =>
        match arraybufferToIndex len with
        | none => .throws invalidLength
        | some n =>
            let viewLenBytes := uint (n * taElemSize cls)
            if atLength.byteLength = detachedLength then
              .throws (.typeError "Cannot construct TypedArray on a detached ArrayBuffer")
            else if buf.byteLength < uint (off + viewLenBytes) then
              .throws (.rangeError "length out of bounds")
            else finishArray room code ⟨cls, 0, off, viewLenBytes, false⟩ atEnd

/-- `typed_array_construct` -/
def typedArrayConstruct (convert : Conversion) (outside : Nat → Nat) (room : Room)
    (code : UserCode cls)
    : Request → Construction
  | .length none => .throws .thrown
  | .length (some len) =>
      match arraybufferToIndex len with
      | none => .throws invalidLength
      | some len => constructFilled room code (uint (len * taElemSize cls)) .filled
  | .buffer _ _ _ none _ => .throws .thrown
  | .buffer buf atLength atEnd (some off) len =>
      match arraybufferToIndex off with
      | none => .throws invalidLength
      | some off => constructOver room code buf atLength atEnd off len
  | .typedArray src srcBuf =>
      if srcBuf.byteLength = detachedLength then
        match typedarrayAllocBuffer room 0 with
        | none => .undefined
        | some buf => finishArray room code ⟨cls, 0, 0, 0, false⟩ buf
      else if viewIsOutOfBounds src srcBuf then
        .throws (.typeError "TypedArray constructor: source is out of bounds")
      else
        let count := taElementCount src srcBuf
        let totalBytes := uint (count * taElemSize cls)
        constructFilled room code totalBytes
          (fillTypedArray convert cls src srcBuf count totalBytes)
  | .iterable none => .throws .thrown
  | .iterable (some count) =>
      -- there is room for four items at first
      if ¬room.items then .undefined
      else
        match collectItems room 4 0 count with
        | .noMemory => .undefined
        | .strayed => .strayed
        | .items =>
            constructFilled room code (uint (count * taElemSize cls))
              (fillFrom cls code.item · 0 count)
  | .arrayLike none => .throws .thrown
  | .arrayLike (some len) =>
      match arrayLikeLength len with
      | none => .throws (.rangeError "Invalid typed array length")
      | some len =>
          let count := castUint outside len
          constructFilled room code (uint (count * taElemSize cls))
            (fillFrom cls code.property · 0 count)

end Boomkat.TypedArrays
