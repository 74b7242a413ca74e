import Boomkat.TypedArrays.View

/-! The calls on array buffers and typed arrays. Each is a sequence of steps between which user code
runs, which may call them as well: a stack has those that wait for it.
-/

namespace Boomkat.TypedArrays
open Foundation

-----------------------------------------------------------------------------------------
-- Calls that wait
-----------------------------------------------------------------------------------------

/-- What a conversion to an integer comes to. -/
inductive Integer where
  | nan
  | negInf
  | int (n : Int)
  | posInf

/-- What the user code comes to: it throws, or gives an integer, the value of a property, or an
element as its class stores it.
-/
inductive Answer where
  | thrown
  | integer (d : Integer)
  | property (isUndefined : Bool)
  | element (bytes : List UInt8)

/-- The source of `TypedArray.prototype.set`. -/
inductive SetSource where
  | typedArray (view : Nat)
  | object
  | nullish

/-- A call with its local variables, by what it waits for. -/
inductive Frame where
  | bufferLength (isShared options : Bool)
  | getMaxByteLength (isShared : Bool) (byteLength : Nat)
  | maxByteLength (isShared : Bool) (byteLength : Nat)
  | bufferPrototype (isShared : Bool) (byteLength : Nat) (max : Option Nat)
  | resize (buf : Nat)
  | grow (buf : Nat)
  | transfer (buf : Nat) (preserveResizable : Bool)
  | arrayLength (cls : ElementClass)
  | viewOffset (cls : ElementClass) (buf : Nat) (hasLength : Bool)
  | viewLength (cls : ElementClass) (buf off bufLen : Nat)
  | viewPrototype (view : View)
  | elementConvert (view : Nat) (num : NumericIndex) (isObject : Bool)
  | elementWrite (view : Nat) (p : Pointer)
  | elementPut (view : Nat) (num : NumericIndex)
  | setOffset (dst dstLen : Nat) (source : SetSource)
  | setGetLength (dst dstLen targetOffset : Nat)
  | setLength (dst dstLen targetOffset : Nat)
  | setGet (dst targetOffset srcLen i : Nat)
  | setElement (dst targetOffset srcLen i : Nat)

/-- What a call comes to. -/
inductive Outcome where
  | undefined
  | buffer (buf : Nat)
  | view (view : Nat)
  | element (bytes : List UInt8)
  | typeError (message : String)
  | rangeError (message : String)
  | thrown
  deriving DecidableEq

/-- Whether there is memory for an object and for its bytes. -/
structure Memory where
  object : Bool
  data : Bool

structure World where
  buffers : List ArrayBuffer
  views : List View
  nextAddr : Nat
  frames : List Frame
  outcomes : List Outcome
  /-- A byte was accessed that is not one of the buffer's data. -/
  strayed : Bool
  /-- Values were put behind the end of the block that `set` had taken for them. -/
  overran : Bool

def World.new : World := ⟨[], [], 0, [], [], false, false⟩

def World.finish (w : World) (outcome : Outcome) : World :=
  { w with outcomes := w.outcomes ++ [outcome] }

def World.wait (w : World) (frame : Frame) : World := { w with frames := frame :: w.frames }

def World.stray (w : World) : World := { w with strayed := true }

def World.putBuffer (w : World) (b : Nat) (buf : ArrayBuffer) : World :=
  { w with buffers := w.buffers.set b buf }

/-- A view with its buffer. -/
def World.viewAt (w : World) (v : Nat) : Option (View × ArrayBuffer) :=
  (w.views[v]?).bind fun view => (w.buffers[view.buffer]?).map fun buf => (view, buf)

/-- A block for bytes at an address that is not in use. There is none for no bytes. -/
def World.dataOf (w : World) (bytes : List UInt8) : Option ByteBlock :=
  if bytes = [] then none else some ⟨w.nextAddr, bytes⟩

/-- A new buffer, which the call comes to. -/
def World.addBuffer (w : World) (buf : ArrayBuffer) : World :=
  { w with buffers := w.buffers ++ [buf], nextAddr := w.nextAddr + 1 }

def zeros (n : Nat) : List UInt8 := List.replicate n 0

-----------------------------------------------------------------------------------------
-- Integers
-----------------------------------------------------------------------------------------

/-- `arraybuffer_to_index` -/
def arraybufferToIndex : Integer → Option Nat
  | .nan => some 0
  | .int n => if n < 0 ∨ 2147483647 < n then none else some n.toNat
  | .negInf | .posInf => none

def arraybufferToIndexWide : Integer → Option Nat
  | .nan => some 0
  | .int n => if n < 0 ∨ 9007199254740991 < n then none else some n.toNat
  | .negInf | .posInf => none

def invalidLength : Outcome := .rangeError "Invalid array buffer length"

/-- The cast of a double that is not negative, with a sentinel for what is too large. -/
def clampToUint : Integer → Nat
  | .nan | .negInf => 0
  | .int n => if 4294967296 ≤ n then 0xFFFFFFFF else n.toNat
  | .posInf => 0xFFFFFFFF

def Integer.isNegative : Integer → Bool
  | .int n => decide (n < 0)
  | .negInf => true
  | .nan | .posInf => false

-----------------------------------------------------------------------------------------
-- Buffers
-----------------------------------------------------------------------------------------

def constructorName (isShared : Bool) : String :=
  if isShared then "SharedArrayBuffer" else "ArrayBuffer"

def bufferKind (isShared : Bool) : String :=
  if isShared then "shared array buffer" else "array buffer"

/-- The end of `arraybuffer_construct_impl`. A growable buffer has all its bytes from the start. -/
def World.constructBuffer (w : World) (isShared : Bool) (byteLength : Nat) (max : Option Nat)
    (memory : Memory)
    : World :=
  if ¬memory.object then w.finish .undefined
  else if 2147483647 < byteLength then
    w.finish (.rangeError ("Invalid " ++ bufferKind isShared ++ " length"))
  else
    let allocLen := if isShared then max.getD byteLength else byteLength
    if 0 < allocLen ∧ ¬memory.data then
      w.finish (.rangeError ("Out of memory allocating " ++ constructorName isShared))
    else
      (w.addBuffer ⟨w.dataOf (zeros allocLen), byteLength, max.isSome, max.getD 0, isShared⟩).finish
        (.buffer w.buffers.length)

/-- The checks of `arraybuffer_construct_impl` on the two lengths. -/
def World.checkMaxByteLength (w : World) (isShared : Bool) (byteLength max : Nat) : World :=
  if 2147483647 < max then
    w.finish (.rangeError ("Invalid " ++ bufferKind isShared ++ " maxByteLength"))
  else if max < byteLength then
    w.finish (.rangeError (constructorName isShared ++ " length exceeds maxByteLength"))
  else w.wait (.bufferPrototype isShared byteLength (some max))

def incompatibleReceiver : Outcome :=
  .typeError "ArrayBuffer.prototype: method called on incompatible receiver"

def World.beginResize (w : World) (b : Nat) (buf : ArrayBuffer) : World :=
  if buf.isShared then w.finish incompatibleReceiver
  else if ¬buf.resizable then
    w.finish (.typeError "ArrayBuffer.prototype.resize: buffer is not resizable")
  else w.wait (.resize b)

/-- The bytes of a buffer, in a block of another size. -/
def ArrayBuffer.resized (buf : ArrayBuffer) (n : Nat) : List UInt8 :=
  let kept := match buf.data with
    | some block => (block.bytes.take buf.byteLength).take n
    | none => []
  kept ++ zeros (n - kept.length)

/-- `builtin_arraybuffer_proto_resize` when the length is converted. -/
def World.resize (w : World) (b : Nat) (buf : ArrayBuffer) (newLen : Nat) (memory : Memory)
    : World :=
  if buf.byteLength = detachedLength then
    w.finish (.typeError "ArrayBuffer.prototype.resize: buffer is detached")
  else if buf.maxByteLength < newLen then
    w.finish (.rangeError "ArrayBuffer.prototype.resize: length exceeds maxByteLength")
  else if 0 < newLen ∧ ¬memory.data then
    w.finish (.rangeError "Out of memory resizing ArrayBuffer")
  else
    ({ w with nextAddr := w.nextAddr + 1 }.putBuffer b
      { buf with data := w.dataOf (buf.resized newLen), byteLength := newLen }).finish .undefined

def World.beginGrow (w : World) (b : Nat) (buf : ArrayBuffer) : World :=
  if ¬buf.isShared then
    w.finish (.typeError "SharedArrayBuffer.prototype method called on incompatible receiver")
  else if ¬buf.resizable then
    w.finish (.typeError "SharedArrayBuffer.prototype.grow: buffer is not growable")
  else w.wait (.grow b)

/-- `builtin_sharedarraybuffer_proto_grow` when the length is converted. -/
def World.grow (w : World) (b : Nat) (buf : ArrayBuffer) (newLen : Nat) : World :=
  if buf.maxByteLength < newLen then
    w.finish (.rangeError "SharedArrayBuffer.prototype.grow: length exceeds maxByteLength")
  else if newLen < buf.byteLength then
    w.finish (.rangeError "SharedArrayBuffer.prototype.grow: cannot shrink")
  else (w.putBuffer b { buf with byteLength := newLen }).finish .undefined

/-- `arraybuffer_detach` -/
def arraybufferDetach (buf : ArrayBuffer) : ArrayBuffer :=
  { buf with data := none, byteLength := detachedLength }

def World.detach (w : World) (b : Nat) (buf : ArrayBuffer) : World :=
  if buf.isShared then w.finish (.typeError "detachArrayBuffer requires an ArrayBuffer argument")
  else (w.putBuffer b (arraybufferDetach buf)).finish .undefined

/-- The end of `arraybuffer_transfer_impl`. -/
def World.transfer (w : World) (b : Nat) (buf : ArrayBuffer) (preserveResizable : Bool)
    (newLen : Nat) (memory : Memory)
    : World :=
  let destResizable := preserveResizable && buf.resizable
  let destMax := if destResizable then buf.maxByteLength else newLen
  if destResizable ∧ destMax < newLen then
    w.finish (.rangeError "ArrayBuffer length exceeds maxByteLength")
  else if ¬memory.object ∨ 0 < newLen ∧ ¬memory.data then
    w.finish (.rangeError "Out of memory allocating ArrayBuffer")
  else
    ((w.addBuffer ⟨w.dataOf (buf.resized newLen), newLen, destResizable, destMax, false⟩).putBuffer b
      (arraybufferDetach buf)).finish (.buffer w.buffers.length)

def World.beginTransfer (w : World) (b : Nat) (buf : ArrayBuffer) (preserveResizable hasLength : Bool)
    (memory : Memory)
    : World :=
  if buf.isShared then w.finish incompatibleReceiver
  else if buf.byteLength = detachedLength then
    w.finish (.typeError "ArrayBuffer.prototype.transfer: buffer is detached")
  else if hasLength then w.wait (.transfer b preserveResizable)
  else w.transfer b buf preserveResizable buf.byteLength memory

/-- `arraybuffer_transfer_impl` when the length is converted. -/
def World.transferTo (w : World) (b : Nat) (buf : ArrayBuffer) (preserveResizable : Bool)
    (d : Integer) (memory : Memory)
    : World :=
  match arraybufferToIndex d with
  | none => w.finish invalidLength
  | some newLen =>
      if buf.byteLength = detachedLength then
        w.finish
          (.typeError "ArrayBuffer.prototype.transfer: buffer detached during length coercion")
      else w.transfer b buf preserveResizable newLen memory

-----------------------------------------------------------------------------------------
-- Construction of views
-----------------------------------------------------------------------------------------

/-- `typed_array_construct` with a length: the buffer is there before the prototype is looked up. -/
def World.constructArray (w : World) (cls : ElementClass) (len : Nat) (memory : Memory) : World :=
  let totalBytes := uint (len * taElemSize cls)
  if ¬memory.object ∨ 0 < totalBytes ∧ ¬memory.data then
    w.finish (.rangeError "Out of memory allocating TypedArray")
  else
    (w.addBuffer ⟨w.dataOf (zeros totalBytes), totalBytes, false, 0, false⟩).wait
      (.viewPrototype ⟨cls, w.buffers.length, 0, totalBytes, false⟩)

/-- `typed_array_construct` over a buffer when the offset is converted. -/
def World.constructView (w : World) (cls : ElementClass) (b : Nat) (buf : ArrayBuffer)
    (hasLength : Bool) (off : Nat)
    : World :=
  if off % taElemSize cls ≠ 0 then
    w.finish (.rangeError "start offset must be a multiple of the element size")
  else if buf.byteLength = detachedLength then
    w.finish (.typeError "Cannot construct TypedArray on a detached ArrayBuffer")
  else if buf.byteLength < off then w.finish (.rangeError "start offset out of bounds")
  else if hasLength then w.wait (.viewLength cls b off buf.byteLength)
  else
    let remainder := buf.byteLength - off
    if remainder % taElemSize cls ≠ 0 ∧ ¬buf.resizable then
      w.finish
        (.rangeError "buffer length minus byteOffset must be a multiple of the element size")
    else w.wait (.viewPrototype ⟨cls, b, off, remainder, buf.resizable⟩)

/-- `typed_array_construct` over a buffer when the length is converted. -/
def World.constructViewOf (w : World) (cls : ElementClass) (b : Nat) (buf : ArrayBuffer)
    (off bufLen n : Nat)
    : World :=
  let viewLenBytes := uint (n * taElemSize cls)
  if buf.byteLength = detachedLength then
    w.finish (.typeError "Cannot construct TypedArray on a detached ArrayBuffer")
  else if bufLen < uint (off + viewLenBytes) then w.finish (.rangeError "length out of bounds")
  else w.wait (.viewPrototype ⟨cls, b, off, viewLenBytes, false⟩)

/-- The end of `typed_array_construct`. -/
def World.addView (w : World) (view : View) (memory : Memory) : World :=
  if ¬memory.object then w.finish .undefined
  else { w with views := w.views ++ [view] }.finish (.view w.views.length)

-----------------------------------------------------------------------------------------
-- Elements
-----------------------------------------------------------------------------------------

/-- Load an element by its index, if it has one. -/
def World.read (w : World) (view : View) (buf : ArrayBuffer) : Option Nat → World
  | none => w.finish .undefined
  | some idx =>
      match taLoadElement buf (view.base buf) view.cls idx with
      | some bytes => w.finish (.element bytes)
      | none => w.stray

/-- Store the bytes of an element at an address. -/
def World.write (w : World) (view : View) (buf : ArrayBuffer) (p : Pointer) (bytes : List UInt8)
    : World :=
  match buf.store p bytes with
  | some buf' => w.putBuffer view.buffer buf'
  | none => w.stray

/-- `ta_integer_indexed_element_set` when the value is converted for the first time. An object is
converted once more for the store, whose address is taken before.
-/
def World.elementConverted (w : World) (v : Nat) (view : View) (buf : ArrayBuffer)
    (num : NumericIndex) (isObject : Bool) (bytes : List UInt8)
    : World :=
  match taIsValidIntegerIndex view buf num with
  | none => w.finish .undefined
  | some idx =>
      let p := (view.base buf).plus (idx <<< taElemShift view.cls)
      if isObject then w.wait (.elementWrite v p)
      else (w.write view buf p bytes).finish .undefined

/-- The interpreter's store of an element when the value is converted, which is once. -/
def World.elementPut (w : World) (view : View) (buf : ArrayBuffer) (num : NumericIndex)
    (bytes : List UInt8)
    : World :=
  match fastElementIndex view buf num with
  | none => w.finish .undefined
  | some idx =>
      (w.write view buf ((view.base buf).plus (idx <<< taElemShift view.cls)) bytes).finish .undefined

-----------------------------------------------------------------------------------------
-- `TypedArray.prototype.set`
-----------------------------------------------------------------------------------------

/-- The bytes of an element, as another class stores its value. -/
abbrev Conversion : Type :=
  (src dst : ElementClass) → List UInt8 → { bytes : List UInt8 // bytes.length = taElemSize dst }

/-- `ta_write_element` on what `ta_load_element` has given. A number is not converted to a big
integer, nor the other way.
-/
def convertElement (convert : Conversion) (src dst : ElementClass) (bytes : List UInt8)
    : Except Outcome (List UInt8) :=
  if isBigintTypedArrayClass src = isBigintTypedArrayClass dst then
    .ok (convert src dst bytes).val
  else if isBigintTypedArrayClass dst then
    .error (.typeError "Cannot convert a Number to a BigInt")
  else .error (.typeError "Cannot convert a BigInt value to a number")

/-- The elements of the source from an index on. -/
def loadElements (buf : ArrayBuffer) (p : Pointer) (cls : ElementClass) (i : Nat)
    : Nat → Option (List (List UInt8))
  | 0 => some []
  | n + 1 =>
      (taLoadElement buf p cls i).bind fun bytes =>
        (loadElements buf p cls (i + 1) n).map fun rest => bytes :: rest

/-- The address in the destination of the element that has an index in the source. -/
def targetPointer (dst : View) (buf : ArrayBuffer) (targetOffset i : Nat) : Pointer :=
  (dst.base buf).plus (uint ((targetOffset + i) <<< taElemShift dst.cls))

/-- The loop of `set` over elements of the same buffer, which were all loaded before. -/
def storeElements (convert : Conversion) (dst src : View) (targetOffset i : Nat) (buf : ArrayBuffer)
    : List (List UInt8) → Option (ArrayBuffer × Outcome)
  | [] => some (buf, .undefined)
  | bytes :: rest =>
      match convertElement convert src.cls dst.cls bytes with
      | .error outcome => some (buf, outcome)
      | .ok bytes =>
          (buf.store (targetPointer dst buf targetOffset i) bytes).bind fun buf' =>
            storeElements convert dst src targetOffset (i + 1) buf' rest

/-- The loop of `set` over elements of another buffer. -/
def copyElements (convert : Conversion) (dst src : View) (srcBuf : ArrayBuffer) (srcData : Pointer)
    (targetOffset i : Nat) (buf : ArrayBuffer)
    : Nat → Option (ArrayBuffer × Outcome)
  | 0 => some (buf, .undefined)
  | n + 1 =>
      (taLoadElement srcBuf srcData src.cls i).bind fun bytes =>
        match convertElement convert src.cls dst.cls bytes with
        | .error outcome => some (buf, outcome)
        | .ok bytes =>
            (buf.store (targetPointer dst buf targetOffset i) bytes).bind fun buf' =>
              if viewIsOutOfBounds dst buf' then
                some (buf', .typeError "TypedArray buffer detached during set")
              else copyElements convert dst src srcBuf srcData targetOffset (i + 1) buf' n

/-- The copy of `set` between typed arrays, with the destination's buffer after it: all at once
where the classes are the same, else by elements.
-/
def copyTypedArray (convert : Conversion) (dst src : View) (dstBuf srcBuf : ArrayBuffer)
    (targetOffset srcLen : Nat) (memory : Memory)
    : Option (ArrayBuffer × Outcome) :=
  let srcData := src.base srcBuf
  if src.cls = dst.cls then
    (srcBuf.load srcData (uint (srcLen <<< taElemShift dst.cls))).bind fun bytes =>
      (dstBuf.store (targetPointer dst dstBuf targetOffset 0) bytes).map fun buf =>
        (buf, .undefined)
  else if src.buffer = dst.buffer then
    if ¬memory.data then some (dstBuf, .rangeError "TypedArray.set: out of memory")
    else
      (loadElements srcBuf srcData src.cls 0 srcLen).bind fun elements =>
        storeElements convert dst src targetOffset 0 dstBuf elements
  else copyElements convert dst src srcBuf srcData targetOffset 0 dstBuf srcLen

def World.beginSet (w : World) (dst : Nat) (view : View) (buf : ArrayBuffer) (source : SetSource)
    : World :=
  if viewIsOutOfBounds view buf then
    w.finish (.typeError "Typed array is detached or out of bounds")
  else w.wait (.setOffset dst (taElementCount view buf) source)

/-- The bytes of a value, `TVal::size` where values are boxed in doubles. -/
def tvalSize : Nat := 8

/-- The block that `set` takes for the values of a source of another class in the same buffer. The
number of its bytes has 32 bits; the values that are put in it are all those of the source.
-/
def World.takeScratch (w : World) (dst src : View) (srcLen : Nat) (memory : Memory) : World :=
  if src.cls ≠ dst.cls ∧ src.buffer = dst.buffer ∧ memory.data
      ∧ uint (srcLen * tvalSize) < srcLen * tvalSize then
    { w with overran := true }
  else w

/-- The part of `set` for a source that is a typed array. -/
def World.setTypedArray (w : World) (convert : Conversion) (dst : View) (dstBuf : ArrayBuffer)
    (dstLen : Nat) (src : View) (srcBuf : ArrayBuffer) (targetOffset : Nat) (memory : Memory)
    : World :=
  if srcBuf.byteLength = detachedLength then
    w.finish (.typeError "TypedArray.set: source buffer is detached")
  else if viewIsOutOfBounds src srcBuf then
    w.finish (.typeError "TypedArray.set: source is out of bounds")
  else
    let srcLen := taElementCount src srcBuf
    if dstLen < srcLen + targetOffset then
      w.finish (.rangeError "TypedArray.set: source is too large")
    else
      let scratched := w.takeScratch dst src srcLen memory
      match copyTypedArray convert dst src dstBuf srcBuf targetOffset srcLen memory with
      | some (buf, outcome) => (scratched.putBuffer dst.buffer buf).finish outcome
      | none => scratched.stray

/-- `builtin_ta_proto_set` when the offset is converted. -/
def World.setAt (w : World) (convert : Conversion) (dst : Nat) (view : View) (buf : ArrayBuffer)
    (dstLen : Nat) (source : SetSource) (d : Integer) (memory : Memory)
    : Option World :=
  if d.isNegative then some (w.finish (.rangeError "TypedArray.set: offset is negative"))
  else if viewIsOutOfBounds view buf then
    some (w.finish (.typeError "TypedArray.set: target buffer is detached"))
  else
    match source with
    | .nullish => some (w.finish
        (.typeError "TypedArray.set: cannot convert undefined or null to object"))
    | .object => some (w.wait (.setGetLength dst dstLen (clampToUint d)))
    | .typedArray src =>
        (w.viewAt src).map fun (srcView, srcBuf) =>
          w.setTypedArray convert view buf dstLen srcView srcBuf (clampToUint d) memory

/-- The loop of `set` over an object goes on. -/
def World.setNext (w : World) (dst targetOffset srcLen i : Nat) : World :=
  if i < srcLen then w.wait (.setGet dst targetOffset srcLen i) else w.finish .undefined

/-- `builtin_ta_proto_set` when the length of the object is converted. -/
def World.setObject (w : World) (dst dstLen targetOffset : Nat) (d : Integer) : World :=
  let srcLen := if d.isNegative then 0 else clampToUint d
  if dstLen < srcLen + targetOffset then
    w.finish (.rangeError "TypedArray.set: source is too large")
  else w.setNext dst targetOffset srcLen 0

/-- The loop of `set` over an object when the element is converted. -/
def World.setElement (w : World) (dst : Nat) (view : View) (buf : ArrayBuffer)
    (targetOffset srcLen i : Nat) (bytes : List UInt8)
    : World :=
  let stored := match taIsValidIntegerIndex view buf (.whole (uint (targetOffset + i))) with
    | some _ => w.write view buf (targetPointer view buf targetOffset i) bytes
    | none => w
  stored.setNext dst targetOffset srcLen (i + 1)

-----------------------------------------------------------------------------------------
-- Steps
-----------------------------------------------------------------------------------------

/-- A script makes a call, or the user code for which the last one waits comes to an end. -/
inductive ViewEvent where
  | arrayBuffer (isShared options : Bool)
  | resize (buf : Nat)
  | grow (buf : Nat)
  | transfer (buf : Nat) (preserveResizable hasLength : Bool) (memory : Memory)
  | detach (buf : Nat)
  | typedArray (cls : ElementClass)
  | typedArrayOver (cls : ElementClass) (buf : Nat) (hasOffset hasLength : Bool)
  | elementGet (view : Nat) (num : NumericIndex)
  | fastElementGet (view : Nat) (num : NumericIndex)
  | elementSet (view : Nat) (num : NumericIndex) (isObject : Bool)
  | fastElementSet (view : Nat) (num : NumericIndex)
  | set (dst : Nat) (source : SetSource)
  | answer (answer : Answer) (memory : Memory)

/-- The call that waited goes on with what the user code came to. -/
def World.resume (w : World) (convert : Conversion) (memory : Memory) : Frame → Answer → Option World
  | _, .thrown => some (w.finish .thrown)
  | .bufferLength isShared options, .integer d =>
      some <| match arraybufferToIndexWide d with
        | none => w.finish invalidLength
        | some byteLength =>
            if options then w.wait (.getMaxByteLength isShared byteLength)
            else w.wait (.bufferPrototype isShared byteLength none)
  | .getMaxByteLength isShared byteLength, .property isUndefined =>
      some <| if isUndefined then w.wait (.bufferPrototype isShared byteLength none)
        else w.wait (.maxByteLength isShared byteLength)
  | .maxByteLength isShared byteLength, .integer d =>
      some <| match arraybufferToIndexWide d with
        | none => w.finish invalidLength
        | some max => w.checkMaxByteLength isShared byteLength max
  | .bufferPrototype isShared byteLength max, .property _ =>
      some (w.constructBuffer isShared byteLength max memory)
  | .resize b, .integer d =>
      (w.buffers[b]?).map fun buf => match arraybufferToIndex d with
        | none => w.finish invalidLength
        | some newLen => w.resize b buf newLen memory
  | .grow b, .integer d =>
      (w.buffers[b]?).map fun buf => match arraybufferToIndex d with
        | none => w.finish invalidLength
        | some newLen => w.grow b buf newLen
  | .transfer b preserveResizable, .integer d =>
      (w.buffers[b]?).map fun buf => w.transferTo b buf preserveResizable d memory
  | .arrayLength cls, .integer d =>
      some <| match arraybufferToIndex d with
        | none => w.finish invalidLength
        | some len => w.constructArray cls len memory
  | .viewOffset cls b hasLength, .integer d =>
      (w.buffers[b]?).map fun buf => match arraybufferToIndex d with
        | none => w.finish invalidLength
        | some off => w.constructView cls b buf hasLength off
  | .viewLength cls b off bufLen, .integer d =>
      (w.buffers[b]?).map fun buf => match arraybufferToIndex d with
        | none => w.finish invalidLength
        | some n => w.constructViewOf cls b buf off bufLen n
  | .viewPrototype view, .property _ => some (w.addView view memory)
  | .elementConvert v num isObject, .element bytes =>
      (w.viewAt v).bind fun (view, buf) =>
        if bytes.length = taElemSize view.cls then
          some (w.elementConverted v view buf num isObject bytes)
        else none
  | .elementWrite v p, .element bytes =>
      (w.viewAt v).bind fun (view, buf) =>
        if bytes.length = taElemSize view.cls then some ((w.write view buf p bytes).finish .undefined)
        else none
  | .elementPut v num, .element bytes =>
      (w.viewAt v).bind fun (view, buf) =>
        if bytes.length = taElemSize view.cls then some (w.elementPut view buf num bytes) else none
  | .setOffset dst dstLen source, .integer d =>
      (w.viewAt dst).bind fun (view, buf) => w.setAt convert dst view buf dstLen source d memory
  | .setGetLength dst dstLen targetOffset, .property _ =>
      some (w.wait (.setLength dst dstLen targetOffset))
  | .setLength dst dstLen targetOffset, .integer d => some (w.setObject dst dstLen targetOffset d)
  | .setGet dst targetOffset srcLen i, .property _ =>
      some (w.wait (.setElement dst targetOffset srcLen i))
  | .setElement dst targetOffset srcLen i, .element bytes =>
      (w.viewAt dst).bind fun (view, buf) =>
        if bytes.length = taElemSize view.cls then
          some (w.setElement dst view buf targetOffset srcLen i bytes)
        else none
  | _, _ => none

def World.step (convert : Conversion) (w : World) : ViewEvent → Option World
  | .arrayBuffer isShared options => some (w.wait (.bufferLength isShared options))
  | .resize b => (w.buffers[b]?).map (w.beginResize b)
  | .grow b => (w.buffers[b]?).map (w.beginGrow b)
  | .transfer b preserveResizable hasLength memory =>
      (w.buffers[b]?).map fun buf => w.beginTransfer b buf preserveResizable hasLength memory
  | .detach b => (w.buffers[b]?).map (w.detach b)
  | .typedArray cls => some (w.wait (.arrayLength cls))
  | .typedArrayOver cls b hasOffset hasLength =>
      (w.buffers[b]?).map fun buf =>
        if hasOffset then w.wait (.viewOffset cls b hasLength)
        else w.constructView cls b buf hasLength 0
  | .elementGet v num =>
      (w.viewAt v).map fun (view, buf) => w.read view buf (taIsValidIntegerIndex view buf num)
  | .fastElementGet v num =>
      (w.viewAt v).map fun (view, buf) => w.read view buf (fastElementIndex view buf num)
  | .elementSet v num isObject => some (w.wait (.elementConvert v num isObject))
  | .fastElementSet v num =>
      some (if num.isPlausible then w.wait (.elementPut v num) else w.finish .undefined)
  | .set dst source => (w.viewAt dst).map fun (view, buf) => w.beginSet dst view buf source
  | .answer answer memory =>
      match w.frames with
      | [] => none
      | frame :: frames => { w with frames := frames }.resume convert memory frame answer

end Boomkat.TypedArrays
