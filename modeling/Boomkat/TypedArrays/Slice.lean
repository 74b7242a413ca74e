import Boomkat.TypedArrays.Calls

/-! `ArrayBuffer.prototype.slice` and that of shared buffers. What the user code in between comes to
is given, and the world is the one that it leaves.
-/

namespace Boomkat.TypedArrays

open Foundation

-----------------------------------------------------------------------------------------
-- Indices
-----------------------------------------------------------------------------------------

/-- An argument when it is converted, unless that throws. -/
inductive SliceArgument where
  | undefined
  | thrown
  | integer (d : Integer)

/-- `ab_clamp_relative` -/
def abClampRelative (d : Integer) (len : Int) : Int :=
  match d with
  | .nan => 0
  | .posInf => len
  | .negInf => -len
  | .int d => if len ≤ d then len else if d ≤ -len then -len else d

/-- The index that is relative to the end if it is negative. -/
def sliceIndex (len rel : Int) : Int :=
  if rel < 0 then if len + rel < 0 then 0 else len + rel
  else if len < rel then len
  else rel

/-- The index of an argument, where one that is undefined stands for another value. -/
def SliceArgument.index (len absent : Int) : SliceArgument → Option Int
  | .undefined => some (sliceIndex len absent)
  | .thrown => none
  | .integer d => some (sliceIndex len (abClampRelative d len))

-----------------------------------------------------------------------------------------
-- The species constructor
-----------------------------------------------------------------------------------------

/-- What the species constructor comes to. -/
inductive Constructed where
  | thrown
  | notObject
  | otherObject
  | buffer (buf : Nat)

/-- The value of `@@species`. It is not looked up where there is no memory for the symbol. -/
inductive SpeciesValue where
  | thrown
  | nullish
  | notCallable
  | constructor (constructed : Constructed)

/-- The value of `constructor`. -/
inductive ConstructorValue where
  | thrown
  | undefined
  | notObject
  | object (species : SpeciesValue)

def sliceLabel (isShared : Bool) : String := constructorName isShared ++ ".prototype.slice"

def sliceError (isShared : Bool) (message : String) : Outcome :=
  .typeError (sliceLabel isShared ++ ": " ++ message)

def wrongKind (isShared : Bool) : Outcome :=
  sliceError isShared ("species constructor did not return "
    ++ if isShared then "a SharedArrayBuffer" else "an ArrayBuffer")

def Constructed.result (isShared : Bool) : Constructed → Except Outcome Nat
  | .thrown => .error .thrown
  | .notObject => .error (sliceError isShared "species constructor did not return an object")
  | .otherObject => .error (wrongKind isShared)
  | .buffer r => .ok r

/-- The buffer that user code makes for the result, or none where there is no species. -/
def ConstructorValue.result (isShared : Bool) : ConstructorValue → Except Outcome (Option Nat)
  | .thrown => .error .thrown
  | .undefined => .ok none
  | .notObject => .error (sliceError isShared "constructor is not an object")
  | .object .thrown => .error .thrown
  | .object .nullish => .ok none
  | .object .notCallable => .error (sliceError isShared "species result is not a constructor")
  | .object (.constructor constructed) => (constructed.result isShared).map some

-----------------------------------------------------------------------------------------
-- The call
-----------------------------------------------------------------------------------------

/-- A call with its arguments, the source as it was when the call began, and what the user code comes
to.
-/
structure SliceCall where
  isShared : Bool
  src : Nat
  entry : ArrayBuffer
  start : SliceArgument
  stop : SliceArgument
  constructor : ConstructorValue
  memory : Memory

/-- The copy at the end of `arraybuffer_slice_impl`. -/
def World.copySlice (w : World) (r : Nat) (result src : ArrayBuffer) (start n : Nat) : World :=
  if 0 < n ∧ result.data.isSome then
    match (src.load (src.pointer.plus start) n).bind (result.store result.pointer) with
    | some result' => (w.putBuffer r result').finish (.buffer r)
    | none => w.stray
  else w.finish (.buffer r)

/-- `arraybuffer_slice_impl` from where there is a new buffer on. -/
def World.copyUnlessDetached (w w' : World) (isShared : Bool) (r : Nat) (result src : ArrayBuffer)
    (start n : Nat)
    : World :=
  if isShared = false ∧ src.byteLength = detachedLength then
    w.finish (sliceError isShared "source buffer detached during species construction")
  else w'.copySlice r result src start n

/-- A new buffer for the result, which has no data where there is no memory for it. -/
def World.plainResult (w : World) (isShared : Bool) (n : Nat) (memory : Memory) : ArrayBuffer where
  data := if memory.data then w.dataOf (zeros n) else none
  byteLength := n
  resizable := false
  maxByteLength := 0
  isShared := isShared

/-- `arraybuffer_slice_impl` when the indices are known. -/
def World.sliceTo (w : World) (call : SliceCall) (src : ArrayBuffer) (start n : Nat) : Option World :=
  match call.constructor.result call.isShared with
  | .error outcome => some (w.finish outcome)
  | .ok none =>
      if ¬call.memory.object then some (w.finish .undefined)
      else
        let result := w.plainResult call.isShared n call.memory
        some (w.copyUnlessDetached (w.addBuffer result) call.isShared w.buffers.length result src
          start n)
  | .ok (some r) =>
      (w.buffers[r]?).map fun result =>
        if result.isShared ≠ call.isShared then w.finish (wrongKind call.isShared)
        else if r = call.src then
          w.finish (sliceError call.isShared "species constructor returned the same buffer")
        else if result.byteLength < n then
          w.finish (sliceError call.isShared "new buffer too small")
        else w.copyUnlessDetached w call.isShared r result src start n

/-- `arraybuffer_slice_impl` -/
def World.slice (w : World) (call : SliceCall) : Option World :=
  let len : Int := call.entry.byteLength
  if call.entry.isShared ≠ call.isShared then
    some (w.finish (.typeError (if call.isShared
      then "SharedArrayBuffer.prototype method called on incompatible receiver"
      else "ArrayBuffer.prototype: method called on incompatible receiver")))
  else if call.isShared = false ∧ call.entry.byteLength = detachedLength then
    some (w.finish (sliceError call.isShared "buffer is detached"))
  else
    match call.start.index len 0 with
    | none => some (w.finish .thrown)
    | some start =>
        match call.stop.index len len with
        | none => some (w.finish .thrown)
        | some stop =>
            (w.buffers[call.src]?).bind fun src =>
              w.sliceTo call src start.toNat (stop - start).toNat

end Boomkat.TypedArrays
