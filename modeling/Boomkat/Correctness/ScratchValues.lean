import Boomkat.Correctness.ViewRun

/-! The block in which `TypedArray.prototype.set` puts values of the same buffer has room for them in
runs in which no such source has 2^29 elements.
-/

namespace Boomkat.Correctness

open Foundation TypedArrays

variable {w w' : World} {view dst src : View} {buf dstBuf srcBuf : ArrayBuffer} {cls : ElementClass}
  {frame : Frame} {answer : Answer} {convert : Conversion} {memory : Memory} {num : NumericIndex}
  {bytes : List UInt8} {isShared isObject preserveResizable hasLength : Bool} {d : Integer}
  {b v i n off dstLen srcLen targetOffset : Nat}

-----------------------------------------------------------------------------------------
-- Calls that take no block
-----------------------------------------------------------------------------------------

@[simp] theorem finish_overran {outcome : TypedArrays.Outcome}
    : (w.finish outcome).overran = w.overran := rfl

@[simp] theorem wait_overran : (w.wait frame).overran = w.overran := rfl

@[simp] theorem stray_overran : w.stray.overran = w.overran := rfl

@[simp] theorem putBuffer_overran : (w.putBuffer b buf).overran = w.overran := rfl

@[simp] theorem addBuffer_overran : (w.addBuffer buf).overran = w.overran := rfl

/-- The block of a new buffer is one for bytes, not for values. -/
@[simp] theorem constructBuffer_overran {max : Option Nat}
    : (w.constructBuffer isShared n max memory).overran = w.overran := by
  fun_cases World.constructBuffer <;> rfl

@[simp] theorem checkMaxByteLength_overran {max : Nat}
    : (w.checkMaxByteLength isShared n max).overran = w.overran := by
  fun_cases World.checkMaxByteLength <;> rfl

@[simp] theorem beginResize_overran : (w.beginResize b buf).overran = w.overran := by
  fun_cases World.beginResize <;> rfl

/-- Resizing takes another block for bytes alone. -/
@[simp] theorem resize_overran : (w.resize b buf n memory).overran = w.overran := by
  fun_cases World.resize <;> rfl

@[simp] theorem beginGrow_overran : (w.beginGrow b buf).overran = w.overran := by
  fun_cases World.beginGrow <;> rfl

@[simp] theorem grow_overran : (w.grow b buf n).overran = w.overran := by
  fun_cases World.grow <;> rfl

@[simp] theorem detach_overran : (w.detach b buf).overran = w.overran := by
  fun_cases World.detach <;> rfl

/-- A transfer takes a block for bytes alone. -/
@[simp] theorem transfer_overran
    : (w.transfer b buf preserveResizable n memory).overran = w.overran := by
  fun_cases World.transfer <;> rfl

@[simp] theorem beginTransfer_overran
    : (w.beginTransfer b buf preserveResizable hasLength memory).overran = w.overran := by
  fun_cases World.beginTransfer <;> simp

@[simp] theorem transferTo_overran
    : (w.transferTo b buf preserveResizable d memory).overran = w.overran := by
  fun_cases World.transferTo <;> simp

/-- An array is constructed with a block for its bytes alone. -/
@[simp] theorem constructArray_overran
    : (w.constructArray cls n memory).overran = w.overran := by
  fun_cases World.constructArray <;> rfl

@[simp] theorem constructView_overran
    : (w.constructView cls b buf hasLength off).overran = w.overran := by
  fun_cases World.constructView <;> rfl

/-- A view over a buffer takes no block at all. -/
@[simp] theorem constructViewOf_overran {bufLen : Nat}
    : (w.constructViewOf cls b buf off bufLen n).overran = w.overran := by
  fun_cases World.constructViewOf <;> rfl

@[simp] theorem addView_overran : (w.addView view memory).overran = w.overran := by
  fun_cases World.addView <;> rfl

/-- A load takes no block, also where it strays. -/
@[simp] theorem read_overran {idx : Option Nat}
    : (w.read view buf idx).overran = w.overran := by
  fun_cases World.read <;> rfl

/-- A store takes no block, also where it strays. -/
@[simp] theorem write_overran {p : Pointer}
    : (w.write view buf p bytes).overran = w.overran := by
  fun_cases World.write <;> rfl

/-- The value of one element is converted on its own. -/
@[simp] theorem elementConverted_overran
    : (w.elementConverted v view buf num isObject bytes).overran = w.overran := by
  fun_cases World.elementConverted <;> simp

@[simp] theorem elementPut_overran
    : (w.elementPut view buf num bytes).overran = w.overran := by
  fun_cases World.elementPut <;> simp

/-- `set` takes no block before its offset is converted. -/
@[simp] theorem beginSet_overran {source : SetSource}
    : (w.beginSet v view buf source).overran = w.overran := by
  fun_cases World.beginSet <;> rfl

@[simp] theorem setNext_overran : (w.setNext v targetOffset srcLen i).overran = w.overran := by
  fun_cases World.setNext <;> rfl

@[simp] theorem setObject_overran
    : (w.setObject v dstLen targetOffset d).overran = w.overran := by
  fun_cases World.setObject <;> simp

/-- The loop over an object stores each value when it is converted. -/
@[simp] theorem setElement_overran
    : (w.setElement v view buf targetOffset srcLen i bytes).overran = w.overran := by
  rw [World.setElement, setNext_overran]
  split
  · exact write_overran
  · rfl

-----------------------------------------------------------------------------------------
-- The block
-----------------------------------------------------------------------------------------

/-- The number of bytes wraps from a source of 2^29 elements on. -/
theorem uint_mul_tvalSize_lt : uint (n * tvalSize) < n * tvalSize ↔ 2 ^ 29 ≤ n := by
  rw [uint, tvalSize]
  omega

/-- Values overrun the block that is taken for them from a source of 2^29 elements on. -/
theorem takeScratch_overran
    : (w.takeScratch dst src srcLen memory).overran = true
      ↔ w.overran = true
        ∨ src.cls ≠ dst.cls ∧ src.buffer = dst.buffer ∧ memory.data = true ∧ 2 ^ 29 ≤ srcLen := by
  simp only [World.takeScratch, uint_mul_tvalSize_lt]
  split
  · rename_i wraps
    exact iff_of_true rfl (.inr wraps)
  · rename_i enough
    exact (or_iff_left enough).symm

/-- Values are put behind the block exactly where the copy begins and there are too many of them. -/
theorem setTypedArray_overran
    : (w.setTypedArray convert dst dstBuf dstLen src srcBuf targetOffset memory).overran = true
      ↔ w.overran = true
        ∨ (srcBuf.byteLength ≠ detachedLength ∧ ¬viewIsOutOfBounds src srcBuf
            ∧ ¬dstLen < taElementCount src srcBuf + targetOffset)
          ∧ src.cls ≠ dst.cls ∧ src.buffer = dst.buffer ∧ memory.data = true
          ∧ 2 ^ 29 ≤ taElementCount src srcBuf := by
  fun_cases World.setTypedArray
  · rename_i detached
    simp [detached]
  · rename_i outside
    simp [outside]
  · rename_i srcLen large
    simp [show dstLen < taElementCount src srcBuf + targetOffset from large]
  · rename_i live inside srcLen small scratched buf outcome copied
    have begins := And.intro live (And.intro inside small)
    exact takeScratch_overran.trans (or_congr_right (and_iff_right begins).symm)
  · rename_i live inside srcLen small scratched copied
    have begins := And.intro live (And.intro inside small)
    exact takeScratch_overran.trans (or_congr_right (and_iff_right begins).symm)

-----------------------------------------------------------------------------------------
-- Runs
-----------------------------------------------------------------------------------------

/-- A copy between classes in one buffer, which begins when the offset is converted, is of fewer than
2^29 elements.
-/
def ScratchFits (w : World) : Frame → Answer → Prop
  | .setOffset dst _ (.typedArray s), .integer _ =>
      ∀ view buf src srcBuf, w.viewAt dst = some (view, buf) → w.viewAt s = some (src, srcBuf) →
        src.cls ≠ view.cls → src.buffer = view.buffer → taElementCount src srcBuf < 2 ^ 29
  | _, _ => True

def Roomy (w : World) : ViewEvent → Prop
  | .answer answer _ => ∀ frame frames, w.frames = frame :: frames → ScratchFits w frame answer
  | _ => True

/-- The offset is converted: the copy that begins has room for its values. -/
theorem setAt_overran {source : SetSource} (found : w.viewAt v = some (view, buf))
    (fits : ScratchFits w (.setOffset v dstLen source) (.integer d))
    (taken : w.setAt convert v view buf dstLen source d memory = some w')
    : w'.overran = w.overran := by
  rw [World.setAt.eq_def] at taken
  split at taken
  · obtain rfl := Option.some.inj taken
    rfl
  · split at taken
    · obtain rfl := Option.some.inj taken
      rfl
    · cases source with
      | nullish | object =>
          obtain rfl := Option.some.inj taken
          rfl
      | typedArray s =>
          obtain ⟨⟨src, srcBuf⟩, foundSrc, rfl⟩ := Option.map_eq_some_iff.mp taken
          rw [Bool.eq_iff_iff]
          refine setTypedArray_overran.trans (or_iff_left ?_)
          rintro ⟨-, other, same, -, long⟩
          exact Nat.not_le_of_lt (fits view buf src srcBuf found foundSrc other same) long

/-- A call that goes on takes a block only where it begins to copy. -/
theorem resume_overran (fits : ScratchFits w frame answer)
    (taken : w.resume convert memory frame answer = some w')
    : w'.overran = w.overran := by
  cases answer with
  | thrown =>
      obtain rfl : w.finish .thrown = w' := by cases frame <;> exact Option.some.inj taken
      rfl
  | integer d =>
      cases frame with
      | bufferLength isShared options =>
          obtain rfl := Option.some.inj taken
          split
          · rfl
          · split <;> rfl
      | maxByteLength | arrayLength =>
          obtain rfl := Option.some.inj taken
          split
          · rfl
          · simp only [checkMaxByteLength_overran, constructArray_overran]
      | resize | grow | viewOffset | viewLength =>
          obtain ⟨buf, -, rfl⟩ := Option.map_eq_some_iff.mp taken
          split
          · rfl
          · simp only [resize_overran, grow_overran, constructView_overran,
              constructViewOf_overran]
      | transfer b preserveResizable =>
          obtain ⟨buf, -, rfl⟩ := Option.map_eq_some_iff.mp taken
          exact transferTo_overran
      | setOffset dst dstLen source =>
          obtain ⟨⟨view, buf⟩, found, set⟩ := Option.bind_eq_some_iff.mp taken
          exact setAt_overran found fits set
      | setLength dst dstLen targetOffset =>
          obtain rfl := Option.some.inj taken
          exact setObject_overran
      | _ => cases taken
  | property isUndefined =>
      cases frame with
      | getMaxByteLength isShared byteLength =>
          obtain rfl := Option.some.inj taken
          split <;> rfl
      | bufferPrototype isShared byteLength max =>
          obtain rfl := Option.some.inj taken
          exact constructBuffer_overran
      | viewPrototype view =>
          obtain rfl := Option.some.inj taken
          exact addView_overran
      | setGetLength | setGet =>
          obtain rfl := Option.some.inj taken
          rfl
      | _ => cases taken
  | element bytes =>
      cases frame with
      | elementConvert | elementWrite | elementPut | setElement =>
          obtain ⟨⟨view, buf⟩, -, stored⟩ := Option.bind_eq_some_iff.mp taken
          obtain ⟨-, stored⟩ := Option.ite_none_right_eq_some.mp stored
          obtain rfl := Option.some.inj stored
          simp only [elementConverted_overran, finish_overran, write_overran, elementPut_overran,
            setElement_overran]
      | _ => cases taken

/-- A step whose copy has room for its values puts none of them behind the block. -/
theorem step_overran {event : ViewEvent} (roomy : Roomy w event)
    (taken : w.step convert event = some w')
    : w'.overran = w.overran := by
  cases event with
  | arrayBuffer | typedArray | elementSet =>
      obtain rfl := Option.some.inj taken
      rfl
  | resize | grow | transfer | detach =>
      obtain ⟨buf, -, rfl⟩ := Option.map_eq_some_iff.mp taken
      simp only [beginResize_overran, beginGrow_overran, beginTransfer_overran, detach_overran]
  | typedArrayOver cls b hasOffset hasLength =>
      obtain ⟨buf, -, rfl⟩ := Option.map_eq_some_iff.mp taken
      split
      · rfl
      · exact constructView_overran
  | elementGet | fastElementGet | set =>
      obtain ⟨⟨view, buf⟩, -, rfl⟩ := Option.map_eq_some_iff.mp taken
      simp only [read_overran, beginSet_overran]
  | fastElementSet v num =>
      obtain rfl := Option.some.inj taken
      split <;> rfl
  | answer answer memory =>
      simp only [World.step] at taken
      split at taken
      · cases taken
      · rename_i frame frames waiting
        exact resume_overran (w := { w with frames := frames }) (roomy frame frames waiting) taken

/-- In a run whose copies between classes in one buffer are all of fewer than 2^29 elements, `set` puts
no value behind the block that it has taken.
-/
theorem scratch_run (convert : Conversion) {events : List ViewEvent}
    (roomy : Along (World.step convert) Roomy .new events)
    (run : replay (World.step convert) .new events = some w)
    : w.overran = false := by
  have kept : ∀ {w e w'}, World.overran w = false → Roomy w e → w.step convert e = some w' →
      w'.overran = false :=
    fun clean roomy taken => (step_overran roomy taken).trans clean
  have clean := roomy.preserves kept rfl run
  exact clean

end Boomkat.Correctness
