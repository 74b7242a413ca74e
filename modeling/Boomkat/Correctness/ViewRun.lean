import Boomkat.Correctness.ViewBounds

/-! The copies of `TypedArray.prototype.set`, and runs of the calls on buffers and views. -/

namespace Boomkat.Correctness

open Foundation TypedArrays

variable {w w' : World} {view dst src : View} {buf buf' dstBuf srcBuf : ArrayBuffer}
  {frame : Frame} {convert : Conversion} {next b v i n targetOffset srcLen : Nat} {memory : Memory}

-----------------------------------------------------------------------------------------
-- Copies
-----------------------------------------------------------------------------------------

theorem Rewritten.count (rewritten : Rewritten buf buf') (view : View)
    : taElementCount view buf' = taElementCount view buf := by
  simp only [taElementCount, viewEffectiveByteLength, viewIsOutOfBounds, rewritten.byteLength,
    rewritten.resizable]

/-- The elements of the destination that a copy goes to. -/
theorem targetPointer_reachable (fits : BufferFits next buf) (lies : Lies dst buf)
    (few : targetOffset + i + n ≤ taElementCount dst buf) (some : 0 < n)
    : Reachable buf (targetPointer dst buf targetOffset i) (n <<< taElemShift dst.cls) := by
  have reachable := elements_reachable lies few some
  have positive : 0 < n <<< taElemShift dst.cls := by
    rw [Nat.shiftLeft_eq]
    exact Nat.mul_pos some (Nat.two_pow_pos _)
  rw [targetPointer, reachable.uint_eq fits positive]
  exact reachable

theorem convertElement_length {bytes bytes' : List UInt8}
    (converted : convertElement convert src.cls dst.cls bytes = .ok bytes')
    : bytes'.length = taElemSize dst.cls := by
  rw [convertElement] at converted
  split at converted
  · obtain rfl := Except.ok.inj converted
    exact (convert src.cls dst.cls bytes).property
  · split at converted <;> cases converted

theorem storeElement_isSome (fits : BufferFits next buf) (lies : Lies dst buf)
    (few : targetOffset + i + 1 ≤ taElementCount dst buf) {bytes : List UInt8}
    (length : bytes.length = taElemSize dst.cls)
    : ∃ buf', buf.store (targetPointer dst buf targetOffset i) bytes = some buf'
      ∧ Rewritten buf buf' := by
  have reachable := targetPointer_reachable fits lies few Nat.one_pos
  rw [one_shiftLeft, ← length] at reachable
  exact ArrayBuffer.store_isSome fits fun _ => reachable

theorem loadElement_isSome (fits : BufferFits next buf) (lies : Lies src buf)
    (few : i + 1 ≤ taElementCount src buf)
    : ∃ bytes, taLoadElement buf (src.base buf) src.cls i = some bytes := by
  obtain ⟨bytes, loaded, -⟩ := taLoadElement_isSome fits (elements_reachable lies few Nat.one_pos)
  exact ⟨bytes, loaded⟩

theorem loadElements_isSome (fits : BufferFits next buf) (lies : Lies src buf)
    (few : i + n ≤ taElementCount src buf)
    : ∃ elements, loadElements buf (src.base buf) src.cls i n = some elements
      ∧ elements.length = n := by
  induction n generalizing i with
  | zero => exact ⟨[], rfl, rfl⟩
  | succ n ih =>
      have first : i + 1 ≤ taElementCount src buf := by omega
      have others : i + 1 + n ≤ taElementCount src buf := by omega
      obtain ⟨bytes, loaded⟩ := loadElement_isSome fits lies first
      obtain ⟨rest, loadedRest, length⟩ := ih others
      refine ⟨bytes :: rest, ?_, by rw [List.length_cons, length]⟩
      rw [loadElements, loaded, Option.bind_some, loadedRest]
      rfl

theorem storeElements_isSome {elements : List (List UInt8)} (fits : BufferFits next buf)
    (lies : Lies dst buf) (few : targetOffset + i + elements.length ≤ taElementCount dst buf)
    : ∃ buf' outcome, TypedArrays.storeElements convert dst src targetOffset i buf elements
        = some (buf', outcome)
      ∧ Rewritten buf buf' := by
  induction elements generalizing i buf with
  | nil => exact ⟨buf, _, rfl, .refl buf⟩
  | cons bytes rest ih =>
      rw [List.length_cons] at few
      rw [TypedArrays.storeElements]
      split
      · exact ⟨buf, _, rfl, .refl buf⟩
      · rename_i bytes' converted
        have first : targetOffset + i + 1 ≤ taElementCount dst buf := by omega
        obtain ⟨buf', stored, rewritten⟩ :=
          storeElement_isSome fits lies first (convertElement_length converted)
        have others : targetOffset + (i + 1) + rest.length ≤ taElementCount dst buf' := by
          rw [rewritten.count]
          omega
        obtain ⟨last, outcome, storedRest, rewrittenRest⟩ :=
          ih (fits.rewritten rewritten) (lies.rewritten rewritten) others
        refine ⟨last, outcome, ?_, rewritten.trans rewrittenRest⟩
        rw [stored, Option.bind_some, storedRest]

theorem copyElements_isSome (srcFits : BufferFits next srcBuf) (srcLies : Lies src srcBuf)
    (fits : BufferFits next buf) (lies : Lies dst buf) (fewSrc : i + n ≤ taElementCount src srcBuf)
    (few : targetOffset + i + n ≤ taElementCount dst buf)
    : ∃ buf' outcome, copyElements convert dst src srcBuf (src.base srcBuf) targetOffset i buf n
        = some (buf', outcome)
      ∧ Rewritten buf buf' := by
  induction n generalizing i buf with
  | zero => exact ⟨buf, _, rfl, .refl buf⟩
  | succ n ih =>
      have firstSrc : i + 1 ≤ taElementCount src srcBuf := by omega
      have first : targetOffset + i + 1 ≤ taElementCount dst buf := by omega
      obtain ⟨bytes, loaded⟩ := loadElement_isSome srcFits srcLies firstSrc
      rw [copyElements, loaded, Option.bind_some]
      split
      · exact ⟨buf, _, rfl, .refl buf⟩
      · rename_i bytes' converted
        obtain ⟨buf', stored, rewritten⟩ :=
          storeElement_isSome fits lies first (convertElement_length converted)
        rw [stored, Option.bind_some]
        split
        · exact ⟨buf', _, rfl, rewritten⟩
        · have others : targetOffset + (i + 1) + n ≤ taElementCount dst buf' := by
            rw [rewritten.count]
            omega
          obtain ⟨last, outcome, copied, rewrittenRest⟩ :=
            ih (fits.rewritten rewritten) (lies.rewritten rewritten) (by omega) others
          exact ⟨last, outcome, copied, rewritten.trans rewrittenRest⟩

/-- The bytes of elements of one class, all at once. -/
theorem copyBytes_isSome (srcFits : BufferFits next srcBuf) (srcLies : Lies src srcBuf)
    (fits : BufferFits next dstBuf) (lies : Lies dst dstBuf) (same : src.cls = dst.cls)
    (fewSrc : srcLen ≤ taElementCount src srcBuf)
    (few : targetOffset + srcLen ≤ taElementCount dst dstBuf)
    : ∃ bytes buf', srcBuf.load (src.base srcBuf) (uint (srcLen <<< taElemShift dst.cls)) = some bytes
      ∧ dstBuf.store (targetPointer dst dstBuf targetOffset 0) bytes = some buf'
      ∧ Rewritten dstBuf buf' := by
  have reachableSrc : 0 < uint (srcLen <<< taElemShift dst.cls) →
      Reachable srcBuf (src.base srcBuf) (uint (srcLen <<< taElemShift dst.cls)) := by
    intro some
    have positive : 0 < srcLen := Nat.pos_of_ne_zero (by rintro rfl; simp [uint] at some)
    have fewSrc : 0 + srcLen ≤ taElementCount src srcBuf := by rwa [Nat.zero_add]
    have reachable := elements_reachable srcLies fewSrc positive
    rw [Nat.zero_shiftLeft, same] at reachable
    have bounded := srcFits.bounded
    have within := reachable.within
    rw [detachedLength] at bounded
    rw [uint_of_lt (by omega)]
    exact reachable
  obtain ⟨bytes, loaded, length⟩ := ArrayBuffer.load_isSome srcFits reachableSrc
  have reachableDst : 0 < bytes.length →
      Reachable dstBuf (targetPointer dst dstBuf targetOffset 0) bytes.length := by
    intro some
    rw [length] at some ⊢
    have reached := reachableSrc some
    have positive : 0 < srcLen := Nat.pos_of_ne_zero (by rintro rfl; simp [uint] at some)
    have reachable := targetPointer_reachable (i := 0) fits lies few positive
    have bounded := fits.bounded
    have within := reachable.within
    rw [detachedLength] at bounded
    rw [uint_of_lt (by omega)]
    exact reachable
  obtain ⟨buf', stored, rewritten⟩ := ArrayBuffer.store_isSome fits reachableDst
  exact ⟨bytes, buf', loaded, stored, rewritten⟩

/-- A copy of elements that both views have. -/
theorem copyTypedArray_isSome (srcFits : BufferFits next srcBuf) (srcLies : Lies src srcBuf)
    (fits : BufferFits next dstBuf) (lies : Lies dst dstBuf)
    (fewSrc : srcLen ≤ taElementCount src srcBuf)
    (few : targetOffset + srcLen ≤ taElementCount dst dstBuf)
    : ∃ buf' outcome, copyTypedArray convert dst src dstBuf srcBuf targetOffset srcLen memory
        = some (buf', outcome)
      ∧ Rewritten dstBuf buf' := by
  rw [copyTypedArray]
  split
  · rename_i same
    obtain ⟨bytes, buf', loaded, stored, rewritten⟩ :=
      copyBytes_isSome srcFits srcLies fits lies same fewSrc few
    refine ⟨buf', .undefined, ?_, rewritten⟩
    rw [loaded, Option.bind_some, stored]
    rfl
  · split
    · split
      · exact ⟨dstBuf, _, rfl, .refl dstBuf⟩
      · have fewSrc : 0 + srcLen ≤ taElementCount src srcBuf := by rwa [Nat.zero_add]
        obtain ⟨elements, loaded, length⟩ := loadElements_isSome srcFits srcLies fewSrc
        rw [loaded, Option.bind_some]
        exact storeElements_isSome fits lies (by rw [length]; exact few)
    · exact copyElements_isSome srcFits srcLies fits lies (by rwa [Nat.zero_add]) few

-----------------------------------------------------------------------------------------
-- `TypedArray.prototype.set`
-----------------------------------------------------------------------------------------

theorem viewAt_eq (found : w.viewAt v = some (view, buf))
    : w.views[v]? = some view ∧ w.buffers[view.buffer]? = some buf := by
  obtain ⟨view', at_v, rest⟩ := Option.bind_eq_some_iff.mp found
  obtain ⟨buf', at_b, same⟩ := Option.map_eq_some_iff.mp rest
  obtain ⟨rfl, rfl⟩ := Prod.mk.inj same
  exact ⟨at_v, at_b⟩

theorem WorldFits.lies (fits : WorldFits w) (found : w.viewAt v = some (view, buf))
    : Lies view buf := by
  obtain ⟨at_v, at_b⟩ := viewAt_eq found
  obtain ⟨buf', at_b', lies⟩ := fits.views v view at_v
  obtain rfl := Option.some.inj (at_b.symm.trans at_b')
  exact lies

theorem takeScratch_fits (fits : WorldFits w)
    : WorldFits (w.takeScratch dst src srcLen memory) := by
  rw [World.takeScratch]
  split
  · exact ⟨fits.buffers, fits.views, fits.frames, fits.strayed⟩
  · exact fits

theorem takeScratch_buffers
    : (w.takeScratch dst src srcLen memory).buffers = w.buffers := by
  rw [World.takeScratch]
  split
  · rfl
  · rfl

theorem setTypedArray_fits (fits : WorldFits w) {d s dstLen : Nat}
    (foundDst : w.viewAt d = some (dst, dstBuf)) (foundSrc : w.viewAt s = some (src, srcBuf))
    (still : taElementCount src srcBuf + targetOffset ≤ dstLen →
      taElementCount src srcBuf + targetOffset ≤ taElementCount dst dstBuf)
    : WorldFits (w.setTypedArray convert dst dstBuf dstLen src srcBuf targetOffset memory) := by
  obtain ⟨-, at_dst⟩ := viewAt_eq foundDst
  obtain ⟨-, at_src⟩ := viewAt_eq foundSrc
  have dstFits := fits.buffers _ _ at_dst
  rw [World.setTypedArray]
  split
  · exact fits.finish _
  · split
    · exact fits.finish _
    · dsimp only
      split
      · exact fits.finish _
      · rename_i enough
        have few := still (Nat.le_of_not_lt enough)
        rw [Nat.add_comm] at few
        obtain ⟨buf', outcome, copied, rewritten⟩ : ∃ buf' outcome,
            copyTypedArray convert dst src dstBuf srcBuf targetOffset (taElementCount src srcBuf)
              memory = some (buf', outcome) ∧ Rewritten dstBuf buf' :=
          copyTypedArray_isSome (fits.buffers _ _ at_src) (fits.lies foundSrc) dstFits
            (fits.lies foundDst) (Nat.le_refl _) few
        rw [copied]
        have scratched : WorldFits (w.takeScratch dst src (taElementCount src srcBuf) memory) :=
          takeScratch_fits fits
        rw [← takeScratch_buffers] at at_dst
        exact (scratched.putBuffer at_dst (rewritten.later _) (Nat.le_refl _)
          ((scratched.buffers _ _ at_dst).rewritten rewritten)).finish _

theorem setNext_fits (fits : WorldFits w) {dst : Nat}
    : WorldFits (w.setNext dst targetOffset srcLen i) := by
  rw [World.setNext]
  split
  · exact fits.wait trivial
  · exact fits.finish _

theorem setObject_fits (fits : WorldFits w) {dst dstLen : Nat} {d : Integer}
    : WorldFits (w.setObject dst dstLen targetOffset d) := by
  simp only [World.setObject]
  generalize (if d.isNegative = true then 0 else clampToUint d) = srcLen
  split
  · exact fits.finish _
  · exact setNext_fits fits

/-- Every element is stored only if the view still has it. -/
theorem setElement_fits (fits : WorldFits w) {dst : Nat}
    (found : w.viewAt dst = some (view, buf)) {bytes : List UInt8}
    (length : bytes.length = taElemSize view.cls)
    : WorldFits (w.setElement dst view buf targetOffset srcLen i bytes) := by
  obtain ⟨-, at_b⟩ := viewAt_eq found
  have fit := fits.buffers _ _ at_b
  rw [World.setElement]
  refine setNext_fits ?_
  split
  · rename_i idx valid
    have few := taIsValidIntegerIndex_lt valid
    have index : uint (targetOffset + i) = idx := by
      rw [taIsValidIntegerIndex] at valid
      split at valid
      · exact Option.some.inj valid
      · cases valid
    have reachable := elements_reachable (fits.lies found) (Nat.succ_le_of_lt few) Nat.one_pos
    rw [one_shiftLeft] at reachable
    have at_p : targetPointer view buf targetOffset i
        = (view.base buf).plus (idx <<< taElemShift view.cls) := by
      rw [targetPointer, uint_shiftLeft, index, reachable.uint_eq fit (taElemSize_pos _)]
    exact write_fits fits at_b (by rw [at_p, length]; exact reachable)
  · exact fits

-----------------------------------------------------------------------------------------
-- Steps
-----------------------------------------------------------------------------------------

/-- What a call has found out before the user code ran still holds when it goes on: the block that
an element is stored to is the buffer's, and the elements that `set` copies to are the view's. The
sum that is compared for a new view has 32 bits.
-/
def StillHolds (w : World) : Frame → Answer → Prop
  | .viewLength cls _ off bufLen, .integer d =>
      ∀ n, arraybufferToIndex d = some n → uint (off + uint (n * taElemSize cls)) ≤ bufLen →
        off + uint (n * taElemSize cls) < 2 ^ 32
  | .elementWrite v p, .element _ =>
      ∀ view buf, w.viewAt v = some (view, buf) → p.block = buf.pointer.block
  | .setOffset dst dstLen (.typedArray s), .integer d =>
      ∀ view buf src srcBuf, w.viewAt dst = some (view, buf) → w.viewAt s = some (src, srcBuf) →
        taElementCount src srcBuf + clampToUint d ≤ dstLen →
        taElementCount src srcBuf + clampToUint d ≤ taElementCount view buf
  | _, _ => True

def Steady (w : World) : ViewEvent → Prop
  | .answer answer _ => ∀ frame frames, w.frames = frame :: frames → StillHolds w frame answer
  | _ => True

theorem arraybufferToIndex_le {d : Integer} (converted : arraybufferToIndex d = some n)
    : n ≤ 2147483647 := by
  cases d with
  | nan =>
      obtain rfl := Option.some.inj converted
      exact Nat.zero_le _
  | int m =>
      rw [arraybufferToIndex] at converted
      split at converted
      · cases converted
      · rename_i inside
        obtain rfl := Option.some.inj converted
        omega
  | negInf | posInf => cases converted

theorem transferTo_fits (fits : WorldFits w) (at_b : w.buffers[b]? = some buf)
    (unshared : buf.isShared = false) {preserveResizable : Bool} {d : Integer}
    : WorldFits (w.transferTo b buf preserveResizable d memory) := by
  rw [World.transferTo]
  split
  · exact fits.finish _
  · rename_i newLen converted
    have small := arraybufferToIndex_le converted
    split
    · exact fits.finish _
    · exact transfer_fits fits at_b unshared (by rw [detachedLength]; omega)

theorem setAt_fits (fits : WorldFits w) {d dstLen : Nat} {source : SetSource} {offset : Integer}
    (found : w.viewAt d = some (view, buf))
    (holds : StillHolds w (.setOffset d dstLen source) (.integer offset))
    (taken : w.setAt convert d view buf dstLen source offset memory = some w')
    : WorldFits w' := by
  rw [World.setAt.eq_def] at taken
  split at taken
  · obtain rfl := Option.some.inj taken
    exact fits.finish _
  · split at taken
    · obtain rfl := Option.some.inj taken
      exact fits.finish _
    · cases source with
      | nullish =>
          obtain rfl := Option.some.inj taken
          exact fits.finish _
      | object =>
          obtain rfl := Option.some.inj taken
          exact fits.wait trivial
      | typedArray s =>
          obtain ⟨⟨src, srcBuf⟩, foundSrc, rfl⟩ := Option.map_eq_some_iff.mp taken
          exact setTypedArray_fits fits found foundSrc (holds view buf src srcBuf found foundSrc)

/-- A call that goes on keeps the views in their buffers, one case for each of its steps. -/
theorem resume_fits (fits : WorldFits w) (fit : FrameFits w.buffers w.views w.nextAddr frame)
    {answer : Answer} (holds : StillHolds w frame answer)
    (taken : w.resume convert memory frame answer = some w')
    : WorldFits w' := by
  cases answer with
  | thrown =>
      obtain rfl : w.finish .thrown = w' := by cases frame <;> exact Option.some.inj taken
      exact fits.finish _
  | integer d =>
      cases frame with
      | bufferLength isShared options =>
          obtain rfl := Option.some.inj taken
          split
          · exact fits.finish _
          · split
            · exact fits.wait trivial
            · exact fits.wait trivial
      | maxByteLength isShared byteLength =>
          obtain rfl := Option.some.inj taken
          split
          · exact fits.finish _
          · rw [World.checkMaxByteLength]
            split
            · exact fits.finish _
            · split
              · exact fits.finish _
              · rename_i small shorter
                exact fits.wait ⟨Nat.le_of_not_lt shorter, Nat.le_of_not_lt small⟩
      | resize b =>
          obtain ⟨buf, at_b, rfl⟩ := Option.map_eq_some_iff.mp taken
          obtain ⟨buf', at_b', resizable, unshared⟩ := fit
          obtain rfl := Option.some.inj (at_b.symm.trans at_b')
          split
          · exact fits.finish _
          · exact resize_fits fits at_b resizable unshared
      | grow b =>
          obtain ⟨buf, at_b, rfl⟩ := Option.map_eq_some_iff.mp taken
          obtain ⟨buf', at_b', resizable, shared⟩ := fit
          obtain rfl := Option.some.inj (at_b.symm.trans at_b')
          split
          · exact fits.finish _
          · exact grow_fits fits at_b resizable shared
      | transfer b preserveResizable =>
          obtain ⟨buf, at_b, rfl⟩ := Option.map_eq_some_iff.mp taken
          obtain ⟨buf', at_b', unshared⟩ := fit
          obtain rfl := Option.some.inj (at_b.symm.trans at_b')
          exact transferTo_fits fits at_b unshared
      | arrayLength cls =>
          obtain rfl := Option.some.inj taken
          split
          · exact fits.finish _
          · rename_i len converted
            exact constructArray_fits fits (arraybufferToIndex_le converted)
      | viewOffset cls b hasLength =>
          obtain ⟨buf, at_b, rfl⟩ := Option.map_eq_some_iff.mp taken
          split
          · exact fits.finish _
          · exact constructView_fits fits at_b
      | viewLength cls b off bufLen =>
          obtain ⟨buf, at_b, rfl⟩ := Option.map_eq_some_iff.mp taken
          split
          · exact fits.finish _
          · rename_i n converted
            exact constructViewOf_fits fits at_b fit (holds n converted)
      | setOffset dst dstLen source =>
          obtain ⟨⟨view, buf⟩, found, set⟩ := Option.bind_eq_some_iff.mp taken
          exact setAt_fits fits found holds set
      | setLength dst dstLen targetOffset =>
          obtain rfl := Option.some.inj taken
          exact setObject_fits fits
      | _ => cases taken
  | property isUndefined =>
      cases frame with
      | getMaxByteLength isShared byteLength =>
          obtain rfl := Option.some.inj taken
          split
          · exact fits.wait trivial
          · exact fits.wait trivial
      | bufferPrototype isShared byteLength max =>
          obtain rfl := Option.some.inj taken
          exact constructBuffer_fits fits fit
      | viewPrototype view =>
          obtain rfl := Option.some.inj taken
          exact fits.addView fit
      | setGetLength dst dstLen targetOffset =>
          obtain rfl := Option.some.inj taken
          exact fits.wait trivial
      | setGet dst targetOffset srcLen i =>
          obtain rfl := Option.some.inj taken
          exact fits.wait trivial
      | _ => cases taken
  | element bytes =>
      cases frame with
      | elementConvert v num isObject =>
          obtain ⟨⟨view, buf⟩, found, stored⟩ := Option.bind_eq_some_iff.mp taken
          obtain ⟨length, stored⟩ := Option.ite_none_right_eq_some.mp stored
          obtain rfl := Option.some.inj stored
          obtain ⟨at_v, at_b⟩ := viewAt_eq found
          exact elementConverted_fits fits at_v at_b (fits.lies found) length
      | elementWrite v p =>
          obtain ⟨⟨view, buf⟩, found, stored⟩ := Option.bind_eq_some_iff.mp taken
          obtain ⟨length, stored⟩ := Option.ite_none_right_eq_some.mp stored
          obtain rfl := Option.some.inj stored
          obtain ⟨at_v, at_b⟩ := viewAt_eq found
          exact elementWrite_fits fits at_v at_b fit (holds view buf found) length
      | elementPut v num =>
          obtain ⟨⟨view, buf⟩, found, stored⟩ := Option.bind_eq_some_iff.mp taken
          obtain ⟨length, stored⟩ := Option.ite_none_right_eq_some.mp stored
          obtain rfl := Option.some.inj stored
          exact elementPut_fits fits (viewAt_eq found).2 (fits.lies found) length
      | setElement dst targetOffset srcLen i =>
          obtain ⟨⟨view, buf⟩, found, stored⟩ := Option.bind_eq_some_iff.mp taken
          obtain ⟨length, stored⟩ := Option.ite_none_right_eq_some.mp stored
          obtain rfl := Option.some.inj stored
          exact setElement_fits fits found length
      | _ => cases taken

/-- Every step keeps the views in their buffers. -/
theorem WorldFits.step (fits : WorldFits w) {event : ViewEvent} (steady : Steady w event)
    (taken : w.step convert event = some w')
    : WorldFits w' := by
  cases event with
  | arrayBuffer isShared options =>
      obtain rfl := Option.some.inj taken
      exact fits.wait trivial
  | resize b =>
      obtain ⟨buf, at_b, rfl⟩ := Option.map_eq_some_iff.mp taken
      rw [World.beginResize]
      split
      · exact fits.finish _
      · split
        · exact fits.finish _
        · rename_i unshared resizable
          exact fits.wait ⟨buf, at_b, by simpa using resizable, by simpa using unshared⟩
  | grow b =>
      obtain ⟨buf, at_b, rfl⟩ := Option.map_eq_some_iff.mp taken
      rw [World.beginGrow]
      split
      · exact fits.finish _
      · split
        · exact fits.finish _
        · rename_i shared resizable
          exact fits.wait ⟨buf, at_b, by simpa using resizable, by simpa using shared⟩
  | transfer b preserveResizable hasLength memory =>
      obtain ⟨buf, at_b, rfl⟩ := Option.map_eq_some_iff.mp taken
      rw [World.beginTransfer]
      split
      · exact fits.finish _
      · rename_i unshared
        have unshared : buf.isShared = false := by simpa using unshared
        split
        · exact fits.finish _
        · rename_i live
          split
          · exact fits.wait ⟨buf, at_b, unshared⟩
          · have bounded := (fits.buffers b buf at_b).bounded
            exact transfer_fits fits at_b unshared (Nat.lt_of_le_of_ne bounded live)
  | detach b =>
      obtain ⟨buf, at_b, rfl⟩ := Option.map_eq_some_iff.mp taken
      exact World.detach_fits fits at_b
  | typedArray cls =>
      obtain rfl := Option.some.inj taken
      exact fits.wait trivial
  | typedArrayOver cls b hasOffset hasLength =>
      obtain ⟨buf, at_b, rfl⟩ := Option.map_eq_some_iff.mp taken
      split
      · exact fits.wait trivial
      · exact constructView_fits fits at_b
  | elementGet v num =>
      obtain ⟨⟨view, buf⟩, found, rfl⟩ := Option.map_eq_some_iff.mp taken
      refine read_fits fits (fits.buffers _ _ (viewAt_eq found).2) fun idx valid => ?_
      exact elements_reachable (fits.lies found) (taIsValidIntegerIndex_lt valid) Nat.one_pos
  | fastElementGet v num =>
      obtain ⟨⟨view, buf⟩, found, rfl⟩ := Option.map_eq_some_iff.mp taken
      have fit := fits.buffers _ _ (viewAt_eq found).2
      refine read_fits fits fit fun idx valid => ?_
      obtain ⟨data, few⟩ := fastElementIndex_lt valid
      exact fastElement_reachable fit (fits.lies found) data few
  | elementSet v num isObject =>
      obtain rfl := Option.some.inj taken
      exact fits.wait trivial
  | fastElementSet v num =>
      obtain rfl := Option.some.inj taken
      split
      · exact fits.wait trivial
      · exact fits.finish _
  | set dst source =>
      obtain ⟨⟨view, buf⟩, found, rfl⟩ := Option.map_eq_some_iff.mp taken
      show WorldFits (w.beginSet dst view buf source)
      rw [World.beginSet]
      split
      · exact fits.finish _
      · exact fits.wait trivial
  | answer answer memory =>
      simp only [World.step] at taken
      split at taken
      · cases taken
      · rename_i frame frames waiting
        have fit := fits.frames frame (by rw [waiting]; exact List.mem_cons_self)
        have rest : WorldFits { w with frames := frames } := by
          refine ⟨fits.buffers, fits.views, fun other member => fits.frames other ?_, fits.strayed⟩
          rw [waiting]
          exact List.mem_cons_of_mem _ member
        exact resume_fits rest fit (steady frame frames waiting) taken

-----------------------------------------------------------------------------------------
-- Runs
-----------------------------------------------------------------------------------------

/-- A conversion between classes that does not look at the bytes. -/
def zeroConversion : Conversion := fun _ dst _ => ⟨zeros (taElemSize dst), length_zeros _⟩

def ample : Memory := ⟨true, true⟩

/-- A view of two elements is made over a buffer of four bytes, and its last element is stored to and
loaded.
-/
def storeAndLoad : List ViewEvent :=
  [.arrayBuffer false false, .answer (.integer (.int 4)) ample, .answer (.property true) ample,
    .typedArrayOver .int16array 0 false true, .answer (.integer (.int 2)) ample,
    .answer (.property true) ample, .fastElementSet 0 (.whole 1), .answer (.element [5, 6]) ample,
    .elementGet 0 (.whole 1)]

/-- The sum of the offset and the length of a view is 2^32, which is 0 in 32 bits: an element behind
the four bytes of the buffer is loaded.
-/
def wrappedView : List ViewEvent :=
  [.arrayBuffer false false, .answer (.integer (.int 4)) ample, .answer (.property true) ample,
    .typedArrayOver .int16array 0 true true, .answer (.integer (.int 2)) ample,
    .answer (.integer (.int 2147483647)) ample, .answer (.property true) ample,
    .elementGet 0 (.whole 1)]

/-- The value that is stored detaches the buffer when it is converted for the second time. -/
def detachedByValue : List ViewEvent :=
  [.arrayBuffer false false, .answer (.integer (.int 4)) ample, .answer (.property true) ample,
    .typedArrayOver .int16array 0 false false, .answer (.property true) ample,
    .elementSet 0 (.whole 1) true, .answer (.element [5, 6]) ample, .detach 0,
    .answer (.element [5, 6]) ample]

/-- The offset of `set` shrinks the buffer of the view, whose length was taken before. -/
def shrunkByOffset : List ViewEvent :=
  [.arrayBuffer false true, .answer (.integer (.int 4)) ample, .answer (.property false) ample,
    .answer (.integer (.int 4)) ample, .answer (.property true) ample,
    .typedArrayOver .int8array 0 false false, .answer (.property true) ample,
    .typedArray .int8array, .answer (.integer (.int 4)) ample, .answer (.property true) ample,
    .set 0 (.typedArray 1), .resize 0, .answer (.integer (.int 1)) ample,
    .answer (.integer (.int 0)) ample]

end Boomkat.Correctness
