import Boomkat.TypedArrays.Calls

/-! The elements of a view that lies in its buffer lie there as well, so that they can be loaded
and stored to.
-/

namespace Boomkat.Correctness

open Foundation TypedArrays

variable {view src dst : View} {buf buf' next' : ArrayBuffer} {p : Pointer} {next idx n a s : Nat}

-----------------------------------------------------------------------------------------
-- Numbers
-----------------------------------------------------------------------------------------

theorem taElemSize_eq (cls : ElementClass) : taElemSize cls = 2 ^ taElemShift cls := by
  cases cls <;> rfl

theorem uint_of_lt (small : n < 2 ^ 32) : uint n = n := Nat.mod_eq_of_lt small

theorem uint_lt (n : Nat) : uint n < 2 ^ 32 := Nat.mod_lt n (Nat.two_pow_pos 32)

/-- A shift loses the upper bits in any case. -/
theorem uint_shiftLeft : uint (a <<< s) = uint (uint a <<< s) := by
  simp only [uint, Nat.shiftLeft_eq]
  rw [Nat.mod_mul_mod]

/-- The first elements take up no more bytes than there are. -/
theorem shiftLeft_le_of_le_shiftRight (few : n ≤ a >>> s) : n <<< s ≤ a := by
  rw [Nat.shiftRight_eq_div_pow] at few
  rw [Nat.shiftLeft_eq]
  exact (Nat.le_div_iff_mul_le (Nat.two_pow_pos s)).mp few

-----------------------------------------------------------------------------------------
-- Buffers
-----------------------------------------------------------------------------------------

theorem length_zeros (n : Nat) : (zeros n).length = n := List.length_replicate

/-- The number of bytes in the block. -/
def capacity (buf : ArrayBuffer) : Nat := (buf.data.map fun block => block.bytes.length).getD 0

/-- The buffer has the bytes that it says, and those of a growable buffer are all there already. Its
block is at an address that was in use before the next one.
-/
structure BufferFits (next : Nat) (buf : ArrayBuffer) : Prop where
  bounded : buf.byteLength ≤ detachedLength
  filled : buf.byteLength ≠ detachedLength → buf.byteLength ≤ capacity buf
  detached : buf.byteLength = detachedLength → buf.data = none
  max : buf.maxByteLength < detachedLength
  growable : buf.isShared = true → buf.resizable = true → buf.maxByteLength ≤ capacity buf
  addr : ∀ block, buf.data = some block → block.addr < next

/-- The bytes are other ones, and nothing else. -/
structure Rewritten (buf buf' : ArrayBuffer) : Prop where
  byteLength : buf'.byteLength = buf.byteLength
  resizable : buf'.resizable = buf.resizable
  maxByteLength : buf'.maxByteLength = buf.maxByteLength
  isShared : buf'.isShared = buf.isShared
  pointer : buf'.pointer = buf.pointer
  capacity : capacity buf' = capacity buf

theorem Rewritten.refl (buf : ArrayBuffer) : Rewritten buf buf := ⟨rfl, rfl, rfl, rfl, rfl, rfl⟩

theorem Rewritten.trans (first : Rewritten buf buf') (second : Rewritten buf' next')
    : Rewritten buf next' where
  byteLength := second.byteLength.trans first.byteLength
  resizable := second.resizable.trans first.resizable
  maxByteLength := second.maxByteLength.trans first.maxByteLength
  isShared := second.isShared.trans first.isShared
  pointer := second.pointer.trans first.pointer
  capacity := second.capacity.trans first.capacity

/-- The block is at the same address, if there is one. -/
theorem Rewritten.data (rewritten : Rewritten buf buf')
    : buf'.data.map ByteBlock.addr = buf.data.map ByteBlock.addr :=
  congrArg Pointer.block rewritten.pointer

theorem BufferFits.rewritten (fits : BufferFits next buf) (rewritten : Rewritten buf buf')
    : BufferFits next buf' where
  bounded := by rw [rewritten.byteLength]; exact fits.bounded
  filled live := by
    rw [rewritten.byteLength] at live ⊢
    rw [rewritten.capacity]
    exact fits.filled live
  detached gone := by
    have none := fits.detached (rewritten.byteLength ▸ gone)
    have data := rewritten.data
    rw [none] at data
    exact Option.map_eq_none_iff.mp data
  max := by rw [rewritten.maxByteLength]; exact fits.max
  growable shared resizable := by
    rw [rewritten.maxByteLength, rewritten.capacity]
    exact fits.growable (rewritten.isShared ▸ shared) (rewritten.resizable ▸ resizable)
  addr block found := by
    have data := rewritten.data
    rw [found] at data
    obtain ⟨old, found', same⟩ := Option.map_eq_some_iff.mp data.symm
    rw [← same]
    exact fits.addr old found'

/-- The bytes from an address on, up to the length of the buffer, are there. -/
structure Reachable (buf : ArrayBuffer) (p : Pointer) (n : Nat) : Prop where
  block : p.block = buf.pointer.block
  live : buf.byteLength ≠ detachedLength
  within : p.offset + n ≤ buf.byteLength

/-- Where there is a byte there is a block. -/
theorem Reachable.data (fits : BufferFits next buf) (reachable : Reachable buf p n) (some : 0 < n)
    : ∃ block, buf.data = .some block ∧ p.block = .some block.addr
      ∧ buf.byteLength ≤ block.bytes.length := by
  have filled := fits.filled reachable.live
  have within := reachable.within
  have at_p := reachable.block
  rcases data : buf.data with - | block
  · rw [capacity, data] at filled
    simp only [Option.map_none, Option.getD_none] at filled
    omega
  · rw [capacity, data] at filled
    rw [ArrayBuffer.pointer, data] at at_p
    exact ⟨block, rfl, at_p, filled⟩

theorem ArrayBuffer.load_isSome (fits : BufferFits next buf) (reachable : 0 < n → Reachable buf p n)
    : ∃ bytes, buf.load p n = some bytes ∧ bytes.length = n := by
  rcases Nat.eq_zero_or_pos n with rfl | positive
  · exact ⟨[], rfl, rfl⟩
  · have reachable := reachable positive
    obtain ⟨block, data, at_p, filled⟩ := reachable.data fits positive
    obtain ⟨bytes, loaded, length⟩ := ByteBlock.load_isSome reachable.within filled
    refine ⟨bytes, ?_, length⟩
    rw [ArrayBuffer.load, if_neg (Nat.ne_of_gt positive), data, Option.bind_some, if_pos at_p, loaded]

theorem ArrayBuffer.store_isSome {bytes : List UInt8} (fits : BufferFits next buf)
    (reachable : 0 < bytes.length → Reachable buf p bytes.length)
    : ∃ buf', buf.store p bytes = some buf' ∧ Rewritten buf buf' := by
  rcases Nat.eq_zero_or_pos bytes.length with empty | positive
  · rw [List.length_eq_zero_iff.mp empty]
    exact ⟨buf, rfl, .refl buf⟩
  · have reachable := reachable positive
    have nonempty : bytes ≠ [] := List.ne_nil_of_length_pos positive
    obtain ⟨block, data, at_p, filled⟩ := reachable.data fits positive
    obtain ⟨stored, put, addr, length⟩ := ByteBlock.store_isSome reachable.within filled
    refine ⟨{ buf with data := stored }, ?_, rfl, rfl, rfl, rfl, ?_, ?_⟩
    · rw [ArrayBuffer.store, if_neg nonempty, data, Option.bind_some, if_pos at_p, put]
      rfl
    · rw [ArrayBuffer.pointer, ArrayBuffer.pointer, data, Option.map_some, Option.map_some, addr]
    · rw [capacity, capacity, data, Option.map_some, Option.map_some, length]

-----------------------------------------------------------------------------------------
-- Views
-----------------------------------------------------------------------------------------

/-- A view over a buffer of a fixed length lies in it until it is detached. Over a resizable one it
may come to lie outside, but has an end of 32 bits.
-/
structure Lies (view : View) (buf : ArrayBuffer) : Prop where
  fixed : buf.resizable = false → view.lengthTracking = false
    ∧ (buf.byteLength = detachedLength ∨ view.byteOffset + view.byteLength ≤ buf.byteLength)
  unwrapped : view.lengthTracking = false → view.byteOffset + view.byteLength < 2 ^ 32

theorem Lies.rewritten (lies : Lies view buf) (rewritten : Rewritten buf buf') : Lies view buf' where
  fixed := by
    rw [rewritten.resizable, rewritten.byteLength]
    exact lies.fixed
  unwrapped := lies.unwrapped

/-- A view that is not out of bounds has its bytes in the buffer. -/
theorem viewEffectiveByteLength_le (lies : Lies view buf)
    (some : 0 < viewEffectiveByteLength view buf)
    : buf.byteLength ≠ detachedLength
      ∧ view.byteOffset + viewEffectiveByteLength view buf ≤ buf.byteLength := by
  rw [viewEffectiveByteLength] at some ⊢
  split at some
  · exact absurd some (Nat.lt_irrefl 0)
  · rename_i within
    rw [if_neg within]
    rw [viewIsOutOfBounds] at within
    split at within
    · exact absurd rfl within
    · rename_i live
      refine ⟨live, ?_⟩
      split at within
      · -- The length of the buffer is as it was when the view was made.
        rename_i fixed
        obtain ⟨untracked, gone | inside⟩ := lies.fixed (by simpa using fixed)
        · exact absurd gone live
        · rw [if_pos (by simp [untracked])]
          exact inside
      · split at within
        · exact absurd rfl within
        · rename_i before
          split at within
          · rename_i tracking
            rw [if_neg (by simp [tracking])]
            dsimp only
            have whole : (buf.byteLength - view.byteOffset) >>> taElemShift view.cls
                <<< taElemShift view.cls ≤ buf.byteLength - view.byteOffset :=
              shiftLeft_le_of_le_shiftRight (Nat.le_refl _)
            omega
          · rename_i untracked
            have ends := lies.unwrapped (by simpa using untracked)
            rw [uint_of_lt ends] at within
            rw [if_pos untracked]
            simpa using within

/-- The elements up to the number that the view has are in the buffer. -/
theorem elements_reachable (lies : Lies view buf) (few : idx + n ≤ taElementCount view buf)
    (some : 0 < n)
    : Reachable buf ((view.base buf).plus (idx <<< taElemShift view.cls))
      (n <<< taElemShift view.cls) := by
  have bytes := shiftLeft_le_of_le_shiftRight few
  rw [Nat.shiftLeft_eq, Nat.add_mul] at bytes
  have positive := Nat.mul_pos some (Nat.two_pow_pos (taElemShift view.cls))
  obtain ⟨live, inside⟩ := viewEffectiveByteLength_le lies (by omega)
  refine ⟨rfl, live, ?_⟩
  simp only [Pointer.plus, View.base, ArrayBuffer.pointer, Nat.shiftLeft_eq]
  omega

/-- The same for the number that the interpreter takes. -/
theorem fastElement_reachable (fits : BufferFits next buf) (lies : Lies view buf)
    (data : buf.data.isSome) (few : idx < fastElementCount view buf)
    : Reachable buf ((view.base buf).plus (idx <<< taElemShift view.cls))
      (1 <<< taElemShift view.cls) := by
  rw [fastElementCount] at few
  split at few
  · exact elements_reachable lies few Nat.one_pos
  · rename_i fixed
    have bytes := shiftLeft_le_of_le_shiftRight (Nat.succ_le_of_lt few)
    rw [Nat.shiftLeft_eq, Nat.succ_mul] at bytes
    have live : buf.byteLength ≠ detachedLength := by
      intro gone
      rw [fits.detached gone] at data
      cases data
    obtain ⟨-, gone | inside⟩ := lies.fixed (by simpa using fixed)
    · exact absurd gone live
    · refine ⟨rfl, live, ?_⟩
      simp only [Pointer.plus, View.base, ArrayBuffer.pointer, Nat.shiftLeft_eq]
      omega

theorem taIsValidIntegerIndex_lt {num : NumericIndex}
    (valid : taIsValidIntegerIndex view buf num = some idx)
    : idx < taElementCount view buf := by
  cases num with
  | whole n =>
      rw [taIsValidIntegerIndex] at valid
      split at valid
      · rename_i inside
        obtain rfl := Option.some.inj valid
        omega
      · cases valid
  | _ => cases valid

theorem fastElementIndex_lt {num : NumericIndex} (valid : fastElementIndex view buf num = some idx)
    : buf.data.isSome ∧ idx < fastElementCount view buf := by
  cases num with
  | whole n =>
      rw [fastElementIndex] at valid
      split at valid
      · rename_i inside
        obtain rfl := Option.some.inj valid
        exact ⟨inside.2.2.1, by omega⟩
      · cases valid
  | negZero =>
      rw [fastElementIndex] at valid
      split at valid
      · rename_i inside
        obtain rfl := Option.some.inj valid
        exact inside
      · cases valid
  | _ => cases valid

/-- The address of an element has 32 bits behind that of the first one. -/
theorem Reachable.uint_eq (fits : BufferFits next buf)
    (reachable : Reachable buf ((view.base buf).plus a) n) (some : 0 < n)
    : uint a = a := by
  have within := reachable.within
  simp only [Pointer.plus, View.base, ArrayBuffer.pointer] at within
  have bounded := fits.bounded
  rw [detachedLength] at bounded
  exact uint_of_lt (by omega)

theorem taElemSize_pos (cls : ElementClass) : 0 < taElemSize cls := by
  rw [taElemSize_eq]
  exact Nat.two_pow_pos _

theorem one_shiftLeft (cls : ElementClass) : 1 <<< taElemShift cls = taElemSize cls := by
  rw [Nat.shiftLeft_eq, Nat.one_mul, taElemSize_eq]

/-- An element that is in the buffer can be loaded. -/
theorem taLoadElement_isSome (fits : BufferFits next buf)
    (reachable : Reachable buf ((view.base buf).plus (idx <<< taElemShift view.cls))
      (1 <<< taElemShift view.cls))
    : ∃ bytes, taLoadElement buf (view.base buf) view.cls idx = some bytes
      ∧ bytes.length = taElemSize view.cls := by
  have positive := taElemSize_pos view.cls
  rw [one_shiftLeft] at reachable
  rw [taLoadElement, reachable.uint_eq fits positive]
  exact ArrayBuffer.load_isSome fits fun _ => reachable

end Boomkat.Correctness
