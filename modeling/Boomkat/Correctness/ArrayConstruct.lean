import Boomkat.Correctness.ViewAccess
import Boomkat.TypedArrays.Construct

/-! A typed array has the length that it was asked for, exactly where its size in bytes fits 32 bits
and there is memory for what the constructor does not check.
-/

namespace Boomkat.Correctness

open Foundation TypedArrays

variable {cls : ElementClass}

-----------------------------------------------------------------------------------------
-- New buffers
-----------------------------------------------------------------------------------------

theorem bufferOf_load {data : List UInt8} {start n : Nat} (within : start + n ≤ data.length)
    : (bufferOf data).load ((bufferOf data).pointer.plus start) n
      = some ((data.drop start).take n) := by
  rw [ArrayBuffer.load]
  split
  · rename_i none
    rw [none, List.take_zero]
  · have nonempty : data ≠ [] := by
      rintro rfl
      rw [List.length_nil] at within
      omega
    simp only [bufferOf, if_neg nonempty, ArrayBuffer.pointer, Pointer.plus, Option.bind_some,
      Option.map_some, if_true, Nat.zero_add]
    exact ByteBlock.load_eq within within

theorem bufferOf_store {data bytes : List UInt8} {start : Nat}
    (within : start + bytes.length ≤ data.length)
    : (bufferOf data).store ((bufferOf data).pointer.plus start) bytes
      = some (bufferOf (data.take start ++ bytes ++ data.drop (start + bytes.length))) := by
  rw [ArrayBuffer.store]
  split
  · rename_i none
    rw [none, List.length_nil, Nat.add_zero, List.append_nil, List.take_append_drop]
  · rename_i some
    have positive := List.length_pos_iff.mpr some
    have nonempty : data ≠ [] := by
      rintro rfl
      rw [List.length_nil] at within
      omega
    have length : (data.take start ++ bytes ++ data.drop (start + bytes.length)).length
        = data.length := by
      simp only [List.length_append, List.length_take, List.length_drop]
      omega
    have nonempty' : data.take start ++ bytes ++ data.drop (start + bytes.length) ≠ [] :=
      List.ne_nil_of_length_pos (by omega)
    simp only [bufferOf, if_neg nonempty, if_neg nonempty', length, ArrayBuffer.pointer,
      Pointer.plus, Option.bind_some, Option.map_some, if_true, Nat.zero_add]
    rw [ByteBlock.store_eq within within]
    rfl

theorem ArrayBuffer.store_keeps {buf buf' : ArrayBuffer} {p : Pointer} {bytes : List UInt8}
    (stored : buf.store p bytes = some buf')
    : buf'.byteLength = buf.byteLength ∧ buf'.resizable = buf.resizable := by
  rw [ArrayBuffer.store] at stored
  split at stored
  · cases stored
    exact ⟨rfl, rfl⟩
  · obtain ⟨block, -, stored⟩ := Option.bind_eq_some_iff.mp stored
    split at stored
    · obtain ⟨block', -, rfl⟩ := Option.map_eq_some_iff.mp stored
      exact ⟨rfl, rfl⟩
    · cases stored

-----------------------------------------------------------------------------------------
-- Elements one by one
-----------------------------------------------------------------------------------------

/-- A list of equally long parts has them at the multiples of their length. -/
theorem flatten_part {parts : List (List UInt8)} {size : Nat}
    (equal : ∀ part ∈ parts, part.length = size) {i : Nat} (inside : i < parts.length)
    : (parts.flatten.drop (i * size)).take size = parts[i] := by
  induction parts generalizing i with
  | nil => exact absurd inside (Nat.not_lt_zero i)
  | cons part parts ih =>
      have length := equal part List.mem_cons_self
      cases i with
      | zero =>
          rw [Nat.zero_mul, List.drop_zero, List.flatten_cons, List.take_left' length]
          rfl
      | succ i =>
          rw [Nat.succ_mul, Nat.add_comm, ← length, ← List.drop_drop, List.flatten_cons,
            List.drop_left, length]
          exact ih (fun part mem => equal part (List.mem_cons_of_mem _ mem)) (by simpa using inside)

theorem length_flatten_parts {parts : List (List UInt8)} {size : Nat}
    (equal : ∀ part ∈ parts, part.length = size) : parts.flatten.length = parts.length * size := by
  induction parts with
  | nil => simp
  | cons part parts ih =>
      rw [List.flatten_cons, List.length_append, equal part List.mem_cons_self,
        ih fun part mem => equal part (List.mem_cons_of_mem _ mem), List.length_cons]
      rw [Nat.succ_mul, Nat.add_comm]

/-- What is read of an element throws, or is as long as an element. -/
def ReadFits (cls : ElementClass) : ElementRead → Prop
  | .value (.ok bytes) => bytes.length = taElemSize cls
  | .value (.error _) => True
  | .throws _ => True
  | .strayed => False

/-- The loop throws, or all elements are converted and stored one behind the other. -/
theorem fillFrom_spec {read : Nat → ElementRead} {front : List UInt8} {i n : Nat}
    (fits : ∀ j, i ≤ j → j < i + n → ReadFits cls (read j))
    (length : front.length = i * taElemSize cls) (size : (i + n) * taElemSize cls < 2 ^ 32)
    : (∃ outcome, fillFrom cls read (bufferOf (front ++ zeros (n * taElemSize cls))) i n
        = .throws outcome)
      ∨ ∃ parts : List (List UInt8), parts.length = n
        ∧ (∀ j (inside : j < parts.length), read (i + j) = .value (.ok parts[j]))
        ∧ (∀ part ∈ parts, part.length = taElemSize cls)
        ∧ fillFrom cls read (bufferOf (front ++ zeros (n * taElemSize cls))) i n
          = .filled (bufferOf (front ++ parts.flatten)) := by
  induction n generalizing i front with
  | zero =>
      refine .inr ⟨[], rfl, nofun, nofun, ?_⟩
      rw [Nat.zero_mul]
      rfl
  | succ n ih =>
      have here := fits i (Nat.le_refl i) (by omega)
      have positive := taElemSize_pos cls
      have whole : (front ++ zeros ((n + 1) * taElemSize cls)).length
          = (i + (n + 1)) * taElemSize cls := by
        rw [List.length_append, length, length_zeros, ← Nat.add_mul]
      have sum : (i + (n + 1)) * taElemSize cls
          = i * taElemSize cls + (n * taElemSize cls + taElemSize cls) := by
        rw [Nat.add_mul, Nat.succ_mul]
      have data : (bufferOf (front ++ zeros ((n + 1) * taElemSize cls))).data.isNone = false := by
        have nonempty : front ++ zeros ((n + 1) * taElemSize cls) ≠ [] :=
          List.ne_nil_of_length_pos (by omega)
        simp only [bufferOf, if_neg nonempty, Option.isNone_some]
      rw [fillFrom]
      rcases is : read i with ⟨outcome | bytes⟩ | outcome | -
      · refine .inl ⟨outcome, ?_⟩
        simp [typedarrayStoreConverted, data]
      · rw [is] at here
        have address : uint (i <<< taElemShift cls) = front.length := by
          rw [length, taElemSize_eq, Nat.shiftLeft_eq]
          apply uint_of_lt
          rw [← taElemSize_eq]
          omega
        have stored := @bufferOf_store (front ++ zeros ((n + 1) * taElemSize cls)) bytes front.length
          (by rw [whole, here, length]; omega)
        have rest : (front ++ zeros ((n + 1) * taElemSize cls)).take front.length ++ bytes
              ++ (front ++ zeros ((n + 1) * taElemSize cls)).drop (front.length + bytes.length)
            = (front ++ bytes) ++ zeros (n * taElemSize cls) := by
          rw [List.take_left, ← List.drop_drop, List.drop_left, here, zeros, zeros,
            List.drop_replicate, Nat.succ_mul, Nat.add_sub_cancel]
        rw [rest] at stored
        have filled : typedarrayStoreConverted cls (bufferOf (front ++ zeros ((n + 1) * taElemSize cls)))
            i (.ok bytes) = .filled (bufferOf ((front ++ bytes) ++ zeros (n * taElemSize cls))) := by
          rw [typedarrayStoreConverted, data, address, stored]
          rfl
        dsimp only
        rw [filled]
        dsimp only
        rcases @ih (front ++ bytes) (i + 1) (fun j low high => fits j (by omega) (by omega))
          (by rw [List.length_append, length, here, Nat.succ_mul]) (by rwa [Nat.add_right_comm]) with
          ⟨outcome, throws⟩ | ⟨parts, count, values, lengths, result⟩
        · exact .inl ⟨outcome, throws⟩
        · refine .inr ⟨bytes :: parts, by rw [List.length_cons, count], ?_, ?_, ?_⟩
          · intro j inside
            cases j with
            | zero => exact is
            | succ j =>
                have next := values j (by simpa using inside)
                rwa [Nat.add_right_comm] at next
          · intro part mem
            rcases List.mem_cons.mp mem with rfl | mem
            · exact here
            · exact lengths part mem
          · rw [result, List.flatten_cons, List.append_assoc]
      · exact .inl ⟨outcome, rfl⟩
      · rw [is] at here
        exact here.elim

/-- Filling a buffer changes its bytes only. -/
theorem fillFrom_keeps {read : Nat → ElementRead} {buf buf' : ArrayBuffer} {i n : Nat}
    (filled : fillFrom cls read buf i n = .filled buf')
    : buf'.byteLength = buf.byteLength ∧ buf'.resizable = buf.resizable := by
  induction n generalizing i buf with
  | zero =>
      cases filled
      exact ⟨rfl, rfl⟩
  | succ n ih =>
      rw [fillFrom] at filled
      split at filled
      · cases filled
      · cases filled
      · split at filled
        · rename_i mid stored
          obtain ⟨byteLength, resizable⟩ := ih filled
          suffices mid.byteLength = buf.byteLength ∧ mid.resizable = buf.resizable by
            exact ⟨byteLength.trans this.1, resizable.trans this.2⟩
          unfold typedarrayStoreConverted at stored
          split at stored
          · cases stored
            exact ⟨rfl, rfl⟩
          · split at stored
            · cases stored
            · split at stored
              · rename_i put
                cases stored
                exact ArrayBuffer.store_keeps put
              · cases stored
        · cases filled
        · cases filled

/-- A loop does not throw where no look-up and no conversion does, or where without data there is
no conversion.
-/
theorem fillFrom_quiet {read : Nat → ElementRead} {buf : ArrayBuffer} {i n : Nat}
    (gets : ∀ j outcome, read j ≠ .throws outcome)
    (values : buf.data = none ∨ ∀ j outcome, read j ≠ .value (.error outcome))
    (outcome : TypedArrays.Outcome)
    : fillFrom cls read buf i n ≠ .throws outcome := by
  induction n generalizing i buf with
  | zero => exact nofun
  | succ n ih =>
      rw [fillFrom]
      rcases is : read i with converted | failed | -
      · dsimp only
        rw [typedarrayStoreConverted.eq_def]
        rcases data : buf.data with - | block
        · exact ih (.inl data)
        · rcases values with none | values
          · rw [none] at data
            cases data
          · rcases converted with failed | bytes
            · exact absurd is (values i failed)
            · dsimp only [Option.isNone_some]
              rcases buf.store (buf.pointer.plus (uint (i <<< taElemShift cls))) bytes with - | buf'
              · exact nofun
              · exact ih (.inr values)
      · exact absurd is (gets i failed)
      · exact nofun

-----------------------------------------------------------------------------------------
-- Items
-----------------------------------------------------------------------------------------

/-- A capacity below the greatest one is doubled. -/
theorem collectItems_grow {room : Room} (memory : room.items = true) {k : Nat} (smaller : k < 31)
    (n : Nat)
    : collectItems room (2 ^ k) (2 ^ k) (n + 1) = collectItems room (2 ^ (k + 1)) (2 ^ k + 1) n := by
  have double : uint (2 ^ k * 2) = 2 ^ (k + 1) := by
    rw [← Nat.pow_succ]
    exact uint_of_lt (Nat.pow_lt_pow_right (by decide) (by omega))
  have more : 2 ^ k < 2 ^ (k + 1) := Nat.pow_lt_pow_right (by decide) (Nat.lt_succ_self k)
  rw [collectItems, if_pos rfl, if_neg (not_not.mpr memory), double, if_neg (Nat.not_le.mpr more)]

theorem collectItems_add {room : Room} {cap count : Nat} (below : count ≠ cap) (n : Nat)
    : collectItems room cap count (n + 1) = collectItems room cap (count + 1) n := by
  rw [collectItems, if_neg below]

/-- Up to 2^31 items are collected. -/
theorem collectItems_few {room : Room} (memory : room.items = true) {k count n : Nat}
    (below : count ≤ 2 ^ k) (few : count + n ≤ 2 ^ 31)
    : collectItems room (2 ^ k) count n = .items := by
  induction n generalizing k count with
  | zero => rfl
  | succ n ih =>
      rcases Nat.eq_or_lt_of_le below with rfl | lower
      · have smaller : k < 31 := by
          apply (Nat.pow_lt_pow_iff_right (show 1 < 2 by decide)).mp
          omega
        rw [collectItems_grow memory smaller]
        exact ih (Nat.pow_lt_pow_right (by decide) (Nat.lt_succ_self k)) (by omega)
      · rw [collectItems_add (Nat.ne_of_lt lower)]
        exact ih lower (by omega)

/-- More items overrun the array of items, whose capacity wraps to zero. -/
theorem collectItems_many {room : Room} (memory : room.items = true) {k count n : Nat}
    (small : k ≤ 31) (below : count ≤ 2 ^ k) (many : 2 ^ 31 < count + n)
    : collectItems room (2 ^ k) count n = .strayed := by
  induction n generalizing k count with
  | zero =>
      have := Nat.pow_le_pow_right (show 0 < 2 by decide) small
      omega
  | succ n ih =>
      rcases Nat.eq_or_lt_of_le below with rfl | lower
      · rcases Nat.lt_or_eq_of_le small with smaller | rfl
        · rw [collectItems_grow memory smaller]
          exact ih smaller (Nat.pow_lt_pow_right (by decide) (Nat.lt_succ_self k)) (by omega)
        · rw [collectItems, if_pos rfl, if_neg (not_not.mpr memory)]
          exact if_pos (Nat.zero_le _)
      · rw [collectItems_add (Nat.ne_of_lt lower)]
        exact ih small lower (by omega)

-----------------------------------------------------------------------------------------
-- What is asked for
-----------------------------------------------------------------------------------------

/-- The count that a length argument asks for. -/
def askedLength : Integer → Option Nat
  | .nan => some 0
  | .int n => if n < 0 then none else some n.toNat
  | .negInf | .posInf => none

def askedCount : Request → Option Nat
  | .length len => len.bind askedLength
  | .buffer _ _ _ _ len => len.bind askedLength
  | .typedArray src srcBuf => some (taElementCount src srcBuf)
  | .iterable items => items
  | .arrayLike len => len.bind arrayLikeLength

/-- The bytes are the conversion of an element of the source. Those of a buffer are its own. -/
def IsElement (convert : Conversion) (code : UserCode cls) (i : Nat) (bytes : List UInt8)
    : Request → Prop
  | .length _ => bytes = zeros (taElemSize cls)
  | .buffer _ _ _ _ _ => True
  | .typedArray src srcBuf =>
      ∃ loaded, taLoadElement srcBuf (src.base srcBuf) src.cls i = some loaded
        ∧ if src.cls = cls then bytes = loaded
          else convertElement convert src.cls cls loaded = .ok bytes
  | .iterable _ => code.converted i = .ok bytes
  | .arrayLike _ => code.converted i = .ok bytes

/-- The array has as many elements as asked for, and those of the source. -/
structure HasElements (convert : Conversion) (code : UserCode cls) (request : Request) (n : Nat)
    (view : View) (buf : ArrayBuffer) : Prop where
  sameClass : view.cls = cls
  count : taElementCount view buf = n
  byteLength : viewEffectiveByteLength view buf = n * taElemSize cls
  elements : ∀ i < n, ∃ bytes, taLoadElement buf (view.base buf) view.cls i = some bytes
    ∧ IsElement convert code i bytes request

/-- A call throws, or gives an array as asked for. -/
def AsAsked (convert : Conversion) (code : UserCode cls) (request : Request)
    : Construction → Prop
  | .throws _ => True
  | .array view buf =>
      ∃ n, askedCount request = some n ∧ HasElements convert code request n view buf
  | .undefined => False
  | .strayed => False

/-- A request is fulfilled whatever the user code comes to. -/
def ConstructHolds (convert : Conversion) (outside : Nat → Nat) (cls : ElementClass) (room : Room)
    (request : Request) : Prop :=
  ∀ code : UserCode cls, AsAsked convert code request
    (typedArrayConstruct convert outside room code request)

/-- Whether an offset and a count are refused over a buffer: the check for a wrapped sum. -/
def Refused (cls : ElementClass) (buf atLength : ArrayBuffer) (off n : Nat) : Prop :=
  off % taElemSize cls ≠ 0 ∨ buf.byteLength = detachedLength ∨ buf.byteLength < off
    ∨ atLength.byteLength = detachedLength ∨ buf.byteLength < uint (off + uint (n * taElemSize cls))

/-- The size in bytes fits 32 bits, and there is memory for the array. -/
def SizeFits (cls : ElementClass) (room : Room) (n : Nat) : Prop :=
  n * taElemSize cls < 2 ^ 32 ∧ room.object = true

/-- When a request is fulfilled. Where there is no memory for the new buffer it is refused. -/
def ConstructFits (cls : ElementClass) (room : Room) : Request → Prop
  | .length len =>
      ∀ n, len.bind arraybufferToIndex = some n → room.buffer = true → SizeFits cls room n
  | .buffer buf atLength atEnd off len =>
      ∀ off' n, off.bind arraybufferToIndex = some off' → len.bind arraybufferToIndex = some n →
        ¬Refused cls buf atLength off' n →
          room.object = true ∧ (n = 0 ∨ atEnd.byteLength ≠ detachedLength
            ∧ off' + n * taElemSize cls ≤ atEnd.byteLength)
  | .typedArray src srcBuf =>
      let n := taElementCount src srcBuf
      if srcBuf.byteLength = detachedLength then room.buffer = true ∧ room.object = true
      else
        viewIsOutOfBounds src srcBuf = false → room.buffer = true →
          SizeFits cls room n
            ∨ isBigintTypedArrayClass src.cls ≠ isBigintTypedArrayClass cls
              ∧ 0 < uint (n * taElemSize cls)
  | .iterable items =>
      ∀ n, items = some n →
        room.items = true ∧ n ≤ 2 ^ 31 ∧ (room.buffer = true → SizeFits cls room n)
  | .arrayLike len =>
      ∀ n, len.bind arrayLikeLength = some n → room.buffer = true →
        SizeFits cls room n ∧ n * taElemSize cls ≠ detachedLength

/-- The buffers and the view of a request are as their operations keep them. -/
def RequestSound : Request → Prop
  | .length _ => True
  | .buffer buf atLength atEnd _ _ =>
      ∃ next, BufferFits next buf ∧ BufferFits next atLength ∧ BufferFits next atEnd
  | .typedArray src srcBuf => ∃ next, BufferFits next srcBuf ∧ Lies src srcBuf
  | .iterable _ => True
  | .arrayLike _ => True

-----------------------------------------------------------------------------------------
-- Arrays over new buffers
-----------------------------------------------------------------------------------------

theorem taElemSize_cases (cls : ElementClass)
    : taElemSize cls = 1 ∨ taElemSize cls = 2 ∨ taElemSize cls = 4 ∨ taElemSize cls = 8 := by
  cases cls <;> decide

theorem shiftRight_taElemShift (n : Nat) (cls : ElementClass)
    : n >>> taElemShift cls = n / taElemSize cls := by
  rw [Nat.shiftRight_eq_div_pow, taElemSize_eq]

/-- The view over all of a new buffer, which is taken for a detached one at the greatest length. -/
theorem fresh_byteLength {total : Nat} {buf : ArrayBuffer} (length : buf.byteLength = total)
    (fixed : buf.resizable = false)
    : viewEffectiveByteLength ⟨cls, 0, 0, total, false⟩ buf
      = if total = detachedLength then 0 else total := by
  unfold viewEffectiveByteLength viewIsOutOfBounds
  rw [length, fixed]
  split <;> simp_all

theorem fresh_elements {data : List UInt8} {n : Nat} (length : data.length = n * taElemSize cls)
    (small : n * taElemSize cls < detachedLength)
    : let view : View := ⟨cls, 0, 0, n * taElemSize cls, false⟩
      taElementCount view (bufferOf data) = n
        ∧ viewEffectiveByteLength view (bufferOf data) = n * taElemSize cls
        ∧ ∀ i < n, taLoadElement (bufferOf data) (view.base (bufferOf data)) cls i
          = some ((data.drop (i * taElemSize cls)).take (taElemSize cls)) := by
  intro view
  have positive := taElemSize_pos cls
  have effective : viewEffectiveByteLength view (bufferOf data) = n * taElemSize cls := by
    have effective := @fresh_byteLength cls _ (bufferOf data) length rfl
    rwa [if_neg (Nat.ne_of_lt small)] at effective
  refine ⟨?_, effective, ?_⟩
  · rw [taElementCount, effective, shiftRight_taElemShift]
    exact Nat.mul_div_cancel n positive
  · intro i inside
    have next : (i + 1) * taElemSize cls ≤ n * taElemSize cls := Nat.mul_le_mul_right _ inside
    rw [Nat.succ_mul] at next
    rw [detachedLength] at small
    have address : uint (i <<< taElemShift cls) = i * taElemSize cls := by
      rw [taElemSize_eq, Nat.shiftLeft_eq] at *
      exact uint_of_lt (by omega)
    rw [taLoadElement, address]
    exact bufferOf_load (by omega)

variable {convert : Conversion} {outside : Nat → Nat} {room : Room} {request : Request} {n : Nat}

theorem length_elemZeros (cls : ElementClass)
    : (zeros (taElemSize cls)).length = taElemSize cls := length_zeros _

/-- User code that never throws. -/
def quietCode (cls : ElementClass) : UserCode cls where
  getThrows _ := false
  convert _ := some ⟨zeros (taElemSize cls), length_elemZeros cls⟩
  prototypeThrows := false

theorem size_not_detached (small : n * taElemSize cls < 2 ^ 32) (fewer : n < detachedLength)
    : n * taElemSize cls < detachedLength := by
  rw [detachedLength] at fewer ⊢
  rcases taElemSize_cases cls with size | size | size | size <;> rw [size] at small ⊢ <;> omega

/-- The end of the constructor over the bytes of the elements. -/
theorem finishArray_holds {code : UserCode cls} {data : List UInt8}
    (object : room.object = true) (asked : askedCount request = some n)
    (length : data.length = n * taElemSize cls) (small : n * taElemSize cls < detachedLength)
    (elements : ∀ i < n, IsElement convert code i
      ((data.drop (i * taElemSize cls)).take (taElemSize cls)) request)
    : AsAsked convert code request
        (finishArray room code ⟨cls, 0, 0, n * taElemSize cls, false⟩ (bufferOf data)) := by
  rw [finishArray, if_neg (not_not.mpr object)]
  split
  · trivial
  · obtain ⟨count, byteLength, loaded⟩ := fresh_elements length small
    exact ⟨n, asked, rfl, count, byteLength, fun i inside => ⟨_, loaded i inside, elements i inside⟩⟩

/-- An array over a new buffer whose size is computed in 32 bits is one as asked for only if the
size fits.
-/
theorem finishArray_fits {buf : ArrayBuffer} {total : Nat} (bounded : total < 2 ^ 32)
    (empty : n = 0 → total = 0) (length : buf.byteLength = total) (fixed : buf.resizable = false)
    (asked : askedCount request = some n)
    (as_asked : AsAsked convert (quietCode cls) request
      (finishArray room (quietCode cls) ⟨cls, 0, 0, total, false⟩ buf))
    : SizeFits cls room n ∧ n * taElemSize cls ≠ detachedLength := by
  have positive := taElemSize_pos cls
  rw [finishArray, if_neg (show ¬(quietCode cls).prototypeThrows = true from nofun)] at as_asked
  split at as_asked
  · exact as_asked.elim
  · rename_i object
    obtain ⟨m, asked', has⟩ := as_asked
    obtain rfl := Option.some.inj (asked.symm.trans asked')
    have byteLength := has.byteLength
    rw [fresh_byteLength length fixed] at byteLength
    split at byteLength
    · rename_i greatest
      have none : n = 0 := by
        rcases Nat.mul_eq_zero.mp byteLength.symm with none | none
        · exact none
        · omega
      rw [empty none] at greatest
      exact absurd greatest (by decide)
    · rename_i other
      rw [← byteLength]
      exact ⟨⟨by omega, not_not.mp object⟩, other⟩

/-- Elements that are stored one by one to a new buffer. -/
theorem constructFilled_holds {code : UserCode cls} {read : Nat → ElementRead}
    (fits : SizeFits cls room n) (asked : askedCount request = some n)
    (small : n * taElemSize cls < detachedLength) (reads : ∀ i < n, ReadFits cls (read i))
    (elements : ∀ i < n, ∀ bytes, read i = .value (.ok bytes)
      → IsElement convert code i bytes request)
    : AsAsked convert code request
        (constructFilled room code (uint (n * taElemSize cls)) (fillFrom cls read · 0 n)) := by
  rw [uint_of_lt fits.1, constructFilled, typedarrayAllocBuffer]
  split
  · trivial
  · rename_i memory
    split at memory
    · obtain rfl := Option.some.inj memory
      rcases @fillFrom_spec cls read [] 0 n (fun j _ inside => reads j (by omega)) (by simp)
        (by rw [Nat.zero_add]; exact fits.1) with ⟨outcome, throws⟩ | ⟨parts, count, values, equal, filled⟩
      · rw [List.nil_append] at throws
        rw [throws]
        trivial
      · rw [List.nil_append, List.nil_append] at filled
        rw [filled]
        dsimp only
        apply finishArray_holds fits.2 asked (by rw [length_flatten_parts equal, count]) small
        intro i inside
        have inside' : i < parts.length := by omega
        rw [flatten_part equal inside']
        have value := values i inside'
        rw [Nat.zero_add] at value
        exact elements i inside _ value
    · cases memory

/-- The user code that never throws shows whether the size fits. -/
theorem constructFilled_fits {total : Nat} {fill : ArrayBuffer → Filling} (bounded : total < 2 ^ 32)
    (empty : n = 0 → total = 0) (asked : askedCount request = some n) (memory : room.buffer = true)
    (quiet : ∀ outcome, fill (bufferOf (zeros total)) ≠ .throws outcome)
    (keeps : ∀ buf, fill (bufferOf (zeros total)) = .filled buf
      → buf.byteLength = (bufferOf (zeros total)).byteLength
        ∧ buf.resizable = (bufferOf (zeros total)).resizable)
    (as_asked : AsAsked convert (quietCode cls) request
      (constructFilled room (quietCode cls) total fill))
    : SizeFits cls room n ∧ n * taElemSize cls ≠ detachedLength := by
  rw [constructFilled, typedarrayAllocBuffer, if_pos memory] at as_asked
  dsimp only at as_asked
  split at as_asked
  · rename_i outcome throws
    exact absurd throws (quiet outcome)
  · exact as_asked.elim
  · rename_i buf filled
    obtain ⟨length, fixed⟩ := keeps buf filled
    exact finishArray_fits bounded empty (length.trans (length_zeros total)) fixed asked as_asked

theorem uint_none : n = 0 → uint (n * taElemSize cls) = 0 := by
  rintro rfl
  rw [Nat.zero_mul]
  rfl

theorem UserCode.converted_fits (code : UserCode cls) (i : Nat)
    : ReadFits cls (.value (code.converted i)) := by
  rw [UserCode.converted]
  split
  · rename_i bytes _
    exact bytes.property
  · trivial

-----------------------------------------------------------------------------------------
-- The overloads
-----------------------------------------------------------------------------------------

/-- An index is the count that it stands for, and has 31 bits. -/
theorem arraybufferToIndex_asked {len : Integer} (index : arraybufferToIndex len = some n)
    : askedLength len = some n ∧ n ≤ 2147483647 := by
  cases len with
  | nan =>
      obtain rfl := Option.some.inj index
      exact ⟨rfl, Nat.zero_le _⟩
  | int m =>
      rw [arraybufferToIndex] at index
      split at index
      · cases index
      · rename_i range
        obtain rfl := Option.some.inj index
        refine ⟨?_, by omega⟩
        rw [askedLength, if_neg (by omega)]
  | negInf => cases index
  | posInf => cases index

theorem zeros_part {total i size : Nat}
    (within : i * size + size ≤ total)
    : ((zeros total).drop (i * size)).take size = zeros size := by
  rw [zeros, List.drop_replicate, List.take_replicate, zeros]
  congr 1
  omega

theorem construct_length (len : Option Integer)
    : ConstructHolds convert outside cls room (.length len) ↔ ConstructFits cls room (.length len) := by
  rcases len with - | len
  · exact ⟨fun _ => nofun, fun _ _ => trivial⟩
  rcases index : arraybufferToIndex len with - | n
  · refine ⟨fun _ n asked => ?_, fun _ code => ?_⟩
    · rw [Option.bind_some, index] at asked
      cases asked
    · rw [typedArrayConstruct, index]
      trivial
  obtain ⟨is_asked, bounded⟩ := arraybufferToIndex_asked index
  have asked : askedCount (.length (some len)) = some n := is_asked
  constructor
  · intro holds m asked' memory
    rw [Option.bind_some, index] at asked'
    obtain rfl := Option.some.inj asked'
    have as_asked := holds (quietCode cls)
    simp only [typedArrayConstruct, index] at as_asked
    exact (constructFilled_fits (uint_lt _) uint_none asked memory (fun _ throws => by cases throws)
      (fun buf filled => by cases filled; exact ⟨rfl, rfl⟩) as_asked).1
  · intro fits code
    simp only [typedArrayConstruct, index, constructFilled, typedarrayAllocBuffer]
    split
    · trivial
    · rename_i memory
      split at memory
      · rename_i room_for
        obtain rfl := Option.some.inj memory
        have fits := fits n index room_for
        have small := size_not_detached fits.1 (by rw [detachedLength]; omega)
        rw [uint_of_lt fits.1]
        apply finishArray_holds fits.2 asked (length_zeros _) small
        intro i inside
        have next : (i + 1) * taElemSize cls ≤ n * taElemSize cls := Nat.mul_le_mul_right _ inside
        rw [Nat.succ_mul] at next
        exact zeros_part next
      · cases memory

theorem construct_arrayLike (len : Option Integer)
    : ConstructHolds convert outside cls room (.arrayLike len)
      ↔ ConstructFits cls room (.arrayLike len) := by
  rcases len with - | len
  · exact ⟨fun _ => nofun, fun _ _ => trivial⟩
  rcases length : arrayLikeLength len with - | n
  · refine ⟨fun _ n asked => ?_, fun _ code => ?_⟩
    · rw [Option.bind_some, length] at asked
      cases asked
    · rw [typedArrayConstruct, length]
      trivial
  have asked : askedCount (.arrayLike (some len)) = some n := length
  constructor
  · intro holds m asked' memory
    rw [Option.bind_some, length] at asked'
    obtain rfl := Option.some.inj asked'
    have as_asked := holds (quietCode cls)
    simp only [typedArrayConstruct, length] at as_asked
    have wrapped : n = 0 → uint (castUint outside n * taElemSize cls) = 0 := by
      rintro rfl
      rw [castUint, if_pos (by decide), Nat.zero_mul]
      rfl
    exact constructFilled_fits (uint_lt _) wrapped asked memory
      (fillFrom_quiet (fun _ _ throws => by cases throws)
        (.inr fun _ _ throws => by cases throws))
      (fun buf => fillFrom_keeps) as_asked
  · intro fits code
    simp only [typedArrayConstruct, length]
    rcases memory : room.buffer with - | -
    · simp only [constructFilled, typedarrayAllocBuffer, memory]
      trivial
    · obtain ⟨fits, other⟩ := fits n length memory
      have positive := taElemSize_pos cls
      have cast : castUint outside n = n :=
        if_pos (Nat.lt_of_le_of_lt (Nat.le_mul_of_pos_right n positive) fits.1)
      rw [cast]
      apply constructFilled_holds fits asked
      · have := fits.1
        rw [detachedLength] at other ⊢
        omega
      · intro i _
        rw [UserCode.property]
        split
        · trivial
        · exact UserCode.converted_fits code i
      · intro i _ bytes value
        rw [UserCode.property] at value
        split at value
        · cases value
        · exact ElementRead.value.inj value

theorem construct_iterable (items : Option Nat)
    : ConstructHolds convert outside cls room (.iterable items)
      ↔ ConstructFits cls room (.iterable items) := by
  rcases items with - | n
  · exact ⟨fun _ => nofun, fun _ _ => trivial⟩
  constructor
  · intro holds m asked
    obtain rfl := Option.some.inj asked
    have as_asked := holds (quietCode cls)
    rw [typedArrayConstruct] at as_asked
    split at as_asked
    · exact as_asked.elim
    · rename_i memory
      have memory := not_not.mp memory
      have few : n ≤ 2 ^ 31 := by
        apply Nat.le_of_not_lt
        intro many
        rw [show (4 : Nat) = 2 ^ 2 from rfl,
          collectItems_many memory (show 2 ≤ 31 by decide) (Nat.zero_le _) (by omega)] at as_asked
        exact as_asked
      rw [show (4 : Nat) = 2 ^ 2 from rfl,
        collectItems_few memory (Nat.zero_le _) (by omega)] at as_asked
      refine ⟨memory, few, fun room_for => ?_⟩
      exact (constructFilled_fits (uint_lt _) uint_none rfl room_for
        (fillFrom_quiet (fun _ _ throws => by cases throws)
          (.inr fun _ _ throws => by cases throws))
        (fun buf => fillFrom_keeps) as_asked).1
  · intro fits code
    obtain ⟨memory, few, fits⟩ := fits n rfl
    rw [typedArrayConstruct, if_neg (not_not.mpr memory), show (4 : Nat) = 2 ^ 2 from rfl,
      collectItems_few memory (Nat.zero_le _) (by omega)]
    dsimp only
    rcases room_for : room.buffer with - | -
    · simp only [constructFilled, typedarrayAllocBuffer, room_for]
      trivial
    · have fits := fits room_for
      apply constructFilled_holds fits rfl
      · apply size_not_detached fits.1
        rw [detachedLength]
        omega
      · exact fun i _ => UserCode.converted_fits code i
      · exact fun i _ bytes value => ElementRead.value.inj value

/-- The bytes at a reachable address. -/
theorem ArrayBuffer.load_eq {buf : ArrayBuffer} {p : Pointer} {next k : Nat}
    (fits : BufferFits next buf) (reachable : 0 < k → Reachable buf p k)
    : buf.load p k = some (((buf.data.elim [] ByteBlock.bytes).drop p.offset).take k) := by
  rw [ArrayBuffer.load]
  rcases Nat.eq_zero_or_pos k with rfl | positive
  · rw [if_pos rfl, List.take_zero]
  · have reachable := reachable positive
    obtain ⟨block, data, at_p, filled⟩ := reachable.data fits positive
    rw [if_neg (Nat.ne_of_gt positive), data, Option.bind_some, if_pos at_p, Option.elim_some]
    exact ByteBlock.load_eq reachable.within (Nat.le_trans reachable.within filled)

/-- An element of a view that lies in its buffer. -/
theorem Lies.element {view : View} {buf : ArrayBuffer} {next i : Nat} (fits : BufferFits next buf)
    (lies : Lies view buf) (inside : i < taElementCount view buf)
    : taLoadElement buf (view.base buf) view.cls i
      = some (((buf.data.elim [] ByteBlock.bytes).drop
          (view.byteOffset + i * taElemSize view.cls)).take (taElemSize view.cls)) := by
  have reachable := elements_reachable lies (Nat.succ_le_of_lt inside) Nat.one_pos
  rw [one_shiftLeft] at reachable
  rw [taLoadElement, reachable.uint_eq fits (taElemSize_pos _),
    ArrayBuffer.load_eq fits fun _ => reachable]
  simp only [Pointer.plus, View.base, ArrayBuffer.pointer, Nat.shiftLeft_eq, Nat.zero_add,
    taElemSize_eq]

/-- A view has fewer elements than the length of a detached buffer. -/
theorem Lies.few {view : View} {buf : ArrayBuffer} {next : Nat} (fits : BufferFits next buf)
    (lies : Lies view buf) : taElementCount view buf < detachedLength := by
  rcases Nat.eq_zero_or_pos (viewEffectiveByteLength view buf) with none | some
  · rw [taElementCount, none, Nat.zero_shiftRight]
    decide
  · obtain ⟨live, within⟩ := viewEffectiveByteLength_le lies some
    have bounded := fits.bounded
    have few : taElementCount view buf ≤ viewEffectiveByteLength view buf := Nat.shiftRight_le _ _
    omega

theorem View.base_offset (view : View) (buf : ArrayBuffer)
    : (view.base buf).offset = view.byteOffset := Nat.zero_add _

/-- The bytes of an element of the source, up to the number that it has. -/
def partOf (src : View) (srcBuf : ArrayBuffer) (i : Nat) : List UInt8 :=
  ((srcBuf.data.elim [] ByteBlock.bytes).drop
    (src.byteOffset + i * taElemSize src.cls)).take (taElemSize src.cls)

theorem fillTypedArray_bulk {src : View} {srcBuf buf buf' : ArrayBuffer} {count totalBytes : Nat}
    (stored : (srcBuf.load (src.base srcBuf) totalBytes).bind (buf.store buf.pointer) = some buf')
    : fillTypedArray convert src.cls src srcBuf count totalBytes buf = .filled buf' := by
  rw [fillTypedArray, if_pos rfl, stored]

/-- All elements of a source at once. -/
theorem fillTypedArray_same {src : View} {srcBuf : ArrayBuffer} {next n : Nat}
    (buffer : BufferFits next srcBuf) (lies : Lies src srcBuf) (same : src.cls = cls)
    (few : n ≤ taElementCount src srcBuf)
    : ∃ data : List UInt8, data.length = n * taElemSize cls
      ∧ (∀ i < n, (data.drop (i * taElemSize cls)).take (taElemSize cls) = partOf src srcBuf i)
      ∧ fillTypedArray convert cls src srcBuf n (n * taElemSize cls)
          (bufferOf (zeros (n * taElemSize cls))) = .filled (bufferOf data) := by
  subst same
  have whole : 0 < n * taElemSize src.cls → Reachable srcBuf (src.base srcBuf)
      (n * taElemSize src.cls) := by
    intro some
    have reachable := @elements_reachable src srcBuf 0 n lies (by omega)
      (Nat.pos_of_mul_pos_right some)
    rwa [Nat.zero_shiftLeft, Nat.shiftLeft_eq, ← taElemSize_eq] at reachable
  have loaded := ArrayBuffer.load_eq buffer whole
  obtain ⟨bytes, loaded', length⟩ := ArrayBuffer.load_isSome buffer whole
  obtain rfl := Option.some.inj (loaded.symm.trans loaded')
  refine ⟨_, length, ?_, ?_⟩
  · intro i inside
    have next : (i + 1) * taElemSize src.cls ≤ n * taElemSize src.cls :=
      Nat.mul_le_mul_right _ inside
    rw [Nat.succ_mul] at next
    rw [List.drop_take, List.take_take, List.drop_drop, Nat.min_eq_left (by omega),
      View.base_offset]
    rfl
  · have stored := @bufferOf_store (zeros (n * taElemSize src.cls)) _ 0
      (show 0 + (List.take (n * taElemSize src.cls) _).length ≤ _ by
        exact Nat.le_of_eq (by rw [length, length_zeros, Nat.zero_add]))
    rw [List.take_zero, List.nil_append, Nat.zero_add, length,
      List.drop_of_length_le (Nat.le_of_eq (length_zeros _)), List.append_nil] at stored
    refine fillTypedArray_bulk ?_
    rw [loaded, Option.bind_some]
    exact stored

theorem loadedElement_eq {src : View} {srcBuf : ArrayBuffer} {next i : Nat}
    (buffer : BufferFits next srcBuf) (lies : Lies src srcBuf)
    (inside : i < taElementCount src srcBuf)
    : loadedElement convert cls src srcBuf i
      = .value (convertElement convert src.cls cls (partOf src srcBuf i)) := by
  rw [loadedElement, lies.element buffer inside]
  rfl

theorem convertElement_same {src : ElementClass} {bytes : List UInt8}
    (same : isBigintTypedArrayClass src = isBigintTypedArrayClass cls)
    : convertElement convert src cls bytes = .ok (convert src cls bytes).val := if_pos same

theorem convertElement_mixed {src : ElementClass}
    (mixed : isBigintTypedArrayClass src ≠ isBigintTypedArrayClass cls)
    : ∃ outcome, ∀ bytes, convertElement convert src cls bytes = .error outcome := by
  rcases bigint : isBigintTypedArrayClass cls with - | -
  · exact ⟨_, fun bytes => by rw [convertElement, if_neg mixed, if_neg (by rw [bigint]; nofun)]⟩
  · exact ⟨_, fun bytes => by rw [convertElement, if_neg mixed, if_pos bigint]⟩

/-- A filled loop over the elements of another typed array does not throw, unless a number would be
stored as a big integer or the other way.
-/
theorem loadedElement_quiet {src : View} {srcBuf buf : ArrayBuffer} {n : Nat}
    {outcome : TypedArrays.Outcome}
    (values : buf.data = none ∨ isBigintTypedArrayClass src.cls = isBigintTypedArrayClass cls)
    : fillFrom cls (loadedElement convert cls src srcBuf) buf 0 n ≠ .throws outcome := by
  apply fillFrom_quiet
  · intro i outcome throws
    rw [loadedElement] at throws
    split at throws <;> cases throws
  · refine values.imp_right fun same i outcome throws => ?_
    rw [loadedElement] at throws
    split at throws
    · rw [convertElement_same same] at throws
      cases throws
    · cases throws

/-- A number is not stored as a big integer, nor the other way. -/
theorem loadedElement_throws {src : View} {srcBuf : ArrayBuffer} {next n total : Nat}
    (buffer : BufferFits next srcBuf) (lies : Lies src srcBuf)
    (few : n ≤ taElementCount src srcBuf) (some : 0 < n) (bytes : 0 < total)
    (mixed : isBigintTypedArrayClass src.cls ≠ isBigintTypedArrayClass cls)
    : ∃ outcome, fillFrom cls (loadedElement convert cls src srcBuf) (bufferOf (zeros total)) 0 n
      = .throws outcome := by
  obtain ⟨outcome, error⟩ := @convertElement_mixed cls convert src.cls mixed
  refine ⟨outcome, ?_⟩
  obtain ⟨n, rfl⟩ := Nat.exists_eq_add_of_le' some
  have data : (bufferOf (zeros total)).data.isNone = false := by
    have nonempty : zeros total ≠ [] := List.ne_nil_of_length_pos (by rwa [length_zeros])
    simp only [bufferOf, if_neg nonempty, Option.isNone_some]
  rw [fillFrom, loadedElement_eq buffer lies (Nat.lt_of_lt_of_le (Nat.succ_pos n) few), error]
  dsimp only
  rw [typedarrayStoreConverted.eq_def, data]
  rfl

/-- The source is not detached and not out of bounds. -/
theorem construct_typedArray_within {src : View} {srcBuf : ArrayBuffer} {next : Nat}
    (buffer : BufferFits next srcBuf) (lies : Lies src srcBuf)
    (asked : askedCount (.typedArray src srcBuf) = some n)
    : (∀ code : UserCode cls, AsAsked convert code (.typedArray src srcBuf)
        (constructFilled room code (uint (n * taElemSize cls))
          (fillTypedArray convert cls src srcBuf n (uint (n * taElemSize cls)))))
      ↔ (room.buffer = true → SizeFits cls room n
          ∨ isBigintTypedArrayClass src.cls ≠ isBigintTypedArrayClass cls
            ∧ 0 < uint (n * taElemSize cls)) := by
  have few := lies.few buffer
  obtain rfl := Option.some.inj asked
  constructor
  · intro holds memory
    apply Decidable.or_iff_not_imp_right.mpr
    intro unmixed
    refine (constructFilled_fits (uint_lt _) uint_none asked memory ?_ ?_ (holds (quietCode cls))).1
    · intro outcome throws
      rw [fillTypedArray] at throws
      split at throws
      · split at throws <;> cases throws
      · refine loadedElement_quiet ?_ throws
        rcases Nat.eq_zero_or_pos (uint (taElementCount src srcBuf * taElemSize cls)) with none | some
        · left
          rw [none]
          rfl
        · exact .inr (Decidable.not_not.mp fun mixed => unmixed ⟨mixed, some⟩)
    · intro buf filled
      rw [fillTypedArray] at filled
      split at filled
      · split at filled
        · rename_i stored
          obtain ⟨bytes, -, stored⟩ := Option.bind_eq_some_iff.mp stored
          cases filled
          exact ArrayBuffer.store_keeps stored
        · cases filled
      · exact fillFrom_keeps filled
  · intro fits code
    rcases memory : room.buffer with - | -
    · simp only [constructFilled, typedarrayAllocBuffer, memory]
      trivial
    rcases fits memory with fits | ⟨mixed, bytes⟩
    · have small := size_not_detached fits.1 few
      rcases decEq src.cls cls with other | same
      · have filled : fillTypedArray convert cls src srcBuf (taElementCount src srcBuf)
            = fun _ buf => fillFrom cls (loadedElement convert cls src srcBuf) buf 0
              (taElementCount src srcBuf) := by
          funext total buf
          rw [fillTypedArray, if_neg other]
        rw [filled]
        apply constructFilled_holds fits asked small
        · intro i inside
          rw [loadedElement_eq buffer lies inside]
          rcases Decidable.em (isBigintTypedArrayClass src.cls = isBigintTypedArrayClass cls) with
            same | mixed
          · rw [convertElement_same same]
            exact (convert src.cls cls _).property
          · obtain ⟨outcome, error⟩ := @convertElement_mixed cls convert src.cls mixed
            rw [error]
            trivial
        · intro i inside bytes value
          rw [loadedElement_eq buffer lies inside] at value
          refine ⟨_, lies.element buffer inside, ?_⟩
          rw [if_neg other]
          exact ElementRead.value.inj value
      · obtain ⟨data, length, parts, filled⟩ :=
          @fillTypedArray_same cls convert src srcBuf next _ buffer lies same (Nat.le_refl _)
        rw [uint_of_lt fits.1]
        simp only [constructFilled, typedarrayAllocBuffer, if_pos memory, filled]
        apply finishArray_holds fits.2 asked length small
        intro i inside
        refine ⟨_, lies.element buffer inside, ?_⟩
        rw [if_pos same]
        exact parts i inside
    · have some : 0 < taElementCount src srcBuf :=
        Nat.pos_of_ne_zero fun none => Nat.ne_of_gt bytes (uint_none none)
      have other : src.cls ≠ cls := by
        rintro rfl
        exact mixed rfl
      obtain ⟨outcome, throws⟩ := @loadedElement_throws cls convert src srcBuf next _ _ buffer lies
        (Nat.le_refl _) some bytes mixed
      simp only [constructFilled, typedarrayAllocBuffer, if_pos memory, fillTypedArray, if_neg other,
        throws]
      trivial

theorem construct_typedArray {src : View} {srcBuf : ArrayBuffer} {next : Nat}
    (buffer : BufferFits next srcBuf) (lies : Lies src srcBuf)
    : ConstructHolds convert outside cls room (.typedArray src srcBuf)
      ↔ ConstructFits cls room (.typedArray src srcBuf) := by
  have within := @construct_typedArray_within cls convert room _ src srcBuf next buffer lies rfl
  rcases decEq srcBuf.byteLength detachedLength with live | gone
  · simp only [ConstructHolds, ConstructFits, typedArrayConstruct, if_neg live]
    rcases viewIsOutOfBounds src srcBuf with - | -
    · exact within.trans ⟨fun fits _ => fits, fun fits => fits rfl⟩
    · exact ⟨fun _ => nofun, fun _ _ => trivial⟩
  · have none : taElementCount src srcBuf = 0 := by
      rw [taElementCount, viewEffectiveByteLength, viewIsOutOfBounds, if_pos gone, if_pos rfl,
        Nat.zero_shiftRight]
    have asked : askedCount (.typedArray src srcBuf) = some 0 := congrArg some none
    simp only [ConstructHolds, ConstructFits, typedArrayConstruct, if_pos gone, typedarrayAllocBuffer]
    constructor
    · intro holds
      have as_asked := holds (quietCode cls)
      rcases memory : room.buffer with - | -
      · rw [memory] at as_asked
        exact as_asked.elim
      · rw [memory] at as_asked
        obtain ⟨fits, -⟩ := finishArray_fits (Nat.two_pow_pos 32) (fun _ => rfl) rfl rfl asked as_asked
        exact ⟨rfl, fits.2⟩
    · rintro ⟨memory, object⟩ code
      rw [if_pos memory]
      have holds := @finishArray_holds cls convert room _ 0 code [] object asked
        (Nat.zero_mul _).symm (by rw [Nat.zero_mul]; decide)
        (fun _ inside => absurd inside (Nat.not_lt_zero _))
      rwa [Nat.zero_mul] at holds

/-- The array over a buffer as it is in the end. -/
theorem over_holds {code : UserCode cls} {buf atLength atEnd : ArrayBuffer} {next off : Nat}
    {off' len' : Option Integer} (fits : BufferFits next atEnd)
    (asked : askedCount (.buffer buf atLength atEnd off' len') = some n)
    (within : n = 0 ∨ atEnd.byteLength ≠ detachedLength
      ∧ off + n * taElemSize cls ≤ atEnd.byteLength)
    : AsAsked convert code (.buffer buf atLength atEnd off' len')
        (.array ⟨cls, 0, off, uint (n * taElemSize cls), false⟩ atEnd) := by
  have bounded := fits.bounded
  rw [detachedLength] at bounded
  have effective : viewEffectiveByteLength ⟨cls, 0, off, uint (n * taElemSize cls), false⟩ atEnd
      = n * taElemSize cls := by
    rcases within with rfl | ⟨live, within⟩
    · rw [Nat.zero_mul, viewEffectiveByteLength]
      split <;> rfl
    · rw [uint_of_lt (by omega), viewEffectiveByteLength, viewIsOutOfBounds, if_neg live]
      dsimp only
      rw [if_neg (show ¬atEnd.byteLength < off by omega), uint_of_lt (by omega)]
      simp [Nat.not_lt.mpr within]
  have count : taElementCount ⟨cls, 0, off, uint (n * taElemSize cls), false⟩ atEnd = n := by
    rw [taElementCount, effective, shiftRight_taElemShift]
    exact Nat.mul_div_cancel n (taElemSize_pos cls)
  refine ⟨n, asked, rfl, count, effective, fun i inside => ?_⟩
  have live : atEnd.byteLength ≠ detachedLength ∧ off + n * taElemSize cls ≤ atEnd.byteLength :=
    within.resolve_left (by omega)
  have element : (i + 1) * taElemSize cls ≤ n * taElemSize cls := Nat.mul_le_mul_right _ inside
  rw [Nat.succ_mul] at element
  have reachable : Reachable atEnd
      ((View.base ⟨cls, 0, off, uint (n * taElemSize cls), false⟩ atEnd).plus (i <<< taElemShift cls))
      (1 <<< taElemShift cls) := by
    refine ⟨rfl, live.1, ?_⟩
    rw [one_shiftLeft, Nat.shiftLeft_eq, ← taElemSize_eq, Pointer.plus, View.base_offset]
    dsimp only
    omega
  obtain ⟨bytes, loaded, -⟩ := taLoadElement_isSome fits reachable
  exact ⟨bytes, loaded, trivial⟩

/-- An array over a buffer has its elements in it. -/
theorem over_fits {code : UserCode cls} {request : Request} {atEnd : ArrayBuffer} {off : Nat}
    (has : HasElements convert code request n
      ⟨cls, 0, off, uint (n * taElemSize cls), false⟩ atEnd)
    : n = 0 ∨ atEnd.byteLength ≠ detachedLength
      ∧ off + n * taElemSize cls ≤ atEnd.byteLength := by
  have positive := taElemSize_pos cls
  have byteLength := has.byteLength
  rcases n with - | m
  · exact .inl rfl
  right
  have last : (m + 1) * taElemSize cls = m * taElemSize cls + taElemSize cls := Nat.succ_mul m _
  rw [viewEffectiveByteLength] at byteLength
  split at byteLength
  · omega
  · rename_i within
    have small : (m + 1) * taElemSize cls < 2 ^ 32 := by
      simp only [Bool.false_eq_true, not_false_eq_true, if_true] at byteLength
      rw [← byteLength]
      exact uint_lt _
    have live : atEnd.byteLength ≠ detachedLength := by
      intro gone
      rw [viewIsOutOfBounds, if_pos gone] at within
      exact within rfl
    refine ⟨live, ?_⟩
    -- The last element was loaded.
    obtain ⟨bytes, loaded, -⟩ := has.elements m (Nat.lt_succ_self m)
    have address : uint (m <<< taElemShift cls) = m * taElemSize cls := by
      rw [Nat.shiftLeft_eq, ← taElemSize_eq]
      apply uint_of_lt
      omega
    dsimp only at loaded
    rw [taLoadElement, address, ArrayBuffer.load, if_neg (Nat.ne_of_gt positive)] at loaded
    obtain ⟨block, -, loaded⟩ := Option.bind_eq_some_iff.mp loaded
    split at loaded
    · have within := ByteBlock.load_within loaded positive
      rw [Pointer.plus, View.base_offset] at within
      dsimp only at within
      omega
    · cases loaded

theorem construct_buffer {buf atLength atEnd : ArrayBuffer} {next : Nat} (off len : Option Integer)
    (fits : BufferFits next atEnd)
    : ConstructHolds convert outside cls room (.buffer buf atLength atEnd off len)
      ↔ ConstructFits cls room (.buffer buf atLength atEnd off len) := by
  rcases off with - | off
  · exact ⟨fun _ _ _ => nofun, fun _ _ => trivial⟩
  rcases offset : arraybufferToIndex off with - | off'
  · refine ⟨fun _ off' n asked => ?_, fun _ code => ?_⟩
    · rw [Option.bind_some, offset] at asked
      cases asked
    · simp only [typedArrayConstruct, offset]
      trivial
  rcases len with - | len
  · refine ⟨fun _ _ _ _ => nofun, fun _ code => ?_⟩
    simp only [typedArrayConstruct, offset, constructOver]
    repeat' split
    all_goals trivial
  rcases index : arraybufferToIndex len with - | n
  · refine ⟨fun _ off' n _ asked => ?_, fun _ code => ?_⟩
    · rw [Option.bind_some, index] at asked
      cases asked
    · simp only [typedArrayConstruct, offset, constructOver, index]
      repeat' split
      all_goals trivial
  have asked : askedCount (.buffer buf atLength atEnd (some off) (some len)) = some n :=
    (arraybufferToIndex_asked index).1
  constructor
  · intro holds m k offset' index' accepted
    obtain rfl := Option.some.inj (offset.symm.trans offset')
    obtain rfl := Option.some.inj (index.symm.trans index')
    simp only [Refused, not_or, Decidable.not_not] at accepted
    obtain ⟨aligned, live, before, live', within⟩ := accepted
    have as_asked := holds (quietCode cls)
    simp only [typedArrayConstruct, offset, constructOver, index, if_neg (not_not.mpr aligned),
      if_neg live, if_neg before, if_neg live', if_neg within, finishArray] at as_asked
    rw [if_neg (show ¬(quietCode cls).prototypeThrows = true from nofun)] at as_asked
    split at as_asked
    · exact as_asked.elim
    · rename_i object
      obtain ⟨k, asked', has⟩ := as_asked
      obtain rfl := Option.some.inj (asked.symm.trans asked')
      exact ⟨not_not.mp object, over_fits has⟩
  · intro as_fits code
    simp only [typedArrayConstruct, offset, constructOver, index]
    split
    · trivial
    rename_i aligned
    split
    · trivial
    rename_i live
    split
    · trivial
    rename_i before
    split
    · trivial
    rename_i live'
    split
    · trivial
    rename_i within
    have accepted : ¬Refused cls buf atLength off' n := by
      rintro (refused | refused | refused | refused | refused)
      · exact aligned refused
      · exact live refused
      · exact before refused
      · exact live' refused
      · exact within refused
    obtain ⟨object, inside⟩ := as_fits off' n offset index accepted
    rw [finishArray, if_neg (not_not.mpr object)]
    split
    · trivial
    · exact over_holds fits asked inside

-----------------------------------------------------------------------------------------
-- All requests
-----------------------------------------------------------------------------------------

/-- The conversion to zeros. -/
def noughtConversion : Conversion := fun _ dst _ => ⟨zeros (taElemSize dst), length_elemZeros dst⟩

/-- A buffer of four bytes. -/
def fourBytes : ArrayBuffer := ⟨some ⟨0, [1, 2, 3, 4]⟩, 4, false, 0, false⟩

theorem fourBytes_fits : BufferFits 1 fourBytes where
  bounded := by decide
  filled := fun _ => by decide
  detached := fun same => by cases same
  max := by decide
  growable := fun shared => by cases shared
  addr := fun block here => by
    obtain rfl := Option.some.inj here
    decide

end Boomkat.Correctness
