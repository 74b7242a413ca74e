import Boomkat.TypedArrays.Slice
import Boomkat.Correctness.Base64
import Boomkat.Correctness.ViewBounds

/-! `slice`, `resize` and `transfer` of array buffers move the bytes that they should, unless user
code has changed a buffer under `slice`.
-/

namespace Boomkat.Correctness

open Foundation TypedArrays

variable {w w' : World} {buf src result : ArrayBuffer} {next b r start stop n : Nat}
  {call : SliceCall}

-----------------------------------------------------------------------------------------
-- Indices
-----------------------------------------------------------------------------------------

/-- The place of a relative index among bytes. -/
def relativeIndex (len : Nat) : Integer → Nat
  | .nan | .negInf => 0
  | .posInf => len
  | .int d => if d < 0 then (len + d).toNat else min d.toNat len

/-- The place of an argument, unless its conversion throws. -/
def SliceArgument.place (len absent : Nat) : SliceArgument → Option Nat
  | .undefined => some absent
  | .thrown => none
  | .integer d => some (relativeIndex len d)

theorem sliceIndex_relative (d : Integer) (len : Nat)
    : sliceIndex len (abClampRelative d len) = relativeIndex len d := by
  cases d with
  | nan =>
      simp only [sliceIndex, abClampRelative, relativeIndex]
      split_ifs <;> omega
  | negInf =>
      simp only [sliceIndex, abClampRelative, relativeIndex]
      split_ifs <;> omega
  | posInf =>
      simp only [sliceIndex, abClampRelative, relativeIndex]
      split_ifs <;> omega
  | int d =>
      simp only [sliceIndex, abClampRelative, relativeIndex]
      split_ifs <;> omega

theorem SliceArgument.index_place (argument : SliceArgument) {len absent : Nat}
    (inside : absent ≤ len)
    : argument.index len absent = (SliceArgument.place len absent argument).map Int.ofNat := by
  cases argument with
  | undefined =>
      simp only [SliceArgument.index, SliceArgument.place, sliceIndex, Option.map_some]
      rw [if_neg (by omega), if_neg (by omega)]
      rfl
  | thrown => rfl
  | integer d =>
      simp only [SliceArgument.index, SliceArgument.place, Option.map_some, sliceIndex_relative]
      rfl

-----------------------------------------------------------------------------------------
-- What the calls should do
-----------------------------------------------------------------------------------------

/-- The bytes of a buffer. -/
def contents (buf : ArrayBuffer) : List UInt8 := (blockBytes buf).take buf.byteLength

/-- A call of `slice`, `resize` or `transfer`, from where it starts or from where the length is
converted, to an integer unless that throws.
-/
inductive MoveCall where
  | slice (call : SliceCall)
  | resize (b : Nat)
  | resizeTo (b : Nat) (length : Option Integer) (memory : Memory)
  | transfer (b : Nat) (preserveResizable hasLength : Bool) (memory : Memory)
  | transferTo (b : Nat) (preserveResizable : Bool) (length : Option Integer) (memory : Memory)

def lengthAnswer (length : Option Integer) : Answer := length.elim .thrown .integer

def MoveCall.run (convert : Conversion) (w : World) : MoveCall → Option World
  | .slice call => w.slice call
  | .resize b => w.step convert (.resize b)
  | .resizeTo b length memory =>
      (w.wait (.resize b)).step convert (.answer (lengthAnswer length) memory)
  | .transfer b preserveResizable hasLength memory =>
      w.step convert (.transfer b preserveResizable hasLength memory)
  | .transferTo b preserveResizable length memory =>
      (w.wait (.transfer b preserveResizable)).step convert (.answer (lengthAnswer length) memory)

def Throws : TypedArrays.Outcome → Prop
  | .typeError _ | .rangeError _ | .thrown => True
  | .undefined | .buffer _ | .view _ | .element _ => False

/-- The result of `slice` starts with the bytes of the source between the places, as far as the
source still has them. All buffers but the result are as they were, and the result behind the bytes.
-/
structure Sliced (w w' : World) (call : SliceCall) (r : Nat) : Prop where
  other : r ≠ call.src
  kept : ∀ b, b ≠ r → w'.buffers[b]? = w.buffers[b]?
  bytes : ∃ src start stop result bytes,
    w.buffers[call.src]? = some src
    ∧ SliceArgument.place call.entry.byteLength 0 call.start = some start
    ∧ SliceArgument.place call.entry.byteLength call.entry.byteLength call.stop = some stop
    ∧ w'.buffers[r]? = some result
    ∧ result.load result.pointer (stop - start) = some bytes
    ∧ ((contents src).take stop).drop start <+: bytes
    ∧ ∀ before, w.buffers[r]? = some before →
      (contents result).drop (stop - start) = (contents before).drop (stop - start)

/-- The bytes of a buffer as far as they fit a length, and zeros behind them. -/
structure Prefixed (buf buf' : ArrayBuffer) (n : Nat) : Prop where
  byteLength : buf'.byteLength = n
  contents : contents buf' = (contents buf).take n ++ zeros (n - (contents buf).length)

/-- The buffer has another length, and nothing else has changed. -/
def Resized (w w' : World) (b n : Nat) : Prop :=
  ∃ buf buf', w.buffers[b]? = some buf ∧ w'.buffers = w.buffers.set b buf' ∧ Prefixed buf buf' n

/-- The bytes are in a new buffer and the source is detached. -/
def Transferred (w w' : World) (b n r : Nat) : Prop :=
  ∃ buf buf', w.buffers[b]? = some buf ∧ r = w.buffers.length
    ∧ w'.buffers = (w.buffers ++ [buf']).set b (arraybufferDetach buf) ∧ Prefixed buf buf' n

/-- What a call that does not throw comes to. -/
def MoveCall.Moved (w w' : World) : MoveCall → TypedArrays.Outcome → Prop
  | .slice call, .buffer r => Sliced w w' call r
  | .resizeTo b (some d) _, .undefined => ∃ n, arraybufferToIndex d = some n ∧ Resized w w' b n
  | .transfer b _ false _, .buffer r =>
      ∃ buf, w.buffers[b]? = some buf ∧ Transferred w w' b buf.byteLength r
  | .transferTo b _ (some d) _, .buffer r =>
      ∃ n, arraybufferToIndex d = some n ∧ Transferred w w' b n r
  | _, _ => False

/-- A call that comes to an end with no byte accessed outside the buffers: it throws and the
buffers are as they were, or it moves the bytes.
-/
structure MoveCall.Ends (w w' : World) (call : MoveCall) (outcome : TypedArrays.Outcome) : Prop where
  strayed : w'.strayed = false
  outcomes : w'.outcomes = w.outcomes ++ [outcome]
  moved : Throws outcome ∧ w'.buffers = w.buffers ∨ call.Moved w w' outcome

def MoveCall.Waits : MoveCall → Prop
  | .resize _ | .transfer _ _ true _ => True
  | .slice _ | .resizeTo _ _ _ | .transfer _ _ false _ | .transferTo _ _ _ _ => False

/-- A call ends, or waits for a length and has done nothing yet. -/
def MoveCall.Holds (convert : Conversion) (w : World) (call : MoveCall) : Prop :=
  ∃ w', call.run convert w = some w'
    ∧ ((∃ outcome, call.Ends w w' outcome)
      ∨ call.Waits ∧ w'.strayed = false ∧ w'.outcomes = w.outcomes ∧ w'.buffers = w.buffers)

/-- The copy of `slice` finds what it needs: there is memory for a new result, the buffer that user
code gave has not been detached, and the source still has its bytes up to the end. Nothing is needed
where nothing is copied, or where the call throws.
-/
def SliceInReach (w : World) (call : SliceCall) (src : ArrayBuffer) (start stop : Nat) : Prop :=
  match call.constructor.result call.isShared with
  | .error _ => True
  | .ok none =>
      call.memory.object = true
      ∧ (call.isShared = false ∧ src.byteLength = detachedLength ∨ stop ≤ start
        ∨ call.memory.data = true ∧ src.byteLength ≠ detachedLength ∧ stop ≤ src.byteLength)
  | .ok (some r) =>
      ∀ result, w.buffers[r]? = some result → result.isShared = call.isShared → r ≠ call.src →
        stop - start ≤ result.byteLength →
          call.isShared = false ∧ src.byteLength = detachedLength ∨ stop ≤ start
          ∨ result.byteLength ≠ detachedLength ∧ src.byteLength ≠ detachedLength
            ∧ stop ≤ src.byteLength

/-- Nothing is needed by a call that throws before the species constructor is looked up. -/
def SliceFits (w : World) (call : SliceCall) : Prop :=
  call.entry.isShared = call.isShared →
  (call.isShared = false → call.entry.byteLength ≠ detachedLength) →
  ∀ src start stop, w.buffers[call.src]? = some src →
    SliceArgument.place call.entry.byteLength 0 call.start = some start →
    SliceArgument.place call.entry.byteLength call.entry.byteLength call.stop = some stop →
      SliceInReach w call src start stop

def MoveCall.Fits (w : World) : MoveCall → Prop
  | .slice call => SliceFits w call
  | .resize _ | .resizeTo _ _ _ | .transfer _ _ _ _ | .transferTo _ _ _ _ => True

/-- The buffers of a call are there. -/
def MoveCall.Sound (w : World) : MoveCall → Prop
  | .slice call =>
      (∃ src, w.buffers[call.src]? = some src)
      ∧ ∀ r, call.constructor.result call.isShared = .ok (some r) →
          ∃ result, w.buffers[r]? = some result
  | .resize b | .resizeTo b _ _ | .transfer b _ _ _ | .transferTo b _ _ _ =>
      ∃ buf, w.buffers[b]? = some buf

-----------------------------------------------------------------------------------------
-- Bytes of buffers
-----------------------------------------------------------------------------------------

theorem contents_dataOf (w : World) (bytes : List UInt8) {resizable isShared : Bool} {max n : Nat}
    (length : bytes.length = n)
    : contents ⟨w.dataOf bytes, n, resizable, max, isShared⟩ = bytes := by
  have all : bytes.take n = bytes := List.take_of_length_le (Nat.le_of_eq length)
  rw [contents, blockBytes, World.dataOf]
  split
  · rename_i empty
    rw [empty]
    exact List.take_nil
  · exact all

theorem resized_eq (buf : ArrayBuffer) (n : Nat)
    : buf.resized n = (contents buf).take n ++ zeros (n - (contents buf).length) := by
  rw [ArrayBuffer.resized, contents, blockBytes]
  cases buf.data with
  | none => simp
  | some block =>
      dsimp only [Option.elim_some]
      rw [List.length_take, List.length_take]
      congr 2
      omega

theorem prefixed_resized (w : World) (buf : ArrayBuffer) (n : Nat) {resizable isShared : Bool}
    {max : Nat}
    : Prefixed buf ⟨w.dataOf (buf.resized n), n, resizable, max, isShared⟩ n where
  byteLength := rfl
  contents := by rw [contents_dataOf w _ (length_resized buf n), resized_eq]

/-- The bytes of a buffer that are asked for are all there. -/
theorem load_contents (fits : BufferFits next src)
    (within : n = 0 ∨ src.byteLength ≠ detachedLength ∧ start + n ≤ src.byteLength)
    : src.load (src.pointer.plus start) n = some (((contents src).drop start).take n) := by
  have offset : (src.pointer.plus start).offset = start := Nat.zero_add start
  have loaded := ArrayBuffer.load_eq fits (p := src.pointer.plus start) (k := n) fun some => by
    have within := within.resolve_left (Nat.ne_of_gt some)
    exact ⟨rfl, within.1, by rw [offset]; exact within.2⟩
  rw [loaded, offset, contents, List.drop_take, List.take_take]
  congr 2
  rcases within with rfl | ⟨-, within⟩
  · exact (Nat.zero_min _).symm
  · exact (Nat.min_eq_left (by omega)).symm

/-- Nothing else is loaded. -/
theorem load_within (fits : BufferFits next src) {bytes : List UInt8} (some : 0 < n)
    (loaded : src.load (src.pointer.plus start) n = .some bytes)
    : src.byteLength ≠ detachedLength ∧ start + n ≤ src.byteLength := by
  have offset : (src.pointer.plus start).offset = start := Nat.zero_add start
  rw [ArrayBuffer.load, if_neg (Nat.ne_of_gt some)] at loaded
  obtain ⟨block, data, loaded⟩ := Option.bind_eq_some_iff.mp loaded
  refine ⟨fun gone => ?_, ?_⟩
  · rw [fits.detached gone] at data
    cases data
  · split at loaded
    · rw [offset] at loaded
      exact ByteBlock.load_within loaded some
    · cases loaded

theorem contents_withBytes (fits : BufferFits next result)
    (live : result.byteLength ≠ detachedLength) {bytes : List UInt8}
    (within : bytes.length ≤ result.byteLength)
    : contents (withBytes result 0 bytes) = bytes ++ (contents result).drop bytes.length := by
  have filled := fits.filled live
  rw [contents, contents, blockBytes, blockBytes, withBytes]
  cases data : result.data with
  | none =>
      rw [capacity, data] at filled
      have none : bytes = [] := List.length_eq_zero_iff.mp (by
        simp only [Option.map_none, Option.getD_none] at filled
        omega)
      simp [none]
  | some block =>
      dsimp only [Option.map_some, Option.elim_some]
      rw [List.take_zero, List.nil_append, Nat.zero_add, List.take_append,
        List.take_of_length_le within, List.drop_take]

-----------------------------------------------------------------------------------------
-- The copy
-----------------------------------------------------------------------------------------

/-- A copy that finds what it needs. -/
theorem copySlice_ends {next' : Nat} (fits : BufferFits next src)
    (fits' : BufferFits next' result) (at_r : w.buffers[r]? = some result)
    (enough : n ≤ result.byteLength)
    (within : n = 0 ∨ result.byteLength ≠ detachedLength ∧ src.byteLength ≠ detachedLength
      ∧ start + n ≤ src.byteLength)
    : ∃ result', w.copySlice r result src start n = (w.putBuffer r result').finish (.buffer r)
      ∧ result'.load result'.pointer n = some (((contents src).drop start).take n)
      ∧ (contents result').drop n = (contents result).drop n := by
  have loaded := load_contents fits (within.imp_right And.right)
  rcases Nat.eq_zero_or_pos n with rfl | some
  · refine ⟨result, ?_, by rw [ArrayBuffer.load, if_pos rfl, List.take_zero], rfl⟩
    have same : w.buffers.set r result = w.buffers := by
      obtain ⟨there, rfl⟩ := List.getElem?_eq_some_iff.mp at_r
      exact List.set_getElem_self there
    rw [World.copySlice, if_neg (by simp), World.putBuffer, same]
  · obtain ⟨live', live, within⟩ := within.resolve_left (Nat.ne_of_gt some)
    have length : (((contents src).drop start).take n).length = n := by
      obtain ⟨bytes, loaded', length⟩ := ArrayBuffer.load_isSome fits
        (fun _ => (⟨rfl, live, by rwa [show (src.pointer.plus start).offset = start from
          Nat.zero_add start]⟩ : Reachable src (src.pointer.plus start) n))
      rw [loaded] at loaded'
      rwa [Option.some.inj loaded']
    generalize ((contents src).drop start).take n = bytes at loaded length
    have nonempty : bytes ≠ [] := List.ne_nil_of_length_pos (by omega)
    have reachable : Reachable result result.pointer bytes.length :=
      ⟨rfl, live', by rw [length]; exact (Nat.zero_add n).symm ▸ enough⟩
    obtain ⟨block, data, at_p, filled⟩ := reachable.data fits' (by omega)
    have stored : result.store result.pointer bytes = .some (withBytes result 0 bytes) := by
      have start' : result.pointer.offset = 0 := rfl
      rw [ArrayBuffer.store, if_neg nonempty, data, Option.bind_some, if_pos at_p, start',
        ByteBlock.store_eq (by omega) (by omega), withBytes, data]
      rfl
    refine ⟨withBytes result 0 bytes, ?_, ?_, ?_⟩
    · rw [World.copySlice, if_pos ⟨some, by rw [data]; rfl⟩, loaded, Option.bind_some, stored]
    · have rewritten : BufferFits next' (withBytes result 0 bytes) := by
        obtain ⟨result', stored', rewritten⟩ := ArrayBuffer.store_isSome fits' fun _ => reachable
        rw [stored] at stored'
        rw [Option.some.inj stored']
        exact fits'.rewritten rewritten
      have inside : 0 + n ≤ result.byteLength := by rwa [Nat.zero_add]
      have again : (withBytes result 0 bytes).load (withBytes result 0 bytes).pointer n = _ :=
        load_contents rewritten (.inr ⟨live', inside⟩)
      rw [again, contents_withBytes fits' live' (by omega), List.drop_zero, List.take_left' length]
    · rw [contents_withBytes fits' live' (by omega), List.drop_left' length, length]

/-- A copy that accesses no byte outside the buffers, to a result that has the bytes. -/
theorem copySlice_within (fits : BufferFits next src) (some : 0 < n)
    (at_r : w.buffers[r]? = .some result)
    (clean : (w.copySlice r result src start n).strayed = false)
    (has : ∀ result', (w.copySlice r result src start n).buffers[r]? = .some result' →
      ∃ bytes, result'.load result'.pointer n = .some bytes)
    : result.data.isSome = true ∧ src.byteLength ≠ detachedLength ∧ start + n ≤ src.byteLength := by
  rw [World.copySlice] at clean has
  split at clean
  case isTrue data =>
    refine ⟨data.2, ?_⟩
    cases loaded : src.load (src.pointer.plus start) n with
    | none =>
        rw [loaded] at clean
        cases clean
    | some bytes => exact load_within fits some loaded
  case isFalse nothing =>
    have missing : result.data = none := by
      rw [← Option.not_isSome_iff_eq_none]
      exact fun data => nothing ⟨some, data⟩
    rw [if_neg nothing] at has
    obtain ⟨bytes, loaded⟩ := has result at_r
    rw [ArrayBuffer.load, if_neg (Nat.ne_of_gt some), missing] at loaded
    cases loaded

/-- A copy that accesses no byte outside the buffers comes to its result. -/
theorem copySlice_outcomes (clean : (w.copySlice r result src start n).strayed = false)
    : (w.copySlice r result src start n).outcomes = w.outcomes ++ [.buffer r] := by
  rw [World.copySlice] at clean ⊢
  split
  case isTrue data =>
    rw [if_pos data] at clean
    split
    · rfl
    · rename_i nothing
      rw [nothing] at clean
      cases clean
  case isFalse => rfl

-----------------------------------------------------------------------------------------
-- `slice`
-----------------------------------------------------------------------------------------

theorem ends_throws (clean : w.strayed = false) {move : MoveCall} {outcome : TypedArrays.Outcome}
    (throws : Throws outcome)
    : move.Ends w (w.finish outcome) outcome :=
  ⟨clean, rfl, .inl ⟨throws, rfl⟩⟩

theorem sliceResult_throws {value : ConstructorValue} {isShared : Bool} {outcome : TypedArrays.Outcome}
    (refused : value.result isShared = .error outcome)
    : Throws outcome := by
  cases value with
  | thrown => cases refused; trivial
  | undefined => cases refused
  | notObject => cases refused; trivial
  | object species =>
      cases species with
      | thrown => cases refused; trivial
      | nullish => cases refused
      | notCallable => cases refused; trivial
      | constructor constructed =>
          cases constructed with
          | thrown => cases refused; trivial
          | notObject => cases refused; trivial
          | otherObject => cases refused; trivial
          | buffer r => cases refused

/-- The bytes between two places that the source has are a prefix of those that are copied. -/
theorem drop_take_between (bytes : List UInt8) (start stop : Nat)
    : (bytes.take stop).drop start = (bytes.drop start).take (stop - start) := List.drop_take

/-- A copy to a buffer that was not one of the world's, or was. -/
theorem copySlice_sliced {next' : Nat} {w1 : World} (fits : BufferFits next src)
    (fits' : BufferFits next' result) (clean : w.strayed = false) (same : w1.strayed = w.strayed)
    (outcomes : w1.outcomes = w.outcomes) (at_src : w.buffers[call.src]? = some src)
    (places : SliceArgument.place call.entry.byteLength 0 call.start = some start
      ∧ SliceArgument.place call.entry.byteLength call.entry.byteLength call.stop = some stop)
    (other : r ≠ call.src) (kept : ∀ b, b ≠ r → w1.buffers[b]? = w.buffers[b]?)
    (at_r : w1.buffers[r]? = some result)
    (before : ∀ buf, w.buffers[r]? = some buf → buf = result)
    (enough : stop - start ≤ result.byteLength)
    (within : stop - start = 0 ∨ result.byteLength ≠ detachedLength
      ∧ src.byteLength ≠ detachedLength ∧ stop ≤ src.byteLength)
    : (MoveCall.slice call).Ends w (w1.copySlice r result src start (stop - start))
        (.buffer r) := by
  have within' : stop - start = 0 ∨ result.byteLength ≠ detachedLength
      ∧ src.byteLength ≠ detachedLength ∧ start + (stop - start) ≤ src.byteLength := by
    rcases within with none | ⟨live', live, inside⟩
    · exact .inl none
    rcases Nat.eq_zero_or_pos (stop - start) with none | some
    · exact .inl none
    · exact .inr ⟨live', live, by omega⟩
  obtain ⟨result', copied, loaded, behind⟩ := copySlice_ends fits fits' at_r enough within'
  rw [copied]
  have there : r < w1.buffers.length := (List.getElem?_eq_some_iff.mp at_r).1
  refine ⟨same.trans clean, congrArg (· ++ [TypedArrays.Outcome.buffer r]) outcomes,
    .inr ⟨other, ?_, ?_⟩⟩
  · intro b different
    rw [← kept b different]
    exact List.getElem?_set_ne (Ne.symm different)
  · refine ⟨src, start, stop, result', _, at_src, places.1, places.2,
      List.getElem?_set_self there, loaded, ?_, ?_⟩
    · simp only [drop_take_between, List.prefix_refl]
    · intro buf found
      rw [before buf found]
      exact behind

/-- The copy with the check before it does what it should where it finds what it needs. -/
theorem copyUnlessDetached_ends {next' : Nat} {w1 : World} (fits : BufferFits next src)
    (fits' : BufferFits next' result) (clean : w.strayed = false) (same : w1.strayed = w.strayed)
    (outcomes : w1.outcomes = w.outcomes) (at_src : w.buffers[call.src]? = some src)
    (places : SliceArgument.place call.entry.byteLength 0 call.start = some start
      ∧ SliceArgument.place call.entry.byteLength call.entry.byteLength call.stop = some stop)
    (other : r ≠ call.src) (kept : ∀ b, b ≠ r → w1.buffers[b]? = w.buffers[b]?)
    (at_r : w1.buffers[r]? = some result)
    (before : ∀ buf, w.buffers[r]? = some buf → buf = result)
    (enough : stop - start ≤ result.byteLength)
    (within : call.isShared = false ∧ src.byteLength = detachedLength ∨ stop ≤ start
      ∨ result.byteLength ≠ detachedLength ∧ src.byteLength ≠ detachedLength
        ∧ stop ≤ src.byteLength)
    : ∃ outcome, (MoveCall.slice call).Ends w
        (w.copyUnlessDetached w1 call.isShared r result src start (stop - start)) outcome := by
  rw [World.copyUnlessDetached]
  split
  · exact ⟨_, ends_throws clean trivial⟩
  · rename_i attached
    exact ⟨_, copySlice_sliced fits fits' clean same outcomes at_src places other kept at_r before
      enough ((within.resolve_left attached).imp_left Nat.sub_eq_zero_of_le)⟩

/-- And only there. -/
theorem copyUnlessDetached_within {w1 : World} (fits : BufferFits next src)
    (outcomes : w1.outcomes = w.outcomes) (at_r : w1.buffers[r]? = some result)
    (places : SliceArgument.place call.entry.byteLength 0 call.start = some start
      ∧ SliceArgument.place call.entry.byteLength call.entry.byteLength call.stop = some stop)
    {outcome : TypedArrays.Outcome}
    (ends : (MoveCall.slice call).Ends w
      (w.copyUnlessDetached w1 call.isShared r result src start (stop - start)) outcome)
    : call.isShared = false ∧ src.byteLength = detachedLength ∨ stop ≤ start
      ∨ result.data.isSome = true ∧ src.byteLength ≠ detachedLength ∧ stop ≤ src.byteLength := by
  rw [World.copyUnlessDetached] at ends
  split at ends
  · rename_i detached
    exact .inl detached
  right
  rcases Nat.le_total stop start with none | some
  · exact .inl none
  rcases Nat.eq_or_lt_of_le some with none | some
  · exact .inl (Nat.le_of_eq none.symm)
  right
  have last : outcome = .buffer r := by
    have listed := ends.outcomes
    rw [copySlice_outcomes ends.strayed, outcomes] at listed
    exact (List.singleton_inj.mp (List.append_cancel_left listed)).symm
  subst last
  have sliced : Sliced w (w1.copySlice r result src start (stop - start)) call r :=
    ends.moved.resolve_left fun throws => throws.1
  obtain ⟨src', start', stop', result', bytes, -, first, last, found, loaded, -⟩ := sliced.bytes
  obtain rfl := Option.some.inj (places.1.symm.trans first)
  obtain rfl := Option.some.inj (places.2.symm.trans last)
  obtain ⟨data, live, inside⟩ := copySlice_within fits (Nat.sub_pos_of_lt some) at_r ends.strayed
    fun result'' found' => by
      rw [found] at found'
      exact ⟨bytes, Option.some.inj found' ▸ loaded⟩
  exact ⟨data, live, by omega⟩

/-- A new buffer for the result has its bytes where there is memory for them. -/
theorem plainResult_fits {isShared : Bool} {memory : Memory} (w : World)
    (room : n = 0 ∨ memory.data = true ∧ n < detachedLength)
    : BufferFits (w.nextAddr + 1) (w.plainResult isShared n memory) := by
  have live : n < detachedLength := by
    rcases room with rfl | room
    · decide
    · exact room.2
  rcases Bool.eq_false_or_eq_true memory.data with data | data
  · rw [World.plainResult, if_pos data]
    exact dataOf_fits w (Nat.le_of_eq (length_zeros n).symm) live
      (show 0 < detachedLength by decide) fun _ fixed => absurd fixed Bool.false_ne_true
  · obtain rfl : n = 0 := room.resolve_right fun room => by
      rw [data] at room
      exact Bool.false_ne_true room.1
    rw [World.plainResult, if_neg (by rw [data]; exact Bool.false_ne_true)]
    exact ⟨Nat.zero_le _, fun _ => Nat.zero_le _, fun _ => rfl, show 0 < detachedLength by decide,
      fun _ fixed => absurd fixed Bool.false_ne_true, nofun⟩

theorem plainResult_data {isShared : Bool} {memory : Memory}
    (data : (w.plainResult isShared n memory).data.isSome = true)
    : memory.data = true := by
  by_contra missing
  rw [World.plainResult, if_neg missing] at data
  cases data

/-- `slice` with the places between which it copies. -/
theorem sliceTo_iff (fits : WorldFits w) (at_src : w.buffers[call.src]? = some src)
    (there : ∀ r, call.constructor.result call.isShared = .ok (some r) →
      ∃ result, w.buffers[r]? = some result)
    (places : SliceArgument.place call.entry.byteLength 0 call.start = some start
      ∧ SliceArgument.place call.entry.byteLength call.entry.byteLength call.stop = some stop)
    : (∃ w', w.sliceTo call src start (stop - start) = some w'
        ∧ ∃ outcome, (MoveCall.slice call).Ends w w' outcome)
      ↔ SliceInReach w call src start stop := by
  have fit := fits.buffers call.src src at_src
  have inside : call.src < w.buffers.length := (List.getElem?_eq_some_iff.mp at_src).1
  unfold World.sliceTo SliceInReach
  cases made : call.constructor.result call.isShared with
  | error outcome =>
      have throws := sliceResult_throws made
      exact iff_of_true ⟨_, rfl, outcome, ends_throws fits.strayed throws⟩ trivial
  | ok found =>
      cases found with
      | none =>
          dsimp only
          by_cases object : call.memory.object = true
          · rw [if_neg (fun missing => missing object)]
            have at_r : (w.addBuffer (w.plainResult call.isShared (stop - start)
                call.memory)).buffers[w.buffers.length]? = some _ :=
              List.getElem?_concat_length
            constructor
            · rintro ⟨w', same, outcome, ends⟩
              obtain rfl := Option.some.inj same
              have outcomes : (w.addBuffer (w.plainResult call.isShared (stop - start)
                  call.memory)).outcomes = w.outcomes := rfl
              have within := copyUnlessDetached_within fit outcomes at_r places ends
              exact ⟨object, within.imp_right (Or.imp_right (And.imp_left plainResult_data))⟩
            · rintro ⟨-, within⟩
              refine ⟨_, rfl, ?_⟩
              by_cases detached : call.isShared = false ∧ src.byteLength = detachedLength
              · rw [World.copyUnlessDetached, if_pos detached]
                exact ⟨_, ends_throws fits.strayed trivial⟩
              have within := within.resolve_left detached
              have room : stop - start = 0
                  ∨ call.memory.data = true ∧ stop - start < detachedLength := by
                rcases within with none | ⟨data, live, within⟩
                · exact .inl (Nat.sub_eq_zero_of_le none)
                · have bounded := fit.bounded
                  exact .inr ⟨data, by omega⟩
              refine copyUnlessDetached_ends fit (plainResult_fits w room) fits.strayed rfl rfl
                at_src places (by omega) ?_ at_r ?_ (Nat.le_refl _) (.inr (within.imp_right ?_))
              · intro b different
                rcases Nat.lt_or_ge b w.buffers.length with old | new
                · exact List.getElem?_append_left old
                · rw [List.getElem?_eq_none new]
                  exact List.getElem?_eq_none (by
                    change (w.buffers ++ _).length ≤ b
                    rw [List.length_append, List.length_singleton]
                    omega)
              · intro buf found
                rw [List.getElem?_eq_none (Nat.le_refl _)] at found
                cases found
              · rintro ⟨data, live, within⟩
                have bounded := fit.bounded
                refine ⟨?_, live, within⟩
                change stop - start ≠ _
                omega
          · rw [if_pos object]
            refine iff_of_false ?_ fun needed => object needed.1
            rintro ⟨w', same, outcome, ends⟩
            obtain rfl := Option.some.inj same
            obtain rfl : outcome = .undefined :=
              (List.singleton_inj.mp (List.append_cancel_left ends.outcomes)).symm
            rcases ends.moved with ⟨throws, -⟩ | moved
            · exact throws
            · exact moved
      | some r =>
          obtain ⟨result, at_r⟩ := there r made
          have fit' := fits.buffers r result at_r
          dsimp only
          rw [at_r, Option.map_some]
          constructor
          · rintro ⟨w', same, outcome, ends⟩ result' found kind other enough
            obtain rfl := Option.some.inj found
            obtain rfl := Option.some.inj same
            rw [if_neg (fun different => different kind), if_neg other, if_neg (by omega)] at ends
            have outcomes : w.outcomes = w.outcomes := rfl
            have within := copyUnlessDetached_within fit outcomes at_r places ends
            refine within.imp_right (Or.imp_right (And.imp_left fun data gone => ?_))
            rw [fit'.detached gone] at data
            cases data
          · intro within
            refine ⟨_, rfl, ?_⟩
            split
            · exact ⟨_, ends_throws fits.strayed (by trivial)⟩
            rename_i kind
            split
            · exact ⟨_, ends_throws fits.strayed trivial⟩
            rename_i other
            split
            · exact ⟨_, ends_throws fits.strayed trivial⟩
            rename_i enough
            have enough := Nat.le_of_not_lt enough
            exact copyUnlessDetached_ends fit fit' fits.strayed rfl rfl at_src places other
              (fun _ _ => rfl) at_r (fun buf found => Option.some.inj (found.symm.trans at_r))
              enough (within result rfl (not_not.mp kind) other enough)

variable {convert : Conversion} {memory : Memory}

/-- A slice of a buffer of the right kind that is not detached. -/
theorem slice_live (w : World) {call : SliceCall} (kind : call.entry.isShared = call.isShared)
    (live : ¬(call.isShared = false ∧ call.entry.byteLength = detachedLength))
    : w.slice call
      = match call.start.index call.entry.byteLength 0 with
        | none => some (w.finish .thrown)
        | some start =>
            match call.stop.index call.entry.byteLength call.entry.byteLength with
            | none => some (w.finish .thrown)
            | some stop =>
                (w.buffers[call.src]?).bind fun src =>
                  w.sliceTo call src start.toNat (stop - start).toNat := by
  unfold World.slice
  exact (if_neg (fun different => different kind)).trans (if_neg live)

/-- `slice` does what it should where its copy finds what it needs, and only there. -/
theorem slice_iff (fits : WorldFits w) (sound : (MoveCall.slice call).Sound w)
    : (MoveCall.slice call).Holds convert w ↔ SliceFits w call := by
  obtain ⟨⟨src, at_src⟩, there⟩ := sound
  have ends {w' : World} {outcome : TypedArrays.Outcome} (run : w.slice call = some w')
      (ends : (MoveCall.slice call).Ends w w' outcome)
      : (MoveCall.slice call).Holds convert w :=
    ⟨w', run, .inl ⟨outcome, ends⟩⟩
  by_cases kind : call.entry.isShared = call.isShared
  · by_cases detached : call.isShared = false ∧ call.entry.byteLength = detachedLength
    · have run
          : w.slice call = some (w.finish (sliceError call.isShared "buffer is detached")) := by
        rw [World.slice, if_neg (fun different => different kind), if_pos detached]
      exact iff_of_true (ends run (ends_throws fits.strayed trivial))
        fun _ live => absurd detached.2 (live detached.1)
    have run := slice_live w kind detached
    have first : call.start.index call.entry.byteLength 0 = _ :=
      SliceArgument.index_place call.start (Nat.zero_le call.entry.byteLength)
    have last := SliceArgument.index_place call.stop (Nat.le_refl call.entry.byteLength)
    rw [first, last] at run
    cases places : SliceArgument.place call.entry.byteLength 0 call.start with
    | none =>
        rw [places] at run
        refine iff_of_true (ends run (ends_throws fits.strayed trivial)) ?_
        intro _ _ src' start stop _ found
        rw [places] at found
        cases found
    | some start =>
        cases places'
          : SliceArgument.place call.entry.byteLength call.entry.byteLength call.stop with
        | none =>
            rw [places, places'] at run
            refine iff_of_true (ends run (ends_throws fits.strayed trivial)) ?_
            intro _ _ src' start stop _ _ found
            rw [places'] at found
            cases found
        | some stop =>
            have count : ((Int.ofNat stop) - (Int.ofNat start)).toNat = stop - start := by
              simp only [Int.ofNat_eq_natCast]
              omega
            rw [places, places', Option.map_some, Option.map_some, at_src] at run
            dsimp only at run
            rw [Option.bind_some, count, Int.ofNat_eq_natCast, Int.toNat_natCast] at run
            have reach := sliceTo_iff fits at_src there ⟨places, places'⟩
            rw [← run] at reach
            constructor
            · rintro ⟨w', same, ends | waits⟩ _ _ src' start' stop' found first last
              · obtain rfl := Option.some.inj (at_src.symm.trans found)
                obtain rfl := Option.some.inj (places.symm.trans first)
                obtain rfl := Option.some.inj (places'.symm.trans last)
                exact reach.mp ⟨w', same, ends⟩
              · exact waits.1.elim
            · intro needed
              have live (unshared : call.isShared = false)
                  : call.entry.byteLength ≠ detachedLength :=
                fun gone => detached ⟨unshared, gone⟩
              obtain ⟨w', same, outcome, done⟩ :=
                reach.mpr (needed kind live src start stop at_src places places')
              exact ends same done
  · have run : ∃ message, w.slice call = some (w.finish (.typeError message)) := by
      rw [World.slice, if_pos kind]
      exact ⟨_, rfl⟩
    obtain ⟨message, run⟩ := run
    exact iff_of_true (ends run (ends_throws fits.strayed trivial)) fun same => absurd same kind

-----------------------------------------------------------------------------------------
-- `resize` and `transfer`
-----------------------------------------------------------------------------------------

theorem waits_nothing (clean : w.strayed = false) {call : MoveCall} {frame : Frame}
    (run : call.run convert w = some (w.wait frame)) (waits : call.Waits)
    : call.Holds convert w :=
  ⟨_, run, .inr ⟨waits, clean, rfl, rfl⟩⟩

theorem throws_holds (clean : w.strayed = false) {call : MoveCall} {outcome : TypedArrays.Outcome}
    (run : call.run convert w = some (w.finish outcome)) (throws : Throws outcome)
    : call.Holds convert w :=
  ⟨_, run, .inl ⟨outcome, ends_throws clean throws⟩⟩

theorem resize_holds (clean : w.strayed = false) (at_b : w.buffers[b]? = some buf)
    : (MoveCall.resize b).Holds convert w := by
  have run : (MoveCall.resize b).run convert w = some (w.beginResize b buf) := by
    rw [MoveCall.run, World.step, at_b, Option.map_some]
  rw [World.beginResize] at run
  split at run
  · exact throws_holds clean run trivial
  split at run
  · exact throws_holds clean run trivial
  · exact waits_nothing clean run trivial

theorem resizeTo_run (convert : Conversion) (at_b : w.buffers[b]? = some buf) (d : Integer)
    (memory : Memory)
    : (MoveCall.resizeTo b (some d) memory).run convert w
      = some (match arraybufferToIndex d with
        | none => w.finish invalidLength
        | some newLen => w.resize b buf newLen memory) := by
  change (w.buffers[b]?).map _ = _
  rw [at_b, Option.map_some]
  rfl

theorem resizeTo_holds (clean : w.strayed = false) (at_b : w.buffers[b]? = some buf)
    (length : Option Integer) (memory : Memory)
    : (MoveCall.resizeTo b length memory).Holds convert w := by
  cases length with
  | none => exact throws_holds clean rfl trivial
  | some d =>
      have run := resizeTo_run convert at_b d memory
      cases index : arraybufferToIndex d with
      | none =>
          rw [index] at run
          exact throws_holds clean run trivial
      | some newLen =>
          rw [index] at run
          dsimp only at run
          rw [World.resize] at run
          split at run
          · exact throws_holds clean run trivial
          split at run
          · exact throws_holds clean run trivial
          split at run
          · exact throws_holds clean run trivial
          · exact ⟨_, run, .inl ⟨.undefined, clean, rfl,
              .inr ⟨newLen, index, buf, _, at_b, rfl, prefixed_resized w buf newLen⟩⟩⟩

/-- The end of `transfer` with its length. -/
theorem transfer_ends (clean : w.strayed = false) (at_b : w.buffers[b]? = some buf)
    {preserveResizable : Bool} (call : MoveCall)
    (moved : ∀ w' r, Transferred w w' b n r → call.Moved w w' (.buffer r))
    : ∃ outcome, call.Ends w (w.transfer b buf preserveResizable n memory) outcome := by
  simp only [World.transfer]
  generalize (if (preserveResizable && buf.resizable) = true then buf.maxByteLength else n)
    = destMax
  split
  · exact ⟨_, ends_throws clean trivial⟩
  split
  · exact ⟨_, ends_throws clean trivial⟩
  · exact ⟨.buffer w.buffers.length, clean, rfl, .inr (moved _ _
      ⟨buf, _, at_b, rfl, rfl, prefixed_resized w buf n⟩)⟩

theorem transfer_holds (clean : w.strayed = false) (at_b : w.buffers[b]? = some buf)
    (preserveResizable hasLength : Bool) (memory : Memory)
    : (MoveCall.transfer b preserveResizable hasLength memory).Holds convert w := by
  have run : (MoveCall.transfer b preserveResizable hasLength memory).run convert w
      = some (w.beginTransfer b buf preserveResizable hasLength memory) := by
    rw [MoveCall.run, World.step, at_b, Option.map_some]
  rw [World.beginTransfer] at run
  split at run
  · exact throws_holds clean run trivial
  split at run
  · exact throws_holds clean run trivial
  cases hasLength with
  | true => exact waits_nothing clean run trivial
  | false =>
      refine ⟨_, run, .inl (transfer_ends clean at_b _ ?_)⟩
      exact fun w' r transferred => ⟨buf, at_b, transferred⟩

theorem transferTo_holds (clean : w.strayed = false) (at_b : w.buffers[b]? = some buf)
    (preserveResizable : Bool) (length : Option Integer) (memory : Memory)
    : (MoveCall.transferTo b preserveResizable length memory).Holds convert w := by
  cases length with
  | none => exact throws_holds clean rfl trivial
  | some d =>
      have run : (MoveCall.transferTo b preserveResizable (some d) memory).run convert w
          = some (w.transferTo b buf preserveResizable d memory) := by
        change (w.buffers[b]?).map _ = _
        rw [at_b, Option.map_some]
        rfl
      rw [World.transferTo] at run
      cases index : arraybufferToIndex d with
      | none =>
          rw [index] at run
          exact throws_holds clean run trivial
      | some newLen =>
          rw [index] at run
          dsimp only at run
          split at run
          · exact throws_holds clean run trivial
          · refine ⟨_, run, .inl (transfer_ends clean at_b _ ?_)⟩
            exact fun w' r transferred => ⟨newLen, index, transferred⟩

/-- The calls move bytes exactly where the copy of `slice` finds what it needs. Witness:
`bufferMoves_iff_tail`.
-/
theorem bufferMoves_iff (convert : Conversion) (fits : WorldFits w) (call : MoveCall)
    (sound : call.Sound w)
    : call.Holds convert w ↔ call.Fits w := by
  cases call with
  | slice call => exact slice_iff fits sound
  | resize b =>
      obtain ⟨buf, at_b⟩ := sound
      exact iff_of_true (resize_holds fits.strayed at_b) trivial
  | resizeTo b length memory =>
      obtain ⟨buf, at_b⟩ := sound
      exact iff_of_true (resizeTo_holds fits.strayed at_b length memory) trivial
  | transfer b preserveResizable hasLength memory =>
      obtain ⟨buf, at_b⟩ := sound
      refine iff_of_true ?_ trivial
      exact transfer_holds fits.strayed at_b preserveResizable hasLength memory
  | transferTo b preserveResizable length memory =>
      obtain ⟨buf, at_b⟩ := sound
      exact iff_of_true (transferTo_holds fits.strayed at_b preserveResizable length memory) trivial

/-- A world with one buffer of the given bytes, of four at most. -/
def worldOf (bytes : List UInt8) : World where
  buffers := [⟨some ⟨0, bytes⟩, bytes.length, true, 4, false⟩]
  views := []
  nextAddr := 1
  frames := []
  outcomes := []
  strayed := false
  overran := false

theorem worldOf_fits {bytes : List UInt8} (few : bytes.length ≤ 4) : WorldFits (worldOf bytes) where
  buffers b buf found := by
    obtain rfl : b = 0 := by
      have inside := (List.getElem?_eq_some_iff.mp found).1
      simp only [worldOf, List.length_singleton] at inside
      omega
    obtain rfl := Option.some.inj found
    have live : bytes.length < detachedLength := by
      rw [detachedLength]
      omega
    refine ⟨Nat.le_of_lt live, fun _ => Nat.le_refl _, fun gone => absurd gone (Nat.ne_of_lt live),
      show 4 < detachedLength by decide, fun shared => absurd shared Bool.false_ne_true,
      fun block same => ?_⟩
    obtain rfl := Option.some.inj same
    exact Nat.zero_lt_one
  views v view found := by cases found
  frames frame member := absurd member List.not_mem_nil
  strayed := rfl

/-- `b.slice(1)` on four bytes. -/
def tailSlice : SliceCall where
  isShared := false
  src := 0
  entry := ⟨some ⟨0, [1, 2, 3, 4]⟩, 4, true, 4, false⟩
  start := .integer (.int 1)
  stop := .undefined
  constructor := .undefined
  memory := ⟨true, true⟩

theorem bufferMoves_iff_tail
    : (MoveCall.slice tailSlice).Holds noughtConversion (worldOf [1, 2, 3, 4]) := by
  refine (bufferMoves_iff noughtConversion (worldOf_fits (by decide)) (.slice tailSlice)
    ⟨⟨_, rfl⟩, fun r made => by cases made⟩).mpr ?_
  intro _ _ src start stop found first last
  obtain rfl := Option.some.inj found
  obtain rfl := Option.some.inj first
  obtain rfl := Option.some.inj last
  exact ⟨rfl, .inr (.inr ⟨rfl, by decide, by decide⟩)⟩

/-- `b.slice(0, end)` on four bytes, where the conversion of `end` has left only one. -/
def shrunkSlice : SliceCall :=
  { tailSlice with start := .integer (.int 0), stop := .integer (.int 4) }

/-- The copy reads behind the end of the source. -/
theorem slice_reads_beyond
    : ¬(MoveCall.slice shrunkSlice).Holds noughtConversion (worldOf [1]) := by
  rw [slice_iff (worldOf_fits (by decide)) ⟨⟨_, rfl⟩, fun r made => by cases made⟩]
  intro fits
  have needed := (fits rfl (fun _ => by decide) _ 0 4 rfl rfl rfl).2
  rcases needed with ⟨-, gone⟩ | none | ⟨-, -, inside⟩
  · exact absurd gone (by decide)
  · exact absurd none (by decide)
  · exact absurd inside (by decide)

end Boomkat.Correctness
