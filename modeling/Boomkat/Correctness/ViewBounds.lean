import Boomkat.Correctness.ViewAccess
import Boomkat.Foundation.Replay

/-! Views do not reach outside their buffers in runs in which no call relies on what user code has
changed meanwhile.
-/

namespace Boomkat.Correctness

open Foundation TypedArrays

variable {w w' : World} {buffers buffers' : List ArrayBuffer} {views views' : List View}
  {view : View} {buf buf' : ArrayBuffer} {frame : Frame} {next next' b v : Nat} {memory : Memory}

-----------------------------------------------------------------------------------------
-- Worlds
-----------------------------------------------------------------------------------------

/-- What becomes of a buffer. Its block is another one, at an address that was not in use, or has no
fewer bytes of the buffer than before.
-/
structure BufferLater (next : Nat) (buf buf' : ArrayBuffer) : Prop where
  resizable : buf'.resizable = buf.resizable
  isShared : buf'.isShared = buf.isShared
  fixed : buf.resizable = false →
    buf'.byteLength = buf.byteLength ∨ buf'.byteLength = detachedLength
  block : ∀ block', buf'.data = some block' → block'.addr < next →
    (∃ block, buf.data = some block ∧ block.addr = block'.addr) ∧ buf.byteLength ≤ buf'.byteLength

theorem BufferLater.refl (next : Nat) (buf : ArrayBuffer) : BufferLater next buf buf :=
  ⟨rfl, rfl, fun _ => .inl rfl, fun block found _ => ⟨⟨block, found, rfl⟩, Nat.le_refl _⟩⟩

theorem Rewritten.later (rewritten : Rewritten buf buf') (next : Nat)
    : BufferLater next buf buf' where
  resizable := rewritten.resizable
  isShared := rewritten.isShared
  fixed _ := .inl rewritten.byteLength
  block block' found _ := by
    have data := rewritten.data
    rw [found] at data
    exact ⟨Option.map_eq_some_iff.mp data.symm, Nat.le_of_eq rewritten.byteLength.symm⟩

theorem Lies.later (lies : Lies view buf) (later : BufferLater next buf buf') : Lies view buf' where
  fixed fixed := by
    rw [later.resizable] at fixed
    obtain ⟨untracked, inside⟩ := lies.fixed fixed
    refine ⟨untracked, ?_⟩
    rcases later.fixed fixed with same | gone
    · rwa [same]
    · exact .inl gone
  unwrapped := lies.unwrapped

/-- The view's buffer is there and the view lies in it. -/
def ViewFits (buffers : List ArrayBuffer) (view : View) : Prop :=
  ∃ buf, buffers[view.buffer]? = some buf ∧ Lies view buf

/-- What the local variables of a call that waits say of the buffers: a length that was read has not
changed if it cannot, and an address is that of an element as long as the block is the same.
-/
def FrameFits (buffers : List ArrayBuffer) (views : List View) (next : Nat) : Frame → Prop
  | .bufferPrototype _ byteLength (some max) => byteLength ≤ max ∧ max ≤ 2147483647
  | .resize b => ∃ buf, buffers[b]? = some buf ∧ buf.resizable = true ∧ buf.isShared = false
  | .grow b => ∃ buf, buffers[b]? = some buf ∧ buf.resizable = true ∧ buf.isShared = true
  | .transfer b _ => ∃ buf, buffers[b]? = some buf ∧ buf.isShared = false
  | .viewLength _ b off bufLen =>
      ∃ buf, buffers[b]? = some buf ∧ off ≤ bufLen ∧ bufLen < detachedLength
        ∧ (buf.resizable = false → buf.byteLength = detachedLength ∨ buf.byteLength = bufLen)
  | .viewPrototype view => ViewFits buffers view
  | .elementWrite v p =>
      ∃ view buf addr, views[v]? = some view ∧ buffers[view.buffer]? = some buf
        ∧ p.block = some addr ∧ addr < next
        ∧ ∀ block, buf.data = some block → block.addr = addr →
          p.offset + taElemSize view.cls ≤ buf.byteLength
  | _ => True

structure WorldFits (w : World) : Prop where
  buffers : ∀ (b : Nat) (buf : ArrayBuffer), w.buffers[b]? = some buf → BufferFits w.nextAddr buf
  views : ∀ (v : Nat) (view : View), w.views[v]? = some view → ViewFits w.buffers view
  frames : ∀ frame ∈ w.frames, FrameFits w.buffers w.views w.nextAddr frame
  strayed : w.strayed = false

/-- The buffers and views are those that were there before, and others. -/
structure WorldLater (w w' : World) : Prop where
  buffers : ∀ (b : Nat) (buf : ArrayBuffer), w.buffers[b]? = some buf →
    ∃ buf', w'.buffers[b]? = some buf' ∧ BufferLater w.nextAddr buf buf'
  views : ∀ (v : Nat) (view : View), w.views[v]? = some view → w'.views[v]? = some view
  nextAddr : w.nextAddr ≤ w'.nextAddr

theorem ViewFits.later (fits : ViewFits w.buffers view) (later : WorldLater w w')
    : ViewFits w'.buffers view := by
  obtain ⟨buf, found, lies⟩ := fits
  obtain ⟨buf', found', became⟩ := later.buffers _ buf found
  exact ⟨buf', found', lies.later became⟩

theorem FrameFits.later (fits : FrameFits w.buffers w.views w.nextAddr frame)
    (later : WorldLater w w')
    : FrameFits w'.buffers w'.views w'.nextAddr frame := by
  cases frame with
  | bufferPrototype isShared byteLength max =>
      cases max with
      | none => trivial
      | some max => exact fits
  | resize b | grow b =>
      obtain ⟨buf, found, resizable, shared⟩ := fits
      obtain ⟨buf', found', became⟩ := later.buffers _ buf found
      exact ⟨buf', found', became.resizable.trans resizable, became.isShared.trans shared⟩
  | transfer b preserveResizable =>
      obtain ⟨buf, found, unshared⟩ := fits
      obtain ⟨buf', found', became⟩ := later.buffers _ buf found
      exact ⟨buf', found', became.isShared.trans unshared⟩
  | viewLength cls b off bufLen =>
      obtain ⟨buf, found, within, live, same⟩ := fits
      obtain ⟨buf', found', became⟩ := later.buffers _ buf found
      refine ⟨buf', found', within, live, fun fixed => ?_⟩
      rw [became.resizable] at fixed
      rcases became.fixed fixed with unchanged | gone
      · rw [unchanged]
        exact same fixed
      · exact .inl gone
  | viewPrototype view => exact ViewFits.later fits later
  | elementWrite v p =>
      obtain ⟨view, buf, addr, at_v, found, block, used, inside⟩ := fits
      obtain ⟨buf', found', became⟩ := later.buffers _ buf found
      refine ⟨view, buf', addr, later.views v view at_v, found', block,
        Nat.lt_of_lt_of_le used later.nextAddr, fun block' data same => ?_⟩
      obtain ⟨⟨old, data', same'⟩, longer⟩ := became.block block' data (by rw [same]; exact used)
      exact Nat.le_trans (inside old data' (same'.trans same)) longer
  | _ => trivial

theorem BufferFits.mono (fits : BufferFits next buf) (more : next ≤ next')
    : BufferFits next' buf :=
  ⟨fits.bounded, fits.filled, fits.detached, fits.max, fits.growable, fun block found =>
    Nat.lt_of_lt_of_le (fits.addr block found) more⟩

theorem World.new_fits : WorldFits .new :=
  ⟨nofun, nofun, fun _ member => absurd member List.not_mem_nil, rfl⟩

theorem WorldFits.finish (fits : WorldFits w) (outcome : TypedArrays.Outcome)
    : WorldFits (w.finish outcome) :=
  ⟨fits.buffers, fits.views, fits.frames, fits.strayed⟩

theorem WorldFits.wait (fits : WorldFits w) (fit : FrameFits w.buffers w.views w.nextAddr frame)
    : WorldFits (w.wait frame) :=
  ⟨fits.buffers, fits.views, List.forall_mem_cons.mpr ⟨fit, fits.frames⟩, fits.strayed⟩

/-- A buffer changes. -/
theorem WorldFits.putBuffer (fits : WorldFits w) (at_b : w.buffers[b]? = some buf)
    (became : BufferLater w.nextAddr buf buf') (more : w.nextAddr ≤ next)
    (fits' : BufferFits next buf')
    : WorldFits ({ w with nextAddr := next }.putBuffer b buf') := by
  have within : b < w.buffers.length := (List.getElem?_eq_some_iff.mp at_b).1
  have later : WorldLater w ({ w with nextAddr := next }.putBuffer b buf') := by
    refine ⟨fun c old found => ?_, fun _ _ found => found, more⟩
    simp only [World.putBuffer, List.getElem?_set]
    split
    · rename_i same
      obtain rfl := same
      obtain rfl := Option.some.inj (at_b.symm.trans found)
      exact ⟨buf', rfl, became⟩
    · exact ⟨old, found, .refl _ _⟩
  refine ⟨fun c old found => ?_, fun v view found => (fits.views v view found).later later,
    fun frame member => (fits.frames frame member).later later, fits.strayed⟩
  simp only [World.putBuffer, List.getElem?_set] at found
  split at found
  · obtain rfl := Option.some.inj found
    exact fits'
  · exact (fits.buffers c old found).mono more

/-- There is another buffer. -/
theorem WorldFits.addBuffer (fits : WorldFits w) (fits' : BufferFits (w.nextAddr + 1) buf)
    : WorldFits (w.addBuffer buf) := by
  have later : WorldLater w (w.addBuffer buf) := by
    refine ⟨fun c old found => ⟨old, ?_, .refl _ _⟩, fun _ _ found => found, Nat.le_succ _⟩
    rw [World.addBuffer, List.getElem?_append_left (List.getElem?_eq_some_iff.mp found).1, found]
  refine ⟨fun c old found => ?_, fun v view found => (fits.views v view found).later later,
    fun frame member => (fits.frames frame member).later later, fits.strayed⟩
  rcases List.mem_append.mp (List.mem_of_getElem? found) with before | last
  · obtain ⟨d, at_d⟩ := List.mem_iff_getElem?.mp before
    exact (fits.buffers d old at_d).mono (Nat.le_succ _)
  · rw [List.mem_singleton.mp last]
    exact fits'

/-- There is another view. -/
theorem WorldFits.addView (fits : WorldFits w) (fit : ViewFits w.buffers view)
    : WorldFits (w.addView view memory) := by
  rw [World.addView]
  split
  · exact fits.finish _
  · have later : WorldLater w { w with views := w.views ++ [view] } := by
      refine ⟨fun c old found => ⟨old, found, .refl _ _⟩, fun v old found => ?_, Nat.le_refl _⟩
      rw [List.getElem?_append_left (List.getElem?_eq_some_iff.mp found).1, found]
    have views : ∀ (v : Nat) old, (w.views ++ [view])[v]? = some old → ViewFits w.buffers old := by
      intro v old found
      rcases List.mem_append.mp (List.mem_of_getElem? found) with before | last
      · obtain ⟨u, at_u⟩ := List.mem_iff_getElem?.mp before
        exact fits.views u old at_u
      · rw [List.mem_singleton.mp last]
        exact fit
    have added : WorldFits { w with views := w.views ++ [view] } :=
      ⟨fits.buffers, views, fun frame member => (fits.frames frame member).later later,
        fits.strayed⟩
    exact added.finish _

-----------------------------------------------------------------------------------------
-- Calls on buffers
-----------------------------------------------------------------------------------------

theorem capacity_dataOf (w : World) (bytes : List UInt8) {byteLength max : Nat}
    {resizable isShared : Bool}
    : capacity ⟨w.dataOf bytes, byteLength, resizable, max, isShared⟩ = bytes.length := by
  rw [capacity, World.dataOf]
  split
  · rename_i empty
    rw [empty]
    rfl
  · rfl

/-- A buffer over a new block. -/
theorem dataOf_fits (w : World) {bytes : List UInt8} {byteLength max : Nat}
    {resizable isShared : Bool} (filled : byteLength ≤ bytes.length)
    (live : byteLength < detachedLength) (small : max < detachedLength)
    (growable : isShared = true → resizable = true → max ≤ bytes.length)
    : BufferFits (w.nextAddr + 1) ⟨w.dataOf bytes, byteLength, resizable, max, isShared⟩ where
  bounded := Nat.le_of_lt live
  filled _ := by rwa [capacity_dataOf]
  detached gone := absurd gone (Nat.ne_of_lt live)
  max := small
  growable shared resizable := by
    rw [capacity_dataOf]
    exact growable shared resizable
  addr block found := by
    simp only [World.dataOf] at found
    split at found
    · cases found
    · obtain rfl := Option.some.inj found
      exact Nat.lt_succ_self _

theorem length_resized (buf : ArrayBuffer) (n : Nat) : (buf.resized n).length = n := by
  rw [ArrayBuffer.resized]
  split
  · simp only [List.length_append, length_zeros, List.length_take]
    omega
  · simp only [List.nil_append, length_zeros, List.length_nil, Nat.sub_zero]

theorem constructBuffer_fits (fits : WorldFits w) {isShared : Bool} {byteLength : Nat}
    {max : Option Nat} (fit : FrameFits w.buffers w.views w.nextAddr
      (.bufferPrototype isShared byteLength max))
    : WorldFits (w.constructBuffer isShared byteLength max memory) := by
  rw [World.constructBuffer]
  split
  · exact fits.finish _
  · split
    · exact fits.finish _
    · rename_i small
      have live : byteLength < detachedLength := by rw [detachedLength]; omega
      obtain ⟨filled, smallMax, growable⟩ : byteLength ≤ (if isShared then max.getD byteLength
          else byteLength) ∧ max.getD 0 < detachedLength ∧ (isShared = true → max.isSome = true →
          max.getD 0 ≤ (if isShared then max.getD byteLength else byteLength)) := by
        cases max with
        | none =>
            exact ⟨Nat.le_of_eq (by rw [Option.getD_none, ite_self]), by decide, fun _ no => by cases no⟩
        | some max =>
            obtain ⟨shorter, smallMax⟩ := fit
            refine ⟨?_, by rw [detachedLength, Option.getD_some]; omega, fun shared _ => ?_⟩
            · split
              · exact shorter
              · exact Nat.le_refl _
            · rw [if_pos shared]
              exact Nat.le_refl _
      dsimp only
      generalize (if isShared then max.getD byteLength else byteLength) = allocLen at filled growable
      split
      · exact fits.finish _
      · refine (fits.addBuffer (dataOf_fits w ?_ live smallMax ?_)).finish _
        · rwa [length_zeros]
        · rwa [length_zeros]

theorem resize_fits (fits : WorldFits w) (at_b : w.buffers[b]? = some buf)
    (resizable : buf.resizable = true) (unshared : buf.isShared = false) {newLen : Nat}
    : WorldFits (w.resize b buf newLen memory) := by
  have fit := fits.buffers b buf at_b
  rw [World.resize]
  split
  · exact fits.finish _
  · split
    · exact fits.finish _
    · rename_i small
      split
      · exact fits.finish _
      · refine (fits.putBuffer at_b ?_ (Nat.le_succ _) ?_).finish _
        · refine ⟨rfl, rfl, fun fixed => absurd (fixed.symm.trans resizable) Bool.noConfusion, ?_⟩
          intro block found used
          simp only [World.dataOf] at found
          split at found
          · cases found
          · obtain rfl := Option.some.inj found
            exact absurd used (Nat.lt_irrefl _)
        · have live := fit.max
          refine dataOf_fits w (Nat.le_of_eq (length_resized buf newLen).symm) (by omega) fit.max ?_
          exact fun shared => absurd (unshared.symm.trans shared) Bool.noConfusion

theorem grow_fits (fits : WorldFits w) (at_b : w.buffers[b]? = some buf)
    (resizable : buf.resizable = true) (shared : buf.isShared = true) {newLen : Nat}
    : WorldFits (w.grow b buf newLen) := by
  have fit := fits.buffers b buf at_b
  have growable := fit.growable shared resizable
  rw [World.grow]
  split
  · exact fits.finish _
  · rename_i small
    split
    · exact fits.finish _
    · rename_i longer
      have live := fit.max
      refine (fits.putBuffer at_b ?_ (Nat.le_refl _) ?_).finish _
      · refine ⟨rfl, rfl, fun fixed => absurd (fixed.symm.trans resizable) Bool.noConfusion, ?_⟩
        exact fun block found _ => ⟨⟨block, found, rfl⟩, Nat.le_of_not_lt longer⟩
      · have filled : newLen ≤ capacity buf := by omega
        exact ⟨by dsimp only; omega, fun _ => filled, fun gone => by dsimp only at gone; omega,
          fit.max, fun _ _ => growable, fit.addr⟩

theorem detach_later (next : Nat) (buf : ArrayBuffer)
    : BufferLater next buf (arraybufferDetach buf) :=
  ⟨rfl, rfl, fun _ => .inr rfl, nofun⟩

/-- A buffer that is detached has no block. Only one that is not shared is. -/
theorem detach_fits (fit : BufferFits next buf) (unshared : buf.isShared = false)
    : BufferFits next (arraybufferDetach buf) where
  bounded := Nat.le_refl _
  filled live := absurd rfl live
  detached _ := rfl
  max := fit.max
  growable shared := absurd (unshared.symm.trans shared) Bool.noConfusion
  addr := nofun

theorem World.detach_fits (fits : WorldFits w) (at_b : w.buffers[b]? = some buf)
    : WorldFits (w.detach b buf) := by
  rw [World.detach]
  split
  · exact fits.finish _
  · rename_i unshared
    exact (fits.putBuffer at_b (detach_later _ buf) (Nat.le_refl _)
      (Correctness.detach_fits (fits.buffers b buf at_b) (by simpa using unshared))).finish _

theorem transfer_fits (fits : WorldFits w) (at_b : w.buffers[b]? = some buf)
    (unshared : buf.isShared = false) {preserveResizable : Bool} {newLen : Nat}
    (live : newLen < detachedLength)
    : WorldFits (w.transfer b buf preserveResizable newLen memory) := by
  have fit := fits.buffers b buf at_b
  have smallMax : (if (preserveResizable && buf.resizable) = true then buf.maxByteLength else newLen)
      < detachedLength := by
    split
    · exact fit.max
    · exact live
  simp only [World.transfer]
  generalize (if (preserveResizable && buf.resizable) = true then buf.maxByteLength else newLen)
    = destMax at smallMax
  split
  · exact fits.finish _
  · split
    · exact fits.finish _
    · have fit' : BufferFits (w.nextAddr + 1) ⟨w.dataOf (buf.resized newLen), newLen,
          preserveResizable && buf.resizable, destMax, false⟩ :=
        dataOf_fits w (Nat.le_of_eq (length_resized buf newLen).symm) live smallMax nofun
      have within : b < w.buffers.length := (List.getElem?_eq_some_iff.mp at_b).1
      have at_b' : (w.addBuffer ⟨w.dataOf (buf.resized newLen), newLen,
          preserveResizable && buf.resizable, destMax, false⟩).buffers[b]? = some buf :=
        (List.getElem?_append_left within).trans at_b
      exact ((fits.addBuffer fit').putBuffer at_b' (detach_later _ buf) (Nat.le_refl _)
        (Correctness.detach_fits (fit.mono (Nat.le_succ _)) unshared)).finish _

-----------------------------------------------------------------------------------------
-- Construction of views
-----------------------------------------------------------------------------------------

/-- A wrapped number of bytes is not the length of a buffer that is detached. -/
theorem uint_mul_lt {n : Nat} (cls : ElementClass) (small : n ≤ 2147483647)
    : uint (n * taElemSize cls) < detachedLength := by
  rw [uint, detachedLength]
  cases cls <;> simp only [taElemSize, taInfo] <;> omega

theorem constructArray_fits (fits : WorldFits w) {cls : ElementClass} {len : Nat}
    (small : len ≤ 2147483647)
    : WorldFits (w.constructArray cls len memory) := by
  have live := uint_mul_lt cls small
  simp only [World.constructArray]
  generalize uint (len * taElemSize cls) = totalBytes at live
  split
  · exact fits.finish _
  · have fit : BufferFits (w.nextAddr + 1) ⟨w.dataOf (zeros totalBytes), totalBytes, false, 0, false⟩ :=
      dataOf_fits w (Nat.le_of_eq (length_zeros _).symm) live (by decide) nofun
    refine (fits.addBuffer fit).wait ⟨_, List.getElem?_concat_length, ?_⟩
    refine ⟨fun _ => ⟨rfl, .inr (Nat.le_of_eq (Nat.zero_add _))⟩, fun _ => ?_⟩
    rw [detachedLength] at live
    dsimp only
    omega

theorem constructView_fits (fits : WorldFits w) (at_b : w.buffers[b]? = some buf)
    {cls : ElementClass} {hasLength : Bool} {off : Nat}
    : WorldFits (w.constructView cls b buf hasLength off) := by
  have bounded := (fits.buffers b buf at_b).bounded
  rw [World.constructView]
  split
  · exact fits.finish _
  · split
    · exact fits.finish _
    · rename_i live
      split
      · exact fits.finish _
      · rename_i within
        have within := Nat.le_of_not_lt within
        split
        · exact fits.wait ⟨buf, at_b, within, Nat.lt_of_le_of_ne bounded live, fun _ => .inr rfl⟩
        · dsimp only
          split
          · exact fits.finish _
          · refine fits.wait ⟨buf, at_b, fun fixed => ⟨fixed, .inr ?_⟩, fun _ => ?_⟩
            · exact Nat.le_of_eq (Nat.add_sub_cancel' within)
            · rw [detachedLength] at bounded
              dsimp only
              omega

/-- The end of a view is in the buffer, if its sum has 32 bits. -/
theorem constructViewOf_fits (fits : WorldFits w) (at_b : w.buffers[b]? = some buf)
    {cls : ElementClass} {off bufLen n : Nat}
    (fit : FrameFits w.buffers w.views w.nextAddr (.viewLength cls b off bufLen))
    (unwrapped : uint (off + uint (n * taElemSize cls)) ≤ bufLen →
      off + uint (n * taElemSize cls) < 2 ^ 32)
    : WorldFits (w.constructViewOf cls b buf off bufLen n) := by
  obtain ⟨found, at_b', -, -, same⟩ := fit
  obtain rfl := Option.some.inj (at_b.symm.trans at_b')
  rw [World.constructViewOf]
  split
  · exact fits.finish _
  · rename_i live
    split
    · exact fits.finish _
    · rename_i inside
      have inside := Nat.le_of_not_lt inside
      have ends := unwrapped inside
      rw [uint_of_lt ends] at inside
      refine fits.wait ⟨buf, at_b, fun fixed => ⟨rfl, ?_⟩, fun _ => ends⟩
      rcases same fixed with gone | unchanged
      · exact absurd gone live
      · exact .inr (by rw [unchanged]; exact inside)

-----------------------------------------------------------------------------------------
-- Elements
-----------------------------------------------------------------------------------------

theorem read_fits (fits : WorldFits w) (fit : BufferFits w.nextAddr buf) {found : Option Nat}
    (reachable : ∀ idx, found = some idx →
      Reachable buf ((view.base buf).plus (idx <<< taElemShift view.cls)) (1 <<< taElemShift view.cls))
    : WorldFits (w.read view buf found) := by
  rcases found with - | idx
  · exact fits.finish _
  · obtain ⟨bytes, loaded, -⟩ := taLoadElement_isSome fit (reachable idx rfl)
    rw [World.read, loaded]
    exact fits.finish _

theorem write_fits (fits : WorldFits w) (at_b : w.buffers[view.buffer]? = some buf) {p : Pointer}
    {bytes : List UInt8} (reachable : Reachable buf p bytes.length)
    : WorldFits (w.write view buf p bytes) := by
  have fit := fits.buffers _ buf at_b
  obtain ⟨buf', stored, rewritten⟩ := ArrayBuffer.store_isSome fit fun _ => reachable
  rw [World.write, stored]
  exact fits.putBuffer at_b (rewritten.later _) (Nat.le_refl _) (fit.rewritten rewritten)

theorem elementConverted_fits (fits : WorldFits w) (at_v : w.views[v]? = some view)
    (at_b : w.buffers[view.buffer]? = some buf) (lies : Lies view buf) {num : NumericIndex}
    {isObject : Bool} {bytes : List UInt8} (length : bytes.length = taElemSize view.cls)
    : WorldFits (w.elementConverted v view buf num isObject bytes) := by
  have fit := fits.buffers _ buf at_b
  rw [World.elementConverted]
  split
  · exact fits.finish _
  · rename_i idx valid
    have reachable := elements_reachable lies (taIsValidIntegerIndex_lt valid) Nat.one_pos
    rw [one_shiftLeft] at reachable
    dsimp only
    split
    · obtain ⟨block, data, at_p, -⟩ := reachable.data fit (taElemSize_pos _)
      exact fits.wait ⟨view, buf, block.addr, at_v, at_b, at_p, fit.addr block data,
        fun _ _ _ => reachable.within⟩
    · exact (write_fits fits at_b (length ▸ reachable)).finish _

theorem elementPut_fits (fits : WorldFits w) (at_b : w.buffers[view.buffer]? = some buf)
    (lies : Lies view buf) {num : NumericIndex} {bytes : List UInt8}
    (length : bytes.length = taElemSize view.cls)
    : WorldFits (w.elementPut view buf num bytes) := by
  rw [World.elementPut]
  split
  · exact fits.finish _
  · rename_i idx valid
    obtain ⟨data, few⟩ := fastElementIndex_lt valid
    have reachable := fastElement_reachable (fits.buffers _ buf at_b) lies data few
    rw [one_shiftLeft] at reachable
    exact (write_fits fits at_b (length ▸ reachable)).finish _

/-- The store goes to the block that the address was taken from. -/
theorem elementWrite_fits (fits : WorldFits w) (at_v : w.views[v]? = some view)
    (at_b : w.buffers[view.buffer]? = some buf) {p : Pointer}
    (fit : FrameFits w.buffers w.views w.nextAddr (.elementWrite v p))
    (same : p.block = buf.pointer.block) {bytes : List UInt8}
    (length : bytes.length = taElemSize view.cls)
    : WorldFits ((w.write view buf p bytes).finish .undefined) := by
  obtain ⟨found, foundBuf, addr, at_v', at_b', block, -, inside⟩ := fit
  obtain rfl := Option.some.inj (at_v.symm.trans at_v')
  obtain rfl := Option.some.inj (at_b.symm.trans at_b')
  obtain ⟨old, data, at_addr⟩ := Option.map_eq_some_iff.mp (same.symm.trans block)
  have live : buf.byteLength ≠ detachedLength := by
    intro gone
    rw [(fits.buffers _ buf at_b).detached gone] at data
    cases data
  refine (write_fits fits at_b ⟨same, live, ?_⟩).finish _
  rw [length]
  exact inside old data at_addr

end Boomkat.Correctness
