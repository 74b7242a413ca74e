import Boomkat.Correctness.OffsetScan

/-! The offsets that a string answers with a cursor are those of plain scans from its start. -/

namespace Boomkat.Correctness
open Strings Utf8

-----------------------------------------------------------------------------------------
-- ASCII strings
-----------------------------------------------------------------------------------------

/-- The mask of the high bits acts on each byte of a word. -/
theorem highBits_loadWord (b0 b1 b2 b3 b4 b5 b6 b7 : UInt8)
    : loadWord b0 b1 b2 b3 b4 b5 b6 b7 &&& 0x8080808080808080
      = loadWord (b0 &&& 0x80) (b1 &&& 0x80) (b2 &&& 0x80) (b3 &&& 0x80) (b4 &&& 0x80)
        (b5 &&& 0x80) (b6 &&& 0x80) (b7 &&& 0x80) := by
  have mask : (0x8080808080808080 : BitVec 64)
      = loadWord 0x80 0x80 0x80 0x80 0x80 0x80 0x80 0x80 := by decide
  rw [mask, and_loadWord]

theorem highBit_iff (b : UInt8) : (b &&& 0x80).toNat = 0 ↔ b < 0x80 := by
  have all : ∀ n < 256, (n &&& 128 = 0 ↔ n < 128) := by decide +kernel
  rw [UInt8.toNat_and, UInt8.lt_iff_toNat_lt]
  exact all b.toNat b.toNat_lt

/-- The test by words sees what a test by bytes sees. -/
theorem checkIsAscii_eq (data : List UInt8) : checkIsAscii data = data.all (· < 0x80) := by
  induction data using checkIsAscii.induct with
  | case1 b0 b1 b2 b3 b4 b5 b6 b7 rest high =>
      rw [checkIsAscii, if_pos high, eq_comm, ← Bool.not_eq_true]
      intro low
      simp only [List.all_cons, Bool.and_eq_true, decide_eq_true_eq, ← highBit_iff] at low
      obtain ⟨z0, z1, z2, z3, z4, z5, z6, z7, -⟩ := low
      rw [bne_iff_ne, highBits_loadWord] at high
      refine high (BitVec.eq_of_toNat_eq ?_)
      rw [toNat_loadWord, z0, z1, z2, z3, z4, z5, z6, z7]
      rfl
  | case2 b0 b1 b2 b3 b4 b5 b6 b7 rest low ih =>
      rw [checkIsAscii, if_neg low, ih]
      have word : loadWord b0 b1 b2 b3 b4 b5 b6 b7 &&& 0x8080808080808080 = 0 := by
        simpa using low
      have none := congrArg BitVec.toNat word
      rw [highBits_loadWord, toNat_loadWord] at none
      change ofBytes _ _ _ _ _ _ _ _ = 0 at none
      unfold ofBytes at none
      have ascii {b : UInt8} (clear : (b &&& 0x80).toNat = 0) : decide (b < 0x80) = true :=
        decide_eq_true ((highBit_iff b).mp clear)
      simp only [List.all_cons, ascii (b := b0) (by omega), ascii (b := b1) (by omega),
        ascii (b := b2) (by omega), ascii (b := b3) (by omega), ascii (b := b4) (by omega),
        ascii (b := b5) (by omega), ascii (b := b6) (by omega), ascii (b := b7) (by omega),
        Bool.true_and]
  | case3 data short =>
      rw [checkIsAscii.eq_def]
      split
      · rename_i b0 b1 b2 b3 b4 b5 b6 b7 rest
        exact absurd rfl (short b0 b1 b2 b3 b4 b5 b6 b7 rest)
      · rfl

theorem isAstralLead_range (b : UInt8) : isAstralLead b = true ↔ 0xF0 ≤ b ∧ b ≤ 0xF7 := by
  have all : ∀ n < 256, (n &&& 248 = 240 ↔ 240 ≤ n ∧ n ≤ 247) := by decide +kernel
  rw [isAstralLead, beq_iff_eq, ← UInt8.toNat_inj, UInt8.toNat_and, UInt8.le_iff_toNat_le,
    UInt8.le_iff_toNat_le]
  exact all b.toNat b.toNat_lt

/-- The scans by words find what a look at each byte finds, at whatever place in a word or behind the
last one.
-/
theorem wordScans_exact (data : List UInt8)
    : (checkIsAscii data = true ↔ ∀ i (inside : i < data.length), data[i] < 0x80)
      ∧ (hasRawUtf8AstralWords data = true
        ↔ ∃ i, ∃ inside : i < data.length, 0xF0 ≤ data[i] ∧ data[i] ≤ 0xF7) := by
  constructor
  · rw [checkIsAscii_eq, List.all_eq_true, List.forall_mem_iff_forall_getElem]
    simp only [decide_eq_true_eq]
  · rw [hasRawUtf8AstralWords_eq, hasRawUtf8Astral, List.any_eq_true]
    constructor
    · rintro ⟨b, member, lead⟩
      obtain ⟨i, inside, rfl⟩ := List.getElem_of_mem member
      exact ⟨i, inside, (isAstralLead_range _).mp lead⟩
    · rintro ⟨i, inside, range⟩
      exact ⟨data[i], List.getElem_mem inside, (isAstralLead_range _).mpr range⟩

/-- Each unit is one byte exactly if all bytes are ASCII. -/
theorem checkIsAscii_canonical (us : List UInt16)
    : checkIsAscii (canonical us) = true ↔ ∀ u ∈ us, u.toNat < 0x80 := by
  rw [checkIsAscii_eq, List.all_eq_true]
  simp only [decide_eq_true_eq]
  constructor
  · intro ascii u member
    by_contra high
    rw [Nat.not_lt] at high
    obtain ⟨lead, tails, is, -⟩ := sequence_lead (toNat_bound u)
    have inside : lead ∈ sequence u.toNat := by
      rw [is]
      exact List.mem_cons_self
    have large := sequence_high (toNat_bound u) high lead inside
    have small := ascii lead (List.mem_flatMap.mpr ⟨u, member, inside⟩)
    rw [ascii_iff] at small
    omega
  · intro ascii b member
    obtain ⟨u, inside, here⟩ := List.mem_flatMap.mp member
    have small := ascii u inside
    rw [Utf8.sequence, if_pos small, List.mem_singleton] at here
    rw [ascii_iff, here, toNat_ofNat (by omega)]
    exact small

theorem forwardScan_ascii {us : List UInt16} (ascii : ∀ u ∈ us, u.toNat < 0x80) (n : Nat)
    : forwardScan us n = min n us.length := by
  induction us generalizing n with
  | nil => simp [forwardScan]
  | cons u us ih =>
      cases n with
      | zero => simp [forwardScan]
      | succ n =>
          have one : (sequence u.toNat).length = 1 := by
            rw [Utf8.sequence, if_pos (ascii u List.mem_cons_self)]
            rfl
          rw [forwardScan, one, ih fun v member => ascii v (List.mem_cons_of_mem u member),
            List.length_cons]
          omega

-----------------------------------------------------------------------------------------
-- The cursor
-----------------------------------------------------------------------------------------

/-- The string is stored as these units, and the cursor is at the boundary of one of them. -/
structure OffsetsFit (s : OffsetString) (us : List UInt16) : Prop where
  data : s.data = canonical us
  ascii : s.isAscii = true ↔ ∀ u ∈ us, u.toNat < 0x80
  charlen : s.cachedCharlen = charlenNone ∨ s.cachedCharlen = us.length
  within : s.cachedCharOffset ≤ us.length
  cursor : s.cachedByteOffset = forwardScan us s.cachedCharOffset

variable {s : OffsetString} {us : List UInt16}

theorem OffsetsFit.blen_eq (fits : OffsetsFit s us) : s.blen = (canonical us).length := by
  rw [OffsetString.blen, fits.data]

/-- The cursor may be moved to any boundary. -/
theorem OffsetsFit.moved (fits : OffsetsFit s us) {k : Nat} (inside : k ≤ us.length)
    : OffsetsFit { s with cachedCharOffset := k, cachedByteOffset := forwardScan us k } us where
  data := fits.data
  ascii := fits.ascii
  charlen := fits.charlen
  within := inside
  cursor := rfl

theorem length_ascii (ascii : ∀ u ∈ us, u.toNat < 0x80) : (canonical us).length = us.length := by
  rw [← forwardScan_length, forwardScan_ascii ascii, Nat.min_self]

theorem charLength_fits (fits : OffsetsFit s us)
    : s.charLength.1 = us.length ∧ OffsetsFit s.charLength.2 us
      ∧ s.charLength.2.capacity = s.capacity := by
  unfold OffsetString.charLength
  split
  · rename_i ascii
    exact ⟨by rw [fits.blen_eq, length_ascii (fits.ascii.mp ascii)], fits, rfl⟩
  split
  · rename_i known
    exact ⟨fits.charlen.resolve_left known, fits, rfl⟩
  · have clen : computeCharlen s.data = us.length := by rw [fits.data, computeCharlen_canonical]
    refine ⟨clen, ?_, rfl⟩
    exact {
      data := fits.data
      ascii := fits.ascii
      charlen := .inr clen
      within := Nat.le_of_eq clen
      cursor := by
        dsimp only
        rw [clen, forwardScan_length, fits.blen_eq] }

/-- The scan from whichever origin is nearest ends at the offset of the unit. -/
theorem scanNearest_scan (fits : OffsetsFit s us) {n : Nat} (inside : n < us.length)
    : s.scanNearest n us.length = forwardScan us n := by
  have within := fits.within
  have fromStart := scanForwardsN_units us 0 n (by omega)
  have fromEnd := scanBackwardsN_units us n (us.length - n) (by omega)
  rw [Nat.zero_add, forwardScan_zero] at fromStart
  rw [Nat.add_sub_of_le (by omega), forwardScan_length] at fromEnd
  unfold OffsetString.scanNearest
  dsimp only
  rw [fits.blen_eq, fits.data, fits.cursor, fromStart, fromEnd, ite_self]
  rcases Nat.lt_or_ge s.cachedCharOffset n with ahead | behind
  · have fromCursor := scanForwardsN_units us s.cachedCharOffset (n - s.cachedCharOffset) (by omega)
    rw [Nat.add_sub_of_le (Nat.le_of_lt ahead)] at fromCursor
    rw [if_pos ahead, if_pos ahead, fromCursor, ite_self]
  · have fromCursor := scanBackwardsN_units us n (s.cachedCharOffset - n) (by omega)
    rw [Nat.add_sub_of_le behind] at fromCursor
    rw [if_neg (Nat.not_lt.mpr behind), if_neg (Nat.not_lt.mpr behind), fromCursor, ite_self]

theorem charOffsetToByteOffset_fits (fits : OffsetsFit s us) (n : Nat)
    : (s.charOffsetToByteOffset n).1 = forwardScan us n
      ∧ OffsetsFit (s.charOffsetToByteOffset n).2 us
      ∧ (s.charOffsetToByteOffset n).2.capacity = s.capacity := by
  obtain ⟨clen, fits', capacity⟩ := charLength_fits fits
  unfold OffsetString.charOffsetToByteOffset
  split
  · rename_i ascii
    have units := fits.ascii.mp ascii
    refine ⟨?_, fits, rfl⟩
    dsimp only
    rw [fits.blen_eq, length_ascii units, forwardScan_ascii units]
    split <;> omega
  split
  · rename_i hit
    exact ⟨by rw [hit, fits.cursor], fits, rfl⟩
  dsimp only
  rw [clen]
  split
  · rename_i beyond
    have last := fits'.moved (Nat.le_refl us.length)
    rw [forwardScan_length, ← fits'.blen_eq] at last
    exact ⟨by rw [forwardScan_beyond beyond, fits'.blen_eq], last, capacity⟩
  · rename_i inside
    have scanned := scanNearest_scan fits' (by omega : n < us.length)
    have walked := walkUnits_units us 0 n (by omega)
    rw [Nat.zero_add, forwardScan_zero] at walked
    have either : (if s.charLength.2.scanNearest n us.length = scanUnderflow
          ∨ s.charLength.2.scanNearest n us.length > s.charLength.2.blen
        then walkUnits s.charLength.2.data n 0 else s.charLength.2.scanNearest n us.length)
        = forwardScan us n := by
      rw [scanned, fits'.data, walked, ite_self]
    rw [either]
    exact ⟨rfl, fits'.moved (by omega), capacity⟩

/-- The byte offset is the boundary of a unit, or it is beyond the end. -/
def OnBoundary (us : List UInt16) (b : Nat) : Prop :=
  ∃ k, min b (canonical us).length = forwardScan us k

theorem forwardCount_beyond {b : Nat} (beyond : (canonical us).length ≤ b)
    : forwardCount us b = us.length := by
  induction us generalizing b with
  | nil => rfl
  | cons u us ih =>
      obtain ⟨lead, tails, is, -⟩ := sequence_lead (toNat_bound u)
      rw [canonical_cons, List.length_append] at beyond
      have some : b ≠ 0 := by
        rw [is, List.length_cons] at beyond
        omega
      rw [forwardCount, if_neg some, ih (by omega), List.length_cons]

theorem forwardCount_min (us : List UInt16) (b : Nat)
    : forwardCount us (min b (canonical us).length) = forwardCount us b := by
  rcases Nat.le_total b (canonical us).length with inside | beyond
  · rw [Nat.min_eq_left inside]
  · rw [Nat.min_eq_right beyond, forwardCount_beyond beyond, forwardCount_beyond (Nat.le_refl _)]

theorem byteOffsetToCharOffset_fits (fits : OffsetsFit s us) {b : Nat} (boundary : OnBoundary us b)
    : (s.byteOffsetToCharOffset b).1 = forwardCount us b
      ∧ OffsetsFit (s.byteOffsetToCharOffset b).2 us
      ∧ (s.byteOffsetToCharOffset b).2.capacity = s.capacity := by
  obtain ⟨k, inside, position⟩ : ∃ k ≤ us.length, min b (canonical us).length = forwardScan us k := by
    obtain ⟨k, position⟩ := boundary
    rcases Nat.le_total k us.length with inside | beyond
    · exact ⟨k, inside, position⟩
    · exact ⟨us.length, Nat.le_refl _, by
        rw [position, forwardScan_beyond beyond, forwardScan_length]⟩
  have count : forwardCount us b = k := by
    rw [← forwardCount_min, position, forwardCount_scan inside]
  have clamped : (if b > s.blen then s.blen else b) = forwardScan us k := by
    rw [fits.blen_eq, ← position]
    split <;> omega
  unfold OffsetString.byteOffsetToCharOffset
  dsimp only
  rw [clamped, count]
  split
  · rename_i ascii
    exact ⟨by rw [forwardScan_ascii (fits.ascii.mp ascii), Nat.min_eq_left inside], fits, rfl⟩
  split
  · rename_i hit
    refine ⟨?_, fits, rfl⟩
    rw [← forwardCount_scan fits.within, ← fits.cursor, ← hit, forwardCount_scan inside]
  · have front : computeCharlen (s.data.take (forwardScan us k)) = k := by
      rw [fits.data, computeCharlen_prefix inside]
    rw [front]
    exact ⟨rfl, fits.moved inside, rfl⟩

/-- An append starts the cursor anew. -/
theorem tryAppendInPlace_fits (fits : OffsetsFit s us) (tail : List UInt16)
    : if (canonical (us ++ tail)).length ≤ s.capacity then
        (s.tryAppendInPlace (canonical tail)).1 = true
          ∧ OffsetsFit (s.tryAppendInPlace (canonical tail)).2 (us ++ tail)
          ∧ (s.tryAppendInPlace (canonical tail)).2.capacity = s.capacity
      else s.tryAppendInPlace (canonical tail) = (false, s) := by
  unfold OffsetString.tryAppendInPlace
  rw [fits.blen_eq, canonical_append, List.length_append]
  split
  · rename_i room
    rw [if_neg (Nat.not_lt.mpr room)]
    refine ⟨rfl, ?_, rfl⟩
    exact {
      data := by
        dsimp only
        rw [fits.data, canonical_append]
      ascii := by
        have before := fits.ascii
        have after := checkIsAscii_canonical tail
        dsimp only
        rw [List.forall_mem_append, ← before, ← after]
        cases s.isAscii <;> cases checkIsAscii (canonical tail) <;> simp
      charlen := .inl rfl
      within := Nat.zero_le _
      cursor := (forwardScan_zero _).symm }
  · rename_i full
    rw [if_pos (by omega)]

-----------------------------------------------------------------------------------------
-- Calls
-----------------------------------------------------------------------------------------

/-- A string of code units without a cursor. -/
structure PlainString where
  units : List UInt16
  capacity : Nat

/-- Each call scans from the start. -/
def PlainString.call (s : PlainString) : OffsetCall (List UInt16) → OffsetAnswer × PlainString
  | .charOffsetToByteOffset charOffset => (.offset (forwardScan s.units charOffset), s)
  | .byteOffsetToCharOffset byteOffset => (.offset (forwardCount s.units byteOffset), s)
  | .charLength => (.offset s.units.length, s)
  | .tryAppendInPlace tail =>
      if (canonical (s.units ++ tail)).length ≤ s.capacity then
        (.appended true, { s with units := s.units ++ tail })
      else (.appended false, s)

def PlainString.answers : PlainString → List (OffsetCall (List UInt16)) → List OffsetAnswer
  | _, [] => []
  | s, call :: calls => (s.call call).1 :: (s.call call).2.answers calls

/-- The bytes that are appended for units. -/
def encodedCall : OffsetCall (List UInt16) → OffsetCall (List UInt8)
  | .charOffsetToByteOffset charOffset => .charOffsetToByteOffset charOffset
  | .byteOffsetToCharOffset byteOffset => .byteOffsetToCharOffset byteOffset
  | .charLength => .charLength
  | .tryAppendInPlace tail => .tryAppendInPlace (canonical tail)

/-- Byte offsets are given on boundaries of the string as it is at the call. -/
def OnBoundaries : PlainString → List (OffsetCall (List UInt16)) → Prop
  | _, [] => True
  | s, call :: calls =>
      (∀ b, call = .byteOffsetToCharOffset b → OnBoundary s.units b)
        ∧ OnBoundaries (s.call call).2 calls

/-- One call answers as the plain string does and leaves a cursor that fits. -/
theorem call_fits {plain : PlainString} (fits : OffsetsFit s plain.units)
    (capacity : s.capacity = plain.capacity) {call : OffsetCall (List UInt16)}
    (boundary : ∀ b, call = .byteOffsetToCharOffset b → OnBoundary plain.units b)
    : (s.call (encodedCall call)).1 = (plain.call call).1
      ∧ OffsetsFit (s.call (encodedCall call)).2 (plain.call call).2.units
      ∧ (s.call (encodedCall call)).2.capacity = (plain.call call).2.capacity := by
  cases call with
  | charOffsetToByteOffset n =>
      obtain ⟨answer, fits', same⟩ := charOffsetToByteOffset_fits fits n
      exact ⟨congrArg _ answer, fits', same.trans capacity⟩
  | byteOffsetToCharOffset b =>
      obtain ⟨answer, fits', same⟩ := byteOffsetToCharOffset_fits fits (boundary b rfl)
      exact ⟨congrArg _ answer, fits', same.trans capacity⟩
  | charLength =>
      obtain ⟨answer, fits', same⟩ := charLength_fits fits
      exact ⟨congrArg _ answer, fits', same.trans capacity⟩
  | tryAppendInPlace tail =>
      have appended := tryAppendInPlace_fits fits tail
      rw [capacity] at appended
      simp only [encodedCall, OffsetString.call, PlainString.call]
      split
      · rename_i room
        rw [if_pos room] at appended
        obtain ⟨answer, fits', same⟩ := appended
        exact ⟨congrArg _ answer, fits', same⟩
      · rename_i full
        rw [if_neg full] at appended
        rw [appended]
        exact ⟨rfl, fits, capacity⟩

theorem answers_fits {plain : PlainString} (fits : OffsetsFit s plain.units)
    (capacity : s.capacity = plain.capacity) {calls : List (OffsetCall (List UInt16))}
    (boundaries : OnBoundaries plain calls)
    : s.answers (calls.map encodedCall) = plain.answers calls := by
  induction calls generalizing s plain with
  | nil => rfl
  | cons call calls ih =>
      obtain ⟨answer, fits', same⟩ := call_fits fits capacity boundaries.1
      rw [List.map_cons, OffsetString.answers, PlainString.answers, ← answer,
        ← ih fits' same boundaries.2]

theorem hstringAllocCap_fits {cap : Nat} (allocated : hstringAllocCap (canonical us) cap = some s)
    : OffsetsFit s us := by
  unfold hstringAllocCap at allocated
  split at allocated
  · cases allocated
  · cases allocated
    exact {
      data := rfl
      ascii := checkIsAscii_canonical us
      charlen := .inl rfl
      within := Nat.zero_le _
      cursor := (forwardScan_zero _).symm }

/-- Whatever calls came before, each call on a canonical string answers as a scan from its start
does. Witness: the cursor that a call leaves is at the boundary of a unit, and from each origin
the scan ends at the same boundary.
-/
theorem offsets_scan {cap : Nat} (allocated : hstringAllocCap (canonical us) cap = some s)
    (calls : List (OffsetCall (List UInt16))) (boundaries : OnBoundaries ⟨us, s.capacity⟩ calls)
    : s.answers (calls.map encodedCall) = PlainString.answers ⟨us, s.capacity⟩ calls :=
  answers_fits (hstringAllocCap_fits allocated) rfl boundaries

/-- Queries around an append, on a string of two units with room for six more bytes. -/
theorem offsets_scan_append
    : ∃ s, hstringAllocCap (canonical [0x20AC, 0x41]) 10 = some s
      ∧ s.answers ([.charLength, .charOffsetToByteOffset 1, .byteOffsetToCharOffset 4,
          .tryAppendInPlace [0xD83D, 0xDE00], .charOffsetToByteOffset 3,
          .byteOffsetToCharOffset 3].map encodedCall)
        = [.offset 2, .offset 3, .offset 2, .appended true, .offset 7, .offset 1] := by
  have allocated : hstringAllocCap (canonical [0x20AC, 0x41]) 10 = some _ := rfl
  refine ⟨_, allocated, (offsets_scan allocated _ ?_).trans rfl⟩
  refine ⟨nofun, nofun, ?_, nofun, nofun, ?_, trivial⟩
  · rintro b ⟨rfl⟩
    exact ⟨2, rfl⟩
  · rintro b ⟨rfl⟩
    exact ⟨1, rfl⟩

end Boomkat.Correctness
