import Boomkat.Strings.Utf8
import Boomkat.Strings.StringHeap

/-! Offsets into strings: code units and bytes, with the cursor that the last answer leaves behind.
-/

namespace Boomkat.Strings

-----------------------------------------------------------------------------------------
-- Bytes
-----------------------------------------------------------------------------------------

def charlenNone : Nat := 2 ^ 32 - 1

def scanUnderflow : Nat := 2 ^ 32 - 1

/-- `check_is_ascii`, eight bytes at a time and then the rest. -/
def checkIsAscii : List UInt8 → Bool
  | b0 :: b1 :: b2 :: b3 :: b4 :: b5 :: b6 :: b7 :: rest =>
      if loadWord b0 b1 b2 b3 b4 b5 b6 b7 &&& 0x8080808080808080 != 0 then false
      else checkIsAscii rest
  | rest => rest.all (· < 0x80)

/-- The number of sequences, each of the length that its first byte gives. -/
def computeCharlen (data : List UInt8) : Nat :=
  match data with
  | [] => 0
  | b :: rest =>
      have _positive := utf8SeqLen_pos b
      computeCharlen ((b :: rest).drop (utf8SeqLen b)) + 1
termination_by data.length

/-- Forward over continuation bytes. -/
def skipForwards (data : List UInt8) (blen p : Nat) : Nat :=
  if p < blen ∧ isContinuation (data.getD p 0) then skipForwards data blen (p + 1) else p
termination_by blen - p

/-- `scan_forwards_n` with the remaining steps. -/
def scanForwardsN (data : List UInt8) (blen : Nat) : Nat → Nat → Nat
  | 0, p => p
  | n + 1, p =>
      if blen ≤ p then blen + 1 else scanForwardsN data blen n (skipForwards data blen (p + 1))

/-- Backward over continuation bytes. -/
def skipBackwards (data : List UInt8) : Nat → Nat
  | 0 => 0
  | p + 1 => if isContinuation (data.getD (p + 1) 0) then skipBackwards data p else p + 1

/-- `scan_backwards_n` with the remaining steps. -/
def scanBackwardsN (data : List UInt8) : Nat → Nat → Nat
  | 0, p => p
  | _ + 1, 0 => scanUnderflow
  | n + 1, p + 1 => scanBackwardsN data n (skipBackwards data p)

/-- The walk from the start that a scan beyond either end falls back to. -/
def walkUnits (data : List UInt8) : Nat → Nat → Nat
  | 0, byteOff => byteOff
  | n + 1, byteOff =>
      if byteOff < data.length then walkUnits data n (byteOff + utf8SeqLen (data.getD byteOff 0))
      else byteOff

-----------------------------------------------------------------------------------------
-- Strings
-----------------------------------------------------------------------------------------

/-- What the offsets of a string depend on. -/
structure OffsetString where
  data : List UInt8
  capacity : Nat
  isAscii : Bool
  cachedCharlen : Nat
  cachedCharOffset : Nat
  cachedByteOffset : Nat
deriving DecidableEq

def OffsetString.blen (s : OffsetString) : Nat := s.data.length

/-- `hstring_alloc_cap`, when there is memory. -/
def hstringAllocCap (data : List UInt8) (cap : Nat) : Option OffsetString :=
  if data.length > maxStringBytes || cap > maxStringBytes then none
  else
    some {
      data
      capacity := if cap < data.length then data.length else cap
      isAscii := checkIsAscii data
      cachedCharlen := charlenNone
      cachedCharOffset := 0
      cachedByteOffset := 0 }

def OffsetString.charLength (s : OffsetString) : Nat × OffsetString :=
  if s.isAscii then (s.blen, s)
  else if s.cachedCharlen ≠ charlenNone then (s.cachedCharlen, s)
  else
    let clen := computeCharlen s.data
    (clen, { s with cachedCharlen := clen, cachedCharOffset := clen, cachedByteOffset := s.blen })

/-- The scan from the nearest of the start, the end and the cursor. -/
def OffsetString.scanNearest (s : OffsetString) (charOffset charLength : Nat) : Nat :=
  let distStart := charOffset
  let distEnd := charLength - charOffset
  let distCache :=
    if charOffset > s.cachedCharOffset then charOffset - s.cachedCharOffset
    else s.cachedCharOffset - charOffset
  if s.cachedByteOffset ≤ s.blen && distCache ≤ distStart && distCache ≤ distEnd then
    if charOffset > s.cachedCharOffset then
      scanForwardsN s.data s.blen distCache s.cachedByteOffset
    else scanBackwardsN s.data distCache s.cachedByteOffset
  else if distStart ≤ distEnd then scanForwardsN s.data s.blen distStart 0
  else scanBackwardsN s.data distEnd s.blen

def OffsetString.charOffsetToByteOffset (s : OffsetString) (charOffset : Nat)
    : Nat × OffsetString :=
  if s.isAscii then (if charOffset ≥ s.blen then s.blen else charOffset, s)
  else if charOffset = s.cachedCharOffset then (s.cachedByteOffset, s)
  else
    let (charLength, s) := s.charLength
    if charOffset ≥ charLength then
      (s.blen, { s with cachedCharOffset := charLength, cachedByteOffset := s.blen })
    else
      let scanned := s.scanNearest charOffset charLength
      let byteOff :=
        if scanned = scanUnderflow ∨ scanned > s.blen then walkUnits s.data charOffset 0
        else scanned
      (byteOff, { s with cachedCharOffset := charOffset, cachedByteOffset := byteOff })

def OffsetString.byteOffsetToCharOffset (s : OffsetString) (byteOffset : Nat)
    : Nat × OffsetString :=
  let byteOffset := if byteOffset > s.blen then s.blen else byteOffset
  if s.isAscii then (byteOffset, s)
  else if byteOffset = s.cachedByteOffset then (s.cachedCharOffset, s)
  else
    let charOffset := computeCharlen (s.data.take byteOffset)
    (charOffset, { s with cachedCharOffset := charOffset, cachedByteOffset := byteOffset })

def OffsetString.tryAppendInPlace (s : OffsetString) (tail : List UInt8) : Bool × OffsetString :=
  if s.blen + tail.length > s.capacity then (false, s)
  else
    (true, { s with
      data := s.data ++ tail
      cachedCharlen := charlenNone
      cachedCharOffset := 0
      cachedByteOffset := 0
      isAscii := if s.isAscii && !checkIsAscii tail then false else s.isAscii })

-----------------------------------------------------------------------------------------
-- Calls
-----------------------------------------------------------------------------------------

/-- A call on a string, where what is appended is given as `τ`. -/
inductive OffsetCall (τ : Type)
  | charOffsetToByteOffset (charOffset : Nat)
  | byteOffsetToCharOffset (byteOffset : Nat)
  | charLength
  | tryAppendInPlace (tail : τ)

inductive OffsetAnswer
  | offset (n : Nat)
  | appended (fits : Bool)
deriving DecidableEq

def OffsetString.call (s : OffsetString) : OffsetCall (List UInt8) → OffsetAnswer × OffsetString
  | .charOffsetToByteOffset charOffset =>
      let (n, s) := s.charOffsetToByteOffset charOffset
      (.offset n, s)
  | .byteOffsetToCharOffset byteOffset =>
      let (n, s) := s.byteOffsetToCharOffset byteOffset
      (.offset n, s)
  | .charLength =>
      let (n, s) := s.charLength
      (.offset n, s)
  | .tryAppendInPlace tail =>
      let (fits, s) := s.tryAppendInPlace tail
      (.appended fits, s)

/-- The answers of calls one after the other. -/
def OffsetString.answers : OffsetString → List (OffsetCall (List UInt8)) → List OffsetAnswer
  | _, [] => []
  | s, call :: calls =>
      let (answer, s) := s.call call
      answer :: s.answers calls

end Boomkat.Strings
