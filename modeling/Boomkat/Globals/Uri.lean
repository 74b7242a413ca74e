import Boomkat.Foundation.GuardedLoop
import Boomkat.Strings.Utf8

/-! `encodeURI`, `decodeURI` and their component forms, `escape` and `unescape`, over the bytes of
strings. An exception is the outcome `none`.
-/

namespace Boomkat.Globals
open GuardedLoop Strings

/-- The loops run while less than this is in their buffer of 65536 bytes. -/
def outLimit : Nat := 65500

-----------------------------------------------------------------------------------------
-- Characters
-----------------------------------------------------------------------------------------

/-- An entry of the table of upper-case hexadecimal digits. -/
def upperHex (v : Nat) : UInt8 := if v < 10 then UInt8.ofNat (0x30 + v) else UInt8.ofNat (0x37 + v)

def uriEncodeByte (b : UInt8) : List UInt8 :=
  [0x25, upperHex (b.toNat >>> 4), upperHex (b.toNat &&& 0x0F)]

def isAlphanumeric (c : Nat) : Bool :=
  (0x41 ≤ c && c ≤ 0x5A) || (0x61 ≤ c && c ≤ 0x7A) || (0x30 ≤ c && c ≤ 0x39)

/-- Letters, digits and `-_.!~*'()`. -/
def uriIsUnreserved (c : UInt8) : Bool :=
  isAlphanumeric c.toNat || c == 0x2D || c == 0x5F || c == 0x2E || c == 0x21 || c == 0x7E
    || c == 0x2A || c == 0x27 || c == 0x28 || c == 0x29

/-- The characters `;,/?:@&=+$#`. -/
def uriExtraReserved (c : UInt8) : Bool :=
  c == 0x3B || c == 0x2C || c == 0x2F || c == 0x3F || c == 0x3A || c == 0x40 || c == 0x26
    || c == 0x3D || c == 0x2B || c == 0x24 || c == 0x23

def uriExtraNone (_c : UInt8) : Bool := false

/-- The value of a hexadecimal digit of either case, `none` for the `-1` of other characters. -/
def hexDigitVal (c : UInt8) : Option Nat :=
  if 0x30 ≤ c ∧ c ≤ 0x39 then some (c.toNat - 0x30)
  else if 0x41 ≤ c ∧ c ≤ 0x46 then some (c.toNat - 0x41 + 10)
  else if 0x61 ≤ c ∧ c ≤ 0x66 then some (c.toNat - 0x61 + 10)
  else none

-----------------------------------------------------------------------------------------
-- Encoding
-----------------------------------------------------------------------------------------

/-- The codepoint that is encoded, with what is behind it, from the unit at the start: a
surrogate pair is joined, and a lone surrogate has none.
-/
def uriCodepointAt (data : List UInt8) (lead : UInt8) : Option (UInt32 × List UInt8) :=
  if isHighSurrogate (decodeCodepoint data) then
    match data.drop (utf8SeqLen lead) with
    | [] => none
    | lead' :: behind =>
        if isLowSurrogate (decodeCodepoint (lead' :: behind)) then
          some (surrogatesToCodepoint (decodeCodepoint data) (decodeCodepoint (lead' :: behind)),
            (lead' :: behind).drop (utf8SeqLen lead'))
        else none
  else if isLowSurrogate (decodeCodepoint data) then none
  else some (decodeCodepoint data, data.drop (utf8SeqLen lead))

/-- The body of the loop of `uri_encode`. -/
def uriEncodeTurn (extraUnreserved : UInt8 → Bool)
    : List UInt8 → Option (List UInt8 × List UInt8)
  | [] => none
  | c :: rest =>
      if c < 0x80 ∧ (uriIsUnreserved c || extraUnreserved c) then some ([c], rest)
      else
        (uriCodepointAt (c :: rest) c).map fun found =>
          ((encodeCodepoint found.1).flatMap uriEncodeByte, found.2)

theorem drop_shorter (lead : UInt8) (rest : List UInt8)
    : ((lead :: rest).drop (utf8SeqLen lead)).length < (lead :: rest).length := by
  have positive := utf8SeqLen_pos lead
  rw [List.length_drop, List.length_cons]
  omega

theorem uriCodepointAt_shorter {lead : UInt8} {rest behind : List UInt8} {cp : UInt32}
    (found : uriCodepointAt (lead :: rest) lead = some (cp, behind))
    : behind.length < (lead :: rest).length := by
  have shorter := drop_shorter lead rest
  unfold uriCodepointAt at found
  split at found
  · split at found
    · cases found
    · rename_i lead' tail drops
      split at found
      · cases found
        have second := drop_shorter lead' tail
        rw [drops] at shorter
        omega
      · cases found
  · split at found
    · cases found
    · cases found
      exact shorter

def uriEncodeBody (extraUnreserved : UInt8 → Bool) : Body UInt8 UInt8 where
  step := uriEncodeTurn extraUnreserved
  shorter := by
    intro src emitted rest turn
    cases src with
    | nil => cases turn
    | cons c tail =>
        rw [uriEncodeTurn] at turn
        split at turn
        · cases turn
          exact Nat.lt_succ_self _
        · obtain ⟨found, codepoint, same⟩ := Option.map_eq_some_iff.mp turn
          cases same
          exact uriCodepointAt_shorter codepoint

def uriEncode (data : List UInt8) (extraUnreserved : UInt8 → Bool) : Option (List UInt8) :=
  (uriEncodeBody extraUnreserved).run outLimit [] data

-----------------------------------------------------------------------------------------
-- Decoding
-----------------------------------------------------------------------------------------

/-- The byte of a percent triplet at the start, with what is behind it. -/
def tripletAt : List UInt8 → Option (Nat × List UInt8)
  | percent :: c1 :: c2 :: rest =>
      if percent = 0x25 then
        match hexDigitVal c1, hexDigitVal c2 with
        | some d1, some d2 => some (d1 <<< 4 ||| d2, rest)
        | _, _ => none
      else none
  | _ => none

/-- The continuation bytes in the next triplets, with what is behind them. -/
def continuationsAt : Nat → List UInt8 → Option (List Nat × List UInt8)
  | 0, src => some ([], src)
  | n + 1, src =>
      match tripletAt src with
      | some (b, rest) =>
          if b < 0x80 ∨ 0xBF < b then none
          else (continuationsAt n rest).map fun (bytes, behind) => (b :: bytes, behind)
      | none => none

/-- The payload bits of continuation bytes below the bits of those before. -/
def payloadBits : Nat → List Nat → Nat
  | decoded, [] => decoded
  | decoded, b :: bytes => payloadBits (decoded ||| (b &&& 0x3F) <<< (6 * bytes.length)) bytes

/-- The length of a sequence from its first byte, for the bytes that start one. -/
def uriSeqLen (first : Nat) : Nat :=
  if first < 0xE0 then 2 else if first < 0xF0 then 3 else 4

/-- The least codepoint that needs a sequence of a length. -/
def minCodepoint (seqLen : Nat) : Nat :=
  if seqLen = 2 then 0x80 else if seqLen = 3 then 0x800 else 0x10000

/-- `uri_decode_sequence`: the codepoint of the percent triplets at the start, with what is
behind them. A read behind the end fails, as the checks of the length do.
-/
def uriDecodeSequence (src : List UInt8) : Option (Nat × List UInt8) :=
  match tripletAt src with
  | none => none
  | some (first, rest) =>
      if first < 0x80 then some (first, rest)
      else if first < 0xC2 ∨ 0xF4 < first then none
      else
        match continuationsAt (uriSeqLen first - 1) rest with
        | none => none
        | some (bytes, behind) =>
            let decoded :=
              payloadBits
                ((first &&& (0xFF >>> uriSeqLen first)) <<< (6 * (uriSeqLen first - 1))) bytes
            if decoded < minCodepoint (uriSeqLen first) ∨ 0x10FFFF < decoded then none
            else if isSurrogate (UInt32.ofNat decoded) then none
            else some (decoded, behind)

/-- `encode_codepoint_cesu8`. -/
def encodeCesu8 (cp : UInt32) : List UInt8 :=
  if cp < 0x10000 then encodeCodepoint cp
  else if 0x10FFFF < cp then []
  else encodeCodepointCesu8 cp

def uriDecodeEmit (cp : Nat) : List UInt8 := encodeCesu8 (UInt32.ofNat cp)

/-- The characters that `decodeURI` leaves encoded: `#$&+,/:;=?@`. -/
def reservedBytes : List Nat :=
  [0x23, 0x24, 0x26, 0x2B, 0x2C, 0x2F, 0x3A, 0x3B, 0x3D, 0x3F, 0x40]

/-- Whether a triplet stays as it is. -/
def keepsTriplet (preserveReserved : Bool) (src : List UInt8) : Bool :=
  preserveReserved && (tripletAt src).any fun found => reservedBytes.contains found.1

/-- The body of the loop of `uri_decode`. -/
def uriDecodeTurn (preserveReserved : Bool) : List UInt8 → Option (List UInt8 × List UInt8)
  | [] => none
  | c :: rest =>
      if c ≠ 0x25 then some ([c], rest)
      else if keepsTriplet preserveReserved (c :: rest) then
        some (0x25 :: rest.take 2, rest.drop 2)
      else (uriDecodeSequence (c :: rest)).map fun found => (uriDecodeEmit found.1, found.2)

theorem tripletAt_shorter {src rest : List UInt8} {b : Nat}
    (found : tripletAt src = some (b, rest))
    : rest.length < src.length := by
  unfold tripletAt at found
  split at found
  · split at found
    · split at found
      · cases found
        simp only [List.length_cons]
        omega
      · cases found
    · cases found
  · cases found

theorem continuationsAt_shorter {n : Nat} {src behind : List UInt8} {bytes : List Nat}
    (found : continuationsAt n src = some (bytes, behind))
    : behind.length ≤ src.length := by
  induction n generalizing src bytes with
  | zero =>
      cases found
      exact Nat.le_refl _
  | succ n ih =>
      unfold continuationsAt at found
      split at found
      · rename_i b rest triplet
        split at found
        · cases found
        · obtain ⟨⟨more, last⟩, others, same⟩ := Option.map_eq_some_iff.mp found
          cases same
          exact Nat.le_trans (ih others) (Nat.le_of_lt (tripletAt_shorter triplet))
      · cases found

theorem uriDecodeSequence_shorter {src behind : List UInt8} {cp : Nat}
    (found : uriDecodeSequence src = some (cp, behind))
    : behind.length < src.length := by
  unfold uriDecodeSequence at found
  split at found
  · cases found
  · rename_i first rest triplet
    have shorter := tripletAt_shorter triplet
    split at found
    · cases found
      exact shorter
    split at found
    · cases found
    split at found
    · cases found
    · rename_i bytes tail others
      dsimp only at found
      split at found
      · cases found
      split at found
      · cases found
      · cases found
        exact Nat.lt_of_le_of_lt (continuationsAt_shorter others) shorter

def uriDecodeBody (preserveReserved : Bool) : Body UInt8 UInt8 where
  step := uriDecodeTurn preserveReserved
  shorter := by
    intro src emitted rest turn
    cases src with
    | nil => cases turn
    | cons c tail =>
        rw [uriDecodeTurn] at turn
        split at turn
        · cases turn
          exact Nat.lt_succ_self _
        split at turn
        · cases turn
          rw [List.length_drop, List.length_cons]
          omega
        · obtain ⟨found, sequence, same⟩ := Option.map_eq_some_iff.mp turn
          cases same
          exact uriDecodeSequence_shorter sequence

def uriDecode (data : List UInt8) (preserveReserved : Bool) : Option (List UInt8) :=
  (uriDecodeBody preserveReserved).run outLimit [] data

-----------------------------------------------------------------------------------------
-- Escaping
-----------------------------------------------------------------------------------------

/-- Letters, digits and `@*_+-./`. -/
def escapeIsUnescaped (unit : Nat) : Bool :=
  isAlphanumeric unit || unit == 0x40 || unit == 0x2A || unit == 0x5F || unit == 0x2B
    || unit == 0x2D || unit == 0x2E || unit == 0x2F

def escapeEmitHex (value : Nat) : Nat → List UInt8
  | 0 => []
  | digits + 1 => upperHex (value >>> (4 * digits) &&& 0x0F) :: escapeEmitHex value digits

/-- What `escape` writes for a code unit. -/
def escapeEmit (unit : Nat) : List UInt8 :=
  if escapeIsUnescaped unit then [UInt8.ofNat unit]
  else if unit < 256 then 0x25 :: escapeEmitHex unit 2
  else 0x25 :: 0x75 :: escapeEmitHex unit 4

def escapeBody : Body UInt8 UInt8 where
  step
    | [] => none
    | lead :: rest =>
        some (escapeEmit (decodeCodepoint (lead :: rest)).toNat,
          (lead :: rest).drop (utf8SeqLen lead))
  shorter := by
    intro src emitted rest turn
    cases src with
    | nil => cases turn
    | cons lead tail =>
        cases turn
        exact drop_shorter lead tail

/-- The unit of a `%uXXXX` at the start, with what is behind it. -/
def unicodeEscapeAt : List UInt8 → Option (Nat × List UInt8)
  | percent :: u :: c1 :: c2 :: c3 :: c4 :: rest =>
      if percent = 0x25 ∧ u = 0x75 then
        match hexDigitVal c1, hexDigitVal c2, hexDigitVal c3, hexDigitVal c4 with
        | some d1, some d2, some d3, some d4 =>
            some (d1 <<< 12 ||| d2 <<< 8 ||| d3 <<< 4 ||| d4, rest)
        | _, _, _, _ => none
      else none
  | _ => none

/-- The body of the loop of `builtin_unescape`. -/
def unescapeTurn : List UInt8 → Option (List UInt8 × List UInt8)
  | [] => none
  | c :: rest =>
      if c ≠ 0x25 then
        some ((c :: rest).take (utf8SeqLen c), (c :: rest).drop (utf8SeqLen c))
      else
        match unicodeEscapeAt (c :: rest) with
        | some (unit, behind) => some (uriDecodeEmit unit, behind)
        | none =>
            match tripletAt (c :: rest) with
            | some (unit, behind) => some (uriDecodeEmit unit, behind)
            | none => some ([0x25], rest)

theorem unicodeEscapeAt_shorter {src rest : List UInt8} {unit : Nat}
    (found : unicodeEscapeAt src = some (unit, rest))
    : rest.length < src.length := by
  unfold unicodeEscapeAt at found
  split at found
  · split at found
    · split at found
      · cases found
        simp only [List.length_cons]
        omega
      · cases found
    · cases found
  · cases found

def unescapeBody : Body UInt8 UInt8 where
  step := unescapeTurn
  shorter := by
    intro src emitted rest turn
    cases src with
    | nil => cases turn
    | cons c tail =>
        rw [unescapeTurn] at turn
        split at turn
        · cases turn
          exact drop_shorter c tail
        split at turn
        · rename_i unicode
          cases turn
          exact unicodeEscapeAt_shorter unicode
        split at turn
        · rename_i triplet
          cases turn
          exact tripletAt_shorter triplet
        · cases turn
          exact Nat.lt_succ_self _

-----------------------------------------------------------------------------------------
-- The functions
-----------------------------------------------------------------------------------------

/-- The argument of a call after its conversion to a string. -/
inductive StringArgument
  | absent
  | unreadable
  | text (data : List UInt8)

def undefinedText : List UInt8 := [0x75, 0x6E, 0x64, 0x65, 0x66, 0x69, 0x6E, 0x65, 0x64]

/-- The result of a function for an argument: `"undefined"` without one, the empty string where
the conversion has no string, and else what it computes from the text.
-/
def StringArgument.result (argument : StringArgument)
    (compute : List UInt8 → Option (List UInt8))
    : Option (List UInt8) :=
  match argument with
  | .absent => some undefinedText
  | .unreadable => some []
  | .text data => compute data

def builtinEncodeUri (argument : StringArgument) : Option (List UInt8) :=
  argument.result fun data => uriEncode data uriExtraReserved

def builtinEncodeUriComponent (argument : StringArgument) : Option (List UInt8) :=
  argument.result fun data => uriEncode data uriExtraNone

def builtinDecodeUri (argument : StringArgument) : Option (List UInt8) :=
  argument.result fun data => uriDecode data true

def builtinDecodeUriComponent (argument : StringArgument) : Option (List UInt8) :=
  argument.result fun data => uriDecode data false

def builtinEscape (argument : StringArgument) : Option (List UInt8) :=
  argument.result (escapeBody.run outLimit [])

def builtinUnescape (argument : StringArgument) : Option (List UInt8) :=
  argument.result (unescapeBody.run outLimit [])

end Boomkat.Globals
