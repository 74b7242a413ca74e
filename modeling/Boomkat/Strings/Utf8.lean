import Boomkat.Strings.Encoding

/-! Decoding and encoding of codepoints in the bytes of strings, the scan for four-byte sequences
by words, and the text that leaves the engine.
-/

namespace Boomkat.Strings

-----------------------------------------------------------------------------------------
-- Codepoints
-----------------------------------------------------------------------------------------

def unicodeReplacement : UInt32 := 0xFFFD

/-- The length of a sequence from its first byte. An unexpected continuation byte is one. -/
def utf8SeqLen (lead : UInt8) : Nat :=
  if lead < 0x80 then 1
  else if lead &&& 0xE0 == 0xC0 then 2
  else if lead &&& 0xF0 == 0xE0 then 3
  else if lead &&& 0xF8 == 0xF0 then 4
  else 1

theorem utf8SeqLen_pos (lead : UInt8) : 0 < utf8SeqLen lead := by
  unfold utf8SeqLen
  split
  · decide
  split
  · decide
  split
  · decide
  split <;> decide

/-- The codepoint at the start of what is left of the bytes. -/
def decodeCodepoint : List UInt8 → UInt32
  | [] => unicodeReplacement
  | b0 :: tail =>
      if b0 < 0x80 then b0.toUInt32
      else if b0 &&& 0xE0 == 0xC0 then
        match tail with
        | b1 :: _ =>
            if !isContinuation b1 then unicodeReplacement
            else
              let cp := (b0.toUInt32 &&& 0x1F) <<< 6 ||| (b1.toUInt32 &&& 0x3F)
              -- An overlong sequence.
              if cp < 0x80 then unicodeReplacement else cp
        | _ => unicodeReplacement
      else if b0 &&& 0xF0 == 0xE0 then
        match tail with
        | b1 :: b2 :: _ =>
            if !isContinuation b1 || !isContinuation b2 then unicodeReplacement
            else
              let cp :=
                (b0.toUInt32 &&& 0x0F) <<< 12 ||| (b1.toUInt32 &&& 0x3F) <<< 6
                  ||| (b2.toUInt32 &&& 0x3F)
              if cp < 0x800 then unicodeReplacement else cp
        | _ => unicodeReplacement
      else if b0 &&& 0xF8 == 0xF0 then
        match tail with
        | b1 :: b2 :: b3 :: _ => (decodeAstral b0 b1 b2 b3).getD unicodeReplacement
        | _ => unicodeReplacement
      else unicodeReplacement

/-- The cast `(char)` of a word. -/
def toChar (x : UInt32) : UInt8 := x.toUInt8

/-- The bytes of a codepoint, none beyond the last one. -/
def encodeCodepoint (cp : UInt32) : List UInt8 :=
  if cp < 0x80 then [toChar cp]
  else if cp < 0x800 then [toChar (cp >>> 6 ||| 0xC0), toChar (cp &&& 0x3F ||| 0x80)]
  else if cp < 0x10000 then
    [toChar (cp >>> 12 ||| 0xE0), toChar (cp >>> 6 &&& 0x3F ||| 0x80),
      toChar (cp &&& 0x3F ||| 0x80)]
  else if cp ≤ 0x10FFFF then
    [toChar (cp >>> 18 ||| 0xF0), toChar (cp >>> 12 &&& 0x3F ||| 0x80),
      toChar (cp >>> 6 &&& 0x3F ||| 0x80), toChar (cp &&& 0x3F ||| 0x80)]
  else []

-----------------------------------------------------------------------------------------
-- Surrogates
-----------------------------------------------------------------------------------------

def isSurrogate (cp : UInt32) : Bool := 0xD800 ≤ cp && cp ≤ 0xDFFF

def isHighSurrogate (cp : UInt32) : Bool := 0xD800 ≤ cp && cp ≤ 0xDBFF

def isLowSurrogate (cp : UInt32) : Bool := 0xDC00 ≤ cp && cp ≤ 0xDFFF

def surrogatesToCodepoint (high low : UInt32) : UInt32 :=
  (high - 0xD800) <<< 10 + 0x10000 + (low - 0xDC00)

/-- The astral codepoint of a surrogate pair at the start, with the bytes behind the pair. -/
def surrogatePairAt : List UInt8 → Option (UInt32 × List UInt8)
  | [] => none
  | b :: rest =>
      let cp := decodeCodepoint (b :: rest)
      match (b :: rest).drop (utf8SeqLen b) with
      | [] => none
      | b' :: rest' =>
          let low := decodeCodepoint (b' :: rest')
          if isHighSurrogate cp && isLowSurrogate low then
            some (surrogatesToCodepoint cp low, (b' :: rest').drop (utf8SeqLen b'))
          else none

theorem surrogatePairAt_shorter {data : List UInt8} {found : UInt32 × List UInt8}
    (pair : surrogatePairAt data = some found)
    : found.2.length < data.length := by
  cases data with
  | nil => simp [surrogatePairAt] at pair
  | cons b rest =>
      simp only [surrogatePairAt] at pair
      split at pair
      · simp at pair
      · rename_i b' rest' behind
        split at pair
        · cases pair
          have shorter := congrArg List.length behind
          have positive := utf8SeqLen_pos b'
          simp only [List.length_drop, List.length_cons] at shorter ⊢
          omega
        · simp at pair

/-- `write_cesu8_as_utf8`: a surrogate pair leaves as one four-byte sequence, a lone surrogate as
the replacement character, and everything else as it is.
-/
def writeCesu8AsUtf8 (data : List UInt8) : List UInt8 :=
  match data with
  | [] => []
  | b :: rest =>
      match pair : surrogatePairAt (b :: rest) with
      | some (astral, behind) =>
          have := surrogatePairAt_shorter pair
          encodeCodepoint astral ++ writeCesu8AsUtf8 behind
      | none =>
          have _positive := utf8SeqLen_pos b
          if isSurrogate (decodeCodepoint (b :: rest)) then
            encodeCodepoint unicodeReplacement
              ++ writeCesu8AsUtf8 ((b :: rest).drop (utf8SeqLen b))
          else
            (b :: rest).take (utf8SeqLen b)
              ++ writeCesu8AsUtf8 ((b :: rest).drop (utf8SeqLen b))
termination_by data.length
decreasing_by
  · exact surrogatePairAt_shorter pair
  all_goals
    simp only [List.length_drop, List.length_cons]
    omega

-----------------------------------------------------------------------------------------
-- The scan by words
-----------------------------------------------------------------------------------------

/-- Eight bytes as a word, the first one lowest. -/
def loadWord (b0 b1 b2 b3 b4 b5 b6 b7 : UInt8) : BitVec 64 :=
  b7.toBitVec ++ b6.toBitVec ++ b5.toBitVec ++ b4.toBitVec ++ b3.toBitVec ++ b2.toBitVec
    ++ b1.toBitVec ++ b0.toBitVec

/-- Whether a word has a zero byte, which borrows in the subtraction. -/
def hasZeroByte (w : BitVec 64) : Bool :=
  (w - 0x0101010101010101) &&& ~~~w &&& 0x8080808080808080 != 0

/-- `has_raw_utf8_astral`, eight bytes at a time and then the rest. -/
def hasRawUtf8AstralWords : List UInt8 → Bool
  | b0 :: b1 :: b2 :: b3 :: b4 :: b5 :: b6 :: b7 :: rest =>
      let w := loadWord b0 b1 b2 b3 b4 b5 b6 b7 &&& 0xF8F8F8F8F8F8F8F8
      hasZeroByte (w ^^^ 0xF0F0F0F0F0F0F0F0) || hasRawUtf8AstralWords rest
  | rest => rest.any isAstralLead

end Boomkat.Strings
