import Mathlib.Algebra.Group.Nat.Defs
import Mathlib.Tactic.Common

/-! Bytes of strings: the seeded hash and the canonical encoding that interning stores. -/

namespace Boomkat.Strings

def fnv1aOffsetBasis : UInt32 := 0x811C9DC5

def fnv1aPrime : UInt32 := 0x01000193

/-- The hash of a string that has none yet. -/
def hashDeferred : UInt32 := 0xFFFFFFFF

/-- The 32-bit FNV-1a hash of the bytes, mixed with the heap's seed. -/
def hashString (hashSeed : UInt32) (data : List UInt8) : UInt32 :=
  let h := data.foldl (fun h b => (h ^^^ b.toUInt32) * fnv1aPrime) (fnv1aOffsetBasis ^^^ hashSeed)
  if h = hashDeferred then h + 1 else h

theorem hashString_ne_deferred (hashSeed : UInt32) (data : List UInt8)
    : hashString hashSeed data ≠ hashDeferred := by
  simp only [hashString]
  split
  · rename_i isDeferred
    rw [isDeferred]
    decide
  · assumption

/-- Whether a byte starts a four-byte sequence. -/
def isAstralLead (b : UInt8) : Bool := b &&& 0xF8 == 0xF0

def hasRawUtf8Astral (data : List UInt8) : Bool := data.any isAstralLead

/-- Whether a byte continues a sequence. -/
def isContinuation (b : UInt8) : Bool := b &&& 0xC0 == 0x80

/-- `decode_codepoint` of a four-byte sequence, where it is well formed. -/
def decodeAstral (b0 b1 b2 b3 : UInt8) : Option UInt32 :=
  if isContinuation b1 && isContinuation b2 && isContinuation b3 then
    let cp :=
      (b0.toUInt32 &&& 0x07) <<< 18 ||| (b1.toUInt32 &&& 0x3F) <<< 12
        ||| (b2.toUInt32 &&& 0x3F) <<< 6 ||| (b3.toUInt32 &&& 0x3F)
    if cp < 0x10000 || cp > 0x10FFFF then none else some cp
  else none

/-- `encode_codepoint` of a surrogate, in three bytes. -/
def encodeSurrogate (cp : UInt32) : List UInt8 :=
  [(cp >>> 12).toUInt8 ||| 0xE0, (cp >>> 6 &&& 0x3F).toUInt8 ||| 0x80,
    (cp &&& 0x3F).toUInt8 ||| 0x80]

/-- The surrogate pair of a codepoint that needs one. -/
def encodeCodepointCesu8 (cp : UInt32) : List UInt8 :=
  let v := cp - 0x10000
  encodeSurrogate ((v >>> 10) + 0xD800) ++ encodeSurrogate ((v &&& 0x3FF) + 0xDC00)

/-- Every four-byte sequence becomes a surrogate pair, and other bytes stay. -/
def normalizeToCesu8 : List UInt8 → List UInt8
  | b0 :: b1 :: b2 :: b3 :: rest =>
      match if isAstralLead b0 then decodeAstral b0 b1 b2 b3 else none with
      | some cp => encodeCodepointCesu8 cp ++ normalizeToCesu8 rest
      | none => b0 :: normalizeToCesu8 (b1 :: b2 :: b3 :: rest)
  | b0 :: rest => b0 :: normalizeToCesu8 rest
  | [] => []

end Boomkat.Strings
