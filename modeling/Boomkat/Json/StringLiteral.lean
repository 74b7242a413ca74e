import Boomkat.Foundation.Utf8
import Boomkat.Strings.Utf8

/-! String literals of JSON texts: the escaper, the parser, and the grammar of a literal. -/

namespace Boomkat.Json
open Strings Utf8

-----------------------------------------------------------------------------------------
-- The escaper
-----------------------------------------------------------------------------------------

/-- The digit of the low four bits, in lower case. -/
def hexChar (n : UInt32) : UInt8 :=
  let d := toChar (n &&& 0xF)
  if d < 10 then d + 0x30 else d - 10 + 0x61

def twoBytes (cp : UInt32) : List UInt8 := [toChar (cp >>> 6 ||| 0xC0), toChar (cp &&& 0x3F ||| 0x80)]

def threeBytes (cp : UInt32) : List UInt8 :=
  [toChar (cp >>> 12 ||| 0xE0), toChar (cp >>> 6 &&& 0x3F ||| 0x80), toChar (cp &&& 0x3F ||| 0x80)]

def fourBytes (cp : UInt32) : List UInt8 :=
  [toChar (cp >>> 18 ||| 0xF0), toChar (cp >>> 12 &&& 0x3F ||| 0x80),
    toChar (cp >>> 6 &&& 0x3F ||| 0x80), toChar (cp &&& 0x3F ||| 0x80)]

/-- The codepoint of three bytes that are not checked any further. -/
def rawThree (b0 b1 b2 : UInt8) : UInt32 :=
  (b0.toUInt32 &&& 0x0F) <<< 12 ||| (b1.toUInt32 &&& 0x3F) <<< 6 ||| (b2.toUInt32 &&& 0x3F)

/-- The low surrogate that comes next, with the bytes behind it. -/
def lowSurrogateNext : List UInt8 → Option (UInt32 × List UInt8)
  | n0 :: n1 :: n2 :: behind =>
      if n0 &&& 0xF0 == 0xE0 then
        let cp2 := rawThree n0 n1 n2
        if isLowSurrogate cp2 then some (cp2, behind) else none
      else none
  | _ => none

/-- What is written for a byte below 0x80. -/
def escapeAscii (c : UInt8) : Option (List UInt8) :=
  if c == 0x22 then some [0x5C, 0x22]
  else if c == 0x5C then some [0x5C, 0x5C]
  else if c == 0x08 then some [0x5C, 0x62]
  else if c == 0x0C then some [0x5C, 0x66]
  else if c == 0x0A then some [0x5C, 0x6E]
  else if c == 0x0D then some [0x5C, 0x72]
  else if c == 0x09 then some [0x5C, 0x74]
  else if c < 0x20 then
    some [0x5C, 0x75, 0x30, 0x30, hexChar (c.toUInt32 >>> 4), hexChar c.toUInt32]
  else if c &&& 0x80 == 0 then some [c]
  else none

def escapeTwo (c : UInt8) : List UInt8 → List UInt8 × List UInt8
  | b1 :: behind => (twoBytes ((c.toUInt32 &&& 0x1F) <<< 6 ||| (b1.toUInt32 &&& 0x3F)), behind)
  | rest => ([], rest)

/-- A surrogate pair becomes four bytes, and a surrogate alone an escape. -/
def escapeThree (c : UInt8) : List UInt8 → List UInt8 × List UInt8
  | b1 :: b2 :: behind =>
      let cp := rawThree c b1 b2
      match if isHighSurrogate cp then lowSurrogateNext behind else none with
      | some (cp2, behind') =>
          (fourBytes ((cp - 0xD800) * 0x400 + 0x10000 + (cp2 - 0xDC00)), behind')
      | none =>
          if isSurrogate cp then
            ([0x5C, 0x75, hexChar (cp >>> 12), hexChar (cp >>> 8), hexChar (cp >>> 4),
              hexChar cp], behind)
          else (threeBytes cp, behind)
  | rest => ([], rest)

def escapeFour (c : UInt8) : List UInt8 → List UInt8 × List UInt8
  | b1 :: b2 :: b3 :: behind =>
      (fourBytes
        ((c.toUInt32 &&& 0x07) <<< 18 ||| (b1.toUInt32 &&& 0x3F) <<< 12
          ||| (b2.toUInt32 &&& 0x3F) <<< 6 ||| (b3.toUInt32 &&& 0x3F)), behind)
  | rest => ([], rest)

/-- One turn of the loop in `json_escape_string`: what is written for the bytes at the start, and
what is left of the source. Nothing is written for a truncated sequence or an invalid byte.
-/
def escapeNext (c : UInt8) (rest : List UInt8) : List UInt8 × List UInt8 :=
  match escapeAscii c with
  | some written => (written, rest)
  | none =>
      if c &&& 0xE0 == 0xC0 then escapeTwo c rest
      else if c &&& 0xF0 == 0xE0 then escapeThree c rest
      else if c &&& 0xF8 == 0xF0 then escapeFour c rest
      else ([], rest)

theorem lowSurrogateNext_length {data : List UInt8} {found : UInt32 × List UInt8}
    (low : lowSurrogateNext data = some found)
    : found.2.length ≤ data.length := by
  unfold lowSurrogateNext at low
  split at low
  · split at low
    · dsimp only at low
      split at low
      · cases low
        exact Nat.le_add_right _ 3
      · cases low
    · cases low
  · cases low

theorem escapeTwo_length (c : UInt8) (rest : List UInt8)
    : (escapeTwo c rest).2.length ≤ rest.length := by
  cases rest with
  | nil => exact Nat.le_refl _
  | cons b1 behind => exact Nat.le_succ _

theorem escapeThree_length (c : UInt8) (rest : List UInt8)
    : (escapeThree c rest).2.length ≤ rest.length := by
  unfold escapeThree
  split
  · rename_i b1 b2 behind
    have shorter : behind.length ≤ (b1 :: b2 :: behind).length := Nat.le_add_right _ 2
    dsimp only
    split
    · rename_i low
      split at low
      · exact Nat.le_trans (lowSurrogateNext_length low) shorter
      · cases low
    · split
      · exact shorter
      · exact shorter
  · exact Nat.le_refl _

theorem escapeFour_length (c : UInt8) (rest : List UInt8)
    : (escapeFour c rest).2.length ≤ rest.length := by
  unfold escapeFour
  split
  · exact Nat.le_add_right _ 3
  · exact Nat.le_refl _

theorem escapeNext_length (c : UInt8) (rest : List UInt8)
    : (escapeNext c rest).2.length ≤ rest.length := by
  unfold escapeNext
  split
  · exact Nat.le_refl _
  split
  · exact escapeTwo_length c rest
  split
  · exact escapeThree_length c rest
  split
  · exact escapeFour_length c rest
  · exact Nat.le_refl _

/-- The loop of `json_escape_string` over what is left of the source. It stops where the next bytes
do not fit behind those in the buffer.
-/
def escapeLoop (bufSize : Nat) (src out : List UInt8) : List UInt8 :=
  match src with
  | [] => out
  | c :: rest =>
      have := escapeNext_length c rest
      if out.length < bufSize then
        let next := escapeNext c rest
        if next.1 ≠ [] ∧ bufSize < out.length + next.1.length then out
        else escapeLoop bufSize next.2 (out ++ next.1)
      else out
termination_by src.length
decreasing_by exact Nat.lt_succ_of_le this

/-- `json_escape_string`, the bytes that it leaves in the buffer. -/
def jsonEscapeString (src : List UInt8) (bufSize : Nat) : List UInt8 :=
  let opened : List UInt8 := if 0 < bufSize then [0x22] else []
  let out := escapeLoop bufSize src opened
  if out.length < bufSize then out ++ [0x22] else out

/-- `json_escape_string_to`, which reserves the worst case. There is no result when the buffer does
not grow to it.
-/
def jsonEscapeStringTo (reserve : Nat → Bool) (out src : List UInt8) : Option (List UInt8) :=
  let worst := src.length * 6 + 2
  if reserve (out.length + worst) then
    let written := jsonEscapeString src worst
    if written.length = 0 then none else some (out ++ written)
  else none

-----------------------------------------------------------------------------------------
-- The parser
-----------------------------------------------------------------------------------------

/-- The bytes that interning stores. -/
def builtinInternString (data : List UInt8) : List UInt8 :=
  if hasRawUtf8AstralWords data then normalizeToCesu8 data else data

def hexDigit (c : UInt8) : Option UInt32 :=
  if 0x30 ≤ c && c ≤ 0x39 then some (c - 0x30).toUInt32
  else if 0x61 ≤ c && c ≤ 0x66 then some (c - 0x61 + 10).toUInt32
  else if 0x41 ≤ c && c ≤ 0x46 then some (c - 0x41 + 10).toUInt32
  else none

/-- The loop of `json_parse_hex4` with its remaining turns. -/
def parseHex : Nat → UInt32 → List UInt8 → Option (UInt32 × List UInt8)
  | 0, val, src => some (val, src)
  | _ + 1, _, [] => none
  | turns + 1, val, c :: rest =>
      match hexDigit c with
      | some d => parseHex turns (val <<< 4 ||| d) rest
      | none => none

def jsonParseHex4 (src : List UInt8) : Option (UInt32 × List UInt8) := parseHex 4 0 src

theorem parseHex_length {turns : Nat} {val : UInt32} {src : List UInt8}
    {found : UInt32 × List UInt8} (parsed : parseHex turns val src = some found)
    : found.2.length + turns = src.length := by
  induction turns generalizing val src with
  | zero =>
      cases parsed
      rfl
  | succ turns ih =>
      cases src with
      | nil => cases parsed
      | cons c rest =>
          rw [parseHex] at parsed
          split at parsed
          · rw [List.length_cons, ← ih parsed]
            rfl
          · cases parsed

/-- The character of an escape with one letter. -/
def simpleEscape (esc : UInt8) : Option UInt8 :=
  if esc == 0x22 then some 0x22
  else if esc == 0x5C then some 0x5C
  else if esc == 0x2F then some 0x2F
  else if esc == 0x62 then some 0x08
  else if esc == 0x66 then some 0x0C
  else if esc == 0x6E then some 0x0A
  else if esc == 0x72 then some 0x0D
  else if esc == 0x74 then some 0x09
  else none

/-- The bytes of an escaped unit. -/
def unicodeBytes (cp : UInt32) : List UInt8 :=
  if cp ≤ 0x7F then [toChar cp] else if cp ≤ 0x7FF then twoBytes cp else threeBytes cp

/-- The loop of `json_parse_string` behind the opening quote: the bytes in the buffer at the
closing quote, and what is left of the source.
-/
def stringLoop (src buf : List UInt8) : Option (List UInt8 × List UInt8) :=
  match src with
  | [] => none
  | c :: rest =>
      if c == 0x22 then some (buf, rest)
      else if c == 0x5C then
        match rest with
        | [] => none
        | esc :: behind =>
            match simpleEscape esc with
            | some ch => stringLoop behind (buf ++ [ch])
            | none =>
                if esc == 0x75 then
                  match parsed : jsonParseHex4 behind with
                  | some (cp, behind') =>
                      have _shorter : behind'.length + 4 = behind.length := parseHex_length parsed
                      stringLoop behind' (buf ++ unicodeBytes cp)
                  | none => none
                else none
      else if c < 0x20 then none
      else stringLoop rest (buf ++ [c])
termination_by src.length

/-- `json_parse_string` on what is left of the source: the bytes of the interned string and what is
left behind the literal. There is no result on an error.
-/
def jsonParseString (src : List UInt8) : Option (List UInt8 × List UInt8) :=
  match src with
  | [] => none
  | c :: rest =>
      if c == 0x22 then
        match stringLoop rest [] with
        | some (buf, behind) => some (builtinInternString buf, behind)
        | none => none
      else none

-----------------------------------------------------------------------------------------
-- The grammar
-----------------------------------------------------------------------------------------

structure HexDigit where
  value : Fin 16
  upper : Bool
deriving DecidableEq

def HexDigit.byte (digit : HexDigit) : UInt8 :=
  if digit.value.val < 10 then UInt8.ofNat (0x30 + digit.value.val)
  else UInt8.ofNat ((if digit.upper then 0x41 else 0x61) + (digit.value.val - 10))

inductive Escape
  | quote
  | backslash
  | slash
  | backspace
  | formFeed
  | lineFeed
  | carriageReturn
  | tab
deriving DecidableEq

def Escape.letter : Escape → UInt8
  | .quote => 0x22
  | .backslash => 0x5C
  | .slash => 0x2F
  | .backspace => 0x62
  | .formFeed => 0x66
  | .lineFeed => 0x6E
  | .carriageReturn => 0x72
  | .tab => 0x74

def Escape.unit : Escape → Nat
  | .quote => 0x22
  | .backslash => 0x5C
  | .slash => 0x2F
  | .backspace => 0x08
  | .formFeed => 0x0C
  | .lineFeed => 0x0A
  | .carriageReturn => 0x0D
  | .tab => 0x09

/-- A codepoint that may stand for itself in a literal. -/
structure PlainChar where
  cp : Nat
  bound : cp < 0x110000
  printable : 0x20 ≤ cp
  notQuote : cp ≠ 0x22
  notBackslash : cp ≠ 0x5C
deriving DecidableEq

/-- One character of a literal, as it is or escaped. -/
inductive StringPiece
  | plain (char : PlainChar)
  | escape (kind : Escape)
  | unicode (d3 d2 d1 d0 : HexDigit)
deriving DecidableEq

def StringPiece.text : StringPiece → List UInt8
  | .plain char => sequence char.cp
  | .escape kind => [0x5C, kind.letter]
  | .unicode d3 d2 d1 d0 => [0x5C, 0x75, d3.byte, d2.byte, d1.byte, d0.byte]

/-- The code units that a character denotes. -/
def StringPiece.units : StringPiece → List Nat
  | .plain char => Utf8.units char.cp
  | .escape kind => [kind.unit]
  | .unicode d3 d2 d1 d0 =>
      [((d3.value.val * 16 + d2.value.val) * 16 + d1.value.val) * 16 + d0.value.val]

/-- The text of a literal between its quotes. -/
def literalText (pieces : List StringPiece) : List UInt8 :=
  0x22 :: (pieces.flatMap StringPiece.text ++ [0x22])

def literalUnits (pieces : List StringPiece) : List Nat := pieces.flatMap StringPiece.units

end Boomkat.Json
