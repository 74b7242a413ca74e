import Boomkat.Json.StringLiteral
import Boomkat.Correctness.Cesu8

/-! The parser of string literals accepts the literals of the grammar and yields their units. -/

namespace Boomkat.Correctness
open Strings Utf8 Json

-----------------------------------------------------------------------------------------
-- Escapes
-----------------------------------------------------------------------------------------

theorem hexDigit_byte (digit : HexDigit)
    : ∃ d, hexDigit digit.byte = some d ∧ d.toNat = digit.value.val := by
  have all : ∀ value : Fin 16, ∀ upper : Bool,
      (hexDigit (HexDigit.byte ⟨value, upper⟩)).map UInt32.toNat = some value.val := by
    decide +kernel
  exact Option.map_eq_some_iff.mp (all digit.value digit.upper)

/-- Only the bytes of digits are read as such. -/
theorem hexDigit_some {c : UInt8} {d : UInt32} (read : hexDigit c = some d)
    : ∃ digit : HexDigit, c = digit.byte := by
  have all : ∀ n < 256, (hexDigit (UInt8.ofNat n)).isSome →
      ∃ value : Fin 16, ∃ upper : Bool, UInt8.ofNat n = HexDigit.byte ⟨value, upper⟩ := by
    decide +kernel
  have known := all c.toNat c.toNat_lt
  rw [UInt8.ofNat_toNat] at known
  obtain ⟨value, upper, is⟩ := known (by rw [read]; rfl)
  exact ⟨⟨value, upper⟩, is⟩

/-- One more digit behind those that were read. -/
theorem hexStep {val d : UInt32} (small : val.toNat < 2 ^ 28) (digit : d.toNat < 16)
    : (val <<< 4 ||| d).toNat = val.toNat * 16 + d.toNat := by
  rw [UInt32.toNat_or, toNat_shift (by decide) (by change _ * 2 ^ 4 < _; omega)]
  exact shift_or (k := 4) digit

theorem parseHex_digit (turns : Nat) {val : UInt32} (small : val.toNat < 2 ^ 28)
    (digit : HexDigit) (rest : List UInt8)
    : ∃ val', parseHex (turns + 1) val (digit.byte :: rest) = parseHex turns val' rest
      ∧ val'.toNat = val.toNat * 16 + digit.value.val := by
  obtain ⟨d, read, value⟩ := hexDigit_byte digit
  refine ⟨val <<< 4 ||| d, ?_, ?_⟩
  · rw [parseHex, read]
  · rw [hexStep small (by rw [value]; exact digit.value.isLt), value]

/-- Four digits are read as the unit that they spell. -/
theorem jsonParseHex4_digits (d3 d2 d1 d0 : HexDigit) (rest : List UInt8)
    : ∃ cp, jsonParseHex4 (d3.byte :: d2.byte :: d1.byte :: d0.byte :: rest) = some (cp, rest)
      ∧ [cp.toNat] = (StringPiece.unicode d3 d2 d1 d0).units := by
  have bound3 := d3.value.isLt
  have bound2 := d2.value.isLt
  have bound1 := d1.value.isLt
  have zero : (0 : UInt32).toNat = 0 := by decide
  obtain ⟨v3, read3, value3⟩ := parseHex_digit 3 (by decide : (0 : UInt32).toNat < _) d3
    (d2.byte :: d1.byte :: d0.byte :: rest)
  obtain ⟨v2, read2, value2⟩ := parseHex_digit 2 (by omega : v3.toNat < _) d2
    (d1.byte :: d0.byte :: rest)
  obtain ⟨v1, read1, value1⟩ := parseHex_digit 1 (by omega : v2.toNat < _) d1
    (d0.byte :: rest)
  obtain ⟨v0, read0, value0⟩ := parseHex_digit 0 (by omega : v1.toNat < _) d0 rest
  refine ⟨v0, ?_, ?_⟩
  · rw [jsonParseHex4, read3, read2, read1, read0, parseHex]
  · rw [StringPiece.units, value0, value1, value2, value3, zero, Nat.zero_mul, Nat.zero_add]

theorem unicodeBytes_sequence {cp : UInt32} (small : cp.toNat < 0x10000)
    : unicodeBytes cp = sequence cp.toNat := by
  rw [← encodeCodepoint_sequence (by omega)]
  have lt (c : UInt32) : cp < c ↔ cp.toNat < c.toNat := UInt32.lt_iff_toNat_lt
  have le (c : UInt32) : cp ≤ c ↔ cp.toNat ≤ c.toNat := UInt32.le_iff_toNat_le
  have one : cp ≤ 0x7F ↔ cp < 0x80 := by
    rw [le, lt]
    exact Nat.lt_succ_iff.symm
  have two : cp ≤ 0x7FF ↔ cp < 0x800 := by
    rw [le, lt]
    exact Nat.lt_succ_iff.symm
  simp only [unicodeBytes, encodeCodepoint, one, two, if_pos ((lt 0x10000).mpr small), twoBytes,
    threeBytes]

theorem simpleEscape_letter (kind : Escape)
    : simpleEscape kind.letter = some (UInt8.ofNat kind.unit)
      ∧ sequence kind.unit = [UInt8.ofNat kind.unit] := by
  cases kind <;> decide

theorem simpleEscape_some {esc ch : UInt8} (read : simpleEscape esc = some ch)
    : ∃ kind : Escape, esc = kind.letter := by
  have all : ∀ n < 256, (simpleEscape (UInt8.ofNat n)).isSome →
      n = 0x22 ∨ n = 0x5C ∨ n = 0x2F ∨ n = 0x62 ∨ n = 0x66 ∨ n = 0x6E ∨ n = 0x72 ∨ n = 0x74 := by
    decide +kernel
  have known := all esc.toNat esc.toNat_lt
  rw [UInt8.ofNat_toNat] at known
  have letter (kind : Escape) (same : esc.toNat = kind.letter.toNat)
      : ∃ kind : Escape, esc = kind.letter :=
    ⟨kind, UInt8.toNat_inj.mp same⟩
  rcases known (by rw [read]; rfl) with is | is | is | is | is | is | is | is
  · exact letter .quote is
  · exact letter .backslash is
  · exact letter .slash is
  · exact letter .backspace is
  · exact letter .formFeed is
  · exact letter .lineFeed is
  · exact letter .carriageReturn is
  · exact letter .tab is

-----------------------------------------------------------------------------------------
-- Literals are parsed
-----------------------------------------------------------------------------------------

/-- The bytes that the parser collects for a character, before interning. -/
def storedBytes : StringPiece → List UInt8
  | .plain char => sequence char.cp
  | piece => cesu8 piece.units

/-- A byte that the parser copies. -/
def IsCopied (b : UInt8) : Prop := b ≠ 0x22 ∧ b ≠ 0x5C ∧ ¬b < 0x20

theorem stringLoop_quote (rest buf : List UInt8)
    : stringLoop (0x22 :: rest) buf = some (buf, rest) := by
  rw [stringLoop.eq_def]
  exact if_pos (by decide)

theorem stringLoop_copy {c : UInt8} (copied : IsCopied c) (rest buf : List UInt8)
    : stringLoop (c :: rest) buf = stringLoop rest (buf ++ [c]) := by
  obtain ⟨notQuote, notBackslash, printable⟩ := copied
  rw [stringLoop.eq_def]
  dsimp only
  rw [if_neg (by simpa using notQuote), if_neg (by simpa using notBackslash), if_neg printable]

/-- An escape that starts with `u` goes on with four digits. -/
theorem stringLoop_unicode {behind : List UInt8} {found : UInt32 × List UInt8}
    (read : jsonParseHex4 behind = some found) (buf : List UInt8)
    : stringLoop (0x5C :: 0x75 :: behind) buf
      = stringLoop found.2 (buf ++ unicodeBytes found.1) := by
  have letter : simpleEscape 0x75 = none := by decide
  rw [stringLoop, if_neg (by decide), if_pos (by decide)]
  simp only [letter]
  rw [if_pos (by decide)]
  split
  · rename_i again
    rw [read] at again
    cases again
    rfl
  · rename_i none
    rw [read] at none
    cases none

theorem stringLoop_copied {bytes : List UInt8} (copied : ∀ b ∈ bytes, IsCopied b)
    (rest buf : List UInt8)
    : stringLoop (bytes ++ rest) buf = stringLoop rest (buf ++ bytes) := by
  induction bytes generalizing buf with
  | nil => rw [List.nil_append, List.append_nil]
  | cons b bytes ih =>
      rw [List.cons_append, stringLoop_copy (copied b List.mem_cons_self),
        ih fun b member => copied b (List.mem_cons_of_mem _ member), List.append_assoc]
      rfl

theorem isCopied_high {b : UInt8} (high : 0x80 ≤ b.toNat) : IsCopied b := by
  refine ⟨?_, ?_, ?_⟩
  · intro same
    rw [same] at high
    exact absurd high (by decide)
  · intro same
    rw [same] at high
    exact absurd high (by decide)
  · rw [UInt8.lt_iff_toNat_lt]
    change ¬_ < 32
    omega

theorem isCopied_plain (char : PlainChar) : ∀ b ∈ sequence char.cp, IsCopied b := by
  rcases Nat.lt_or_ge char.cp 0x80 with ascii | high
  · rcases sequence_cases char.bound with ⟨-, c, is, value⟩ | ⟨low, -⟩ | ⟨low, -⟩ | ⟨low, -⟩
    · intro b member
      rw [is, List.mem_singleton] at member
      subst member
      refine ⟨?_, ?_, ?_⟩
      · intro same
        exact char.notQuote (by rw [← value, same]; rfl)
      · intro same
        exact char.notBackslash (by rw [← value, same]; rfl)
      · rw [UInt8.lt_iff_toNat_lt, value, Nat.not_lt]
        exact char.printable
    all_goals omega
  · intro b member
    exact isCopied_high (sequence_high char.bound high b member)

theorem cesu8_singleton (u : Nat) : cesu8 [u] = sequence u := List.append_nil _

theorem stringLoop_piece (piece : StringPiece) (rest buf : List UInt8)
    : stringLoop (piece.text ++ rest) buf = stringLoop rest (buf ++ storedBytes piece) := by
  cases piece with
  | plain char => exact stringLoop_copied (isCopied_plain char) rest buf
  | escape kind =>
      obtain ⟨read, is⟩ := simpleEscape_letter kind
      rw [StringPiece.text, List.cons_append, List.singleton_append, stringLoop]
      simp only [read, storedBytes, StringPiece.units, cesu8_singleton, is]
      rfl
  | unicode d3 d2 d1 d0 =>
      obtain ⟨cp, read, value⟩ := jsonParseHex4_digits d3 d2 d1 d0 rest
      have units := value
      rw [StringPiece.units, List.cons.injEq] at value
      have bound3 := d3.value.isLt
      have bound2 := d2.value.isLt
      have bound1 := d1.value.isLt
      have bound0 := d0.value.isLt
      have small : cp.toNat < 0x10000 := by omega
      simp only [StringPiece.text, List.cons_append, List.nil_append]
      rw [stringLoop_unicode read, storedBytes, ← units, cesu8_singleton,
        unicodeBytes_sequence small]
      intro _ no
      cases no

theorem stringLoop_pieces (pieces : List StringPiece) (rest buf : List UInt8)
    : stringLoop (pieces.flatMap StringPiece.text ++ 0x22 :: rest) buf
      = some (buf ++ pieces.flatMap storedBytes, rest) := by
  induction pieces generalizing buf with
  | nil =>
      rw [List.flatMap_nil, List.flatMap_nil, List.append_nil, List.nil_append, stringLoop_quote]
  | cons piece pieces ih =>
      rw [List.flatMap_cons, List.append_assoc, stringLoop_piece, ih, List.append_assoc]
      rfl

theorem text_ne_nil (piece : StringPiece) : piece.text ≠ [] := by
  cases piece with
  | plain char =>
      obtain ⟨b, tail, is, -⟩ := utf8SeqLen_sequence char.bound
      rw [StringPiece.text, is]
      exact List.cons_ne_nil b tail
  | escape kind => exact List.cons_ne_nil _ _
  | unicode d3 d2 d1 d0 => exact List.cons_ne_nil _ _

theorem units_piece_lt (piece : StringPiece) : ∀ u ∈ piece.units, u < 0x10000 := by
  intro u member
  cases piece with
  | plain char => exact units_lt char.bound member
  | escape kind =>
      have all : ∀ kind : Escape, kind.unit < 0x10000 := by
        intro kind
        cases kind <;> decide
      rw [StringPiece.units, List.mem_singleton] at member
      exact member ▸ all kind
  | unicode d3 d2 d1 d0 =>
      have bound3 := d3.value.isLt
      have bound2 := d2.value.isLt
      have bound1 := d1.value.isLt
      have bound0 := d0.value.isLt
      rw [StringPiece.units, List.mem_singleton] at member
      omega

theorem normalize_append_cesu8 {us : List Nat} (small : ∀ u ∈ us, u < 0x10000)
    (rest : List UInt8)
    : normalizeToCesu8 (cesu8 us ++ rest) = cesu8 us ++ normalizeToCesu8 rest := by
  induction us with
  | nil => rfl
  | cons u us ih =>
      rw [cesu8_cons, List.append_assoc, normalize_small (small u List.mem_cons_self),
        ih fun v member => small v (List.mem_cons_of_mem u member), List.append_assoc]

theorem normalize_stored (piece : StringPiece) (rest : List UInt8)
    : normalizeToCesu8 (storedBytes piece ++ rest)
      = cesu8 piece.units ++ normalizeToCesu8 rest := by
  cases piece with
  | plain char => exact normalize_sequence char.bound rest
  | escape kind => exact normalize_append_cesu8 (units_piece_lt (.escape kind)) rest
  | unicode d3 d2 d1 d0 => exact normalize_append_cesu8 (units_piece_lt (.unicode d3 d2 d1 d0)) rest

/-- Interning stores the canonical bytes of the units that the literal denotes. -/
theorem builtinInternString_pieces (pieces : List StringPiece)
    : builtinInternString (pieces.flatMap storedBytes) = cesu8 (literalUnits pieces) := by
  rw [builtinInternString, normalize_skipped]
  induction pieces with
  | nil => rfl
  | cons piece pieces ih =>
      rw [List.flatMap_cons, normalize_stored, ih, ← cesu8_append]
      rfl

theorem jsonParseString_literal (pieces : List StringPiece) (rest : List UInt8)
    : jsonParseString (literalText pieces ++ rest)
      = some (cesu8 (literalUnits pieces), rest) := by
  rw [literalText, List.cons_append, List.append_assoc, jsonParseString, if_pos (by decide),
    List.singleton_append, stringLoop_pieces]
  simp only [List.nil_append, builtinInternString_pieces]

end Boomkat.Correctness
