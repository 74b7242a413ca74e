import Boomkat.Correctness.JsonStringLiteral

/-! The escaper of strings writes a literal of the grammar that denotes the units of the string. -/

namespace Boomkat.Correctness
open Strings Utf8 Json

-----------------------------------------------------------------------------------------
-- Written characters
-----------------------------------------------------------------------------------------

/-- No surrogate stands for itself. -/
def IsScalar : StringPiece → Prop
  | .plain char => ¬(0xD800 ≤ char.cp ∧ char.cp ≤ 0xDFFF)
  | _ => True

/-- The digit of the low four bits of a number. -/
def lowDigit (n : Nat) : HexDigit := ⟨⟨n % 16, Nat.mod_lt n (by decide)⟩, false⟩

theorem hexChar_lowDigit (n : UInt32) : hexChar n = (lowDigit n.toNat).byte := by
  have all : ∀ m : Fin 16, hexChar (UInt32.ofNat m.val) = HexDigit.byte ⟨m, false⟩ := by
    decide +kernel
  have low : n &&& 0xF = UInt32.ofNat (n.toNat % 16) := by
    rw [← UInt32.toNat_inj, UInt32.toNat_and, UInt32.toNat_ofNat']
    have bits : n.toNat &&& 15 = n.toNat % 16 := Nat.and_two_pow_sub_one_eq_mod _ 4
    change n.toNat &&& 15 = _
    omega
  have again : UInt32.ofNat (n.toNat % 16) &&& 0xF = n &&& 0xF := by
    rw [← low, UInt32.and_assoc]
    rfl
  have same := all ⟨n.toNat % 16, Nat.mod_lt _ (by decide)⟩
  rw [lowDigit, ← same]
  simp only [hexChar, again]

theorem twoBytes_sequence {cp : UInt32} (low : 0x80 ≤ cp.toNat) (high : cp.toNat < 0x800)
    : twoBytes cp = sequence cp.toNat := by
  rw [← encodeCodepoint_sequence (by omega), encodeCodepoint,
    if_neg (mt UInt32.lt_iff_toNat_lt.mp (by change ¬_ < 128; omega)),
    if_pos (UInt32.lt_iff_toNat_lt.mpr high)]
  rfl

theorem threeBytes_sequence {cp : UInt32} (low : 0x800 ≤ cp.toNat) (high : cp.toNat < 0x10000)
    : threeBytes cp = sequence cp.toNat := by
  rw [← encodeCodepoint_sequence (by omega), encodeCodepoint,
    if_neg (mt UInt32.lt_iff_toNat_lt.mp (by change ¬_ < 128; omega)),
    if_neg (mt UInt32.lt_iff_toNat_lt.mp (by change ¬_ < 2048; omega)),
    if_pos (UInt32.lt_iff_toNat_lt.mpr high)]
  rfl

theorem fourBytes_sequence {cp : UInt32} (low : 0x10000 ≤ cp.toNat) (high : cp.toNat < 0x110000)
    : fourBytes cp = sequence cp.toNat := by
  rw [← encodeCodepoint_sequence high, encodeCodepoint,
    if_neg (mt UInt32.lt_iff_toNat_lt.mp (by change ¬_ < 128; omega)),
    if_neg (mt UInt32.lt_iff_toNat_lt.mp (by change ¬_ < 2048; omega)),
    if_neg (mt UInt32.lt_iff_toNat_lt.mp (by change ¬_ < 65536; omega)),
    if_pos (UInt32.le_iff_toNat_le.mpr (Nat.le_of_lt_succ high))]
  rfl

/-- What the escaper writes for a byte below 0x80 denotes the byte. -/
theorem escapeAscii_piece {b : UInt8} (ascii : b.toNat < 0x80)
    : ∃ piece : StringPiece, escapeAscii b = some piece.text ∧ piece.units = [b.toNat]
      ∧ IsScalar piece ∧ piece.text.length ≤ 6 := by
  have simple (kind : Escape) (same : b.toNat = kind.unit)
      (written : escapeAscii b = some [0x5C, kind.letter])
      : ∃ piece : StringPiece, escapeAscii b = some piece.text ∧ piece.units = [b.toNat]
        ∧ IsScalar piece ∧ piece.text.length ≤ 6 :=
    ⟨.escape kind, written, by rw [same]; rfl, trivial, by simp [StringPiece.text]⟩
  by_cases quote : b = 0x22
  · subst quote
    exact simple .quote rfl rfl
  by_cases backslash : b = 0x5C
  · subst backslash
    exact simple .backslash rfl rfl
  by_cases backspace : b = 0x08
  · subst backspace
    exact simple .backspace rfl rfl
  by_cases formFeed : b = 0x0C
  · subst formFeed
    exact simple .formFeed rfl rfl
  by_cases lineFeed : b = 0x0A
  · subst lineFeed
    exact simple .lineFeed rfl rfl
  by_cases carriageReturn : b = 0x0D
  · subst carriageReturn
    exact simple .carriageReturn rfl rfl
  by_cases tab : b = 0x09
  · subst tab
    exact simple .tab rfl rfl
  unfold escapeAscii
  simp only [beq_iff_eq, quote, backslash, backspace, formFeed, lineFeed, carriageReturn, tab,
    if_false]
  by_cases control : b < 0x20
  · have small : b.toNat < 32 := UInt8.lt_iff_toNat_lt.mp control
    have upper : (b.toUInt32 >>> 4).toNat = b.toNat / 16 := by
      rw [toNat_from _ 4 (by decide), UInt8.toNat_toUInt32]
      rfl
    refine ⟨.unicode (lowDigit 0) (lowDigit 0) (lowDigit (b.toNat / 16)) (lowDigit b.toNat),
      ?_, ?_, trivial, by simp [StringPiece.text]⟩
    · rw [if_pos control, hexChar_lowDigit, hexChar_lowDigit, upper, UInt8.toNat_toUInt32]
      rfl
    · simp only [StringPiece.units, lowDigit, List.cons.injEq, and_true]
      omega
  · have bit : b &&& 0x80 = 0 := by
      have all : ∀ n < 0x80, UInt8.ofNat n &&& 0x80 = 0 := by decide +kernel
      have known := all b.toNat ascii
      rwa [UInt8.ofNat_toNat] at known
    have printable : 32 ≤ b.toNat := by
      rw [UInt8.lt_iff_toNat_lt] at control
      exact Nat.not_lt.mp control
    let char : PlainChar :=
      { cp := b.toNat
        bound := by omega
        printable := printable
        notQuote := fun same => quote (UInt8.toNat_inj.mp same)
        notBackslash := fun same => backslash (UInt8.toNat_inj.mp same) }
    have written : sequence b.toNat = [b] := by
      rw [Utf8.sequence, if_pos ascii, UInt8.ofNat_toNat]
    have small : b.toNat < 0x10000 := by omega
    refine ⟨.plain char, ?_, units_small small, ?_, ?_⟩
    · rw [if_neg control, if_pos bit, StringPiece.text, written]
    · change ¬(_ ≤ b.toNat ∧ _)
      omega
    · rw [StringPiece.text, written, List.length_singleton]
      decide

theorem escapeAscii_high {b : UInt8} (high : 0x80 ≤ b.toNat) : escapeAscii b = none := by
  have all : ∀ n < 256, 0x80 ≤ n → escapeAscii (UInt8.ofNat n) = none := by decide +kernel
  have known := all b.toNat b.toNat_lt high
  rwa [UInt8.ofNat_toNat] at known

-----------------------------------------------------------------------------------------
-- Longer sequences
-----------------------------------------------------------------------------------------

/-- A unit above the ASCII characters, standing for itself. -/
def plainUnit (u : Nat) (low : 0x80 ≤ u) (high : u < 0x110000) : PlainChar where
  cp := u
  bound := high
  printable := by omega
  notQuote := by omega
  notBackslash := by omega

theorem rawThree_sequence {u : Nat} (high : u < 0x10000) {b0 b1 b2 : UInt8}
    (first : b0.toNat = 0xE0 + u / 4096) (second : b1.toNat = 0x80 + u / 64 % 64)
    (third : b2.toNat = 0x80 + u % 64)
    : (rawThree b0 b1 b2).toNat = u := by
  rw [rawThree, codepoint3]
  omega

/-- The look ahead finds a low surrogate exactly if the next unit is one. -/
theorem lowSurrogateNext_cesu8 {us : List Nat} (small : ∀ u ∈ us, u < 0x10000)
    : (∃ v us' cp, us = v :: us' ∧ IsLow v ∧ cp.toNat = v
        ∧ lowSurrogateNext (cesu8 us) = some (cp, cesu8 us'))
      ∨ lowSurrogateNext (cesu8 us) = none := by
  cases us with
  | nil => exact .inr rfl
  | cons v us =>
      have bound := small v List.mem_cons_self
      have other {b : UInt8} {tail : List UInt8} (value : b.toNat / 16 ≠ 14)
          : lowSurrogateNext (b :: tail) = none := by
        unfold lowSurrogateNext
        split
        · rename_i same
          obtain ⟨rfl, -⟩ := List.cons.inj same
          rw [lead3_iff, decide_eq_false value]
          rfl
        · rfl
      rw [cesu8_cons]
      rcases sequence_cases (show v < 0x110000 by omega) with ⟨ascii, b, is, value⟩
        | ⟨low, high, b0, b1, is, first, -⟩ | ⟨low, high, b0, b1, b2, is, first, second, third⟩
        | ⟨low, -⟩
      · rw [is]
        exact .inr (other (by omega))
      · rw [is]
        exact .inr (other (by omega))
      · have value := rawThree_sequence bound first second third
        rw [is]
        simp only [List.cons_append, List.nil_append, lowSurrogateNext, lead3_iff]
        rw [if_pos (decide_eq_true (by omega)), isLowSurrogate_iff, value]
        by_cases isLow : IsLow v
        · rw [if_pos (decide_eq_true isLow)]
          exact .inl ⟨v, us, _, rfl, isLow, value, rfl⟩
        · rw [if_neg (by simpa using isLow)]
          exact .inr rfl
      · omega

/-- The supplementary codepoint of a pair, as the escaper computes it. -/
theorem supplementary_joined {high low : UInt32} (isHigh : IsHigh high.toNat)
    (isLow : IsLow low.toNat)
    : ((high - 0xD800) * 0x400 + 0x10000 + (low - 0xDC00)).toNat
      = joined high.toNat low.toNat := by
  unfold IsHigh at isHigh
  unfold IsLow at isLow
  have highLeast : (0xD800 : UInt32) ≤ high := UInt32.le_iff_toNat_le.mpr isHigh.1
  have lowLeast : (0xDC00 : UInt32) ≤ low := UInt32.le_iff_toNat_le.mpr isLow.1
  have first : (high - 0xD800).toNat = high.toNat - 0xD800 :=
    UInt32.toNat_sub_of_le _ _ highLeast
  have second : (low - 0xDC00).toNat = low.toNat - 0xDC00 := UInt32.toNat_sub_of_le _ _ lowLeast
  have factor : (0x400 : UInt32).toNat = 0x400 := by decide
  have start : (0x10000 : UInt32).toNat = 0x10000 := by decide
  rw [UInt32.toNat_add, UInt32.toNat_add, UInt32.toNat_mul, first, second, factor, start]
  unfold joined
  omega

/-- One turn of the escaper on canonical bytes. -/
structure WritesPiece (us : List Nat) (next : List UInt8 × List UInt8) (piece : StringPiece)
    (us' : List Nat) : Prop where
  written : next = (piece.text, cesu8 us')
  units : us = piece.units ++ us'
  scalar : IsScalar piece
  size : piece.text.length + 6 * (cesu8 us').length ≤ 6 * (cesu8 us).length

theorem length_cesu8_cons (u : Nat) (us : List Nat)
    : (cesu8 (u :: us)).length = (sequence u).length + (cesu8 us).length := by
  rw [cesu8_cons, List.length_append]

/-- A unit of three bytes: a pair, a surrogate alone, or a character as it is. -/
theorem escapeThree_piece {u : Nat} {us : List Nat} (low : 0x800 ≤ u) (high : u < 0x10000)
    (small : ∀ v ∈ us, v < 0x10000) {b0 b1 b2 : UInt8} (is : sequence u = [b0, b1, b2])
    (first : b0.toNat = 0xE0 + u / 4096) (second : b1.toNat = 0x80 + u / 64 % 64)
    (third : b2.toNat = 0x80 + u % 64)
    : ∃ piece us',
      WritesPiece (u :: us) (escapeThree b0 (b1 :: b2 :: cesu8 us)) piece us' := by
  have value := rawThree_sequence high first second third
  have three : (cesu8 (u :: us)).length = 3 + (cesu8 us).length := by
    rw [length_cesu8_cons, is]
    rfl
  have found : (∃ v us' cp, us = v :: us' ∧ IsHigh u ∧ IsLow v ∧ cp.toNat = v
        ∧ (if isHighSurrogate (rawThree b0 b1 b2) then lowSurrogateNext (cesu8 us) else none)
          = some (cp, cesu8 us'))
      ∨ (if isHighSurrogate (rawThree b0 b1 b2) then lowSurrogateNext (cesu8 us) else none)
        = none := by
    rw [isHighSurrogate_iff, value]
    by_cases isHigh : IsHigh u
    · rw [if_pos (decide_eq_true isHigh)]
      rcases lowSurrogateNext_cesu8 small with ⟨v, us', cp, is, isLow, codepoint, next⟩ | none
      · exact .inl ⟨v, us', cp, is, isHigh, isLow, codepoint, next⟩
      · exact .inr none
    · exact .inr (if_neg (by simpa using isHigh))
  rcases found with ⟨v, us', cp, rfl, isHigh, isLow, codepoint, next⟩ | none
  · have supplementary := supplementary_joined (by rwa [value]) (by rwa [codepoint])
    rw [value, codepoint] at supplementary
    have range : 0x10000 ≤ joined u v ∧ joined u v < 0x110000
        ∧ highOf (joined u v) = u ∧ lowOf (joined u v) = v := by
      unfold IsHigh at isHigh
      unfold IsLow at isLow
      unfold joined highOf lowOf
      omega
    obtain ⟨astral, bound, first, second⟩ := range
    have written : escapeThree b0 (b1 :: b2 :: cesu8 (v :: us'))
        = (fourBytes ((rawThree b0 b1 b2 - 0xD800) * 0x400 + 0x10000 + (cp - 0xDC00)),
          cesu8 us') := by
      simp only [escapeThree, next]
    generalize (rawThree b0 b1 b2 - 0xD800) * 0x400 + 0x10000 + (cp - 0xDC00) = pair
      at supplementary written
    have four : fourBytes pair = sequence pair.toNat := fourBytes_sequence (by omega) (by omega)
    rw [supplementary] at four
    refine ⟨.plain (plainUnit (joined u v) (by omega) bound), us', ?_, ?_, ?_, ?_⟩
    · rw [written, four]
      rfl
    · change _ = Utf8.units (joined u v) ++ _
      rw [units_astral astral, first, second]
      rfl
    · change ¬(0xD800 ≤ joined u v ∧ joined u v ≤ 0xDFFF)
      omega
    · have length : (sequence (joined u v)).length ≤ 4 := by
        rw [← four]
        exact Nat.le_refl 4
      have behind : (cesu8 us').length ≤ (cesu8 (v :: us')).length := by
        rw [length_cesu8_cons]
        omega
      change (sequence (joined u v)).length + _ ≤ _
      omega
  · by_cases surrogate : 0xD800 ≤ u ∧ u ≤ 0xDFFF
    · have digit (k : UInt32) (narrow : k.toNat < 32)
          : hexChar (rawThree b0 b1 b2 >>> k) = (lowDigit (u / 2 ^ k.toNat)).byte := by
        rw [hexChar_lowDigit, toNat_from _ k narrow, value]
      refine ⟨.unicode (lowDigit (u / 4096)) (lowDigit (u / 256)) (lowDigit (u / 16)) (lowDigit u),
        us, ?_, ?_, trivial, ?_⟩
      · simp only [escapeThree, none, isSurrogate_iff, value, decide_eq_true surrogate, if_true,
          digit 12 (by decide), digit 8 (by decide), digit 4 (by decide), hexChar_lowDigit]
        rfl
      · simp only [StringPiece.units, lowDigit, List.singleton_append, List.cons.injEq, and_true]
        omega
      · simp only [StringPiece.text, List.length_cons, List.length_nil]
        omega
    · have three' := threeBytes_sequence (by rwa [value]) (by rwa [value])
      rw [value] at three'
      refine ⟨.plain (plainUnit u (by omega) (by omega)), us, ?_, ?_, surrogate, ?_⟩
      · simp only [escapeThree, none, isSurrogate_iff, value, decide_eq_false surrogate,
          Bool.false_eq_true, if_false, three']
        rfl
      · change _ = Utf8.units u ++ _
        rw [units_small high]
        rfl
      · change (sequence u).length + _ ≤ _
        rw [is]
        simp only [List.length_cons, List.length_nil]
        omega

/-- One turn of the escaper writes a character that denotes the next units. -/
theorem escapeNext_piece {u : Nat} {us : List Nat} (small : ∀ v ∈ u :: us, v < 0x10000)
    : ∃ b tail, cesu8 (u :: us) = b :: tail
      ∧ ∃ piece us', WritesPiece (u :: us) (escapeNext b tail) piece us' := by
  have high := small u List.mem_cons_self
  have others : ∀ v ∈ us, v < 0x10000 := fun v member => small v (List.mem_cons_of_mem u member)
  have length := length_cesu8_cons u us
  rcases sequence_cases (show u < 0x110000 by omega) with ⟨ascii, b, is, value⟩
    | ⟨low, two, b0, b1, is, first, second⟩ | ⟨low, -, b0, b1, b2, is, first, second, third⟩
    | ⟨low, -⟩
  · refine ⟨b, cesu8 us, by rw [cesu8_cons, is]; rfl, ?_⟩
    obtain ⟨piece, written, units, scalar, size⟩ := escapeAscii_piece (b := b) (by omega)
    rw [is, List.length_singleton] at length
    refine ⟨piece, us, ?_, ?_, scalar, by omega⟩
    · rw [escapeNext, written]
    · rw [units, value]
      rfl
  · refine ⟨b0, b1 :: cesu8 us, by rw [cesu8_cons, is]; rfl, ?_⟩
    have cp := codepoint2 b0 b1
    rw [show b0.toNat % 32 * 64 + b1.toNat % 64 = u by omega] at cp
    have written := twoBytes_sequence (by rwa [cp]) (by rwa [cp])
    refine ⟨.plain (plainUnit u low (by omega)), us, ?_, ?_, ?_, ?_⟩
    · rw [escapeNext, escapeAscii_high (by omega)]
      simp only [lead2_iff]
      rw [if_pos (decide_eq_true (by omega)), escapeTwo, written, cp]
      rfl
    · change _ = Utf8.units u ++ _
      rw [units_small high]
      rfl
    · change ¬(0xD800 ≤ u ∧ u ≤ 0xDFFF)
      omega
    · change (sequence u).length + _ ≤ _
      omega
  · refine ⟨b0, b1 :: b2 :: cesu8 us, by rw [cesu8_cons, is]; rfl, ?_⟩
    have turn : escapeNext b0 (b1 :: b2 :: cesu8 us) = escapeThree b0 (b1 :: b2 :: cesu8 us) := by
      rw [escapeNext, escapeAscii_high (by omega)]
      simp only [lead2_iff, lead3_iff]
      rw [if_neg (by simp; omega), if_pos (decide_eq_true (by omega))]
    rw [turn]
    exact escapeThree_piece low high others is first second third
  · omega

-----------------------------------------------------------------------------------------
-- Whole strings
-----------------------------------------------------------------------------------------

/-- The loop writes characters that denote the units, and never stops for lack of room, by
induction on what is left of the source.
-/
theorem escapeLoop_pieces (us : List Nat) (small : ∀ u ∈ us, u < 0x10000)
    : ∃ pieces : List StringPiece, literalUnits pieces = us ∧ (∀ piece ∈ pieces, IsScalar piece)
      ∧ (pieces.flatMap StringPiece.text).length ≤ 6 * (cesu8 us).length
      ∧ ∀ bufSize out, out.length + 6 * (cesu8 us).length < bufSize →
        escapeLoop bufSize (cesu8 us) out = out ++ pieces.flatMap StringPiece.text := by
  cases us with
  | nil =>
      refine ⟨[], rfl, by simp, Nat.zero_le _, ?_⟩
      intro bufSize out _
      rw [cesu8, List.flatMap_nil, escapeLoop, List.flatMap_nil, List.append_nil]
  | cons u us =>
      obtain ⟨b, tail, is, piece, us', turn, units, scalar, size⟩ := escapeNext_piece small
      have some := List.length_pos_iff.mpr (text_ne_nil piece)
      have shorter : (cesu8 us').length < (cesu8 (u :: us)).length := by omega
      obtain ⟨pieces, others, scalars, sizes, run⟩ := escapeLoop_pieces us' fun v member =>
        small v (units ▸ List.mem_append_right _ member)
      refine ⟨piece :: pieces, ?_, ?_, ?_, ?_⟩
      · rw [units, ← others]
        rfl
      · intro other member
        rcases List.mem_cons.mp member with rfl | member
        · exact scalar
        · exact scalars other member
      · rw [List.flatMap_cons, List.length_append]
        omega
      · intro bufSize out room
        have first : out.length < bufSize := by omega
        have fits : ¬(piece.text ≠ [] ∧ bufSize < out.length + piece.text.length) := by omega
        have next := run bufSize (out ++ piece.text) (by rw [List.length_append]; omega)
        rw [is, escapeLoop, if_pos first]
        simp only [turn]
        rw [if_neg fits, next, List.append_assoc]
        rfl
termination_by (cesu8 us).length

/-- The escaper writes a literal for every string: its characters are printable, no quote and no
surrogate stands for itself, the worst case that is reserved holds it, it denotes the units of the
string, and the parser reads them back. Witness: one turn of the escaper writes a character for
the next units, whatever they are.
-/
theorem jsonEscape_roundTrips (us : List UInt16)
    : ∃ pieces : List StringPiece,
        (∀ bufSize, (cesu8 (us.map UInt16.toNat)).length * 6 + 2 ≤ bufSize →
            jsonEscapeString (cesu8 (us.map UInt16.toNat)) bufSize = literalText pieces)
          ∧ (literalText pieces).length ≤ (cesu8 (us.map UInt16.toNat)).length * 6 + 2
          ∧ (∀ reserve out, reserve (out.length + ((cesu8 (us.map UInt16.toNat)).length * 6 + 2)) →
            jsonEscapeStringTo reserve out (cesu8 (us.map UInt16.toNat))
              = some (out ++ literalText pieces))
          ∧ (∀ piece ∈ pieces, IsScalar piece)
          ∧ literalUnits pieces = us.map UInt16.toNat
          ∧ ∀ rest, jsonParseString (literalText pieces ++ rest)
              = some (cesu8 (us.map UInt16.toNat), rest) := by
  have small : ∀ u ∈ us.map UInt16.toNat, u < 0x10000 := by
    intro u member
    obtain ⟨unit, -, rfl⟩ := List.mem_map.mp member
    exact unit.toNat_lt
  obtain ⟨pieces, units, scalars, size, run⟩ := escapeLoop_pieces (us.map UInt16.toNat) small
  have whole (rest : List UInt8)
      : jsonParseString (literalText pieces ++ rest) = some (cesu8 (us.map UInt16.toNat), rest) := by
    rw [jsonParseString_literal, units]
  generalize cesu8 (us.map UInt16.toNat) = src at size run whole ⊢
  have length : (literalText pieces).length = (pieces.flatMap StringPiece.text).length + 2 := by
    rw [literalText, List.length_cons, List.length_append, List.length_singleton]
  have complete : ∀ bufSize, src.length * 6 + 2 ≤ bufSize →
      jsonEscapeString src bufSize = literalText pieces := by
    intro bufSize room
    have loop := run bufSize [0x22] (by rw [List.length_singleton]; omega)
    have last : ([0x22] ++ pieces.flatMap StringPiece.text).length < bufSize := by
      rw [List.length_append, List.length_singleton]
      omega
    have opens : 0 < bufSize := by omega
    simp only [jsonEscapeString, if_pos opens, loop]
    rw [if_pos last, literalText, List.append_assoc]
    rfl
  refine ⟨pieces, complete, by omega, ?_, scalars, units, whole⟩
  intro reserve out room
  have written := complete (src.length * 6 + 2) (Nat.le_refl _)
  simp only [jsonEscapeStringTo, room, if_true, written]
  rw [if_neg (by omega)]

end Boomkat.Correctness
