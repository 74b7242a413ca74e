import Boomkat.Globals.ParseFloat
import Boomkat.Correctness.Cesu8
import Boomkat.Correctness.JsonNumber

/-! `parseFloat` reads the longest decimal literal at the start of a string, as far as the buffer
for the literal keeps its value.
-/

namespace Boomkat.Correctness
open Machine Globals Utf8
open Json (isDigit skipExponentSign digitChar digitsValue Exponent)

-----------------------------------------------------------------------------------------
-- White space
-----------------------------------------------------------------------------------------

/-- White space out of ASCII. -/
def wideSpaces : List Nat :=
  [0xA0, 0x1680, 0x2000, 0x2001, 0x2002, 0x2003, 0x2004, 0x2005, 0x2006, 0x2007, 0x2008, 0x2009,
    0x200A, 0x2028, 0x2029, 0x202F, 0x205F, 0x3000, 0xFEFF]

theorem mem_wideSpaces {n : Nat} : n ∈ wideSpaces ↔ 0x80 ≤ n ∧ isStrWhiteSpace n = true := by
  simp only [isStrWhiteSpace, wideSpaces, Bool.or_eq_true, Bool.and_eq_true, decide_eq_true_eq,
    List.mem_cons, List.not_mem_nil, or_false]
  constructor
  · rintro member
    constructor <;> omega
  · rintro ⟨wide, white⟩
    omega

theorem starts_two {buf : List UInt8} {b0 b1 : UInt8} (first : buf[0]? = some b0)
    (second : buf[1]? = some b1)
    : ∃ rest, buf = b0 :: b1 :: rest := by
  rcases buf with - | ⟨c0, - | ⟨c1, rest⟩⟩
  · cases first
  · cases second
  · obtain ⟨rfl, rfl⟩ : c0 = b0 ∧ c1 = b1 := ⟨by simpa using first, by simpa using second⟩
    exact ⟨rest, rfl⟩

theorem starts_three {buf : List UInt8} {b0 b1 b2 : UInt8} (first : buf[0]? = some b0)
    (second : buf[1]? = some b1) (third : buf[2]? = some b2)
    : ∃ rest, buf = b0 :: b1 :: b2 :: rest := by
  obtain ⟨tail, rfl⟩ := starts_two first second
  cases tail with
  | nil => cases third
  | cons c rest =>
      obtain rfl : c = b2 := by simpa using third
      exact ⟨rest, rfl⟩

/-- What the bytes of wide white space decode to. -/
theorem utf8WhitespaceLen_decoded {buf : List UInt8} (found : utf8WhitespaceLen buf ≠ 0)
    : (Strings.decodeCodepoint buf).toNat ∈ wideSpaces := by
  unfold utf8WhitespaceLen at found
  split at found
  case isTrue bytes =>
    obtain ⟨rest, rfl⟩ := starts_two bytes.1 bytes.2
    change 0xA0 ∈ wideSpaces
    decide
  split at found
  case isTrue bytes =>
    obtain ⟨rest, rfl⟩ := starts_three bytes.1 bytes.2.1 bytes.2.2
    change 0x1680 ∈ wideSpaces
    decide
  split at found
  case isTrue bytes =>
    obtain ⟨first, second, among⟩ := bytes
    obtain ⟨c2, third⟩ : ∃ c2, buf[2]? = some c2 := by
      cases third : buf[2]? with
      | none => simp [third] at among
      | some c2 => exact ⟨c2, rfl⟩
    rw [third, Option.any_some] at among
    obtain ⟨rest, rfl⟩ := starts_three first second third
    have numbers : c2.toNat ∈ [0x80, 0x81, 0x82, 0x83, 0x84, 0x85, 0x86, 0x87, 0x88, 0x89, 0x8A,
        0xA8, 0xA9, 0xAF] := by
      simp only [isGeneralSpace, Bool.or_eq_true, Bool.and_eq_true, decide_eq_true_eq, beq_iff_eq,
        ← UInt8.toNat_inj, UInt8.le_iff_toNat_le, UInt8.reduceToNat] at among
      simp only [List.mem_cons, List.not_mem_nil, or_false]
      omega
    have decoded : ∀ n ∈ [0x80, 0x81, 0x82, 0x83, 0x84, 0x85, 0x86, 0x87, 0x88, 0x89, 0x8A, 0xA8,
        0xA9, 0xAF], (Strings.decodeCodepoint [0xE2, 0x80, UInt8.ofNat n]).toNat ∈ wideSpaces := by
      decide
    rw [← UInt8.ofNat_toNat (x := c2)]
    exact decoded c2.toNat numbers
  split at found
  case isTrue bytes =>
    obtain ⟨rest, rfl⟩ := starts_three bytes.1 bytes.2.1 bytes.2.2
    change 0x205F ∈ wideSpaces
    decide
  split at found
  case isTrue bytes =>
    obtain ⟨rest, rfl⟩ := starts_three bytes.1 bytes.2.1 bytes.2.2
    change 0x3000 ∈ wideSpaces
    decide
  split at found
  case isTrue bytes =>
    obtain ⟨rest, rfl⟩ := starts_three bytes.1 bytes.2.1 bytes.2.2
    change 0xFEFF ∈ wideSpaces
    decide
  · exact absurd rfl found

theorem utf8WhitespaceLen_sequence {n : Nat} (bound : n < 0x110000) (rest : List UInt8)
    : utf8WhitespaceLen (sequence n ++ rest)
      = if n ∈ wideSpaces then (sequence n).length else 0 := by
  split
  case isTrue white =>
    simp only [wideSpaces, List.mem_cons, List.not_mem_nil, or_false] at white
    rcases white with rfl | rfl | rfl | rfl | rfl | rfl | rfl | rfl | rfl | rfl | rfl | rfl | rfl
      | rfl | rfl | rfl | rfl | rfl | rfl <;> rfl
  case isFalse other =>
    by_contra found
    have member := utf8WhitespaceLen_decoded found
    rw [decodeCodepoint_sequence bound] at member
    exact other member
theorem isSpace_iff (c : UInt8)
    : isSpace c = true ↔ c.toNat < 0x80 ∧ isStrWhiteSpace c.toNat = true := by
  simp only [isSpace, isStrWhiteSpace, Bool.or_eq_true, Bool.and_eq_true, beq_iff_eq,
    decide_eq_true_eq, List.mem_cons, List.not_mem_nil, or_false, ← UInt8.toNat_inj,
    UInt8.reduceToNat]
  omega

/-- A sequence is one byte of ASCII, or starts with a byte beyond it. -/
theorem sequence_head {n : Nat} (bound : n < 0x110000)
    : (n < 0x80 ∧ ∃ c : UInt8, c.toNat = n ∧ sequence n = [c])
      ∨ (0x80 ≤ n ∧ ∃ c tail, 0x80 ≤ c.toNat ∧ sequence n = c :: tail) := by
  rcases sequence_cases bound with ⟨small, b, is, value⟩ | ⟨low, high, b0, b1, is, first, -⟩
    | ⟨low, high, b0, b1, b2, is, first, -⟩ | ⟨low, b0, b1, b2, b3, is, first, -⟩
  · exact .inl ⟨small, b, value, is⟩
  · exact .inr ⟨low, b0, [b1], by omega, is⟩
  · exact .inr ⟨by omega, b0, [b1, b2], by omega, is⟩
  · exact .inr ⟨by omega, b0, [b1, b2, b3], by omega, is⟩

/-- One turn of the scan takes a character of white space and stops at any other. -/
theorem skipWhitespace_sequence {n : Nat} (bound : n < 0x110000) (rest : List UInt8)
    : skipWhitespace (sequence n ++ rest)
      = if isStrWhiteSpace n then skipWhitespace rest else sequence n ++ rest := by
  have wide := utf8WhitespaceLen_sequence bound rest
  rcases sequence_head bound with ⟨ascii, c, value, spelled⟩ | ⟨high, c, tail, lead, spelled⟩
  · rw [if_neg fun member => absurd (mem_wideSpaces.mp member).1 (by omega)] at wide
    rw [spelled, List.singleton_append] at wide ⊢
    rw [skipWhitespace, wide]
    cases white : isStrWhiteSpace n with
    | true => rw [if_pos ((isSpace_iff c).mpr (by rw [value]; exact ⟨ascii, white⟩)), if_pos rfl]
    | false =>
        have other : ¬isSpace c = true := by
          rw [isSpace_iff, value, white]
          exact fun space => absurd space.2 (by decide)
        rw [if_neg other, if_neg (by decide), if_neg (by decide)]
  · have other : ¬isSpace c = true := fun space => absurd ((isSpace_iff c).mp space).1 (by omega)
    have reached : skipWhitespace (sequence n ++ rest)
        = if 0 < utf8WhitespaceLen (sequence n ++ rest)
          then skipWhitespace ((sequence n ++ rest).drop (utf8WhitespaceLen (sequence n ++ rest)))
          else sequence n ++ rest := by
      rw [spelled, List.cons_append, skipWhitespace, if_neg other]
    rw [reached, wide]
    cases white : isStrWhiteSpace n with
    | true =>
        have some : 0 < (sequence n).length := by rw [spelled, List.length_cons]; omega
        rw [if_pos (mem_wideSpaces.mpr ⟨high, white⟩), if_pos some, List.drop_left, if_pos rfl]
    | false =>
        have outside : n ∉ wideSpaces := fun member => by
          rw [mem_wideSpaces, white] at member
          exact absurd member.2 (by decide)
        rw [if_neg outside, if_neg (by decide), if_neg (by decide)]

/-- White space at the start of a string goes, and nothing else. -/
theorem skipWhitespace_bytesOf (cps : List Codepoint)
    : skipWhitespace (bytesOf cps) = bytesOf (cps.dropWhile fun cp => isStrWhiteSpace cp.val) := by
  induction cps with
  | nil =>
      rw [bytesOf, List.flatMap_nil, skipWhitespace]
      rfl
  | cons cp cps ih =>
      rw [bytesOf_cons, skipWhitespace_sequence cp.isLt, List.dropWhile_cons]
      cases isStrWhiteSpace cp.val with
      | true => rw [if_pos rfl, if_pos rfl, ih]
      | false => rw [if_neg (by decide), if_neg (by decide), bytesOf_cons]

/-- No half of a pair is white space, and no astral codepoint. -/
theorem isStrWhiteSpace_outside {n : Nat} (outside : (0xD800 ≤ n ∧ n ≤ 0xDFFF) ∨ 0x10000 ≤ n)
    : isStrWhiteSpace n = false := by
  rw [← Bool.not_eq_true]
  intro white
  have member := mem_wideSpaces.mpr ⟨by omega, white⟩
  simp only [wideSpaces, List.mem_cons, List.not_mem_nil, or_false] at member
  omega

/-- The same on code units, of which white space is one each. -/
theorem dropWhile_unitsOf (cps : List Codepoint)
    : (unitsOf cps).dropWhile isStrWhiteSpace
      = unitsOf (cps.dropWhile fun cp => isStrWhiteSpace cp.val) := by
  induction cps with
  | nil => rfl
  | cons cp cps ih =>
      rw [unitsOf_cons, List.dropWhile_cons]
      by_cases small : cp.val < 0x10000
      · rw [units_small small, List.singleton_append, List.dropWhile_cons, ih]
        split
        · rfl
        · rw [unitsOf_cons, units_small small, List.singleton_append]
      · have half := highOf_isHigh cp.isLt
        unfold IsHigh at half
        rw [units_astral (by omega), List.cons_append, List.dropWhile_cons,
          isStrWhiteSpace_outside (.inl ⟨half.1, by omega⟩), isStrWhiteSpace_outside (.inr (by omega)),
          if_neg (by decide), if_neg (by decide), unitsOf_cons, units_astral (by omega)]
        rfl

/-- ASCII at the start of a string is the same in bytes and in code units. -/
theorem prefix_units_iff {text : List UInt8} (ascii : ∀ c ∈ text, c.toNat < 0x80)
    (cps : List Codepoint)
    : text.map UInt8.toNat <+: unitsOf cps ↔ text <+: bytesOf cps := by
  induction text generalizing cps with
  | nil => simp
  | cons c text ih =>
      have small := ascii c List.mem_cons_self
      have later := ih fun c' member => ascii c' (List.mem_cons_of_mem c member)
      cases cps with
      | nil => simp [unitsOf, bytesOf]
      | cons cp cps =>
          rw [unitsOf_cons, bytesOf_cons]
          rcases sequence_head cp.isLt with ⟨one, d, value, spelled⟩ | ⟨high, d, tail, lead, spelled⟩
          · rw [units_small (by omega), spelled, List.map_cons, List.singleton_append,
              List.singleton_append, List.cons_prefix_cons, List.cons_prefix_cons, later cps, ← value,
              UInt8.toNat_inj]
          · rw [spelled, List.map_cons, List.cons_append, List.cons_prefix_cons]
            have apart : c ≠ d := by
              rintro rfl
              omega
            constructor
            · intro heads
              obtain ⟨u, tail, is, outside⟩ : ∃ u tail, units cp.val = u :: tail ∧ 0x80 ≤ u := by
                by_cases single : cp.val < 0x10000
                · exact ⟨cp.val, [], units_small single, high⟩
                · have half := highOf_isHigh cp.isLt
                  unfold IsHigh at half
                  exact ⟨_, _, units_astral (by omega), by omega⟩
              rw [is, List.cons_append, List.cons_prefix_cons] at heads
              omega
            · exact fun heads => absurd heads.1 apart

-----------------------------------------------------------------------------------------
-- The scan
-----------------------------------------------------------------------------------------

theorem digitChar_of_isDigit {c : UInt8} (digit : isDigit c = true) : ∃ d, digitChar d = c := by
  simp only [isDigit, Bool.and_eq_true, decide_eq_true_eq, UInt8.le_iff_toNat_le,
    UInt8.reduceToNat] at digit
  refine ⟨⟨c.toNat - 0x30, by omega⟩, ?_⟩
  rw [← UInt8.toNat_inj, digitChar, toNat_ofNat (by simp; omega)]
  simp
  omega

/-- A dropped prefix of digits starts with one. -/
theorem starts_digit {src : List UInt8} (dropped : (src.dropWhile isDigit).length < src.length)
    : ∃ d rest, src = digitChar d :: rest := by
  cases src with
  | nil => simp at dropped
  | cons c rest =>
      cases digit : isDigit c with
      | true =>
          obtain ⟨d, rfl⟩ := digitChar_of_isDigit digit
          exact ⟨d, rest, rfl⟩
      | false => simp [digit] at dropped

theorem skipExponentSign_spelled (src : List UInt8)
    : ∃ sign, src = signText sign ++ skipExponentSign src := by
  unfold skipExponentSign
  split
  · exact ⟨some false, rfl⟩
  · exact ⟨some true, rfl⟩
  · exact ⟨none, rfl⟩

theorem exponent_text (exponent : Exponent)
    : exponent.text
      = exponentLead exponent.upper exponent.sign ++ exponent.digits.map digitChar := by
  rw [Exponent.text, exponentLead]
  rcases exponent.sign with - | (_ | _) <;> rfl

/-- Only an exponent is skipped. -/
theorem exists_exponent {src : List UInt8} (skipped : skipExponent src ≠ src)
    : ∃ exponent : Exponent, exponent.text <+: src := by
  have complete : ∀ (upper : Bool) (behind : List UInt8), src = (if upper then 0x45 else 0x65) :: behind →
      ((skipExponentSign behind).dropWhile isDigit).length < (skipExponentSign behind).length →
      ∃ exponent : Exponent, exponent.text <+: src := by
    intro upper behind spelled longer
    obtain ⟨sign, signed⟩ := skipExponentSign_spelled behind
    obtain ⟨d, rest, digits⟩ := starts_digit longer
    refine ⟨⟨upper, sign, [d], List.cons_ne_nil _ _⟩, rest, ?_⟩
    rw [exponent_text, spelled, signed, digits]
    simp [exponentLead]
  unfold skipExponent at skipped
  split at skipped
  case h_3 => exact absurd rfl skipped
  case h_1 behind =>
    dsimp only at skipped
    split at skipped
    case isTrue longer => exact complete false behind rfl longer
    case isFalse => exact absurd rfl skipped
  case h_2 behind =>
    dsimp only at skipped
    split at skipped
    case isTrue longer => exact complete true behind rfl longer
    case isFalse => exact absurd rfl skipped

/-- What stands behind a literal does not go on with it. -/
structure Behind (literal : StrDecimal) (rest : List UInt8) : Prop where
  digits : EndsDigits rest
  point : literal.fraction = none → literal.exponent = none → rest.head? ≠ some 0x2E
  exponent : literal.exponent = none → skipExponent rest = rest

/-- The longest literal has nothing behind it that goes on with it, since a longer one would take
that in.
-/
theorem behind_of_longest {literal : StrDecimal} {rest : List UInt8}
    (longest : ∀ other : StrDecimal, other.text <+: literal.text ++ rest →
      other.text.length ≤ literal.text.length)
    : Behind literal rest := by
  -- A literal of more bytes is no longer a prefix.
  have stops : ∀ (other : StrDecimal) (more tail : List UInt8), other.text = literal.text ++ more →
      rest = more ++ tail → more = [] := by
    intro other more tail text spelled
    have shorter := longest other ⟨tail, by rw [text, spelled, List.append_assoc]⟩
    rw [text, List.length_append] at shorter
    exact List.eq_nil_of_length_eq_zero (by omega)
  obtain ⟨sign, integer, fraction, exponent, spelled⟩ := literal
  refine ⟨?_, ?_, ?_⟩
  · intro c first
    by_contra digit
    obtain ⟨d, rfl⟩ := digitChar_of_isDigit ((Bool.not_eq_false _).mp digit)
    obtain ⟨tail, rfl⟩ : ∃ tail, rest = digitChar d :: tail := by
      cases rest with
      | nil => cases first
      | cons c tail => exact ⟨tail, by rw [Option.mem_some.mp first]⟩
    have goes : ∃ other : StrDecimal,
        other.text = StrDecimal.text ⟨sign, integer, fraction, exponent, spelled⟩ ++ [digitChar d] := by
      rcases exponent with - | ⟨upper, esign, digits, nonempty⟩
      · rcases fraction with - | fraction
        · refine ⟨⟨sign, integer ++ [d], none, none, .inl (by simp)⟩, ?_⟩
          simp [StrDecimal.text, StrDecimal.fractionText, StrDecimal.exponentText]
        · refine ⟨⟨sign, integer, .some (fraction ++ [d]), none, .inr (by simp)⟩, ?_⟩
          simp [StrDecimal.text, StrDecimal.fractionText, StrDecimal.exponentText]
      · refine ⟨⟨sign, integer, fraction, .some ⟨upper, esign, digits ++ [d], by simp⟩, spelled⟩, ?_⟩
        simp [StrDecimal.text, StrDecimal.exponentText, exponent_text]
    obtain ⟨other, text⟩ := goes
    exact absurd (stops other [digitChar d] tail text rfl) (List.cons_ne_nil _ _)
  · rintro rfl rfl
    intro first
    obtain ⟨tail, rfl⟩ : ∃ tail, rest = 0x2E :: tail := by
      cases rest with
      | nil => cases first
      | cons c tail => exact ⟨tail, by rw [Option.some.inj first]⟩
    have digits : integer ≠ [] := by simpa using spelled
    refine absurd (stops ⟨sign, integer, .some [], none, .inl digits⟩ [0x2E] tail ?_ rfl)
      (List.cons_ne_nil _ _)
    simp [StrDecimal.text, StrDecimal.fractionText, StrDecimal.exponentText]
  · rintro rfl
    by_contra skipped
    obtain ⟨exponent, tail, taken⟩ := exists_exponent skipped
    refine absurd (stops ⟨sign, integer, fraction, .some exponent, spelled⟩ exponent.text tail ?_
      taken.symm) (by simp [exponent_text, exponentLead])
    simp [StrDecimal.text, StrDecimal.exponentText]

/-- An exponent is skipped up to its last digit. -/
theorem skipExponent_text (exponent : Exponent) {rest : List UInt8} (ends : EndsDigits rest)
    : skipExponent (exponent.text ++ rest) = rest := by
  obtain ⟨c, spelled, letter, skipped⟩ := skipExponentSign_text exponent rest
  obtain ⟨d, digits, nonempty⟩ := List.exists_cons_of_ne_nil exponent.nonempty
  have longer : rest.length < (exponent.digits.map digitChar ++ rest).length := by
    simp only [nonempty, List.map_cons, List.cons_append, List.length_cons, List.length_append]
    omega
  have dropped := dropWhile_digits exponent.digits ends
  rw [spelled]
  rcases letter with rfl | rfl
  · simp only [skipExponent, skipped, dropped, if_pos longer]
  · simp only [skipExponent, skipped, dropped, if_pos longer]

/-- The unsigned part of a literal. -/
def unsignedText (literal : StrDecimal) : List UInt8 :=
  literal.integer.map digitChar
    ++ (StrDecimal.fractionText literal.fraction ++ StrDecimal.exponentText literal.exponent)

theorem text_eq (literal : StrDecimal) : literal.text = signText literal.sign ++ unsignedText literal :=
  rfl

theorem skipExponent_behind {literal : StrDecimal} {rest : List UInt8} (behind : Behind literal rest)
    : skipExponent (StrDecimal.exponentText literal.exponent ++ rest) = rest := by
  cases exponent : literal.exponent with
  | none => exact behind.exponent exponent
  | some e => exact skipExponent_text e behind.digits

/-- An exponent starts with its letter. -/
theorem exponentText_head (exponent : Option Exponent) (rest : List UInt8)
    : (exponent = none ∧ StrDecimal.exponentText exponent ++ rest = rest)
      ∨ ∃ c tail, StrDecimal.exponentText exponent ++ rest = c :: tail ∧ (c = 0x65 ∨ c = 0x45) := by
  cases exponent with
  | none => exact .inl ⟨rfl, rfl⟩
  | some e =>
      obtain ⟨c, spelled, letter, -⟩ := skipExponentSign_text e rest
      exact .inr ⟨c, _, spelled, letter⟩

/-- Behind the digits of a fraction stands an exponent, or what is behind the literal. -/
theorem endsDigits_exponent {literal : StrDecimal} {rest : List UInt8} (behind : Behind literal rest)
    : EndsDigits (StrDecimal.exponentText literal.exponent ++ rest) := by
  rcases exponentText_head literal.exponent rest with ⟨-, nothing⟩ | ⟨c, tail, spelled, letter⟩
  · rw [nothing]
    exact behind.digits
  · intro c' first
    rw [spelled] at first
    obtain rfl : c = c' := Option.some.inj first
    rcases letter with rfl | rfl <;> decide

/-- The digits of the integer end at the point, or where those of a fraction would. -/
theorem endsDigits_fraction {literal : StrDecimal} {rest : List UInt8} (behind : Behind literal rest)
    : EndsDigits (StrDecimal.fractionText literal.fraction
      ++ (StrDecimal.exponentText literal.exponent ++ rest)) := by
  cases literal.fraction with
  | none => exact endsDigits_exponent behind
  | some digits =>
      intro c first
      obtain rfl : 0x2E = c := Option.some.inj first
      decide

theorem skipFraction_cases (src : List UInt8)
    : (∃ digits, src = 0x2E :: digits
        ∧ (skipFraction src).2 = decide ((digits.dropWhile isDigit).length < digits.length))
      ∨ (skipFraction src).2 = false := by
  unfold skipFraction
  split
  · exact .inl ⟨_, rfl, rfl⟩
  · exact .inr rfl

theorem skipFraction_digits (digits : List (Fin 10)) {rest : List UInt8} (ends : EndsDigits rest)
    : skipFraction (StrDecimal.fractionText (some digits) ++ rest)
      = (rest, decide (0 < digits.length)) := by
  simp only [StrDecimal.fractionText, List.cons_append, skipFraction, dropWhile_digits digits ends,
    List.length_append, List.length_map, Nat.lt_add_left_iff_pos]

/-- The scan goes exactly to the end of a literal, when nothing goes on with it. -/
theorem matchDecimal_literal {literal : StrDecimal} {rest : List UInt8}
    (behind : Behind literal rest)
    : matchDecimal (unsignedText literal ++ rest) = some rest := by
  have fraction : ∃ saw, skipFraction (StrDecimal.fractionText literal.fraction
        ++ (StrDecimal.exponentText literal.exponent ++ rest))
      = (StrDecimal.exponentText literal.exponent ++ rest, saw)
      ∧ (literal.fraction.getD [] ≠ [] → saw = true) := by
    cases fraction : literal.fraction with
    | none =>
        refine ⟨false, ?_, fun some => absurd rfl some⟩
        rcases exponentText_head literal.exponent rest with ⟨none, nothing⟩ | ⟨c, tail, spelled, letter⟩
        · have dotless := behind.point fraction none
          rw [nothing]
          cases rest with
          | nil => rfl
          | cons c tail =>
              have other : c ≠ 0x2E := fun point => dotless (by rw [point]; rfl)
              simp [StrDecimal.fractionText, skipFraction, other]
        · rw [spelled]
          rcases letter with rfl | rfl <;> rfl
    | some digits =>
        refine ⟨decide (0 < digits.length), ?_, fun some => ?_⟩
        · exact skipFraction_digits digits (endsDigits_exponent behind)
        · exact decide_eq_true (List.length_pos_iff.mpr some)
  have ends := endsDigits_fraction behind
  obtain ⟨saw, skipped, sawDigit⟩ := fraction
  have spelled : unsignedText literal ++ rest = literal.integer.map digitChar
      ++ (StrDecimal.fractionText literal.fraction
        ++ (StrDecimal.exponentText literal.exponent ++ rest)) := by
    simp [unsignedText]
  rw [spelled]
  simp only [matchDecimal, dropWhile_digits literal.integer ends, skipped,
    skipExponent_behind behind]
  rw [if_neg]
  rcases literal.digits with integer | fraction
  · have longer := List.length_pos_iff.mpr integer
    have saw : (StrDecimal.fractionText literal.fraction
        ++ (StrDecimal.exponentText literal.exponent ++ rest)).length
        < (literal.integer.map digitChar ++ (StrDecimal.fractionText literal.fraction
          ++ (StrDecimal.exponentText literal.exponent ++ rest))).length := by
      simp only [List.length_append, List.length_map]
      omega
    rw [decide_eq_true saw]
    exact Bool.false_ne_true
  · simp [sawDigit fraction]

/-- A scan that matches has a literal at its start. -/
theorem matchDecimal_heads {src rest : List UInt8} (matched : matchDecimal src = some rest)
    (sign : Option Bool)
    : ∃ literal : StrDecimal, literal.text <+: signText sign ++ src := by
  by_cases integer : (src.dropWhile isDigit).length < src.length
  · obtain ⟨d, tail, rfl⟩ := starts_digit integer
    refine ⟨⟨sign, [d], none, none, .inl (List.cons_ne_nil _ _)⟩, tail, ?_⟩
    simp [StrDecimal.text, StrDecimal.fractionText, StrDecimal.exponentText]
  · have same : src.dropWhile isDigit = src :=
      (List.dropWhile_suffix isDigit).eq_of_length_le (by omega)
    have saw : (skipFraction src).2 = true := by
      by_contra none
      simp [matchDecimal, same, none] at matched
    rcases skipFraction_cases src with ⟨digits, rfl, sawDigit⟩ | none
    · obtain ⟨d, tail, rfl⟩ := starts_digit (of_decide_eq_true (sawDigit ▸ saw))
      refine ⟨⟨sign, [], some [d], none, .inr (by simp)⟩, tail, ?_⟩
      simp [StrDecimal.text, StrDecimal.fractionText, StrDecimal.exponentText]
    · rw [none] at saw
      exact absurd saw (by decide)

-----------------------------------------------------------------------------------------
-- The longest literal
-----------------------------------------------------------------------------------------

/-- An unsigned literal starts with a digit or a point, so with no sign and no letter. -/
theorem unsignedText_head (literal : StrDecimal)
    : ∃ c tail, unsignedText literal = c :: tail ∧ c ≠ 0x2B ∧ c ≠ 0x2D ∧ c ≠ 0x49 := by
  obtain ⟨sign, integer, fraction, exponent, spelled⟩ := literal
  cases integer with
  | cons d integer =>
      have each : ∀ d : Fin 10, digitChar d ≠ 0x2B ∧ digitChar d ≠ 0x2D ∧ digitChar d ≠ 0x49 := by
        decide
      exact ⟨digitChar d, _, rfl, each d⟩
  | nil =>
      cases fraction with
      | some digits => exact ⟨0x2E, _, rfl, by decide⟩
      | none => simp at spelled

/-- An optional sign is skipped, and no other character. -/
theorem skipExponentSign_signText (sign : Option Bool) {c : UInt8} (plus : c ≠ 0x2B)
    (minus : c ≠ 0x2D) (rest : List UInt8)
    : skipExponentSign (signText sign ++ c :: rest) = c :: rest := by
  rcases sign with - | (_ | _)
  · simp [signText, skipExponentSign, plus, minus]
  · rfl
  · rfl

theorem signText_head (sign : Option Bool) {c : UInt8} (minus : c ≠ 0x2D) (rest : List UInt8)
    : (signText sign ++ c :: rest).head? = some 0x2D ↔ sign = some true := by
  rcases sign with - | (_ | _) <;> simp [signText, minus]

/-- What stands behind the sign of a literal, and what its first character says of the sign. -/
theorem unsigned_text (literal : StrDecimal) (rest : List UInt8)
    : skipExponentSign (literal.text ++ rest) = unsignedText literal ++ rest
      ∧ ((literal.text ++ rest).head? = some 0x2D ↔ literal.sign = some true) := by
  obtain ⟨c, tail, head, plus, minus, -⟩ := unsignedText_head literal
  rw [text_eq, head, List.append_assoc, List.cons_append]
  exact ⟨skipExponentSign_signText _ plus minus _, signText_head _ minus _⟩

/-- A string with a literal at its start has a longest one. -/
theorem exists_longest {us : List Nat} {literal : StrDecimalLiteral} (heads : literal.Heads us)
    : ∃ longest : StrDecimalLiteral, longest.Longest us := by
  by_contra none
  have grows : ∀ k, ∃ other : StrDecimalLiteral, other.Heads us ∧ k ≤ other.text.length := by
    intro k
    induction k with
    | zero => exact ⟨literal, heads, Nat.zero_le _⟩
    | succ k ih =>
        obtain ⟨other, heads', long⟩ := ih
        by_contra stuck
        refine none ⟨other, heads', fun further heads'' => ?_⟩
        by_contra longer
        exact stuck ⟨further, heads'', by omega⟩
  obtain ⟨other, heads', long⟩ := grows (us.length + 1)
  have short := heads'.length_le
  rw [List.length_map] at short
  omega

theorem ascii_text (literal : StrDecimalLiteral) : ∀ c ∈ literal.text, c.toNat < 0x80 := by
  have digits : ∀ (ds : List (Fin 10)), ∀ c ∈ ds.map digitChar, c.toNat < 0x80 := by
    intro ds c member
    obtain ⟨d, -, rfl⟩ := List.mem_map.mp member
    have each : ∀ d : Fin 10, (digitChar d).toNat < 0x80 := by decide
    exact each d
  have signs : ∀ sign, ∀ c ∈ signText sign, c.toNat < 0x80 := by
    intro sign
    rcases sign with - | (_ | _) <;> decide +kernel
  cases literal with
  | infinity sign =>
      intro c member
      rcases List.mem_append.mp member with member | member
      · exact signs sign c member
      · have each : ∀ c ∈ infinityText, c.toNat < 0x80 := by decide +kernel
        exact each c member
  | decimal literal =>
      intro c member
      rcases List.mem_append.mp member with member | member
      · exact signs literal.sign c member
      rcases List.mem_append.mp member with member | member
      · exact digits _ c member
      rcases List.mem_append.mp member with member | member
      · cases fraction : literal.fraction with
        | none => simp [fraction, StrDecimal.fractionText] at member
        | some fraction' =>
            rw [fraction] at member
            rcases List.mem_cons.mp member with rfl | member
            · decide
            · exact digits _ c member
      · cases exponent : literal.exponent with
        | none => simp [exponent, StrDecimal.exponentText] at member
        | some e =>
            rw [exponent, StrDecimal.exponentText, Option.map_some, Option.getD_some, exponent_text,
              exponentLead, List.cons_append] at member
            rcases List.mem_cons.mp member with rfl | member
            · cases e.upper <;> decide
            rcases List.mem_append.mp member with member | member
            · exact signs e.sign c member
            · exact digits _ c member

/-- The string behind its white space, in bytes. -/
def stripped (cps : List Codepoint) : List UInt8 :=
  bytesOf (cps.dropWhile fun cp => isStrWhiteSpace cp.val)

theorem heads_stripped (literal : StrDecimalLiteral) (cps : List Codepoint)
    : literal.Heads ((unitsOf cps).dropWhile isStrWhiteSpace) ↔ literal.text <+: stripped cps := by
  rw [StrDecimalLiteral.Heads, dropWhile_unitsOf]
  exact prefix_units_iff (ascii_text literal) _

/-- What `parseFloat` does with what is behind white space. -/
theorem builtinParseFloat_stripped (strtod : List UInt8 → Double) (cps : List Codepoint)
    : builtinParseFloat strtod (some (bytesOf cps))
      = if infinityText.isPrefixOf (skipExponentSign (stripped cps)) then
          TVal.setNumber (if (stripped cps).head? = some 0x2D then negativeInf else doubleInf)
        else
          match matchDecimal (skipExponentSign (stripped cps)) with
          | none => TVal.setNumber doubleNan
          | some rest =>
              TVal.setNumber (strtod ((stripped cps).take
                (min ((stripped cps).length - rest.length) (litBufLen - 1)))) := by
  have strips := skipWhitespace_bytesOf cps
  cases bytes : bytesOf cps with
  | nil =>
      have nothing : stripped cps = [] := by
        rw [stripped, ← strips, bytes, skipWhitespace]
      rw [nothing]
      rfl
  | cons c rest =>
      rw [bytes] at strips
      simp only [builtinParseFloat, strips]
      rfl

theorem builtinParseFloat_infinity (strtod : List UInt8 → Double) {cps : List Codepoint}
    {sign : Option Bool} (heads : (StrDecimalLiteral.infinity sign).text <+: stripped cps)
    : builtinParseFloat strtod (some (bytesOf cps))
      = if sign = some true then negativeInf else doubleInf := by
  obtain ⟨rest, spelled⟩ := heads
  have stripped' : stripped cps = signText sign ++ 0x49 :: (infinityText.tail ++ rest) := by
    rw [← spelled]
    simp [StrDecimalLiteral.text, infinityText]
  have behind : skipExponentSign (stripped cps) = 0x49 :: (infinityText.tail ++ rest) := by
    rw [stripped']
    exact skipExponentSign_signText sign (by decide) (by decide) _
  rw [builtinParseFloat_stripped, behind, if_pos (by simp [infinityText]), stripped']
  simp only [signText_head sign (show (0x49 : UInt8) ≠ 0x2D by decide)]
  split <;> decide

theorem builtinParseFloat_decimal (strtod : List UInt8 → Double) {cps : List Codepoint}
    {literal : StrDecimal} {rest : List UInt8} (spelled : stripped cps = literal.text ++ rest)
    (behind : Behind literal rest)
    : builtinParseFloat strtod (some (bytesOf cps))
      = TVal.setNumber (strtod (literal.text.take 511)) := by
  have unsigned : skipExponentSign (stripped cps) = unsignedText literal ++ rest := by
    rw [spelled, (unsigned_text literal rest).1]
  have finite : ¬infinityText.isPrefixOf (unsignedText literal ++ rest) = true := by
    obtain ⟨c, tail, head, -, -, other⟩ := unsignedText_head literal
    rw [head]
    simp [infinityText, other.symm]
  have length : (literal.text ++ rest).length - rest.length = literal.text.length := by simp
  rw [builtinParseFloat_stripped, unsigned, if_neg finite, matchDecimal_literal behind]
  simp only
  rw [spelled, length, litBufLen]
  rw [List.take_append_of_le_length (Nat.min_le_left _ _), Nat.min_comm, ← List.take_take,
    List.take_length]

/-- Without a literal at its start, a string is no number. -/
theorem builtinParseFloat_none (strtod : List UInt8 → Double) {cps : List Codepoint}
    (none : ∀ literal : StrDecimalLiteral, ¬literal.text <+: stripped cps)
    : builtinParseFloat strtod (some (bytesOf cps)) = doubleNan := by
  obtain ⟨sign, signed⟩ := skipExponentSign_spelled (stripped cps)
  have finite : ¬infinityText.isPrefixOf (skipExponentSign (stripped cps)) = true := by
    intro starts
    obtain ⟨rest, spelled⟩ := List.isPrefixOf_iff_prefix.mp starts
    refine none (.infinity sign) ⟨rest, ?_⟩
    rw [signed, ← spelled]
    simp [StrDecimalLiteral.text]
  rw [builtinParseFloat_stripped, if_neg finite]
  cases matched : matchDecimal (skipExponentSign (stripped cps)) with
  | none => rfl
  | some rest =>
      obtain ⟨literal, heads⟩ := matchDecimal_heads matched sign
      rw [← signed] at heads
      exact absurd heads (none (.decimal literal))

-----------------------------------------------------------------------------------------
-- The buffer
-----------------------------------------------------------------------------------------

/-- The start of an exponent is an exponent again, or lacks all its digits. -/
theorem take_exponent (exponent : Exponent) (n : Nat)
    : (∃ cut : Option Exponent, exponent.text.take n = StrDecimal.exponentText cut)
      ∨ ∃ upper sign, exponent.text.take n = exponentLead upper sign := by
  rw [exponent_text, exponentLead, List.cons_append]
  cases n with
  | zero => exact .inl ⟨none, rfl⟩
  | succ n =>
      rw [List.take_succ_cons, List.take_append, ← List.map_take]
      by_cases digits : exponent.digits.take (n - (signText exponent.sign).length) = []
      · refine .inr ⟨exponent.upper, if n = 0 then none else exponent.sign, ?_⟩
        rw [digits, List.map_nil, List.append_nil, exponentLead]
        congr 1
        rcases exponent.sign with - | (_ | _) <;> cases n <;> simp [signText]
      · have whole : (signText exponent.sign).take n = signText exponent.sign := by
          apply List.take_of_length_le
          by_contra short
          rw [show n - (signText exponent.sign).length = 0 by omega] at digits
          exact digits rfl
        refine .inl ⟨some ⟨exponent.upper, exponent.sign, _, digits⟩, ?_⟩
        rw [whole, StrDecimal.exponentText, Option.map_some, Option.getD_some, exponent_text,
          exponentLead, List.cons_append]

/-- What the buffer keeps of a literal is a literal again, or one that ends within an exponent. -/
theorem take_literal (literal : StrDecimal) {n : Nat} (wide : 3 ≤ n)
    : (∃ cut : StrDecimal, cut.text = literal.text.take n)
      ∨ ∃ (mantissa : StrDecimal) (upper : Bool) (sign : Option Bool), mantissa.exponent = none
        ∧ literal.text.take n = mantissa.text ++ exponentLead upper sign := by
  obtain ⟨sign, integer, fraction, exponent, spelled⟩ := literal
  have signShort : (signText sign).length ≤ 1 := by
    rcases sign with - | (_ | _) <;> decide
  -- The digits that are kept of the mantissa.
  obtain ⟨fraction', cutFraction, enough⟩ : ∃ fraction' : Option (List (Fin 10)),
      (StrDecimal.fractionText fraction).take (n - (signText sign).length - integer.length)
        = StrDecimal.fractionText fraction'
      ∧ (integer.take (n - (signText sign).length) ≠ [] ∨ fraction'.getD [] ≠ []) := by
    have kept : integer ≠ [] → integer.take (n - (signText sign).length) ≠ [] := fun nonempty none =>
      (List.take_eq_nil_iff.mp none).elim (by omega) nonempty
    cases fraction with
    | none => exact ⟨none, List.take_nil, .inl (kept (by simpa using spelled))⟩
    | some digits =>
        cases room : n - (signText sign).length - integer.length with
        | zero =>
            refine ⟨none, rfl, .inl (kept ?_)⟩
            rintro rfl
            rw [List.length_nil] at room
            omega
        | succ m =>
            refine ⟨some (digits.take m), ?_, ?_⟩
            · simp [StrDecimal.fractionText]
            rcases spelled with nonempty | nonempty
            · exact .inl (kept nonempty)
            by_cases whole : integer = []
            · refine .inr fun none => (List.take_eq_nil_iff.mp none).elim ?_ nonempty
              rw [whole, List.length_nil] at room
              omega
            · exact .inl (kept whole)
  have cutText : ∀ tail : List UInt8,
      (signText sign ++ (integer.map digitChar ++ (StrDecimal.fractionText fraction ++ tail))).take n
        = signText sign ++ ((integer.take (n - (signText sign).length)).map digitChar
          ++ (StrDecimal.fractionText fraction' ++ tail.take (n - (signText sign).length
            - integer.length - (StrDecimal.fractionText fraction).length))) := by
    intro tail
    rw [List.take_append, List.take_of_length_le (by omega), List.take_append, List.take_append,
      ← List.map_take, List.length_map, cutFraction]
  cases exponent with
  | none =>
      refine .inl ⟨⟨sign, _, fraction', none, enough⟩, ?_⟩
      rw [StrDecimal.text, StrDecimal.text, cutText]
      simp [StrDecimal.exponentText]
  | some exponent =>
      rcases take_exponent exponent (n - (signText sign).length - integer.length
          - (StrDecimal.fractionText fraction).length) with ⟨cut, kept⟩ | ⟨upper, esign, kept⟩
      · refine .inl ⟨⟨sign, _, fraction', cut, enough⟩, ?_⟩
        rw [StrDecimal.text, StrDecimal.text, cutText]
        simp [StrDecimal.exponentText, kept]
      · refine .inr ⟨⟨sign, _, fraction', none, enough⟩, upper, esign, rfl, ?_⟩
        rw [StrDecimal.text, StrDecimal.text, cutText]
        simp [StrDecimal.exponentText, kept]

-----------------------------------------------------------------------------------------
-- Strings of every length
-----------------------------------------------------------------------------------------

/-- The conversion of the C library: it reads a whole literal exactly, by its sign and magnitude,
and fails on an exponent without digits.
-/
structure Strtod (strtod : List UInt8 → Double) (convert : Bool → ℚ → Double) : Prop where
  whole : ∀ literal : StrDecimal, strtod literal.text = literal.number convert
  incomplete : ∀ (mantissa : StrDecimal) (upper : Bool) (sign : Option Bool),
    mantissa.exponent = none → strtod (mantissa.text ++ exponentLead upper sign) = doubleNan
  number : ∀ negative magnitude, (convert negative magnitude).isNan = false

/-- The result is the number of the longest literal behind white space, and NaN exactly if there is
none.
-/
structure ReadsLongest (convert : Bool → ℚ → Double) (us : List Nat) (result : TVal) : Prop where
  value : ∀ literal : StrDecimalLiteral, literal.Longest (us.dropWhile isStrWhiteSpace) →
    result = literal.number convert
  nan : result = doubleNan
    ↔ ∀ literal : StrDecimalLiteral, ¬literal.Heads (us.dropWhile isStrWhiteSpace)

/-- The literal fits into the buffer, or what the buffer keeps of it is a literal of the same
double.
-/
def KeptByBuffer (convert : Bool → ℚ → Double) (literal : StrDecimal) : Prop :=
  literal.text.length ≤ 511
  ∨ ∃ cut : StrDecimal, cut.text = literal.text.take 511
    ∧ cut.number convert = literal.number convert

section
variable {strtod : List UInt8 → Double} {convert : Bool → ℚ → Double}

/-- The conversion of what the buffer keeps is that of the literal exactly if it is kept. -/
theorem Strtod.take_iff (conversion : Strtod strtod convert) (literal : StrDecimal)
    : TVal.setNumber (strtod (literal.text.take 511)) = literal.number convert
      ↔ KeptByBuffer convert literal := by
  have stored : ∀ other : StrDecimal, TVal.setNumber (other.number convert) = other.number convert :=
    fun _ => (setNumber_number (conversion.number _ _)).1
  constructor
  · intro same
    rcases take_literal literal (n := 511) (by decide) with ⟨cut, kept⟩ | ⟨mantissa, upper, sign,
      plain, kept⟩
    · rw [← kept, conversion.whole, stored] at same
      exact .inr ⟨cut, kept, same⟩
    · rw [kept, conversion.incomplete mantissa upper sign plain] at same
      have number := conversion.number (literal.sign == some true) literal.magnitude
      change (literal.number convert).isNan = false at number
      rw [← same] at number
      exact absurd number (by decide)
  · rintro (short | ⟨cut, kept, same⟩)
    · rw [List.take_of_length_le short, conversion.whole, stored]
    · rw [← kept, conversion.whole, stored, same]

/-- The longest literal of a string, split off its bytes. -/
theorem longest_stripped {literal : StrDecimal} {cps : List Codepoint}
    (longest : (StrDecimalLiteral.decimal literal).Longest ((unitsOf cps).dropWhile isStrWhiteSpace))
    : ∃ rest, stripped cps = literal.text ++ rest ∧ Behind literal rest := by
  obtain ⟨rest, spelled⟩ := (heads_stripped (.decimal literal) cps).mp longest.1
  refine ⟨rest, spelled.symm, behind_of_longest fun other heads => ?_⟩
  exact longest.2 (.decimal other) ((heads_stripped (.decimal other) cps).mpr (spelled ▸ heads))

theorem Strtod.number_ne_nan (conversion : Strtod strtod convert) (literal : StrDecimalLiteral)
    : literal.number convert ≠ doubleNan := by
  intro nan
  cases literal with
  | infinity sign =>
      rw [StrDecimalLiteral.number] at nan
      split at nan <;> exact absurd nan (by decide)
  | decimal literal =>
      have number := conversion.number (literal.sign == some true) literal.magnitude
      rw [show convert (literal.sign == some true) literal.magnitude = doubleNan from nan] at number
      exact absurd number (by decide)

/-- `parseFloat` reads the longest literal of a string of any length exactly if the buffer keeps
it. Witness: the scan of a longest literal, and the conversion of what the buffer keeps.
-/
theorem parseFloat_iff (conversion : Strtod strtod convert) (cps : List Codepoint)
    : ReadsLongest convert (unitsOf cps) (builtinParseFloat strtod (some (bytesOf cps)))
      ↔ ∀ literal : StrDecimal,
        (StrDecimalLiteral.decimal literal).Longest ((unitsOf cps).dropWhile isStrWhiteSpace) →
        KeptByBuffer convert literal := by
  constructor
  · intro reads literal longest
    obtain ⟨rest, spelled, behind⟩ := longest_stripped longest
    rw [← conversion.take_iff, ← builtinParseFloat_decimal strtod spelled behind]
    exact reads.value _ longest
  · intro kept
    have value : ∀ literal : StrDecimalLiteral,
        literal.Longest ((unitsOf cps).dropWhile isStrWhiteSpace) →
        builtinParseFloat strtod (some (bytesOf cps)) = literal.number convert := by
      intro literal longest
      cases literal with
      | infinity sign =>
          exact builtinParseFloat_infinity strtod ((heads_stripped _ cps).mp longest.1)
      | decimal literal =>
          obtain ⟨rest, spelled, behind⟩ := longest_stripped longest
          rw [builtinParseFloat_decimal strtod spelled behind]
          exact (conversion.take_iff literal).mpr (kept literal longest)
    refine ⟨value, fun nan literal heads => ?_, fun none => ?_⟩
    · obtain ⟨longest, isLongest⟩ := exists_longest heads
      exact conversion.number_ne_nan longest ((value longest isLongest).symm.trans nan)
    · exact builtinParseFloat_none strtod fun literal heads =>
        none literal ((heads_stripped literal cps).mpr heads)

end

-----------------------------------------------------------------------------------------
-- A conversion
-----------------------------------------------------------------------------------------

local instance tenDigits : NeZero 10 := ⟨by decide⟩

/-- The digits at the start. -/
def digitsAt (src : List UInt8) : List (Fin 10) :=
  (src.takeWhile isDigit).map fun c => Fin.ofNat 10 (c.toNat - 0x30)

/-- The exponent at the start, 0 without one. -/
def exponentAt (src : List UInt8) : Int :=
  match src with
  | 0x65 :: behind | 0x45 :: behind =>
      let n := digitsValue (digitsAt (skipExponentSign behind))
      if behind.head? = some 0x2D then -n else n
  | _ => 0

/-- The digits behind a point. -/
def fractionAt (src : List UInt8) : List (Fin 10) :=
  match src with
  | 0x2E :: behind => digitsAt behind
  | _ => []

/-- A reader of whole literals. -/
def readDecimal (convert : Bool → ℚ → Double) (src : List UInt8) : Double :=
  let unsigned := skipExponentSign src
  let behind := unsigned.dropWhile isDigit
  if matchDecimal unsigned = some [] then
    convert (src.head? == some 0x2D)
      (digitsValue (digitsAt unsigned ++ fractionAt behind)
        * 10 ^ (exponentAt (skipFraction behind).1 - (fractionAt behind).length))
  else doubleNan

/-- The double of a number's integer part. -/
def integerPart (negative : Bool) (magnitude : ℚ) : Double :=
  let n : Int := min magnitude.floor.natAbs (2 ^ 53 - 1)
  Double.ofInt (if negative then -n else n)

theorem digitsAt_digits (digits : List (Fin 10)) {rest : List UInt8} (ends : EndsDigits rest)
    : digitsAt (digits.map digitChar ++ rest) = digits := by
  have each : ∀ d : Fin 10, Fin.ofNat 10 ((digitChar d).toNat - 0x30) = d := by decide
  induction digits with
  | nil =>
      cases rest with
      | nil => rfl
      | cons c tail =>
          have other : isDigit c = false := ends c rfl
          simp [digitsAt, other]
  | cons d digits ih =>
      simp only [digitsAt, List.map_cons, List.cons_append, List.takeWhile_cons,
        isDigit_digitChar, if_true, each d] at ih ⊢
      rw [ih]

theorem exponentAt_text (exponent : Option Exponent)
    : exponentAt (StrDecimal.exponentText exponent) = (exponent.map Exponent.value).getD 0 := by
  cases exponent with
  | none => rfl
  | some e =>
      obtain ⟨c, spelled, letter, skipped⟩ := skipExponentSign_text e []
      simp only [List.append_nil] at spelled skipped
      have ends : EndsDigits [] := fun _ first => by cases first
      have digits := digitsAt_digits e.digits ends
      rw [List.append_nil] at digits
      have negative : e.text.tail.head? = some 0x2D ↔ e.sign = some true := by
        obtain ⟨d, ds, is⟩ := List.exists_cons_of_ne_nil e.nonempty
        rw [exponent_text, exponentLead, is, List.cons_append, List.tail_cons, List.map_cons]
        have each : ∀ d : Fin 10, digitChar d ≠ 0x2D := by decide
        exact signText_head e.sign (each d) _
      have value : (if e.text.tail.head? = some 0x2D then -(digitsValue e.digits : Int)
          else digitsValue e.digits) = e.value := by
        simp only [Exponent.value, negative]
      rw [StrDecimal.exponentText, Option.map_some, Option.getD_some, spelled, Option.map_some,
        Option.getD_some, ← value]
      rcases letter with rfl | rfl
      · simp only [exponentAt, skipped, digits]
      · simp only [exponentAt, skipped, digits]

theorem behind_nil (literal : StrDecimal) : Behind literal [] where
  digits := fun _ first => by cases first
  point := fun _ _ first => by cases first
  exponent := fun _ => rfl

theorem behind_lead (mantissa : StrDecimal) (upper : Bool) (sign : Option Bool)
    : Behind mantissa (exponentLead upper sign) := by
  refine ⟨?_, ?_, ?_⟩
  · intro c first
    obtain rfl : (if upper then 0x45 else 0x65) = c := Option.some.inj first
    cases upper <;> rfl
  · intro _ _ first
    cases upper <;> cases first
  · intro _
    cases upper <;> rcases sign with - | (_ | _) <;> rfl

theorem readDecimal_strtod {convert : Bool → ℚ → Double}
    (number : ∀ negative magnitude, (convert negative magnitude).isNan = false)
    : Strtod (readDecimal convert) convert := by
  refine ⟨?_, ?_, number⟩
  · intro literal
    have matched := matchDecimal_literal (behind_nil literal)
    have ends := endsDigits_fraction (behind_nil literal)
    have exponentEnds := endsDigits_exponent (behind_nil literal)
    obtain ⟨unsigned, negative⟩ := unsigned_text literal []
    have spelled : unsignedText literal = literal.integer.map digitChar
        ++ (StrDecimal.fractionText literal.fraction
          ++ StrDecimal.exponentText literal.exponent) := rfl
    simp only [List.append_nil] at matched ends exponentEnds unsigned negative
    have fraction : fractionAt (StrDecimal.fractionText literal.fraction
          ++ StrDecimal.exponentText literal.exponent) = literal.fraction.getD []
        ∧ (skipFraction (StrDecimal.fractionText literal.fraction
          ++ StrDecimal.exponentText literal.exponent)).1
          = StrDecimal.exponentText literal.exponent := by
      cases literal.fraction with
      | some digits =>
          rw [skipFraction_digits digits exponentEnds]
          exact ⟨digitsAt_digits digits exponentEnds, rfl⟩
      | none =>
          rcases exponentText_head literal.exponent [] with ⟨-, nothing⟩ | ⟨c, tail, letters, letter⟩
          · rw [List.append_nil] at nothing
            rw [nothing]
            exact ⟨rfl, rfl⟩
          · rw [List.append_nil] at letters
            rw [letters]
            rcases letter with rfl | rfl <;> exact ⟨rfl, rfl⟩
    have sign : (literal.text.head? == some 0x2D) = (literal.sign == some true) := by
      rw [Bool.eq_iff_iff, beq_iff_eq, beq_iff_eq, negative]
    rw [readDecimal, unsigned, if_pos matched, spelled, dropWhile_digits _ ends,
      digitsAt_digits _ ends, fraction.1, fraction.2, exponentAt_text, sign]
    rfl
  · intro mantissa upper sign _
    have matched := matchDecimal_literal (behind_lead mantissa upper sign)
    rw [readDecimal, (unsigned_text mantissa _).1, matched]
    exact if_neg (by simp [exponentLead])

theorem integerPart_number (negative : Bool) (magnitude : ℚ)
    : (integerPart negative magnitude).isNan = false := by
  refine isNan_ofInt ?_
  split <;> omega

/-- Twelve behind white space and before a letter. -/
theorem parseFloat_iff_twelve
    : let text : List Codepoint := [0x20, 0x31, 0x32, 0x78]
      ReadsLongest integerPart (unitsOf text)
        (builtinParseFloat (readDecimal integerPart) (some (bytesOf text))) := by
  intro text
  refine (parseFloat_iff (readDecimal_strtod integerPart_number) text).mpr
    fun literal longest => .inl ?_
  have short := longest.1.length_le
  rw [List.length_map] at short
  exact short.trans (by decide)

theorem digitsValue_zeros (n : Nat) : digitsValue (List.replicate n 0) = 0 := by
  induction n with
  | zero => rfl
  | succ n ih => exact ih

/-- A digit as a codepoint. -/
def digitCodepoint (d : Fin 10) : Codepoint := ⟨0x30 + d.val, by omega⟩

/-- Digits are not white space, and one byte each. -/
theorem digits_codepoints (digits : List (Fin 10))
    : stripped (digits.map digitCodepoint) = digits.map digitChar
      ∧ (unitsOf (digits.map digitCodepoint)).length = digits.length := by
  have visible : ∀ d : Fin 10, isStrWhiteSpace (digitCodepoint d).val = false := by decide
  have bytes : bytesOf (digits.map digitCodepoint) = digits.map digitChar := by
    have each : ∀ d : Fin 10, sequence (digitCodepoint d).val = [digitChar d] := by decide
    rw [bytesOf, List.flatMap_map]
    simp only [each]
    exact List.map_eq_flatMap.symm
  refine ⟨?_, ?_⟩
  · rw [stripped, ← bytes]
    cases digits with
    | nil => rfl
    | cons d digits => rw [List.map_cons, List.dropWhile_cons, visible, if_neg (by decide)]
  · have each : ∀ d : Fin 10, units (digitCodepoint d).val = [(digitCodepoint d).val] := by decide
    rw [unitsOf, List.flatMap_map]
    simp only [each]
    rw [← List.map_eq_flatMap, List.length_map]

/-- Zeros and a one. -/
def oneBehind (zeros : Nat) : List (Fin 10) := List.replicate zeros 0 ++ [1]

/-- A literal of the number 1, and one of the number 0 without its last digit. -/
theorem oneBehind_literal {n : Nat} (some : 0 < n) (convert : Bool → ℚ → Double)
    : ∃ literal cut : StrDecimal, literal.text = (oneBehind n).map digitChar
      ∧ cut.text = literal.text.take n ∧ literal.number convert = convert false 1
      ∧ cut.number convert = convert false 0 := by
  have zeros : List.replicate n (0 : Fin 10) ≠ [] := by
    rw [ne_eq, List.replicate_eq_nil_iff]
    omega
  have value : digitsValue (oneBehind n) = 1 := by
    have none := digitsValue_zeros n
    rw [digitsValue] at none ⊢
    rw [oneBehind, List.foldl_append, none]
    rfl
  refine ⟨⟨none, oneBehind n, none, none, .inl (by simp [oneBehind])⟩,
    ⟨none, List.replicate n 0, none, none, .inl zeros⟩, ?_, ?_, ?_, ?_⟩
  · simp [StrDecimal.text, StrDecimal.fractionText, StrDecimal.exponentText, signText]
  · simp [StrDecimal.text, StrDecimal.fractionText, StrDecimal.exponentText, signText, oneBehind]
  · simp [StrDecimal.number, StrDecimal.magnitude, value]
  · simp [StrDecimal.number, StrDecimal.magnitude, digitsValue_zeros]

/-- A one behind 511 zeros does not get into the buffer, which leaves the number 0. -/
theorem parseFloat_drops_digit
    : ∃ (convert : Bool → ℚ → Double) (strtod : List UInt8 → Double), Strtod strtod convert
      ∧ let text : List Codepoint := (oneBehind 511).map digitCodepoint
        builtinParseFloat strtod (some (bytesOf text)) = Double.ofInt 0
        ∧ ¬ReadsLongest convert (unitsOf text) (builtinParseFloat strtod (some (bytesOf text))) := by
  have conversion := readDecimal_strtod integerPart_number
  refine ⟨integerPart, readDecimal integerPart, conversion, ?_⟩
  intro text
  obtain ⟨literal, cut, spelled, cutText, one, zero⟩ :=
    oneBehind_literal (n := 511) (by decide) integerPart
  obtain ⟨bytes, count⟩ := digits_codepoints (oneBehind 511)
  rw [← spelled] at bytes
  have result : builtinParseFloat (readDecimal integerPart) (some (bytesOf text))
      = Double.ofInt 0 := by
    rw [builtinParseFloat_decimal _ (bytes.trans (List.append_nil _).symm) (behind_nil literal),
      ← cutText, conversion.whole, zero, (setNumber_number (conversion.number _ _)).1]
    rfl
  have longest : (StrDecimalLiteral.decimal literal).Longest
      ((unitsOf text).dropWhile isStrWhiteSpace) := by
    refine ⟨(heads_stripped _ text).mpr (bytes ▸ List.prefix_rfl), fun other heads => ?_⟩
    have short := heads.length_le.trans (List.dropWhile_suffix _).length_le
    rw [List.length_map, count] at short
    refine short.trans (le_of_eq ?_)
    rw [StrDecimalLiteral.text, spelled, List.length_map]
  refine ⟨result, fun reads => ?_⟩
  have number := reads.value _ longest
  rw [result, StrDecimalLiteral.number, one] at number
  exact absurd number (by decide)

end Boomkat.Correctness
