import Boomkat.Correctness.JsonNumber
import Boomkat.Correctness.JsonStringLiteral
import Boomkat.Json.Grammar
import Boomkat.Json.Parser

/-! The tokens that the parser accepts are those of the grammar: space, names of literals, strings
and numbers. What is left of a text behind a token is a text again.
-/

namespace Boomkat.Correctness

open Json Machine Utf8 Strings

-----------------------------------------------------------------------------------------
-- What is left of a text
-----------------------------------------------------------------------------------------

/-- A text of sequences, of which there may be none. -/
def Encoded (src : List UInt8) : Prop := ∃ cps, src = bytesOf cps

/-- The first sequence of a text. -/
theorem Encoded.head {c : UInt8} {rest : List UInt8} (encoded : Encoded (c :: rest))
    : ∃ cp : Codepoint, ∃ rest', c :: rest = sequence cp.val ++ rest' ∧ Encoded rest'
      ∧ (c.toNat < 0x80 → c.toNat = cp.val ∧ rest' = rest) ∧ (0x80 ≤ c.toNat → 0x80 ≤ cp.val) := by
  obtain ⟨cps, is⟩ := encoded
  cases cps with
  | nil => cases is
  | cons cp cps =>
      refine ⟨cp, bytesOf cps, is, ⟨cps, rfl⟩, ?_⟩
      rw [bytesOf_cons] at is
      rcases Nat.lt_or_ge cp.val 0x80 with ascii | high
      · rcases sequence_cases cp.isLt with ⟨-, b, one, value⟩ | ⟨low, -⟩ | ⟨low, -⟩ | ⟨low, -⟩
        · rw [one, List.singleton_append, List.cons.injEq] at is
          rw [is.1, is.2]
          exact ⟨fun _ => ⟨value, rfl⟩, fun above => by omega⟩
        all_goals omega
      · have some : c ∈ sequence cp.val := by
          obtain ⟨b, tail, sequence, -⟩ := utf8SeqLen_sequence cp.isLt
          rw [sequence, List.cons_append, List.cons.injEq] at is
          rw [sequence, is.1]
          exact List.mem_cons_self
        have above := sequence_high cp.isLt high c some
        exact ⟨fun below => by omega, fun _ => high⟩

/-- Characters of one byte in front of a text. -/
theorem Encoded.behind (bytes : List UInt8) {rest : List UInt8} (encoded : Encoded (bytes ++ rest))
    (ascii : ∀ b ∈ bytes, b.toNat < 0x80) : Encoded rest := by
  induction bytes with
  | nil => exact encoded
  | cons b bytes ih =>
      obtain ⟨cp, rest', -, encoded', one, -⟩ := encoded.head
      rw [(one (ascii b List.mem_cons_self)).2] at encoded'
      exact ih encoded' fun b' member => ascii b' (List.mem_cons_of_mem _ member)

-----------------------------------------------------------------------------------------
-- Space
-----------------------------------------------------------------------------------------

theorem isWs_iff (c : UInt8) : isWs c = true ↔ ∃ char : SpaceChar, c = char.byte := by
  constructor
  · intro space
    simp only [isWs, Bool.or_eq_true, beq_iff_eq] at space
    rcases space with ((is | is) | is) | is
    · exact ⟨.space, is⟩
    · exact ⟨.tab, is⟩
    · exact ⟨.lineFeed, is⟩
    · exact ⟨.carriageReturn, is⟩
  · intro ⟨char, is⟩
    rw [is]
    cases char <;> decide

theorem spaceText_ascii (space : List SpaceChar) : ∀ b ∈ spaceText space, b.toNat < 0x80 := by
  intro b member
  obtain ⟨char, -, rfl⟩ := List.mem_map.mp member
  cases char <;> decide

/-- What the parser skips is space. -/
theorem jsonSkipWs_sound (src : List UInt8)
    : ∃ space, src = spaceText space ++ jsonSkipWs src := by
  induction src with
  | nil => exact ⟨[], rfl⟩
  | cons c rest ih =>
      by_cases space : isWs c = true
      · obtain ⟨char, is⟩ := (isWs_iff c).mp space
        obtain ⟨more, left⟩ := ih
        refine ⟨char :: more, ?_⟩
        rw [jsonSkipWs, List.dropWhile_cons_of_pos space, is]
        exact congrArg (char.byte :: ·) left
      · refine ⟨[], ?_⟩
        rw [jsonSkipWs, List.dropWhile_cons_of_neg space]
        rfl

theorem jsonSkipWs_space (space : List SpaceChar) (rest : List UInt8)
    : jsonSkipWs (spaceText space ++ rest) = jsonSkipWs rest := by
  induction space with
  | nil => rfl
  | cons char space ih =>
      have skipped : isWs char.byte = true := (isWs_iff _).mpr ⟨char, rfl⟩
      exact (List.dropWhile_cons_of_pos skipped).trans ih

theorem jsonSkipWs_other {c : UInt8} (other : isWs c = false) (rest : List UInt8)
    : jsonSkipWs (c :: rest) = c :: rest :=
  List.dropWhile_cons_of_neg (by simp [other])

theorem jsonSkipWs_twice (src : List UInt8) : jsonSkipWs (jsonSkipWs src) = jsonSkipWs src := by
  obtain ⟨space, is⟩ := jsonSkipWs_sound src
  conv => rhs; rw [is, jsonSkipWs_space]

theorem Encoded.skipWs {src : List UInt8} (encoded : Encoded src) : Encoded (jsonSkipWs src) := by
  obtain ⟨space, is⟩ := jsonSkipWs_sound src
  rw [is] at encoded
  exact encoded.behind _ (spaceText_ascii space)

-----------------------------------------------------------------------------------------
-- Strings
-----------------------------------------------------------------------------------------

theorem parseHex_sound {turns : Nat} {val : UInt32} {src : List UInt8}
    {found : UInt32 × List UInt8} (read : parseHex turns val src = some found)
    : ∃ digits : List HexDigit, digits.length = turns
      ∧ src = digits.map HexDigit.byte ++ found.2 := by
  induction turns generalizing val src with
  | zero =>
      cases read
      exact ⟨[], rfl, rfl⟩
  | succ turns ih =>
      cases src with
      | nil => cases read
      | cons c rest =>
          rw [parseHex] at read
          cases digit : hexDigit c with
          | none =>
              rw [digit] at read
              cases read
          | some d =>
              rw [digit] at read
              obtain ⟨digits, length, is⟩ := ih read
              obtain ⟨first, same⟩ := hexDigit_some digit
              refine ⟨first :: digits, congrArg (· + 1) length, ?_⟩
              rw [same, is]
              rfl

theorem jsonParseHex4_sound {src : List UInt8} {found : UInt32 × List UInt8}
    (read : jsonParseHex4 src = some found)
    : ∃ d3 d2 d1 d0 : HexDigit,
        0x5C :: 0x75 :: src = (StringPiece.unicode d3 d2 d1 d0).text ++ found.2 := by
  obtain ⟨digits, length, is⟩ := parseHex_sound read
  match digits, length with
  | [d3, d2, d1, d0], _ => exact ⟨d3, d2, d1, d0, by rw [is]; rfl⟩

theorem piece_ascii {piece : StringPiece} (escaped : ∀ char, piece ≠ .plain char)
    : ∀ b ∈ piece.text, b.toNat < 0x80 := by
  have digits : ∀ value : Fin 16, ∀ upper : Bool,
      (HexDigit.byte ⟨value, upper⟩).toNat < 0x80 := by decide
  cases piece with
  | plain char => exact absurd rfl (escaped char)
  | escape kind =>
      intro b member
      simp only [StringPiece.text, List.mem_cons, List.not_mem_nil, or_false] at member
      rcases member with rfl | rfl
      · decide
      · cases kind <;> decide
  | unicode d3 d2 d1 d0 =>
      intro b member
      simp only [StringPiece.text, List.mem_cons, List.not_mem_nil, or_false] at member
      rcases member with rfl | rfl | rfl | rfl | rfl | rfl
      · decide
      · decide
      all_goals exact digits _ _

/-- One turn of the loop is the closing quote or a character of the grammar. -/
theorem stringLoop_turn {c : UInt8} {rest buf : List UInt8} {found : List UInt8 × List UInt8}
    (encoded : Encoded (c :: rest)) (read : stringLoop (c :: rest) buf = some found)
    : c = 0x22 ∨ ∃ piece : StringPiece, ∃ rest', c :: rest = piece.text ++ rest' ∧ Encoded rest' := by
  have step := read
  rw [stringLoop.eq_def] at step
  dsimp only at step
  by_cases quote : c = 0x22
  · exact .inl quote
  right
  rw [if_neg (by simpa using quote)] at step
  by_cases backslash : c = 0x5C
  · rw [if_pos (by simpa using backslash)] at step
    subst backslash
    have escaped : ∀ (piece : StringPiece) rest', (∀ char, piece ≠ .plain char) →
        0x5C :: rest = piece.text ++ rest' →
        ∃ piece : StringPiece, ∃ rest', 0x5C :: rest = piece.text ++ rest' ∧ Encoded rest' := by
      intro piece rest' notPlain is
      rw [is] at encoded
      exact ⟨piece, rest', is, encoded.behind _ (piece_ascii notPlain)⟩
    cases rest with
    | nil => cases step
    | cons esc behind =>
        cases simple : simpleEscape esc with
        | some ch =>
            obtain ⟨kind, same⟩ := simpleEscape_some simple
            exact escaped (.escape kind) behind (fun _ no => by cases no) (by rw [same]; rfl)
        | none =>
            simp only [simple] at step
            split at step
            · rename_i isU
              split at step
              · rename_i cp behind' parsed
                obtain ⟨d3, d2, d1, d0, is⟩ := jsonParseHex4_sound parsed
                obtain rfl := eq_of_beq isU
                exact escaped (.unicode d3 d2 d1 d0) behind' (fun _ no => by cases no) is
              · cases step
            · cases step
  · rw [if_neg (by simpa using backslash)] at step
    split at step
    · cases step
    · rename_i printable
      obtain ⟨cp, rest', is, encoded', one, high⟩ := encoded.head
      have char : 0x20 ≤ cp.val ∧ cp.val ≠ 0x22 ∧ cp.val ≠ 0x5C := by
        rw [UInt8.lt_iff_toNat_lt] at printable
        change ¬_ < 32 at printable
        rcases Nat.lt_or_ge c.toNat 0x80 with ascii | above
        · rw [← (one ascii).1]
          refine ⟨by omega, fun same => quote ?_, fun same => backslash ?_⟩
          · exact UInt8.toNat_inj.mp same
          · exact UInt8.toNat_inj.mp same
        · have := high above
          omega
      exact ⟨.plain ⟨cp.val, cp.isLt, char.1, char.2.1, char.2.2⟩, rest', is, encoded'⟩

/-- The loop ends behind a quote after characters of the grammar. -/
theorem stringLoop_sound {n : Nat} {src buf : List UInt8} {found : List UInt8 × List UInt8}
    (small : src.length ≤ n) (encoded : Encoded src) (read : stringLoop src buf = some found)
    : ∃ pieces : List StringPiece,
        src = pieces.flatMap StringPiece.text ++ 0x22 :: found.2 ∧ Encoded found.2 := by
  induction n generalizing src buf with
  | zero =>
      rw [List.length_eq_zero_iff.mp (Nat.le_zero.mp small), stringLoop] at read
      cases read
  | succ n ih =>
      cases src with
      | nil =>
          rw [stringLoop] at read
          cases read
      | cons c rest =>
          rcases stringLoop_turn encoded read with rfl | ⟨piece, rest', is, encoded'⟩
          · rw [stringLoop_quote] at read
            cases read
            refine ⟨[], rfl, ?_⟩
            exact encoded.behind [0x22] (by decide +kernel)
          · have shorter : rest'.length ≤ n := by
              have some := List.length_pos_of_ne_nil (text_ne_nil piece)
              have length := congrArg List.length is
              rw [List.length_append] at length
              omega
            rw [is, stringLoop_piece] at read
            obtain ⟨pieces, left, encoded''⟩ := ih shorter encoded' read
            refine ⟨piece :: pieces, ?_, encoded''⟩
            rw [is, left, List.flatMap_cons, List.append_assoc]

/-- A string that the parser accepts is a literal. -/
theorem jsonParseString_sound {src data rest : List UInt8} (encoded : Encoded src)
    (read : jsonParseString src = some (data, rest))
    : ∃ pieces, src = literalText pieces ++ rest ∧ data = cesu8 (literalUnits pieces)
      ∧ Encoded rest := by
  cases src with
  | nil => cases read
  | cons c behind =>
      have start := read
      rw [jsonParseString] at start
      split at start
      · rename_i quote
        obtain rfl := eq_of_beq quote
        cases loop : stringLoop behind [] with
        | none =>
            rw [loop] at start
            cases start
        | some found =>
            rw [loop] at start
            cases start
            obtain ⟨pieces, is, encoded'⟩ := stringLoop_sound (Nat.le_refl _)
              (encoded.behind [0x22] (by decide +kernel)) loop
            have text : 0x22 :: behind = literalText pieces ++ found.2 := by
              rw [is, literalText, List.cons_append, List.append_assoc]
              rfl
            refine ⟨pieces, text, ?_, encoded'⟩
            rw [text, jsonParseString_literal] at read
            exact (Prod.mk.inj (Option.some.inj read)).1.symm
      · cases start

-----------------------------------------------------------------------------------------
-- Numbers
-----------------------------------------------------------------------------------------

theorem isDigit_sound {c : UInt8} (digit : isDigit c = true) : ∃ d : Fin 10, c = digitChar d := by
  have all : ∀ n < 256, isDigit (UInt8.ofNat n) = true →
      ∃ d : Fin 10, UInt8.ofNat n = digitChar d := by
    decide +kernel
  have known := all c.toNat c.toNat_lt
  rw [UInt8.ofNat_toNat] at known
  exact known digit

theorem digits_sound (src : List UInt8)
    : ∃ digits : List (Fin 10), src = digits.map digitChar ++ src.dropWhile isDigit := by
  induction src with
  | nil => exact ⟨[], rfl⟩
  | cons c rest ih =>
      by_cases digit : isDigit c = true
      · obtain ⟨d, is⟩ := isDigit_sound digit
        obtain ⟨digits, left⟩ := ih
        refine ⟨d :: digits, ?_⟩
        rw [List.dropWhile_cons_of_pos digit, is]
        exact congrArg (digitChar d :: ·) left
      · refine ⟨[], ?_⟩
        rw [List.dropWhile_cons_of_neg digit]
        rfl

theorem skipDigits_sound {src rest : List UInt8} (skips : skipDigits src = some rest)
    : ∃ digits : List (Fin 10), digits ≠ [] ∧ src = digits.map digitChar ++ rest := by
  cases src with
  | nil => cases skips
  | cons c behind =>
      rw [skipDigits] at skips
      split at skips
      · rename_i digit
        cases skips
        obtain ⟨d, is⟩ := isDigit_sound digit
        obtain ⟨digits, left⟩ := digits_sound behind
        refine ⟨d :: digits, List.cons_ne_nil _ _, ?_⟩
        rw [is]
        exact congrArg (digitChar d :: ·) left
      · cases skips

theorem skipSign_sound (src : List UInt8)
    : ∃ negative : Bool, src = (if negative then [0x2D] else []) ++ skipSign src := by
  unfold skipSign
  split
  · exact ⟨true, rfl⟩
  · exact ⟨false, rfl⟩

theorem skipInteger_sound {src rest : List UInt8} (skips : skipInteger src = some rest)
    : ∃ integer : List (Fin 10),
        (integer = [0] ∨ ∃ digit rest, integer = digit :: rest ∧ digit ≠ 0)
          ∧ src = integer.map digitChar ++ rest := by
  cases src with
  | nil => cases skips
  | cons c behind =>
      rw [skipInteger] at skips
      split at skips
      · rename_i zero
        cases skips
        exact ⟨[0], .inl rfl, by rw [zero]; rfl⟩
      · rename_i other
        split at skips
        · rename_i range
          cases skips
          rw [Bool.and_eq_true, decide_eq_true_eq, decide_eq_true_eq] at range
          have digit : isDigit c = true := by
            rw [isDigit, Bool.and_eq_true, decide_eq_true_eq, decide_eq_true_eq]
            exact ⟨UInt8.le_trans (by decide) range.1, range.2⟩
          obtain ⟨d, is⟩ := isDigit_sound digit
          obtain ⟨digits, left⟩ := digits_sound behind
          refine ⟨d :: digits, .inr ⟨d, digits, rfl, fun zero => other ?_⟩, ?_⟩
          · rw [is, zero]
            rfl
          · rw [is]
            exact congrArg (digitChar d :: ·) left
        · cases skips

theorem skipFraction_sound {src rest : List UInt8} (skips : skipFraction src = some rest)
    : ∃ fraction : List (Fin 10), src = fractionText fraction ++ rest := by
  unfold skipFraction at skips
  split at skips
  · obtain ⟨digits, some, is⟩ := skipDigits_sound skips
    refine ⟨digits, ?_⟩
    rw [fractionText, if_neg some, is]
    rfl
  · cases skips
    exact ⟨[], rfl⟩

theorem skipExponentSign_sound (src : List UInt8)
    : ∃ sign : Option Bool,
        src = (match sign with
          | some true => [0x2D]
          | some false => [0x2B]
          | none => []) ++ skipExponentSign src := by
  unfold skipExponentSign
  split
  · exact ⟨some false, rfl⟩
  · exact ⟨some true, rfl⟩
  · exact ⟨none, rfl⟩

theorem skipExponent_sound {src rest : List UInt8} (skips : skipExponent src = some rest)
    : ∃ exponent : Option Exponent, src = (exponent.map Exponent.text).getD [] ++ rest := by
  have part : ∀ (upper : Bool) (behind : List UInt8),
      skipDigits (skipExponentSign behind) = some rest →
      ∃ exponent : Option Exponent, (if upper then (0x45 : UInt8) else 0x65) :: behind
        = (exponent.map Exponent.text).getD [] ++ rest := by
    intro upper behind skips
    obtain ⟨sign, signed⟩ := skipExponentSign_sound behind
    obtain ⟨digits, nonempty, is⟩ := skipDigits_sound skips
    refine ⟨some ⟨upper, sign, digits, nonempty⟩, ?_⟩
    rw [is] at signed
    simp only [Option.map_some, Option.getD_some, Exponent.text]
    rw [List.cons_append, List.append_assoc]
    exact congrArg _ signed
  unfold skipExponent at skips
  split at skips
  · exact part false _ skips
  · exact part true _ skips
  · cases skips
    exact ⟨none, rfl⟩

/-- A number that the parser accepts is a literal. -/
theorem jsonParseNumber_sound {strtod : List UInt8 → Double} {outside : Double → Int}
    {src rest : List UInt8} {val : TVal}
    (read : jsonParseNumber strtod outside src = some (val, rest))
    : ∃ literal : JsonNumber, src = literal.text ++ rest
      ∧ val = storeNumber outside (strtod literal.text) := by
  simp only [jsonParseNumber, Option.bind_eq_bind, Option.bind_eq_some_iff] at read
  obtain ⟨first, skips, second, skips', third, skips'', is⟩ := read
  obtain ⟨negative, sign⟩ := skipSign_sound src
  obtain ⟨integer, leading, left⟩ := skipInteger_sound skips
  obtain ⟨fraction, left'⟩ := skipFraction_sound skips'
  obtain ⟨exponent, left''⟩ := skipExponent_sound skips''
  cases is
  have whole : src = JsonNumber.text ⟨negative, integer, fraction, exponent, leading⟩ ++ rest := by
    rw [sign, left, left', left'']
    simp only [JsonNumber.text, fractionText, List.append_assoc]
  refine ⟨⟨negative, integer, fraction, exponent, leading⟩, whole, ?_⟩
  rw [whole, List.length_append, Nat.add_sub_cancel, List.take_left]

theorem number_ascii (literal : JsonNumber) : ∀ b ∈ literal.text, b.toNat < 0x80 := by
  have digit : ∀ d : Fin 10, (digitChar d).toNat < 0x80 := by decide
  have digits : ∀ ds : List (Fin 10), ∀ b ∈ ds.map digitChar, b.toNat < 0x80 := by
    intro ds b member
    obtain ⟨d, -, rfl⟩ := List.mem_map.mp member
    exact digit d
  intro b member
  simp only [JsonNumber.text, List.mem_append] at member
  rcases member with ((sign | integer) | fraction) | exponent
  · split at sign
    · rw [List.mem_singleton.mp sign]
      decide
    · cases sign
  · exact digits _ b integer
  · split at fraction
    · cases fraction
    · rcases List.mem_cons.mp fraction with rfl | behind
      · decide
      · exact digits _ b behind
  · cases exists' : literal.exponent with
    | none =>
        rw [exists'] at exponent
        cases exponent
    | some part =>
        rw [exists', Option.map_some, Option.getD_some, Exponent.text] at exponent
        rcases List.mem_cons.mp exponent with rfl | behind
        · split <;> decide
        · rcases List.mem_append.mp behind with sign | behind
          · split at sign
            · rw [List.mem_singleton.mp sign]
              decide
            · rw [List.mem_singleton.mp sign]
              decide
            · cases sign
          · exact digits _ b behind

end Boomkat.Correctness
