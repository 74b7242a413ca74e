import Boomkat.Correctness.JsonTokens

/-! Every text that is spelled from a tree of the grammar is parsed to what the tree denotes. -/

namespace Boomkat.Correctness

open Foundation Json Machine

variable {strtod : List UInt8 → Double} {outside : Double → Int} {turns : Nat}
  {rest : List UInt8}

-----------------------------------------------------------------------------------------
-- Values as they are built
-----------------------------------------------------------------------------------------

mutual
/-- The value that the parser builds for what a text denotes. -/
def storeDatum (outside : Double → Int) : JsonDatum → JsonVal
  | .null => .null
  | .boolean b => .boolean b
  | .number d => .number (storeNumber outside d)
  | .string us => .string (cesu8 us)
  | .array elems => .array (storeElements outside elems)
  | .object members => .object (storeMembers outside members)

def storeElements (outside : Double → Int) : List JsonDatum → List JsonVal
  | [] => []
  | elem :: elems => storeDatum outside elem :: storeElements outside elems

def storeMembers (outside : Double → Int)
    : List (List Nat × JsonDatum) → List (List UInt8 × JsonVal)
  | [] => []
  | (name, val) :: members =>
      (cesu8 name, storeDatum outside val) :: storeMembers outside members
end

theorem storeMembers_eq (members : List (List Nat × JsonDatum))
    : storeMembers outside members
      = members.map fun member => (cesu8 member.1, storeDatum outside member.2) := by
  induction members with
  | nil => rfl
  | cons member members ih =>
      rw [storeMembers, ih]
      rfl

theorem literalUnits_lt (pieces : List StringPiece) : ∀ u ∈ literalUnits pieces, u < 0x10000 := by
  intro u member
  obtain ⟨piece, -, inside⟩ := List.mem_flatMap.mp member
  exact units_piece_lt piece u inside

theorem name_lt (members : MembersSyntax)
    : ∀ member ∈ members.denoted strtod, ∀ u ∈ member.1, u < 0x10000 := by
  intro member inside
  match members with
  | .last _ name _ _ _ _ =>
      rw [MembersSyntax.denoted, List.mem_singleton] at inside
      rw [inside]
      exact literalUnits_lt name
  | .more _ name _ _ _ _ members =>
      rw [MembersSyntax.denoted, List.mem_cons] at inside
      rcases inside with rfl | later
      · exact literalUnits_lt name
      · exact name_lt members member later
termination_by sizeOf members

/-- The members that are stored one after the other are those that count. -/
theorem storeMembers_lastWins (members : MembersSyntax)
    : (storeMembers outside (members.denoted strtod)).foldl
        (fun stored member => updateOrAppend stored member.1 member.2) []
      = storeMembers outside (lastWins (members.denoted strtod)) := by
  rw [foldl_updateOrAppend, storeMembers_eq, storeMembers_eq]
  refine lastWins_map (storeDatum outside) fun a left b right same => ?_
  rw [← decodeUnits_cesu8 (name_lt members a left), same,
    decodeUnits_cesu8 (name_lt members b right)]

-----------------------------------------------------------------------------------------
-- Beginnings and ends
-----------------------------------------------------------------------------------------

/-- What comes behind a value: space, a comma or a closing bracket, or nothing. -/
theorem endsNumber_space (space : List SpaceChar)
    (ends : ∀ c ∈ rest.head?, c = 0x2C ∨ c = 0x5D ∨ c = 0x7D)
    : EndsNumber (spaceText space ++ rest) := by
  have other : ∀ char : SpaceChar, isDigit char.byte = false ∧ char.byte ≠ 0x2E
      ∧ char.byte ≠ 0x65 ∧ char.byte ≠ 0x45 := by
    intro char
    cases char <;> decide
  intro c first
  cases space with
  | nil =>
      rcases ends c first with rfl | rfl | rfl
      · decide
      · decide
      · decide
  | cons char space =>
      cases first
      exact other char

theorem number_start (literal : JsonNumber)
    : ∃ c tail, literal.text = c :: tail ∧ (c = 0x2D ∨ isDigit c = true) := by
  obtain ⟨digit, digits, spelled⟩ : ∃ digit digits, literal.integer = digit :: digits := by
    rcases literal.leading with zero | ⟨digit, digits, spelled, -⟩
    · exact ⟨0, [], zero⟩
    · exact ⟨digit, digits, spelled⟩
  rw [JsonNumber.text, spelled]
  cases literal.negative with
  | true => exact ⟨_, _, rfl, .inl rfl⟩
  | false => exact ⟨_, _, rfl, .inr (isDigit_digitChar digit)⟩

/-- A value does not start with space or a closing bracket. -/
theorem text_start (tree : JsonSyntax)
    : ∃ c tail, tree.text = c :: tail ∧ isWs c = false ∧ c ≠ 0x5D := by
  cases tree with
  | number literal =>
      obtain ⟨c, tail, is, start⟩ := number_start literal
      have digit : ∀ d : Fin 10, isWs (digitChar d) = false ∧ digitChar d ≠ 0x5D := by decide
      refine ⟨c, tail, is, ?_⟩
      rcases start with rfl | digits
      · decide
      · obtain ⟨d, rfl⟩ := isDigit_sound digits
        exact digit d
  | boolean b => cases b <;> exact ⟨_, _, rfl, by decide, by decide⟩
  | _ => exact ⟨_, _, rfl, by decide, by decide⟩

-----------------------------------------------------------------------------------------
-- Space in front
-----------------------------------------------------------------------------------------

theorem jsonParseValue_skip (turns : Nat) (src : List UInt8)
    : jsonParseValue strtod outside turns (jsonSkipWs src)
      = jsonParseValue strtod outside turns src := by
  cases turns with
  | zero => rw [jsonParseValue, jsonParseValue]
  | succ turns => rw [jsonParseValue, jsonParseValue, jsonSkipWs_twice]

theorem jsonParseValue_space (turns : Nat) (space : List SpaceChar) (src : List UInt8)
    : jsonParseValue strtod outside turns (spaceText space ++ src)
      = jsonParseValue strtod outside turns src := by
  rw [← jsonParseValue_skip, jsonSkipWs_space, jsonParseValue_skip]

theorem jsonParseElements_skip (turns : Nat) (elems : List JsonVal) (src : List UInt8)
    : jsonParseElements strtod outside turns elems (jsonSkipWs src)
      = jsonParseElements strtod outside turns elems src := by
  cases turns with
  | zero => rw [jsonParseElements, jsonParseElements]
  | succ turns => rw [jsonParseElements, jsonParseElements, jsonParseValue_skip]

theorem jsonParseMembers_skip (turns : Nat) (members : List (List UInt8 × JsonVal))
    (src : List UInt8)
    : jsonParseMembers strtod outside turns members (jsonSkipWs src)
      = jsonParseMembers strtod outside turns members src := by
  cases turns with
  | zero => rw [jsonParseMembers, jsonParseMembers]
  | succ turns =>
      rw [jsonParseMembers, jsonParseMembers, jsonParseName, jsonSkipWs_twice, ← jsonParseName]

/-- Behind a value: space and the closing bracket, or space and a comma. -/
theorem jsonSeparator_closing {closing : UInt8} (other : isWs closing = false)
    (apart : closing ≠ 0x2C) (more : List UInt8 → Parsed JsonVal) (ends : JsonVal)
    (space : List SpaceChar)
    : jsonSeparator closing more ends (spaceText space ++ closing :: rest) = .done ends rest := by
  rw [jsonSeparator, jsonSkipWs_space, jsonSkipWs_other other]
  simp only [if_neg apart, if_pos]

theorem jsonSeparator_comma (closing : UInt8) (more : List UInt8 → Parsed JsonVal)
    (ends : JsonVal) (space : List SpaceChar)
    : jsonSeparator closing more ends (spaceText space ++ 0x2C :: rest) = more rest := by
  rw [jsonSeparator, jsonSkipWs_space, jsonSkipWs_other (by decide)]
  simp only [if_pos]

theorem jsonParseName_text (before : List SpaceChar) (name : List StringPiece)
    (afterName : List SpaceChar) (rest : List UInt8)
    : jsonParseName (nameText before name afterName ++ rest)
      = .done (cesu8 (literalUnits name)) rest := by
  have start : jsonSkipWs (literalText name ++ (spaceText afterName ++ 0x3A :: rest))
      = literalText name ++ (spaceText afterName ++ 0x3A :: rest) :=
    jsonSkipWs_other (by decide) _
  have text : nameText before name afterName ++ rest
      = spaceText before ++ (literalText name ++ (spaceText afterName ++ 0x3A :: rest)) := by
    simp [nameText]
  rw [jsonParseName, text, jsonSkipWs_space, start, jsonParseString_literal]
  simp only [Parsed.ofOption, Parsed.bind, id_eq]
  rw [jsonSkipWs_space, jsonSkipWs_other (by decide)]
  simp only [if_pos]

-----------------------------------------------------------------------------------------
-- Texts are parsed
-----------------------------------------------------------------------------------------

/-- The dispatch on the first character of a number. -/
theorem jsonParseValue_number (turns : Nat) {c : UInt8} {tail : List UInt8}
    (start : c = 0x2D ∨ isDigit c = true)
    : jsonParseValue strtod outside (turns + 1) (c :: tail)
      = .ofOption .number (jsonParseNumber strtod outside (c :: tail)) := by
  have digit : ∀ d : Fin 10, isWs (digitChar d) = false ∧ digitChar d ≠ 0x22
      ∧ digitChar d ≠ 0x7B ∧ digitChar d ≠ 0x5B ∧ digitChar d ≠ 0x74 ∧ digitChar d ≠ 0x66
      ∧ digitChar d ≠ 0x6E := by
    decide
  have other : isWs c = false ∧ c ≠ 0x22 ∧ c ≠ 0x7B ∧ c ≠ 0x5B ∧ c ≠ 0x74 ∧ c ≠ 0x66 ∧ c ≠ 0x6E := by
    rcases start with rfl | digits
    · decide
    · obtain ⟨d, rfl⟩ := isDigit_sound digits
      exact digit d
  obtain ⟨notWs, not1, not2, not3, not4, not5, not6⟩ := other
  rw [jsonParseValue, jsonSkipWs_other notWs]
  simp only [if_neg not1, if_neg not2, if_neg not3, if_neg not4, if_neg not5, if_neg not6,
    if_pos start]

theorem jsonParseValue_bracket (turns : Nat) (rest : List UInt8)
    : jsonParseValue strtod outside (turns + 1) (0x5B :: rest)
      = jsonParseArray (jsonParseElements strtod outside turns [] ·) rest := by
  rw [jsonParseValue, jsonSkipWs_other (by decide)]
  rfl

theorem jsonParseValue_brace (turns : Nat) (rest : List UInt8)
    : jsonParseValue strtod outside (turns + 1) (0x7B :: rest)
      = jsonParseObject (jsonParseMembers strtod outside turns [] ·) rest := by
  rw [jsonParseValue, jsonSkipWs_other (by decide)]
  rfl

theorem elements_start (elems : ElementsSyntax) (rest : List UInt8)
    : ∃ c tail, jsonSkipWs (elems.text ++ rest) = c :: tail ∧ c ≠ 0x5D := by
  have start : ∀ (before : List SpaceChar) (elem : JsonSyntax) (behind : List UInt8),
      ∃ c tail, jsonSkipWs (spaceText before ++ (elem.text ++ behind)) = c :: tail
        ∧ c ≠ 0x5D := by
    intro before elem behind
    obtain ⟨c, tail, is, other, apart⟩ := text_start elem
    refine ⟨c, tail ++ behind, ?_, apart⟩
    rw [jsonSkipWs_space, is, List.cons_append, jsonSkipWs_other other]
  cases elems with
  | last before elem after =>
      have text : (ElementsSyntax.last before elem after).text ++ rest
          = spaceText before ++ (elem.text ++ (spaceText after ++ rest)) := by
        simp [ElementsSyntax.text]
      rw [text]
      exact start before elem _
  | more before elem after elems =>
      have text : (ElementsSyntax.more before elem after elems).text ++ rest
          = spaceText before ++ (elem.text ++ (spaceText after ++ 0x2C :: (elems.text ++ rest))) := by
        simp [ElementsSyntax.text]
      rw [text]
      exact start before elem _

theorem members_start (members : MembersSyntax) (rest : List UInt8)
    : ∃ tail, jsonSkipWs (members.text ++ rest) = 0x22 :: tail := by
  have start : ∀ (before : List SpaceChar) (name : List StringPiece) (behind : List UInt8),
      ∃ tail, jsonSkipWs (spaceText before ++ (literalText name ++ behind)) = 0x22 :: tail := by
    intro before name behind
    rw [jsonSkipWs_space]
    exact ⟨_, jsonSkipWs_other (by decide) _⟩
  cases members with
  | last before name afterName beforeValue val after =>
      have text : (MembersSyntax.last before name afterName beforeValue val after).text ++ rest
          = spaceText before ++ (literalText name ++ (spaceText afterName
            ++ 0x3A :: (spaceText beforeValue ++ val.text ++ spaceText after ++ rest))) := by
        simp [MembersSyntax.text, nameText]
      rw [text]
      exact start before name _
  | more before name afterName beforeValue val after members =>
      have text : (MembersSyntax.more before name afterName beforeValue val after members).text
          ++ rest
          = spaceText before ++ (literalText name ++ (spaceText afterName
            ++ 0x3A :: (spaceText beforeValue ++ val.text ++ spaceText after
              ++ 0x2C :: members.text ++ rest))) := by
        simp [MembersSyntax.text, nameText]
      rw [text]
      exact start before name _

mutual
theorem jsonParseValue_text (tree : JsonSyntax) (turns : Nat) {rest : List UInt8}
    (ends : EndsNumber rest) (enough : 2 * tree.text.length < turns)
    : jsonParseValue strtod outside turns (tree.text ++ rest)
      = .done (storeDatum outside (tree.denoted strtod)) rest := by
  obtain ⟨turns, rfl⟩ : ∃ n, turns = n + 1 := ⟨turns - 1, by omega⟩
  cases tree with
  | null => rfl
  | boolean b => cases b <;> rfl
  | number literal =>
      obtain ⟨c, tail, is, start⟩ := number_start literal
      have parsed := jsonParseNumber_literal strtod outside literal ends
      rw [JsonSyntax.text, is, List.cons_append, jsonParseValue_number turns start]
      rw [is, List.cons_append] at parsed
      rw [parsed, ← is]
      rfl
  | string pieces =>
      have parsed := jsonParseString_literal pieces rest
      rw [literalText, List.cons_append] at parsed
      rw [JsonSyntax.text, literalText, List.cons_append, jsonParseValue,
        jsonSkipWs_other (by decide)]
      simp only [if_pos, parsed]
      rfl
  | emptyArray space =>
      have text : (JsonSyntax.emptyArray space).text ++ rest
          = 0x5B :: (spaceText space ++ 0x5D :: rest) := by
        simp [JsonSyntax.text]
      rw [text, jsonParseValue_bracket, jsonParseArray, jsonSkipWs_space,
        jsonSkipWs_other (by decide)]
      rfl
  | array elems =>
      have text : (JsonSyntax.array elems).text ++ rest = 0x5B :: (elems.text ++ 0x5D :: rest) := by
        simp [JsonSyntax.text]
      have length : (JsonSyntax.array elems).text.length = elems.text.length + 2 := by
        simp [JsonSyntax.text]
      obtain ⟨c, tail, is, apart⟩ := elements_start elems (0x5D :: rest)
      have loop := jsonParseElements_text elems turns rest [] (by omega)
      rw [← jsonParseElements_skip, is] at loop
      rw [text, jsonParseValue_bracket, jsonParseArray, is]
      exact (if_neg apart).trans loop
  | emptyObject space =>
      have text : (JsonSyntax.emptyObject space).text ++ rest
          = 0x7B :: (spaceText space ++ 0x7D :: rest) := by
        simp [JsonSyntax.text]
      rw [text, jsonParseValue_brace, jsonParseObject, jsonSkipWs_space,
        jsonSkipWs_other (by decide)]
      rfl
  | object members =>
      have text : (JsonSyntax.object members).text ++ rest
          = 0x7B :: (members.text ++ 0x7D :: rest) := by
        simp [JsonSyntax.text]
      have length : (JsonSyntax.object members).text.length = members.text.length + 2 := by
        simp [JsonSyntax.text]
      obtain ⟨tail, is⟩ := members_start members (0x7D :: rest)
      have loop := jsonParseMembers_text members turns rest [] (by omega)
      rw [← jsonParseMembers_skip, is, storeMembers_lastWins] at loop
      rw [text, jsonParseValue_brace, jsonParseObject, is]
      exact (if_neg (by decide)).trans loop
termination_by sizeOf tree

theorem jsonParseElements_text (elems : ElementsSyntax) (turns : Nat) (rest : List UInt8)
    (stored : List JsonVal) (enough : 2 * elems.text.length + 1 < turns)
    : jsonParseElements strtod outside turns stored (elems.text ++ 0x5D :: rest)
      = .done (.array (stored ++ storeElements outside (elems.denoted strtod))) rest := by
  obtain ⟨turns, rfl⟩ : ∃ n, turns = n + 1 := ⟨turns - 1, by omega⟩
  cases elems with
  | last before elem after =>
      rw [ElementsSyntax.text] at enough ⊢
      simp only [List.length_append] at enough
      have ends : EndsNumber (spaceText after ++ 0x5D :: rest) :=
        endsNumber_space after (by simp)
      have value := jsonParseValue_text elem turns ends (by omega)
      rw [List.append_assoc, List.append_assoc, jsonParseElements, jsonParseValue_space, value]
      exact jsonSeparator_closing (by decide) (by decide) _ _ after
  | more before elem after elems =>
      rw [ElementsSyntax.text] at enough ⊢
      simp only [List.length_append, List.length_cons] at enough
      have ends : EndsNumber (spaceText after ++ 0x2C :: (elems.text ++ 0x5D :: rest)) :=
        endsNumber_space after (by simp)
      have value := jsonParseValue_text elem turns ends (by omega)
      have loop := jsonParseElements_text elems turns rest
        (stored ++ [storeDatum outside (elem.denoted strtod)]) (by omega)
      have text : spaceText before ++ elem.text ++ spaceText after ++ 0x2C :: elems.text
          ++ 0x5D :: rest
          = spaceText before ++ (elem.text ++ (spaceText after
            ++ 0x2C :: (elems.text ++ 0x5D :: rest))) := by
        simp
      rw [text, jsonParseElements, jsonParseValue_space, value]
      refine (jsonSeparator_comma _ _ _ after).trans (loop.trans ?_)
      rw [ElementsSyntax.denoted, storeElements, List.append_assoc]
      rfl
termination_by sizeOf elems

theorem jsonParseMembers_text (members : MembersSyntax) (turns : Nat) (rest : List UInt8)
    (stored : List (List UInt8 × JsonVal)) (enough : 2 * members.text.length + 1 < turns)
    : jsonParseMembers strtod outside turns stored (members.text ++ 0x7D :: rest)
      = .done (.object ((storeMembers outside (members.denoted strtod)).foldl
        (fun stored member => updateOrAppend stored member.1 member.2) stored)) rest := by
  obtain ⟨turns, rfl⟩ : ∃ n, turns = n + 1 := ⟨turns - 1, by omega⟩
  cases members with
  | last before name afterName beforeValue val after =>
      rw [MembersSyntax.text] at enough ⊢
      simp only [List.length_append] at enough
      have ends : EndsNumber (spaceText after ++ 0x7D :: rest) :=
        endsNumber_space after (by simp)
      have value := jsonParseValue_text val turns ends (by omega)
      have text : nameText before name afterName ++ spaceText beforeValue ++ val.text
          ++ spaceText after ++ 0x7D :: rest
          = nameText before name afterName ++ (spaceText beforeValue
            ++ (val.text ++ (spaceText after ++ 0x7D :: rest))) := by
        simp
      rw [text, jsonParseMembers, jsonParseName_text, Parsed.bind, jsonParseValue_space, value]
      exact jsonSeparator_closing (by decide) (by decide) _ _ after
  | more before name afterName beforeValue val after members =>
      rw [MembersSyntax.text] at enough ⊢
      simp only [List.length_append, List.length_cons] at enough
      have ends : EndsNumber (spaceText after ++ 0x2C :: (members.text ++ 0x7D :: rest)) :=
        endsNumber_space after (by simp)
      have value := jsonParseValue_text val turns ends (by omega)
      have loop := jsonParseMembers_text members turns rest
        (updateOrAppend stored (cesu8 (literalUnits name))
          (storeDatum outside (val.denoted strtod))) (by omega)
      have text : nameText before name afterName ++ spaceText beforeValue ++ val.text
          ++ spaceText after ++ 0x2C :: members.text ++ 0x7D :: rest
          = nameText before name afterName ++ (spaceText beforeValue
            ++ (val.text ++ (spaceText after ++ 0x2C :: (members.text ++ 0x7D :: rest)))) := by
        simp
      rw [text, jsonParseMembers, jsonParseName_text, Parsed.bind, jsonParseValue_space, value]
      exact (jsonSeparator_comma _ _ _ after).trans loop
termination_by sizeOf members
end

end Boomkat.Correctness
