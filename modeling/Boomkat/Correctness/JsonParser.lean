import Boomkat.Correctness.JsonAccepted

/-! The parser accepts the texts of the grammar and no others, and comes to an end on every text.
The value that it builds reads as what the text denotes unless a number in it wraps around.
-/

namespace Boomkat.Correctness

open Foundation Json Machine

variable {strtod : List UInt8 → Double} {outside : Double → Int} {turns : Nat}
  {src rest : List UInt8} {val : JsonVal}

-----------------------------------------------------------------------------------------
-- What is accepted
-----------------------------------------------------------------------------------------

theorem ofOption_done {α β : Type} {make : α → β} {found : Option (α × List UInt8)} {value : β}
    (done : Parsed.ofOption make found = .done value rest)
    : ∃ a, found = some (a, rest) ∧ value = make a := by
  cases found with
  | none => cases done
  | some found =>
      cases done
      exact ⟨found.1, rfl, rfl⟩

theorem bind_done {α β : Type} {parsed : Parsed α} {next : α → List UInt8 → Parsed β} {value : β}
    (done : parsed.bind next = .done value rest)
    : ∃ a middle, parsed = .done a middle ∧ next a middle = .done value rest := by
  cases parsed with
  | done a middle => exact ⟨a, middle, rfl, done⟩
  | error => cases done
  | stuck => cases done

theorem jsonLiteral_done {letters : List UInt8} {v : JsonVal}
    (done : jsonLiteral letters v src = .done val rest) : src = letters ++ rest := by
  rw [jsonLiteral] at done
  split at done
  · rename_i matched
    obtain ⟨behind, rfl⟩ := List.isPrefixOf_iff_prefix.mp matched
    cases done
    rw [List.drop_left]
  · cases done

/-- A separator is a comma, or the end. -/
theorem jsonSeparator_done {closing : UInt8} {more : List UInt8 → Parsed JsonVal} {ends : JsonVal}
    (done : jsonSeparator closing more ends src = .done val rest)
    : ∃ space, (∃ behind, src = spaceText space ++ 0x2C :: behind ∧ more behind = .done val rest)
      ∨ src = spaceText space ++ closing :: rest := by
  obtain ⟨space, is⟩ := jsonSkipWs_sound src
  refine ⟨space, ?_⟩
  rw [jsonSeparator] at done
  split at done
  · cases done
  · rename_i c behind skipped
    rw [skipped] at is
    split at done
    · rename_i comma
      exact .inl ⟨behind, by rw [is, comma], done⟩
    · split at done
      · rename_i last
        cases done
        exact .inr (by rw [is, last])
      · cases done

theorem jsonParseName_done {name : List UInt8} (encoded : Encoded src)
    (done : jsonParseName src = .done name rest)
    : ∃ before pieces afterName, src = nameText before pieces afterName ++ rest
      ∧ Encoded rest := by
  obtain ⟨data, middle, parsed, colon⟩ := bind_done done
  obtain ⟨bytes, found, -⟩ := ofOption_done parsed
  obtain ⟨before, is⟩ := jsonSkipWs_sound src
  obtain ⟨pieces, text, -, encoded'⟩ := jsonParseString_sound encoded.skipWs found
  obtain ⟨afterName, left⟩ := jsonSkipWs_sound middle
  split at colon
  · cases colon
  · rename_i c behind skipped
    rw [skipped] at left
    split at colon
    · rename_i isColon
      cases colon
      refine ⟨before, pieces, afterName, ?_, ?_⟩
      · rw [is, text, left, isColon]
        simp [nameText]
      · have whole := encoded'.skipWs
        rw [skipped, isColon] at whole
        exact whole.behind [0x3A] (by decide +kernel)
    · cases colon

/-- What each of the three loops accepts with its turns. -/
structure Accepts (strtod : List UInt8 → Double) (outside : Double → Int) (turns : Nat) : Prop where
  value : ∀ {src val rest}, Encoded src →
    jsonParseValue strtod outside turns src = .done val rest →
    ∃ (space : List SpaceChar) (tree : JsonSyntax), src = spaceText space ++ (tree.text ++ rest)
      ∧ Encoded rest
  elements : ∀ {stored src val rest}, Encoded src →
    jsonParseElements strtod outside turns stored src = .done val rest →
    ∃ elems : ElementsSyntax, src = elems.text ++ 0x5D :: rest ∧ Encoded rest
  members : ∀ {stored src val rest}, Encoded src →
    jsonParseMembers strtod outside turns stored src = .done val rest →
    ∃ members : MembersSyntax, src = members.text ++ 0x7D :: rest ∧ Encoded rest

theorem encoded_space {space : List SpaceChar} {c : UInt8} (ascii : c.toNat < 0x80)
    (encoded : Encoded (spaceText space ++ c :: rest)) : Encoded rest :=
  (encoded.behind _ (spaceText_ascii space)).behind [c] (by simpa using ascii)

theorem Accepts.nextElements (accepts : Accepts strtod outside turns) {stored : List JsonVal}
    (encoded : Encoded src)
    (done : jsonParseElements strtod outside (turns + 1) stored src = .done val rest)
    : ∃ elems : ElementsSyntax, src = elems.text ++ 0x5D :: rest ∧ Encoded rest := by
  rw [jsonParseElements] at done
  obtain ⟨elem, middle, first, behind⟩ := bind_done done
  obtain ⟨before, tree, is, encoded'⟩ := accepts.value encoded first
  obtain ⟨after, ⟨more, left, loop⟩ | left⟩ := jsonSeparator_done behind
  · rw [left] at encoded'
    obtain ⟨elems, text, encoded''⟩ := accepts.elements (encoded_space (by decide) encoded') loop
    refine ⟨.more before tree after elems, ?_, encoded''⟩
    rw [is, left, text]
    simp [ElementsSyntax.text]
  · rw [left] at encoded'
    refine ⟨.last before tree after, ?_, encoded_space (by decide) encoded'⟩
    rw [is, left]
    simp [ElementsSyntax.text]

theorem Accepts.nextMembers (accepts : Accepts strtod outside turns)
    {stored : List (List UInt8 × JsonVal)} (encoded : Encoded src)
    (done : jsonParseMembers strtod outside (turns + 1) stored src = .done val rest)
    : ∃ members : MembersSyntax, src = members.text ++ 0x7D :: rest ∧ Encoded rest := by
  rw [jsonParseMembers] at done
  obtain ⟨name, middle, named, done⟩ := bind_done done
  obtain ⟨before, pieces, afterName, is, encoded'⟩ := jsonParseName_done encoded named
  obtain ⟨member, later, first, behind⟩ := bind_done done
  obtain ⟨beforeValue, tree, is', encoded''⟩ := accepts.value encoded' first
  obtain ⟨after, ⟨more, left, loop⟩ | left⟩ := jsonSeparator_done behind
  · rw [left] at encoded''
    obtain ⟨members, text, encoded⟩ := accepts.members (encoded_space (by decide) encoded'') loop
    refine ⟨.more before pieces afterName beforeValue tree after members, ?_, encoded⟩
    rw [is, is', left, text]
    simp [MembersSyntax.text]
  · rw [left] at encoded''
    refine ⟨.last before pieces afterName beforeValue tree after, ?_,
      encoded_space (by decide) encoded''⟩
    rw [is, is', left]
    simp [MembersSyntax.text]

/-- Space in front of the first element belongs to it. -/
theorem elements_spaced (space : List SpaceChar) (elems : ElementsSyntax)
    : ∃ spaced : ElementsSyntax, spaced.text = spaceText space ++ elems.text := by
  cases elems with
  | last before elem after =>
      exact ⟨.last (space ++ before) elem after, by simp [ElementsSyntax.text, spaceText]⟩
  | more before elem after elems =>
      exact ⟨.more (space ++ before) elem after elems, by simp [ElementsSyntax.text, spaceText]⟩

theorem members_spaced (space : List SpaceChar) (members : MembersSyntax)
    : ∃ spaced : MembersSyntax, spaced.text = spaceText space ++ members.text := by
  cases members with
  | last before name afterName beforeValue val after =>
      exact ⟨.last (space ++ before) name afterName beforeValue val after,
        by simp [MembersSyntax.text, nameText, spaceText]⟩
  | more before name afterName beforeValue val after members =>
      exact ⟨.more (space ++ before) name afterName beforeValue val after members,
        by simp [MembersSyntax.text, nameText, spaceText]⟩

theorem Accepts.nextArray (accepts : Accepts strtod outside turns) (encoded : Encoded src)
    (done : jsonParseArray (jsonParseElements strtod outside turns [] ·) src = .done val rest)
    : ∃ tree : JsonSyntax, 0x5B :: src = tree.text ++ rest ∧ Encoded rest := by
  obtain ⟨space, is⟩ := jsonSkipWs_sound src
  have skipped := encoded.skipWs
  rw [jsonParseArray] at done
  split at done
  · cases done
  · rename_i c behind left
    rw [left] at is skipped
    split at done
    · rename_i closing
      cases done
      refine ⟨.emptyArray space, ?_, ?_⟩
      · rw [is, closing]
        simp [JsonSyntax.text]
      · rw [closing] at skipped
        exact skipped.behind [0x5D] (by decide +kernel)
    · obtain ⟨elems, text, encoded'⟩ := accepts.elements skipped done
      obtain ⟨spaced, same⟩ := elements_spaced space elems
      refine ⟨.array spaced, ?_, encoded'⟩
      rw [is, text, JsonSyntax.text, same]
      simp

theorem Accepts.nextObject (accepts : Accepts strtod outside turns) (encoded : Encoded src)
    (done : jsonParseObject (jsonParseMembers strtod outside turns [] ·) src = .done val rest)
    : ∃ tree : JsonSyntax, 0x7B :: src = tree.text ++ rest ∧ Encoded rest := by
  obtain ⟨space, is⟩ := jsonSkipWs_sound src
  have skipped := encoded.skipWs
  rw [jsonParseObject] at done
  split at done
  · cases done
  · rename_i c behind left
    rw [left] at is skipped
    split at done
    · rename_i closing
      cases done
      refine ⟨.emptyObject space, ?_, ?_⟩
      · rw [is, closing]
        simp [JsonSyntax.text]
      · rw [closing] at skipped
        exact skipped.behind [0x7D] (by decide +kernel)
    · obtain ⟨members, text, encoded'⟩ := accepts.members skipped done
      obtain ⟨spaced, same⟩ := members_spaced space members
      refine ⟨.object spaced, ?_, encoded'⟩
      rw [is, text, JsonSyntax.text, same]
      simp

theorem Accepts.nextValue (accepts : Accepts strtod outside turns) (encoded : Encoded src)
    (done : jsonParseValue strtod outside (turns + 1) src = .done val rest)
    : ∃ (space : List SpaceChar) (tree : JsonSyntax), src = spaceText space ++ (tree.text ++ rest)
      ∧ Encoded rest := by
  obtain ⟨space, is⟩ := jsonSkipWs_sound src
  have skipped := encoded.skipWs
  -- what is behind the space is the text of a tree
  suffices ∃ tree : JsonSyntax, jsonSkipWs src = tree.text ++ rest ∧ Encoded rest by
    obtain ⟨tree, text, encoded'⟩ := this
    exact ⟨space, tree, is.trans (congrArg _ text), encoded'⟩
  -- a literal name is behind its first letter
  have literal : ∀ {first : UInt8} {letters behind : List UInt8} {v : JsonVal} (tree : JsonSyntax),
      tree.text = first :: letters → (∀ b ∈ first :: letters, b.toNat < 0x80) →
      jsonSkipWs src = first :: behind → jsonLiteral letters v behind = .done val rest →
      ∃ tree : JsonSyntax, jsonSkipWs src = tree.text ++ rest ∧ Encoded rest := by
    intro first letters behind v tree text ascii left done
    rw [jsonLiteral_done done] at left
    rw [left] at skipped
    exact ⟨tree, by rw [left, text]; rfl, Encoded.behind (first :: letters) skipped ascii⟩
  rw [jsonParseValue] at done
  split at done
  · cases done
  rename_i c behind left
  split at done
  · obtain ⟨data, read, -⟩ := ofOption_done done
    rw [← left] at read
    obtain ⟨pieces, text, -, encoded'⟩ := jsonParseString_sound skipped read
    exact ⟨.string pieces, text, encoded'⟩
  split at done
  · rename_i brace
    rw [left, brace] at skipped ⊢
    exact accepts.nextObject (skipped.behind [0x7B] (by decide +kernel)) done
  split at done
  · rename_i bracket
    rw [left, bracket] at skipped ⊢
    exact accepts.nextArray (skipped.behind [0x5B] (by decide +kernel)) done
  split at done
  · rename_i letter
    exact literal (.boolean true) rfl (by decide +kernel) (letter ▸ left) done
  split at done
  · rename_i letter
    exact literal (.boolean false) rfl (by decide +kernel) (letter ▸ left) done
  split at done
  · rename_i letter
    exact literal .null rfl (by decide +kernel) (letter ▸ left) done
  split at done
  · obtain ⟨data, read, -⟩ := ofOption_done done
    rw [← left] at read
    obtain ⟨number, text, -⟩ := jsonParseNumber_sound read
    rw [text] at skipped
    exact ⟨.number number, text, skipped.behind _ (number_ascii number)⟩
  · cases done

theorem accepts_turns (turns : Nat) : Accepts strtod outside turns := by
  induction turns with
  | zero =>
      refine ⟨?_, ?_, ?_⟩
      · intro src val rest encoded done
        rw [jsonParseValue] at done
        cases done
      · intro stored src val rest encoded done
        rw [jsonParseElements] at done
        cases done
      · intro stored src val rest encoded done
        rw [jsonParseMembers] at done
        cases done
  | succ turns accepts =>
      exact ⟨accepts.nextValue, accepts.nextElements, accepts.nextMembers⟩

-----------------------------------------------------------------------------------------
-- The parser comes to an end
-----------------------------------------------------------------------------------------

theorem ofOption_ends {α β : Type} (make : α → β) (found : Option (α × List UInt8))
    : Parsed.ofOption make found ≠ .stuck := by
  cases found <;> nofun

theorem bind_stuck {α β : Type} {parsed : Parsed α} {next : α → List UInt8 → Parsed β}
    (ends : parsed ≠ .stuck) (stuck : parsed.bind next = .stuck)
    : ∃ value rest, parsed = .done value rest ∧ next value rest = .stuck := by
  cases parsed with
  | done value rest => exact ⟨value, rest, rfl, stuck⟩
  | error => cases stuck
  | stuck => exact absurd rfl ends

theorem jsonSkipWs_length (src : List UInt8) : (jsonSkipWs src).length ≤ src.length :=
  (List.dropWhile_suffix isWs).length_le

theorem jsonLiteral_ends (letters : List UInt8) (v : JsonVal) (src : List UInt8)
    : jsonLiteral letters v src ≠ .stuck := by
  rw [jsonLiteral]
  split <;> nofun

/-- Behind a comma there is less left. -/
theorem jsonSeparator_stuck {closing : UInt8} {more : List UInt8 → Parsed JsonVal} {ends : JsonVal}
    (encoded : Encoded src) (stuck : jsonSeparator closing more ends src = .stuck)
    : ∃ behind, behind.length < src.length ∧ Encoded behind ∧ more behind = .stuck := by
  have skipped := encoded.skipWs
  have length := jsonSkipWs_length src
  rw [jsonSeparator] at stuck
  split at stuck
  · cases stuck
  · rename_i c behind left
    rw [left] at skipped length
    split at stuck
    · rename_i comma
      rw [comma] at skipped
      exact ⟨behind, length, skipped.behind [0x2C] (by decide +kernel), stuck⟩
    · split at stuck <;> cases stuck

theorem jsonParseName_ends (src : List UInt8) : jsonParseName src ≠ .stuck := by
  intro stuck
  obtain ⟨data, rest, -, colon⟩ := bind_stuck (ofOption_ends _ _) stuck
  split at colon
  · cases colon
  · split at colon <;> cases colon

/-- The turns with which each of the three loops comes to an end. -/
structure Terminates (strtod : List UInt8 → Double) (outside : Double → Int) (turns : Nat)
    : Prop where
  value : ∀ {src}, Encoded src → 2 * src.length < turns →
    jsonParseValue strtod outside turns src ≠ .stuck
  elements : ∀ {stored src}, Encoded src → 2 * src.length + 1 < turns →
    jsonParseElements strtod outside turns stored src ≠ .stuck
  members : ∀ {stored src}, Encoded src → 2 * src.length + 1 < turns →
    jsonParseMembers strtod outside turns stored src ≠ .stuck

/-- A value is not empty. -/
theorem jsonParseValue_shorter (encoded : Encoded src)
    (done : jsonParseValue strtod outside turns src = .done val rest)
    : rest.length < src.length ∧ Encoded rest := by
  obtain ⟨space, tree, is, encoded'⟩ := (accepts_turns turns).value encoded done
  obtain ⟨c, tail, text, -⟩ := text_start tree
  have length := congrArg List.length is
  rw [text] at length
  simp only [List.length_append, List.length_cons] at length
  exact ⟨by omega, encoded'⟩

theorem Terminates.nextElements (terminates : Terminates strtod outside turns)
    {stored : List JsonVal} (encoded : Encoded src) (enough : 2 * src.length + 1 < turns + 1)
    : jsonParseElements strtod outside (turns + 1) stored src ≠ .stuck := by
  intro stuck
  rw [jsonParseElements] at stuck
  obtain ⟨elem, middle, first, behind⟩ :=
    bind_stuck (terminates.value encoded (by omega)) stuck
  obtain ⟨shorter, encoded'⟩ := jsonParseValue_shorter encoded first
  obtain ⟨rest, less, encoded'', loop⟩ := jsonSeparator_stuck encoded' behind
  exact terminates.elements encoded'' (by omega) loop

theorem Terminates.nextMembers (terminates : Terminates strtod outside turns)
    {stored : List (List UInt8 × JsonVal)} (encoded : Encoded src)
    (enough : 2 * src.length + 1 < turns + 1)
    : jsonParseMembers strtod outside (turns + 1) stored src ≠ .stuck := by
  intro stuck
  rw [jsonParseMembers] at stuck
  obtain ⟨name, middle, named, stuck⟩ := bind_stuck (jsonParseName_ends src) stuck
  obtain ⟨before, pieces, afterName, is, encoded'⟩ := jsonParseName_done encoded named
  have shorter : middle.length ≤ src.length := by
    rw [is, List.length_append]
    omega
  obtain ⟨member, later, first, behind⟩ :=
    bind_stuck (terminates.value encoded' (by omega)) stuck
  obtain ⟨shorter', encoded''⟩ := jsonParseValue_shorter encoded' first
  obtain ⟨rest, less, encoded, loop⟩ := jsonSeparator_stuck encoded'' behind
  exact terminates.members encoded (by omega) loop

theorem Terminates.nextValue (terminates : Terminates strtod outside turns) (encoded : Encoded src)
    (enough : 2 * src.length < turns + 1)
    : jsonParseValue strtod outside (turns + 1) src ≠ .stuck := by
  intro stuck
  have skipped := encoded.skipWs
  have length := jsonSkipWs_length src
  rw [jsonParseValue] at stuck
  split at stuck
  · cases stuck
  rename_i c behind left
  rw [left] at skipped length
  rw [List.length_cons] at length
  have bracket : c.toNat < 0x80 → Encoded (jsonSkipWs behind)
      ∧ 2 * (jsonSkipWs behind).length + 1 < turns := by
    intro ascii
    have encoded' := skipped.behind [c] (by simpa using ascii)
    have length' := jsonSkipWs_length behind
    exact ⟨encoded'.skipWs, by omega⟩
  split at stuck
  · exact ofOption_ends _ _ stuck
  split at stuck
  · rename_i brace
    obtain ⟨encoded', few⟩ := bracket (by rw [brace]; decide)
    rw [jsonParseObject] at stuck
    split at stuck
    · cases stuck
    rename_i inside
    rw [inside] at encoded' few
    split at stuck
    · cases stuck
    · exact terminates.members encoded' few stuck
  split at stuck
  · rename_i opening
    obtain ⟨encoded', few⟩ := bracket (by rw [opening]; decide)
    rw [jsonParseArray] at stuck
    split at stuck
    · cases stuck
    rename_i inside
    rw [inside] at encoded' few
    split at stuck
    · cases stuck
    · exact terminates.elements encoded' few stuck
  split at stuck
  · exact jsonLiteral_ends _ _ _ stuck
  split at stuck
  · exact jsonLiteral_ends _ _ _ stuck
  split at stuck
  · exact jsonLiteral_ends _ _ _ stuck
  split at stuck
  · exact ofOption_ends _ _ stuck
  · cases stuck

theorem terminates_turns (turns : Nat) : Terminates strtod outside turns := by
  induction turns with
  | zero =>
      refine ⟨?_, ?_, ?_⟩
      all_goals
        intros
        omega
  | succ turns terminates =>
      exact ⟨terminates.nextValue, terminates.nextElements, terminates.nextMembers⟩

-----------------------------------------------------------------------------------------
-- Values that are built
-----------------------------------------------------------------------------------------

mutual
/-- The value reads as the datum: numbers by their double, strings by the bytes of their code
units, elements and members in their order.
-/
def Represents : JsonVal → JsonDatum → Prop
  | .null, .null => True
  | .boolean b, .boolean c => b = c
  | .number val, .number d => val.getNumberOrFastint = d
  | .string data, .string us => data = cesu8 us
  | .array elems, .array data => RepresentsElements elems data
  | .object members, .object data => RepresentsMembers members data
  | _, _ => False

def RepresentsElements : List JsonVal → List JsonDatum → Prop
  | [], [] => True
  | elem :: elems, datum :: data => Represents elem datum ∧ RepresentsElements elems data
  | _, _ => False

def RepresentsMembers : List (List UInt8 × JsonVal) → List (List Nat × JsonDatum) → Prop
  | [], [] => True
  | (bytes, val) :: members, (us, datum) :: data =>
      bytes = cesu8 us ∧ Represents val datum ∧ RepresentsMembers members data
  | _, _ => False
end

mutual
/-- A built value reads as the datum exactly if its numbers do. -/
theorem represents_store (datum : JsonDatum) (numbers : datum.Numbers (·.isNan = false))
    : Represents (storeDatum outside datum) datum ↔ datum.Numbers (¬InBand ·) := by
  cases datum with
  | null => simp only [storeDatum, Represents, JsonDatum.Numbers]
  | boolean b => simp only [storeDatum, Represents, JsonDatum.Numbers]
  | number d =>
      rw [JsonDatum.Numbers] at numbers
      rw [storeDatum, Represents, JsonDatum.Numbers]
      exact storeNumber_exact_iff outside numbers
  | string us => simp only [storeDatum, Represents, JsonDatum.Numbers]
  | array elems =>
      rw [JsonDatum.Numbers] at numbers
      rw [storeDatum, Represents, JsonDatum.Numbers]
      exact representsElements_store elems numbers
  | object members =>
      rw [JsonDatum.Numbers] at numbers
      rw [storeDatum, Represents, JsonDatum.Numbers]
      exact representsMembers_store members numbers
termination_by sizeOf datum

theorem representsElements_store (elems : List JsonDatum)
    (numbers : ElementNumbers (·.isNan = false) elems)
    : RepresentsElements (storeElements outside elems) elems
      ↔ ElementNumbers (¬InBand ·) elems := by
  cases elems with
  | nil => rw [storeElements, RepresentsElements, ElementNumbers]
  | cons elem elems =>
      rw [ElementNumbers] at numbers
      rw [storeElements, RepresentsElements, ElementNumbers, represents_store elem numbers.1,
        representsElements_store elems numbers.2]
termination_by sizeOf elems

theorem representsMembers_store (members : List (List Nat × JsonDatum))
    (numbers : MemberNumbers (·.isNan = false) members)
    : RepresentsMembers (storeMembers outside members) members
      ↔ MemberNumbers (¬InBand ·) members := by
  match members with
  | [] => rw [storeMembers, RepresentsMembers, MemberNumbers]
  | (name, val) :: members =>
      rw [MemberNumbers] at numbers
      rw [storeMembers, RepresentsMembers, MemberNumbers, represents_store val numbers.1,
        representsMembers_store members numbers.2]
      exact and_iff_right rfl
termination_by sizeOf members
end

theorem memberNumbers_iff {p : Double → Prop} (members : List (List Nat × JsonDatum))
    : MemberNumbers p members ↔ ∀ member ∈ members, member.2.Numbers p := by
  induction members with
  | nil => simp [MemberNumbers]
  | cons member members ih => simp [MemberNumbers, ih]

mutual
/-- The numbers that a text denotes are those of literals in it. -/
theorem numbers_denoted {p : Double → Prop} (tree : JsonSyntax)
    (literals : ∀ literal : JsonNumber, literal.text <:+: tree.text → p (strtod literal.text))
    : (tree.denoted strtod).Numbers p := by
  cases tree with
  | number literal =>
      rw [JsonSyntax.denoted, JsonDatum.Numbers]
      exact literals literal (List.infix_refl _)
  | array elems =>
      rw [JsonSyntax.denoted, JsonDatum.Numbers]
      refine elementNumbers_denoted elems fun literal inside => literals literal (inside.trans ?_)
      exact ⟨[0x5B], [0x5D], by rw [JsonSyntax.text]; simp⟩
  | object members =>
      rw [JsonSyntax.denoted, JsonDatum.Numbers, memberNumbers_iff]
      have all := memberNumbers_denoted members fun literal inside =>
        literals literal (inside.trans ⟨[0x7B], [0x7D], by rw [JsonSyntax.text]; simp⟩)
      rw [memberNumbers_iff] at all
      exact fun member inside => all member (mem_of_lastWins inside)
  | _ => simp only [JsonSyntax.denoted, JsonDatum.Numbers, ElementNumbers, MemberNumbers]
termination_by sizeOf tree

theorem elementNumbers_denoted {p : Double → Prop} (elems : ElementsSyntax)
    (literals : ∀ literal : JsonNumber, literal.text <:+: elems.text → p (strtod literal.text))
    : ElementNumbers p (elems.denoted strtod) := by
  cases elems with
  | last before elem after =>
      rw [ElementsSyntax.denoted, ElementNumbers, ElementNumbers]
      refine ⟨numbers_denoted elem fun literal inside => literals literal (inside.trans ?_), ⟨⟩⟩
      exact ⟨spaceText before, spaceText after, by rw [ElementsSyntax.text]⟩
  | more before elem after elems =>
      rw [ElementsSyntax.denoted, ElementNumbers]
      refine ⟨numbers_denoted elem fun literal inside => literals literal (inside.trans ?_),
        elementNumbers_denoted elems fun literal inside => literals literal (inside.trans ?_)⟩
      · exact ⟨spaceText before, spaceText after ++ 0x2C :: elems.text,
          by rw [ElementsSyntax.text]; simp⟩
      · exact ⟨spaceText before ++ elem.text ++ spaceText after ++ [0x2C], [],
          by rw [ElementsSyntax.text]; simp⟩
termination_by sizeOf elems

theorem memberNumbers_denoted {p : Double → Prop} (members : MembersSyntax)
    (literals : ∀ literal : JsonNumber, literal.text <:+: members.text → p (strtod literal.text))
    : MemberNumbers p (members.denoted strtod) := by
  cases members with
  | last before name afterName beforeValue val after =>
      rw [MembersSyntax.denoted, MemberNumbers, MemberNumbers]
      refine ⟨numbers_denoted val fun literal inside => literals literal (inside.trans ?_), ⟨⟩⟩
      exact ⟨nameText before name afterName ++ spaceText beforeValue, spaceText after,
        by rw [MembersSyntax.text]⟩
  | more before name afterName beforeValue val after members =>
      rw [MembersSyntax.denoted, MemberNumbers]
      refine ⟨numbers_denoted val fun literal inside => literals literal (inside.trans ?_),
        memberNumbers_denoted members fun literal inside => literals literal (inside.trans ?_)⟩
      · exact ⟨nameText before name afterName ++ spaceText beforeValue,
          spaceText after ++ 0x2C :: members.text, by rw [MembersSyntax.text]; simp⟩
      · exact ⟨nameText before name afterName ++ spaceText beforeValue ++ val.text
          ++ spaceText after ++ [0x2C], [], by rw [MembersSyntax.text]; simp⟩
termination_by sizeOf members
end

-----------------------------------------------------------------------------------------
-- Whole texts
-----------------------------------------------------------------------------------------

theorem jsonSkipWs_nil {rest : List UInt8}
    : jsonSkipWs rest = [] ↔ ∃ space, rest = spaceText space := by
  constructor
  · intro nothing
    obtain ⟨space, is⟩ := jsonSkipWs_sound rest
    rw [nothing, List.append_nil] at is
    exact ⟨space, is⟩
  · rintro ⟨space, is⟩
    have skipped := jsonSkipWs_space space []
    rw [List.append_nil] at skipped
    rw [is, skipped]
    rfl

/-- A text that a tree spells is parsed to its end. -/
theorem jsonParseValue_spelled {tree : JsonSyntax} {data : List UInt8} (spells : tree.Spells data)
    : ∃ rest, jsonParseValue strtod outside (enoughTurns data) data
        = .done (storeDatum outside (tree.denoted strtod)) rest ∧ jsonSkipWs rest = [] := by
  obtain ⟨before, after, is⟩ := spells
  have ends : EndsNumber (spaceText after) := by
    have nothing : EndsNumber (spaceText after ++ []) := endsNumber_space after (by simp)
    rwa [List.append_nil] at nothing
  have enough : 2 * tree.text.length < enoughTurns data := by
    rw [enoughTurns, is]
    simp only [List.length_append]
    omega
  refine ⟨spaceText after, ?_, jsonSkipWs_nil.mpr ⟨after, rfl⟩⟩
  generalize enoughTurns data = turns at enough ⊢
  rw [is, List.append_assoc, jsonParseValue_space]
  exact jsonParseValue_text tree turns ends enough

/-- A text that is parsed to its end is spelled by a tree, and any other one is an error or has
more behind its value.
-/
theorem jsonParseValue_whole (strtod : List UInt8 → Double) (outside : Double → Int)
    {data : List UInt8} (encoded : Encoded data)
    : (∃ tree : JsonSyntax, tree.Spells data)
      ∨ jsonParseValue strtod outside (enoughTurns data) data = .error
      ∨ ∃ val rest, jsonParseValue strtod outside (enoughTurns data) data = .done val rest
        ∧ jsonSkipWs rest ≠ [] := by
  cases parsed : jsonParseValue strtod outside (enoughTurns data) data with
  | stuck =>
      exact absurd parsed ((terminates_turns _).value encoded (by rw [enoughTurns]; omega))
  | error => exact .inr (.inl rfl)
  | done val rest =>
      by_cases whole : jsonSkipWs rest = []
      · obtain ⟨before, tree, is, -⟩ := (accepts_turns _).value encoded parsed
        obtain ⟨after, left⟩ := jsonSkipWs_nil.mp whole
        refine .inl ⟨tree, before, after, ?_⟩
        rw [is, left, List.append_assoc]
      · exact .inr (.inr ⟨val, rest, rfl, whole⟩)

theorem jsonParseModuleSource_short {data : List UInt8} (short : data.length < 2 ^ 32)
    : jsonParseModuleSource strtod outside data
      = (jsonParseValue strtod outside (enoughTurns data) data).bind fun val rest =>
          if jsonSkipWs rest = [] then .done val [] else .error := by
  rw [jsonParseModuleSource, Nat.mod_eq_of_lt short, List.take_length]

/-- What is to hold of the parser on a text: a text of the grammar gives the value that it denotes,
and any other text gives the error of its caller and no value.
-/
structure JsonParseHolds (strtod : List UInt8 → Double) (outside : Double → Int)
    (data : List UInt8) : Prop where
  accepts : ∀ tree : JsonSyntax, tree.Spells data →
    ∃ val, builtinJsonParse strtod outside data = .returned val
      ∧ (data.length < 2 ^ 32 → jsonParseModuleSource strtod outside data = .done val [])
      ∧ Represents val (tree.denoted strtod)
  rejects : (∀ tree : JsonSyntax, ¬tree.Spells data) →
    builtinJsonParse strtod outside data = .syntaxError "Unexpected token in JSON"
      ∧ (data.length < 2 ^ 32 → jsonParseModuleSource strtod outside data = .error)

theorem builtinJsonParse_spelled (strtod : List UInt8 → Double) (outside : Double → Int)
    {tree : JsonSyntax} {data : List UInt8} (spells : tree.Spells data)
    : builtinJsonParse strtod outside data
        = .returned (storeDatum outside (tree.denoted strtod))
      ∧ (data.length < 2 ^ 32 → jsonParseModuleSource strtod outside data
        = .done (storeDatum outside (tree.denoted strtod)) []) := by
  obtain ⟨rest, parsed, whole⟩ : ∃ rest, jsonParseValue strtod outside (enoughTurns data) data
      = .done (storeDatum outside (tree.denoted strtod)) rest ∧ jsonSkipWs rest = [] :=
    jsonParseValue_spelled spells
  constructor
  · simp only [builtinJsonParse, parsed, whole, ne_eq, not_true_eq_false, if_false]
  · intro short
    rw [jsonParseModuleSource_short short, parsed]
    exact if_pos whole

theorem builtinJsonParse_other {data : List UInt8} (encoded : Encoded data)
    (other : ∀ tree : JsonSyntax, ¬tree.Spells data)
    : builtinJsonParse strtod outside data = .syntaxError "Unexpected token in JSON"
      ∧ (data.length < 2 ^ 32 → jsonParseModuleSource strtod outside data = .error) := by
  rcases jsonParseValue_whole strtod outside encoded with ⟨tree, spells⟩ | error | ⟨val, rest, parsed, more⟩
  · exact absurd spells (other tree)
  · refine ⟨by simp only [builtinJsonParse, error], fun short => ?_⟩
    rw [jsonParseModuleSource_short short, error]
    rfl
  · refine ⟨by simp only [builtinJsonParse, parsed, if_pos more], fun short => ?_⟩
    rw [jsonParseModuleSource_short short, parsed]
    exact if_neg more

/-- The parser is right on a text if and only if no number of the value that the text denotes is a
safe integer that a fastint does not represent. The conversion of a literal is any that gives a
number. Witness: every tree of the grammar parsed to what it denotes, by induction over trees, and
every accepted text read back as a tree, by induction over the turns of the three loops.
-/
theorem jsonParse_holds_iff (strtod : List UInt8 → Double) (outside : Double → Int)
    {data : List UInt8} (encoded : Encoded data)
    (number : ∀ literal : JsonNumber, literal.text <:+: data →
      (strtod literal.text).isNan = false)
    : JsonParseHolds strtod outside data
      ↔ ∀ tree : JsonSyntax, tree.Spells data → (tree.denoted strtod).Numbers (¬InBand ·) := by
  have numbers : ∀ tree : JsonSyntax, tree.Spells data →
      (tree.denoted strtod).Numbers (·.isNan = false) := by
    intro tree ⟨before, after, is⟩
    refine numbers_denoted tree fun literal inside => number literal ?_
    exact inside.trans ⟨spaceText before, spaceText after, is.symm⟩
  constructor
  · intro holds tree spells
    obtain ⟨val, returned, -, reads⟩ := holds.accepts tree spells
    rw [(builtinJsonParse_spelled _ _ spells).1] at returned
    cases returned
    exact (represents_store _ (numbers tree spells)).mp reads
  · intro narrow
    refine ⟨fun tree spells => ?_, builtinJsonParse_other encoded⟩
    obtain ⟨returned, module⟩ := builtinJsonParse_spelled strtod outside spells
    exact ⟨_, returned, module, (represents_store _ (numbers tree spells)).mpr (narrow tree spells)⟩

/-- The text `[12,{"a":-3,"a":12}]`. -/
theorem jsonParse_holds_array
    : let strtod : List UInt8 → Double := fun text =>
        if text = [0x31, 0x32] then Double.ofInt 12
        else if text = [0x2D, 0x33] then Double.ofInt (-3) else Double.ofInt 0
      JsonParseHolds strtod (fun _ => 0)
        [0x5B, 0x31, 0x32, 0x2C, 0x7B, 0x22, 0x61, 0x22, 0x3A, 0x2D, 0x33, 0x2C, 0x22, 0x61, 0x22,
          0x3A, 0x31, 0x32, 0x7D, 0x5D] := by
  intro strtod
  have small : ∀ text, ∃ n : Int, strtod text = Double.ofInt n ∧ n.natAbs ≤ 12 := by
    intro text
    by_cases twelve : text = [0x31, 0x32]
    · exact ⟨12, if_pos twelve, by decide⟩
    · by_cases three : text = [0x2D, 0x33]
      · exact ⟨-3, (if_neg twelve).trans (if_pos three), by decide⟩
      · exact ⟨0, (if_neg twelve).trans (if_neg three), by decide⟩
  have encoded : Encoded [0x5B, 0x31, 0x32, 0x2C, 0x7B, 0x22, 0x61, 0x22, 0x3A, 0x2D, 0x33, 0x2C,
      0x22, 0x61, 0x22, 0x3A, 0x31, 0x32, 0x7D, 0x5D] :=
    ⟨[0x5B, 0x31, 0x32, 0x2C, 0x7B, 0x22, 0x61, 0x22, 0x3A, 0x2D, 0x33, 0x2C, 0x22, 0x61, 0x22,
      0x3A, 0x31, 0x32, 0x7D, 0x5D], by decide⟩
  refine (jsonParse_holds_iff strtod (fun _ => 0) encoded fun literal _ => ?_).mpr
    fun tree _ => numbers_denoted tree fun literal _ => ?_
  · obtain ⟨n, is, low⟩ := small literal.text
    rw [is]
    exact isNan_ofInt (by omega)
  · obtain ⟨n, is, low⟩ := small literal.text
    rw [is]
    rintro ⟨m, same, lower, upper, wide⟩
    have names := ofInt_injective (by omega) (safe_small lower upper) same
    subst names
    unfold fastintMin fastintMax at wide
    omega

/-- The text `140737488355328` of the number 2^47 gives another number. -/
theorem jsonParse_wraps
    : let literal : JsonNumber :=
        ⟨false, [1, 4, 0, 7, 3, 7, 4, 8, 8, 3, 5, 5, 3, 2, 8], [], none,
          .inr ⟨1, _, rfl, by decide⟩⟩
      Encoded literal.text ∧ Nearest literal.value (Double.ofInt (2 ^ 47))
        ∧ ¬JsonParseHolds (fun _ => Double.ofInt (2 ^ 47)) (fun _ => 0) literal.text := by
  intro literal
  have digits : digitsValue [1, 4, 0, 7, 3, 7, 4, 8, 8, 3, 5, 5, 3, 2, 8] = 2 ^ 47 := rfl
  have value : literal.value = ((2 ^ 47 : Int) : ℚ) := by simp [literal, JsonNumber.value, digits]
  have spells : (JsonSyntax.number literal).Spells literal.text :=
    ⟨[], [], by simp [JsonSyntax.text, spaceText]⟩
  refine ⟨?_, value ▸ nearest_ofInt (by decide), ?_⟩
  · exact ⟨[0x31, 0x34, 0x30, 0x37, 0x33, 0x37, 0x34, 0x38, 0x38, 0x33, 0x35, 0x35, 0x33, 0x32,
      0x38], by decide⟩
  · intro holds
    obtain ⟨val, returned, -, reads⟩ := holds.accepts _ spells
    rw [(builtinJsonParse_spelled _ _ spells).1] at returned
    cases returned
    rw [JsonSyntax.denoted, storeDatum, Represents] at reads
    exact absurd reads (by decide)

end Boomkat.Correctness
