import Boomkat.Correctness.PercentSequences
import Boomkat.Correctness.ParseFloat

/-! URI coding and escapes give back every string that their buffers hold, and fail for lone
surrogates and malformed percent sequences.
-/

namespace Boomkat.Correctness
open Globals GuardedLoop Strings Utf8

-----------------------------------------------------------------------------------------
-- Encoding
-----------------------------------------------------------------------------------------

/-- The bytes that stand for a character: itself when it stays, else its percent sequence. -/
def encodedChar (stays : UInt8 → Bool) (c : Char) : List UInt8 :=
  if c.toNat < 0x80 ∧ stays (UInt8.ofNat c.toNat) then [UInt8.ofNat c.toNat]
  else (sequence c.toNat).flatMap uriEncodeByte

/-- The codepoint at a unit that is no surrogate. -/
theorem uriCodepointAt_plain {n : Nat} (bound : n < 0x10000) (notHigh : ¬IsHigh n)
    (notLow : ¬IsLow n) {lead : UInt8} {tail rest : List UInt8}
    (is : lead :: tail = sequence n ++ rest)
    : ∃ cp, uriCodepointAt (lead :: tail) lead = some (cp, rest) ∧ cp.toNat = n := by
  obtain ⟨b, others, is', behind, -⟩ := drop_sequence (show n < 0x110000 by omega) rest
  obtain ⟨rfl, rfl⟩ := List.cons.inj (is.trans is')
  have value := decodeCodepoint_sequence (show n < 0x110000 by omega) rest
  rw [← is] at value
  refine ⟨decodeCodepoint (lead :: tail), ?_, value⟩
  unfold uriCodepointAt
  rw [isHighSurrogate_iff, isLowSurrogate_iff, value, decide_eq_false notHigh,
    decide_eq_false notLow, if_neg Bool.false_ne_true, if_neg Bool.false_ne_true, behind]

theorem uriCodepointAt_pair {high low : Nat} (isHigh : IsHigh high) (isLow : IsLow low)
    {lead : UInt8} {tail rest : List UInt8}
    (is : lead :: tail = sequence high ++ (sequence low ++ rest))
    : ∃ cp, uriCodepointAt (lead :: tail) lead = some (cp, rest)
      ∧ cp.toNat = joined high low := by
  have highBound : high < 0x110000 := by
    unfold IsHigh at isHigh
    omega
  have lowBound : low < 0x110000 := by
    unfold IsLow at isLow
    omega
  have first := decodeCodepoint_sequence highBound (sequence low ++ rest)
  have second := decodeCodepoint_sequence lowBound rest
  obtain ⟨b, others, is', behind, -⟩ := drop_sequence highBound (sequence low ++ rest)
  obtain ⟨rfl, rfl⟩ := List.cons.inj (is.trans is')
  obtain ⟨lead', tail', isLast, behind', -⟩ := drop_sequence lowBound rest
  rw [← is] at first
  rw [isLast] at second behind
  refine ⟨surrogatesToCodepoint (decodeCodepoint (lead :: tail)) (decodeCodepoint (lead' :: tail')),
    ?_, ?_⟩
  · unfold uriCodepointAt
    rw [isHighSurrogate_iff, first, decide_eq_true isHigh, if_pos rfl, behind]
    dsimp only
    rw [isLowSurrogate_iff, second, decide_eq_true isLow, if_pos rfl, behind']
  · rw [surrogatesToCodepoint_joined (by rwa [first]) (by rwa [second]), first, second]

/-- A lone surrogate has no codepoint. -/
theorem uriCodepointAt_lone {u : Nat} {after : List Nat} (small : ∀ v ∈ u :: after, v < 0x10000)
    (lone : LoneAt [] u after) {lead : UInt8} {tail : List UInt8}
    (is : lead :: tail = cesu8 (u :: after))
    : uriCodepointAt (lead :: tail) lead = none := by
  have bound : u < 0x110000 := by
    have bound := small u List.mem_cons_self
    omega
  have value := decodeCodepoint_sequence bound (cesu8 after)
  obtain ⟨b, others, is', behind, -⟩ := drop_sequence bound (cesu8 after)
  rw [cesu8_cons] at is
  obtain ⟨rfl, rfl⟩ := List.cons.inj (is.trans is')
  rw [← is] at value
  unfold uriCodepointAt
  rw [isHighSurrogate_iff, isLowSurrogate_iff, value, behind]
  rcases lone with ⟨high, alone⟩ | ⟨low, -⟩
  · rw [decide_eq_true high, if_pos rfl]
    cases after with
    | nil => rfl
    | cons v after =>
        have bound' := small v (by simp)
        have inside : v < 0x110000 := by omega
        have second := decodeCodepoint_sequence inside (cesu8 after)
        obtain ⟨lead', tail', isLast, -, -⟩ := drop_sequence inside (cesu8 after)
        rw [cesu8_cons, isLast]
        rw [isLast] at second
        dsimp only
        rw [isLowSurrogate_iff, second, decide_eq_false (alone v rfl), if_neg Bool.false_ne_true]
  · rw [decide_eq_false (not_high_of_low low), decide_eq_true low, if_neg Bool.false_ne_true,
      if_pos rfl]

/-- What stays in the text of `encodeURI` and of `encodeURIComponent`. -/
def uriStays (extra : UInt8 → Bool) (c : UInt8) : Bool := uriIsUnreserved c || extra c

theorem uriEncodeTurn_sequence (extra : UInt8 → Bool) {n : Nat} (bound : n < 0x110000)
    (rest : List UInt8)
    : ∃ lead tail, lead :: tail = sequence n ++ rest
      ∧ uriEncodeTurn extra (sequence n ++ rest)
        = if n < 0x80 ∧ uriStays extra (UInt8.ofNat n) then some ([UInt8.ofNat n], rest)
          else
            (uriCodepointAt (lead :: tail) lead).map fun found =>
              ((encodeCodepoint found.1).flatMap uriEncodeByte, found.2) := by
  rcases sequence_head bound with ⟨small, c, value, is⟩ | ⟨large, c, tail, value, is⟩
  · refine ⟨c, rest, by rw [is]; rfl, ?_⟩
    have same : UInt8.ofNat n = c := by rw [← value, UInt8.ofNat_toNat]
    rw [is, same, List.singleton_append, uriEncodeTurn]
    simp only [uriStays, ascii_iff, value]
    congr
  · refine ⟨c, tail ++ rest, by rw [is]; rfl, ?_⟩
    rw [is, List.cons_append, uriEncodeTurn, if_neg, if_neg (by omega)]
    rw [ascii_iff]
    omega

/-- One turn encodes one character. -/
theorem uriEncode_reads (extra : UInt8 → Bool) (chars : List Char)
    : (uriEncodeBody extra).ReadsItems (fun c => cesu8 (units c.toNat))
      (encodedChar (uriStays extra)) chars := by
  intro c _ rest
  obtain ⟨bound, scalar⟩ := char_scalar c
  change uriEncodeTurn extra (cesu8 (units c.toNat) ++ rest) = _
  rcases Nat.lt_or_ge c.toNat 0x10000 with small | astral
  · obtain ⟨lead, tail, is, turn⟩ := uriEncodeTurn_sequence extra bound rest
    obtain ⟨notHigh, notLow⟩ := not_surrogate_iff.mp scalar
    obtain ⟨cp, found, value⟩ := uriCodepointAt_plain small notHigh notLow is
    rw [units_small small, cesu8_cons, cesu8, List.flatMap_nil, List.append_nil, turn, found,
      Option.map_some, encodeCodepoint_sequence (show cp.toNat < 0x110000 by omega), value,
      encodedChar]
    split <;> rfl
  · have high := highOf_isHigh bound
    have low := lowOf_isLow c.toNat
    have highBound : highOf c.toNat < 0x110000 ∧ ¬highOf c.toNat < 0x80 := by
      unfold IsHigh at high
      omega
    rw [units_astral astral, cesu8_cons, cesu8_cons, cesu8, List.flatMap_nil, List.append_nil,
      List.append_assoc]
    obtain ⟨lead, tail, is, turn⟩ :=
      uriEncodeTurn_sequence extra highBound.1 (sequence (lowOf c.toNat) ++ rest)
    obtain ⟨cp, found, value⟩ := uriCodepointAt_pair high low is
    rw [joined_halves astral] at value
    rw [turn, found, if_neg (fun small => highBound.2 small.1), Option.map_some,
      encodeCodepoint_sequence (show cp.toNat < 0x110000 by omega), value, encodedChar,
      if_neg (by omega)]

/-- A turn at a lone surrogate throws. -/
theorem uriEncode_lone (extra : UInt8 → Bool) {us : List Nat} (small : ∀ u ∈ us, u < 0x10000)
    (starts : StartsLone us)
    : (uriEncodeBody extra).step (cesu8 us) = none := by
  obtain ⟨u, after, rfl, lone⟩ := starts
  have bound := small u List.mem_cons_self
  have large : ¬u < 0x80 := by
    rcases lone with ⟨high, -⟩ | ⟨low, -⟩
    · unfold IsHigh at high
      omega
    · unfold IsLow at low
      omega
  obtain ⟨lead, tail, is, turn⟩ :=
    uriEncodeTurn_sequence extra (show u < 0x110000 by omega) (cesu8 after)
  have none := uriCodepointAt_lone small lone (is.trans (cesu8_cons u after).symm)
  change uriEncodeTurn extra (cesu8 (u :: after)) = _
  rw [cesu8_cons, turn, none, if_neg (fun stays => large stays.1), Option.map_none]

-----------------------------------------------------------------------------------------
-- What a decoder reads
-----------------------------------------------------------------------------------------

/-- The units that a decoder reads at once, and those that it writes for them. -/
inductive UriPiece (preserveReserved : Bool) : List Nat → List Nat → Prop
  | plain {u : Nat} (other : u ≠ 0x25) : UriPiece preserveReserved [u] [u]
  | reserved {text : List UInt8} {b : UInt8} (spelled : Triplets text [b])
      (kept : preserveReserved = true ∧ b.toNat ∈ reservedBytes)
      : UriPiece preserveReserved (text.map (·.toNat)) (text.map (·.toNat))
  | decoded {text : List UInt8} {c : Char} (spelled : Triplets text (sequence c.toNat))
      (lost : ¬(preserveReserved = true ∧ c.toNat ∈ reservedBytes))
      : UriPiece preserveReserved (text.map (·.toNat)) (units c.toNat)

/-- A string whose percent sequences are UTF-8 of characters, with what it decodes to. -/
inductive UriDecodes (preserveReserved : Bool) : List Nat → List Nat → Prop
  | nil : UriDecodes preserveReserved [] []
  | cons {text units rest out : List Nat} (piece : UriPiece preserveReserved text units)
      (others : UriDecodes preserveReserved rest out)
      : UriDecodes preserveReserved (text ++ rest) (units ++ out)

variable {preserveReserved : Bool}

/-- Text of ASCII is its own encoding. -/
theorem cesu8_ascii {text : List UInt8} (ascii : ∀ c ∈ text, c.toNat < 0x80)
    : cesu8 (text.map (·.toNat)) = text := by
  induction text with
  | nil => rfl
  | cons c text ih =>
      have small := ascii c List.mem_cons_self
      rw [List.map_cons, cesu8_cons, ih fun c' member => ascii c' (List.mem_cons_of_mem c member),
        Utf8.sequence, if_pos small, UInt8.ofNat_toNat, List.singleton_append]

/-- Text of ASCII in an encoding is one of the units. -/
theorem split_ascii {us : List Nat} (small : ∀ u ∈ us, u < 0x10000) {text rest : List UInt8}
    (ascii : ∀ c ∈ text, c.toNat < 0x80) (split : cesu8 us = text ++ rest)
    : ∃ us', us = text.map (·.toNat) ++ us' ∧ rest = cesu8 us' := by
  induction text generalizing us with
  | nil => exact ⟨us, rfl, split.symm⟩
  | cons c text ih =>
      cases us with
      | nil => cases split
      | cons u us =>
          have bound := small u List.mem_cons_self
          have low := ascii c List.mem_cons_self
          rw [cesu8_cons, List.cons_append] at split
          rcases sequence_head (show u < 0x110000 by omega) with ⟨-, c', value, is⟩
            | ⟨-, c', tail, high, is⟩
          · rw [is, List.singleton_append] at split
            obtain ⟨rfl, behind⟩ := List.cons.inj split
            obtain ⟨us', rfl, left⟩ := ih (fun v member => small v (List.mem_cons_of_mem u member))
              (fun c'' member => ascii c'' (List.mem_cons_of_mem c' member)) behind
            exact ⟨us', by rw [← value]; rfl, left⟩
          · rw [is, List.cons_append] at split
            obtain ⟨rfl, -⟩ := List.cons.inj split
            omega

/-- The emitted bytes of a codepoint are those of its units. -/
theorem uriDecodeEmit_units {n : Nat} (bound : n < 0x110000)
    : uriDecodeEmit n = cesu8 (units n) := by
  have number : (UInt32.ofNat n).toNat = n :=
    UInt32.toNat_ofNat_of_lt' (by change _ < 2 ^ 32; omega)
  unfold uriDecodeEmit encodeCesu8
  simp only [UInt32.lt_iff_toNat_lt, number]
  change (if n < 0x10000 then _ else if 0x10FFFF < n then _ else _) = _
  rcases Nat.lt_or_ge n 0x10000 with small | astral
  · rw [if_pos small, encodeCodepoint_sequence (by omega), number, units_small small, cesu8_cons]
    exact (List.append_nil _).symm
  · rw [if_neg (by omega), if_neg (by omega),
      encodeCodepointCesu8_halves (by omega) (by omega), number, units_astral astral, cesu8_cons,
      cesu8_cons]
    exact congrArg _ (List.append_nil _).symm

theorem keepsTriplet_triplets {text bytes : List UInt8} {b : UInt8}
    (spelled : Triplets text (b :: bytes)) (rest : List UInt8)
    : keepsTriplet preserveReserved (text ++ rest) = true
      ↔ preserveReserved = true ∧ b.toNat ∈ reservedBytes := by
  obtain ⟨text', -, found⟩ := spelled.tripletAt rest
  rw [keepsTriplet, found, Option.any_some, Bool.and_eq_true, List.contains_iff_mem]

/-- Reserved characters are ASCII, so that they are single bytes. -/
theorem reserved_iff {c : Char} {b : UInt8} {bytes : List UInt8}
    (is : sequence c.toNat = b :: bytes)
    : b.toNat ∈ reservedBytes ↔ c.toNat ∈ reservedBytes := by
  rcases sequence_head (char_scalar c).1 with ⟨-, c', value, is'⟩ | ⟨large, c', tail, high, is'⟩
  · rw [is] at is'
    obtain ⟨rfl, -⟩ := List.cons.inj is'
    rw [value]
  · rw [is] at is'
    obtain ⟨rfl, -⟩ := List.cons.inj is'
    have below : ∀ n ∈ reservedBytes, n < 0x80 := by decide
    exact iff_of_false (fun member => Nat.not_lt.mpr high (below _ member))
      fun member => Nat.not_lt.mpr large (below _ member)

/-- A turn at the percent sequence of a character. -/
theorem uriDecodeTurn_decoded {c : Char} {text : List UInt8}
    (spelled : Triplets text (sequence c.toNat))
    (lost : ¬(preserveReserved = true ∧ c.toNat ∈ reservedBytes)) (rest : List UInt8)
    : uriDecodeTurn preserveReserved (text ++ rest) = some (cesu8 (units c.toNat), rest) := by
  obtain ⟨bound, -⟩ := char_scalar c
  have sequence := uriDecodeSequence_sequence spelled rest
  obtain ⟨b, tail, is, -⟩ := utf8SeqLen_sequence bound
  rw [is] at spelled
  have keeps : keepsTriplet preserveReserved _ = true ↔ _ := keepsTriplet_triplets spelled rest
  rw [reserved_iff is] at keeps
  cases spelled with
  | cons first second value others =>
      rw [List.cons_append] at keeps sequence ⊢
      rw [uriDecodeTurn, if_neg (fun other => other rfl), if_neg (mt keeps.mp lost), sequence,
        Option.map_some, uriDecodeEmit_units bound]

theorem uriDecodeTurn_reserved {b : UInt8} {text : List UInt8} (spelled : Triplets text [b])
    (kept : preserveReserved = true ∧ b.toNat ∈ reservedBytes) (rest : List UInt8)
    : uriDecodeTurn preserveReserved (text ++ rest) = some (text, rest) := by
  have keeps := (keepsTriplet_triplets spelled rest).mpr kept
  cases spelled with
  | cons first second value others =>
      cases others
      rw [List.cons_append] at keeps ⊢
      rw [uriDecodeTurn, if_neg (fun other => other rfl), if_pos keeps]
      rfl

/-- Bytes other than a percent sign are copied one by one. -/
theorem uriDecode_copies {bytes : List UInt8} (others : ∀ b ∈ bytes, b ≠ 0x25)
    : (uriDecodeBody preserveReserved).ReadsItems (fun b => [b]) (fun b => [b]) bytes :=
  fun b member _ => if_pos (others b member)

theorem sequence_other {u : Nat} (bound : u < 0x110000) (other : u ≠ 0x25)
    : ∀ b ∈ sequence u, b ≠ 0x25 := by
  intro b member percent
  subst percent
  rcases sequence_head bound with ⟨-, c, value, is⟩ | ⟨large, -⟩
  · rw [is, List.mem_singleton] at member
    subst member
    exact other value.symm
  · exact absurd (sequence_high bound large _ member) (by decide)

theorem UriPiece.reaches {text units : List Nat} (piece : UriPiece preserveReserved text units)
    (small : ∀ u ∈ text, u < 0x10000) (rest : List UInt8)
    : (uriDecodeBody preserveReserved).Reaches (cesu8 text ++ rest) (cesu8 units) rest := by
  cases piece with
  | @plain u other =>
      have bound := small u List.mem_cons_self
      have others := sequence_other (show u < 0x110000 by omega) other
      have copied : (uriDecodeBody preserveReserved).ReadsItems _ _ _ := uriDecode_copies others
      have copies := copied.reaches rest
      rw [List.flatMap_singleton'] at copies
      rwa [cesu8_cons, cesu8, List.flatMap_nil, List.append_nil]
  | reserved spelled kept =>
      rw [cesu8_ascii spelled.ascii]
      exact (uriDecodeBody preserveReserved).reaches_one (uriDecodeTurn_reserved spelled kept rest)
  | decoded spelled lost =>
      rw [cesu8_ascii spelled.ascii]
      exact (uriDecodeBody preserveReserved).reaches_one (uriDecodeTurn_decoded spelled lost rest)

-----------------------------------------------------------------------------------------
-- Where a decoder comes to
-----------------------------------------------------------------------------------------

theorem UriPiece.text_ne_nil {text units : List Nat}
    (piece : UriPiece preserveReserved text units)
    : text ≠ [] := by
  cases piece with
  | plain => exact List.cons_ne_nil _ _
  | reserved spelled =>
      cases spelled
      exact List.cons_ne_nil _ _
  | @decoded text c spelled lost =>
      obtain ⟨b, tail, is, -⟩ := utf8SeqLen_sequence (char_scalar c).1
      rw [is] at spelled
      cases spelled
      exact List.cons_ne_nil _ _

theorem UriDecodes.reaches {us out : List Nat} (decodes : UriDecodes preserveReserved us out)
    (small : ∀ u ∈ us, u < 0x10000) (rest : List UInt8)
    : (uriDecodeBody preserveReserved).Reaches (cesu8 us ++ rest) (cesu8 out) rest := by
  induction decodes with
  | nil => exact .start rest
  | cons piece _ ih =>
      rw [cesu8_append, cesu8_append, List.append_assoc]
      have first := piece.reaches (fun u member => small u (List.mem_append_left _ member))
      exact (first _).trans (ih fun u member => small u (List.mem_append_right _ member))

theorem uriDecodeBody_step (src : List UInt8)
    : (uriDecodeBody preserveReserved).step src = uriDecodeTurn preserveReserved src :=
  rfl

/-- A turn at a percent sign fails or reads a piece. -/
theorem uriDecodeTurn_percent (preserveReserved : Bool) {us : List Nat}
    (small : ∀ u ∈ 0x25 :: us, u < 0x10000)
    : (uriDecodeBody preserveReserved).step (cesu8 (0x25 :: us)) = none
      ∨ ∃ text units rest, 0x25 :: us = text ++ rest ∧ UriPiece preserveReserved text units
        ∧ (uriDecodeBody preserveReserved).step (cesu8 (0x25 :: us))
          = some (cesu8 units, cesu8 rest) := by
  rw [uriDecodeBody_step]
  have start : cesu8 (0x25 :: us) = 0x25 :: cesu8 us := rfl
  by_cases keeps : keepsTriplet preserveReserved (cesu8 (0x25 :: us)) = true
  · cases triplet : tripletAt (cesu8 (0x25 :: us)) with
    | none =>
        rw [keepsTriplet, triplet, Option.any_none, Bool.and_false] at keeps
        cases keeps
    | some found =>
        obtain ⟨n, behind⟩ := found
        obtain ⟨b, text, -, split, spelled⟩ := exists_triplet triplet
        obtain ⟨rest, units, rfl⟩ := split_ascii small spelled.ascii split
        rw [split] at keeps
        have kept := (keepsTriplet_triplets spelled _).mp keeps
        refine .inr ⟨_, _, rest, units, .reserved spelled kept, ?_⟩
        rw [split, uriDecodeTurn_reserved spelled kept, cesu8_ascii spelled.ascii]
  · cases sequence : uriDecodeSequence (cesu8 (0x25 :: us)) with
    | none =>
        left
        rw [start] at keeps sequence ⊢
        rw [uriDecodeTurn, if_neg (fun other => other rfl), if_neg keeps, sequence,
          Option.map_none]
    | some found =>
        obtain ⟨n, behind⟩ := found
        obtain ⟨c, text, -, split, spelled⟩ := uriDecodeSequence_char sequence
        obtain ⟨rest, units, rfl⟩ := split_ascii small spelled.ascii split
        have lost : ¬(preserveReserved = true ∧ c.toNat ∈ reservedBytes) := by
          obtain ⟨b, tail, is, -⟩ := utf8SeqLen_sequence (char_scalar c).1
          rw [← reserved_iff is]
          rw [is] at spelled
          rw [split] at keeps
          exact mt (keepsTriplet_triplets spelled _).mpr keeps
        exact .inr ⟨_, _, rest, units, .decoded spelled lost,
          by rw [split]; exact uriDecodeTurn_decoded spelled lost _⟩

/-- A string decodes, or starts with one that decodes up to a turn that fails. -/
theorem uriDecode_outcome (preserveReserved : Bool) {us : List Nat}
    (small : ∀ u ∈ us, u < 0x10000)
    : (∃ out, UriDecodes preserveReserved us out)
      ∨ ∃ before after out, us = before ++ after ∧ after ≠ []
        ∧ UriDecodes preserveReserved before out
        ∧ (uriDecodeBody preserveReserved).step (cesu8 after) = none := by
  induction length : us.length using Nat.strongRecOn generalizing us with
  | ind n ih =>
      subst length
      -- The rest behind a piece.
      have behind {text units rest : List Nat} (split : us = text ++ rest)
          (piece : UriPiece preserveReserved text units)
          : (∃ out, UriDecodes preserveReserved us out)
            ∨ ∃ before after out, us = before ++ after ∧ after ≠ []
              ∧ UriDecodes preserveReserved before out
              ∧ (uriDecodeBody preserveReserved).step (cesu8 after) = none := by
        have positive := List.length_pos_iff.mpr piece.text_ne_nil
        subst split
        rcases ih rest.length (by rw [List.length_append]; omega)
          (fun u member => small u (List.mem_append_right _ member)) rfl
          with ⟨out, decodes⟩ | ⟨before, after, out, rfl, some, decodes, fails⟩
        · exact .inl ⟨_, .cons piece decodes⟩
        · exact .inr ⟨text ++ before, after, _, (List.append_assoc _ _ _).symm, some,
            .cons piece decodes, fails⟩
      match us with
      | [] => exact .inl ⟨[], .nil⟩
      | u :: rest =>
          by_cases percent : u = 0x25
          · subst percent
            rcases uriDecodeTurn_percent preserveReserved small
              with fails | ⟨text, units, rest, split, piece, -⟩
            · exact .inr ⟨[], _, [], rfl, List.cons_ne_nil _ _, .nil, fails⟩
            · exact behind split piece
          · have split : u :: rest = [u] ++ rest := rfl
            exact behind split (.plain percent)

/-- The bytes that are copied from a unit, or the percent sign where a turn starts. -/
def copiedLength (u : Nat) : Nat := if u = 0x25 then 1 else (sequence u).length

/-- What a decoder has emitted when something is left: the text of what is before, and bytes of a
unit that it copies.
-/
theorem uriDecode_positions {us : List Nat} (small : ∀ u ∈ us, u < 0x10000) {out rest : List UInt8}
    (reached : (uriDecodeBody preserveReserved).Reaches (cesu8 us) out rest) (some : rest ≠ [])
    : ∃ before u after units, us = before ++ u :: after
      ∧ UriDecodes preserveReserved before units
      ∧ out.length + 1 ≤ (cesu8 units).length + copiedLength u := by
  induction length : us.length using Nat.strongRecOn generalizing us out with
  | ind n ih =>
      subst length
      have behind {text units us' : List Nat} {more : List UInt8} (split : us = text ++ us')
          (piece : UriPiece preserveReserved text units) (emits : out = cesu8 units ++ more)
          (others : (uriDecodeBody preserveReserved).Reaches (cesu8 us') more rest)
          : ∃ before u after units, us = before ++ u :: after
            ∧ UriDecodes preserveReserved before units
            ∧ out.length + 1 ≤ (cesu8 units).length + copiedLength u := by
        have positive := List.length_pos_iff.mpr piece.text_ne_nil
        subst split emits
        obtain ⟨before, u, after, units', rfl, decodes, room⟩ :=
          ih us'.length (by rw [List.length_append]; omega)
            (fun u member => small u (List.mem_append_right _ member)) others rfl
        refine ⟨text ++ before, u, after, units ++ units', (List.append_assoc _ _ _).symm,
          .cons piece decodes, ?_⟩
        rw [cesu8_append, List.length_append, List.length_append]
        omega
      match us with
      | [] =>
          cases reached with
          | start => exact absurd rfl some
          | next turn =>
              rw [cesu8, List.flatMap_nil, Body.step_nil] at turn
              cases turn
      | u :: us =>
          have bound := small u List.mem_cons_self
          by_cases percent : u = 0x25
          · subst percent
            cases reached with
            | start => exact ⟨[], 0x25, us, [], rfl, .nil, by decide⟩
            | next turn others =>
                have outcome := uriDecodeTurn_percent preserveReserved small
                rcases outcome with fails | ⟨text, units, rest, split, piece, step⟩
                · rw [fails] at turn
                  cases turn
                · rw [step] at turn
                  obtain ⟨rfl, rfl⟩ := Prod.mk.inj (Option.some.inj turn)
                  exact behind split piece rfl others
          · have copies : (uriDecodeBody preserveReserved).ReadsItems _ _ _ :=
              uriDecode_copies (sequence_other (show u < 0x110000 by omega) percent)
            rw [cesu8_cons, ← List.flatMap_singleton' (sequence u)] at reached
            rcases copies.reaches_cases reached with ⟨front, left, split, more, rfl, -⟩
              | ⟨more, rfl, others⟩
            · refine ⟨[], u, us, [], rfl, .nil, ?_⟩
              have positive := List.length_pos_iff.mpr more
              rw [copiedLength, if_neg percent, split, List.flatMap_singleton', List.length_append]
              omega
            · have split : u :: us = [u] ++ us := rfl
              refine behind split (.plain percent) ?_ others
              rw [List.flatMap_singleton']
              exact congrArg (· ++ more) (List.append_nil _).symm

-----------------------------------------------------------------------------------------
-- Reading what was written
-----------------------------------------------------------------------------------------

theorem cesu8_units_ne_nil (n : Nat) : cesu8 (units n) ≠ [] := by
  unfold units
  split <;> exact List.append_ne_nil_of_left_ne_nil (sequence_ne_nil _) _

theorem uriDecode_emits {src emitted rest : List UInt8}
    (turn : (uriDecodeBody preserveReserved).step src = some (emitted, rest))
    : emitted ≠ [] := by
  rw [uriDecodeBody_step] at turn
  cases src with
  | nil => cases turn
  | cons c tail =>
      rw [uriDecodeTurn] at turn
      split at turn
      · cases turn
        exact List.cons_ne_nil _ _
      split at turn
      · cases turn
        exact List.cons_ne_nil _ _
      · obtain ⟨⟨n, behind⟩, found, same⟩ := Option.map_eq_some_iff.mp turn
        cases same
        obtain ⟨c', -, rfl, -⟩ := uriDecodeSequence_char found
        rw [uriDecodeEmit_units (char_scalar c').1]
        exact cesu8_units_ne_nil _

theorem hexDigitVal_upperHex : ∀ v < 16, hexDigitVal (upperHex v) = some v := by
  decide

theorem triplets_encoded (bytes : List UInt8) : Triplets (bytes.flatMap uriEncodeByte) bytes := by
  induction bytes with
  | nil => exact .nil
  | cons b bytes ih =>
      have bound := b.toNat_lt
      have high : b.toNat >>> 4 = b.toNat / 16 := Nat.shiftRight_eq_div_pow _ 4
      have low : b.toNat &&& 0x0F = b.toNat % 16 := Nat.and_two_pow_sub_one_eq_mod _ 4
      rw [List.flatMap_cons, uriEncodeByte, high, low]
      exact .cons (hexDigitVal_upperHex _ (by omega)) (hexDigitVal_upperHex _ (by omega))
        (by omega) ih

/-- What `encodeURIComponent` or `encodeURI` leaves besides the unreserved characters. -/
def uriExtra (component : Bool) : UInt8 → Bool :=
  if component then uriExtraNone else uriExtraReserved

theorem percent_encoded (component : Bool) : uriStays (uriExtra component) 0x25 = false := by
  cases component <;> decide

theorem reserved_stay
    : ∀ n ∈ reservedBytes, n < 0x80 ∧ uriStays (uriExtra false) (UInt8.ofNat n) = true := by
  decide

/-- A decoder reads the text of a character as the character. -/
theorem uriDecode_reads (component : Bool) (chars : List Char)
    : (uriDecodeBody (!component)).ReadsItems (encodedChar (uriStays (uriExtra component)))
      (fun c => cesu8 (units c.toNat)) chars := by
  intro c _ rest
  obtain ⟨bound, -⟩ := char_scalar c
  rw [uriDecodeBody_step, encodedChar]
  split
  · rename_i stays
    have other : UInt8.ofNat c.toNat ≠ 0x25 := by
      intro percent
      rw [percent, percent_encoded] at stays
      exact Bool.false_ne_true stays.2
    have alone : cesu8 (units c.toNat) = [UInt8.ofNat c.toNat] := by
      rw [units_small (by omega), cesu8_cons, Utf8.sequence, if_pos stays.1]
      rfl
    rw [List.singleton_append, uriDecodeTurn, if_pos other]
    exact congrArg (fun text => some (text, rest)) alone.symm
  · rename_i lost
    apply uriDecodeTurn_decoded (triplets_encoded _)
    rintro ⟨kept, reserved⟩
    rw [Bool.not_eq_true'] at kept
    subst kept
    exact lost (reserved_stay _ reserved)

theorem length_sequence_le {n : Nat} (bound : n < 0x10000)
    : (sequence n).length ≤ (if n < 0x80 then 1 else if n < 0x800 then 2 else 3) := by
  unfold Utf8.sequence
  split_ifs <;> exact Nat.le_refl _

theorem length_encoded (component : Bool) (c : Char)
    : (cesu8 (units c.toNat)).length
      ≤ (encodedChar (uriStays (uriExtra component)) c).length := by
  obtain ⟨bound, -⟩ := char_scalar c
  have triple (bytes : List UInt8) : (bytes.flatMap uriEncodeByte).length = 3 * bytes.length := by
    induction bytes with
    | nil => rfl
    | cons b bytes ih =>
        rw [List.flatMap_cons, List.length_append, ih, List.length_cons]
        change 3 + _ = _
        omega
  unfold encodedChar
  split
  · rename_i stays
    rw [units_small (by omega), cesu8_cons, Utf8.sequence, if_pos stays.1]
    exact Nat.le_refl _
  · rw [triple]
    rcases Nat.lt_or_ge c.toNat 0x10000 with small | astral
    · rw [units_small small, cesu8_cons, cesu8, List.flatMap_nil, List.append_nil]
      omega
    · have high := highOf_isHigh bound
      have low := lowOf_isLow c.toNat
      unfold IsHigh at high
      unfold IsLow at low
      have first := length_sequence_le (n := highOf c.toNat) (by omega)
      have second := length_sequence_le (n := lowOf c.toNat) (by omega)
      have whole : (sequence c.toNat).length = 4 := by
        rw [Utf8.sequence, if_neg (by omega), if_neg (by omega), if_neg (by omega)]
        rfl
      rw [units_astral astral, cesu8_cons, cesu8_cons, cesu8, List.flatMap_nil, List.append_nil,
        List.length_append]
      split_ifs at first second <;> omega

-----------------------------------------------------------------------------------------
-- Escapes
-----------------------------------------------------------------------------------------

theorem escape_reads {us : List Nat} (small : ∀ u ∈ us, u < 0x10000)
    : escapeBody.ReadsItems sequence escapeEmit us := by
  intro u member rest
  have bound := small u member
  have value := decodeCodepoint_sequence (show u < 0x110000 by omega) rest
  obtain ⟨lead, tail, is, behind, -⟩ := drop_sequence (show u < 0x110000 by omega) rest
  rw [is] at value ⊢
  change some (escapeEmit (decodeCodepoint (lead :: tail)).toNat, _) = _
  rw [value, behind]

theorem unescaped_ascii {u : Nat} (stays : escapeIsUnescaped u = true) : u < 0x80 ∧ u ≠ 0x25 := by
  simp only [escapeIsUnescaped, isAlphanumeric, Bool.or_eq_true, Bool.and_eq_true,
    decide_eq_true_eq, beq_iff_eq] at stays
  omega

theorem escapeEmitHex_two (u : Nat)
    : escapeEmitHex u 2 = [upperHex (u / 16 % 16), upperHex (u % 16)] := by
  have digit (k : Nat) : u >>> k &&& 0x0F = u / 2 ^ k % 16 := by
    rw [Nat.shiftRight_eq_div_pow]
    exact Nat.and_two_pow_sub_one_eq_mod _ 4
  simp only [escapeEmitHex, digit]
  norm_num

theorem escapeEmitHex_four (u : Nat)
    : escapeEmitHex u 4
      = [upperHex (u / 4096 % 16), upperHex (u / 256 % 16), upperHex (u / 16 % 16),
        upperHex (u % 16)] := by
  have digit (k : Nat) : u >>> k &&& 0x0F = u / 2 ^ k % 16 := by
    rw [Nat.shiftRight_eq_div_pow]
    exact Nat.and_two_pow_sub_one_eq_mod _ 4
  simp only [escapeEmitHex, digit]
  norm_num

/-- The escapes of a unit are read as the unit. -/
theorem unescape_reads {us : List Nat} (small : ∀ u ∈ us, u < 0x10000)
    : unescapeBody.ReadsItems escapeEmit sequence us := by
  intro u member rest
  have bound := small u member
  change unescapeTurn _ = _
  have emit : uriDecodeEmit u = sequence u := by
    rw [uriDecodeEmit_units (by omega), units_small bound, cesu8_cons]
    exact List.append_nil _
  have upper (v : Nat) (below : v < 16) : upperHex v ≠ 0x75 := by
    have all : ∀ v < 16, upperHex v ≠ 0x75 := by decide
    exact all v below
  unfold escapeEmit
  split
  · rename_i stays
    obtain ⟨ascii, other⟩ := unescaped_ascii stays
    have is : sequence u = [UInt8.ofNat u] := if_pos ascii
    obtain ⟨lead, tail, start, behind, front⟩ := drop_sequence (show u < 0x110000 by omega) rest
    rw [is] at start front ⊢
    rw [List.singleton_append] at start ⊢
    obtain ⟨rfl, rfl⟩ := List.cons.inj start
    rw [unescapeTurn, if_pos, behind, front]
    intro percent
    have number := congrArg UInt8.toNat percent
    rw [toNat_ofNat (by omega)] at number
    exact other number
  split
  · rw [escapeEmitHex_two]
    have first := hexDigitVal_upperHex (u / 16 % 16) (by omega)
    have second := hexDigitVal_upperHex (u % 16) (by omega)
    have plain : unicodeEscapeAt
        (0x25 :: upperHex (u / 16 % 16) :: upperHex (u % 16) :: rest) = none := by
      unfold unicodeEscapeAt
      split
      · rename_i same
        obtain ⟨-, same⟩ := List.cons.inj same
        obtain ⟨digit, -⟩ := List.cons.inj same
        rw [if_neg]
        rintro ⟨-, isU⟩
        exact upper _ (by omega) (digit.trans isU)
      · rfl
    simp only [List.cons_append, List.nil_append]
    rw [unescapeTurn, if_neg (fun other => other rfl), plain]
    dsimp only
    rw [tripletAt_cons first second]
    dsimp only
    rw [show u / 16 % 16 * 16 + u % 16 = u by omega, emit]
  · rw [escapeEmitHex_four]
    have bits : (u / 4096 % 16) <<< 12 ||| (u / 256 % 16) <<< 8 ||| (u / 16 % 16) <<< 4
        ||| u % 16 = u := by
      have two : (u / 4096 % 16) <<< 12 ||| (u / 256 % 16) <<< 8
          = (u / 4096 % 16 * 16 + u / 256 % 16) <<< 8 := by
        rw [shift_or (by rw [Nat.shiftLeft_eq]; omega), Nat.shiftLeft_eq, Nat.shiftLeft_eq]
        omega
      have three : (u / 4096 % 16 * 16 + u / 256 % 16) <<< 8 ||| (u / 16 % 16) <<< 4
          = ((u / 4096 % 16 * 16 + u / 256 % 16) * 16 + u / 16 % 16) <<< 4 := by
        rw [shift_or (by rw [Nat.shiftLeft_eq]; omega), Nat.shiftLeft_eq, Nat.shiftLeft_eq]
        omega
      rw [two, three, shift_or (by omega)]
      omega
    simp only [List.cons_append, List.nil_append]
    rw [unescapeTurn, if_neg (fun other => other rfl), unicodeEscapeAt, if_pos ⟨rfl, rfl⟩,
      hexDigitVal_upperHex _ (by omega), hexDigitVal_upperHex _ (by omega),
      hexDigitVal_upperHex _ (by omega), hexDigitVal_upperHex _ (by omega)]
    dsimp only
    rw [bits, emit]

theorem length_escaped {u : Nat} (bound : u < 0x10000)
    : (sequence u).length ≤ (escapeEmit u).length := by
  have short := length_sequence_le bound
  unfold escapeEmit
  split
  · rename_i stays
    rw [if_pos (unescaped_ascii stays).1] at short
    exact short
  split
  · rw [escapeEmitHex_two]
    change _ ≤ 3
    split_ifs at short <;> omega
  · rw [escapeEmitHex_four]
    change _ ≤ 6
    split_ifs at short <;> omega

-----------------------------------------------------------------------------------------
-- The functions
-----------------------------------------------------------------------------------------

/-- `encodeURIComponent` or `encodeURI` of a string, and the functions back. -/
def encodeUriText (component : Bool) (data : List UInt8) : Option (List UInt8) :=
  if component then builtinEncodeUriComponent (.text data) else builtinEncodeUri (.text data)

def decodeUriText (component : Bool) (data : List UInt8) : Option (List UInt8) :=
  if component then builtinDecodeUriComponent (.text data) else builtinDecodeUri (.text data)

theorem encodeUriText_eq (component : Bool) (data : List UInt8)
    : encodeUriText component data = (uriEncodeBody (uriExtra component)).run outLimit [] data := by
  cases component <;> rfl

theorem decodeUriText_eq (component : Bool) (data : List UInt8)
    : decodeUriText component data = (uriDecodeBody (!component)).run outLimit [] data := by
  cases component <;> rfl

/-- What is asked of the functions for a string of code units. -/
inductive UriCall
  | encode (component : Bool) (us : List Nat)
  | decode (component : Bool) (us : List Nat)
  | roundTrip (component : Bool) (us : List Nat)
  | escape (us : List Nat)

def UriCall.string : UriCall → List Nat
  | .encode _ us | .decode _ us | .roundTrip _ us | .escape us => us

/-- Encoding throws exactly for a lone surrogate, decoding throws exactly when some percent
sequence is not the UTF-8 of a character and else gives the whole decoded string, and the round
trips give back the string.
-/
def UriCall.Holds : UriCall → Prop
  | .encode component us => encodeUriText component (cesu8 us) = none ↔ LoneSurrogate us
  | .decode component us =>
      (decodeUriText component (cesu8 us) = none ↔ ¬∃ out, UriDecodes (!component) us out)
      ∧ ∀ out, UriDecodes (!component) us out →
          decodeUriText component (cesu8 us) = some (cesu8 out)
  | .roundTrip component us =>
      ¬LoneSurrogate us →
        (encodeUriText component (cesu8 us)).bind (decodeUriText component) = some (cesu8 us)
  | .escape us =>
      (builtinEscape (.text (cesu8 us))).bind (fun text => builtinUnescape (.text text))
        = some (cesu8 us)

/-- The text before the last turn of the first loop stays below the limit of the buffer: the text
of what is before the first lone surrogate, of what is before any unit that is decoded, or of all
but the last character.
-/
def UriCall.InBuffer : UriCall → Prop
  | .encode component us =>
      ∀ chars tail, us = charUnits chars ++ tail → StartsLone tail →
        (chars.flatMap (encodedChar (uriStays (uriExtra component)))).length < outLimit
  | .decode component us =>
      ∀ before u after out, us = before ++ u :: after → UriDecodes (!component) before out →
        (cesu8 out).length + copiedLength u ≤ outLimit
  | .roundTrip component us =>
      ∀ chars, us = charUnits chars →
        GuardedLoop.Fits outLimit (encodedChar (uriStays (uriExtra component))) chars
  | .escape us => GuardedLoop.Fits outLimit escapeEmit us

variable {us : List Nat}

theorem StartsLone.cesu8_ne_nil {tail : List Nat} (starts : StartsLone tail) : cesu8 tail ≠ [] := by
  obtain ⟨u, after, rfl, -⟩ := starts
  obtain ⟨b, rest, is⟩ := List.exists_cons_of_ne_nil (sequence_ne_nil u)
  rw [cesu8_cons, is]
  exact List.cons_ne_nil _ _

theorem encode_holds_iff (component : Bool) (small : ∀ u ∈ us, u < 0x10000)
    : (UriCall.encode component us).Holds ↔ (UriCall.encode component us).InBuffer := by
  -- The outcome for a string with its characters before the first lone surrogate.
  have outcome {chars : List Char} {tail : List Nat} (split : us = charUnits chars ++ tail)
      (starts : StartsLone tail)
      : encodeUriText component (cesu8 us) = none
        ↔ (chars.flatMap (encodedChar (uriStays (uriExtra component)))).length < outLimit := by
    have lone := uriEncode_lone (uriExtra component) (fun u member => small u (by
      rw [split]
      exact List.mem_append_right _ member)) starts
    rw [encodeUriText_eq, split, cesu8_append, cesu8_charUnits]
    exact (uriEncode_reads _ chars).run_none_iff starts.cesu8_ne_nil lone
  constructor
  · intro holds chars tail split starts
    exact (outcome split starts).mp (holds.mpr (split ▸ starts.behind chars))
  · intro inside
    refine ⟨fun none => ?_, fun lone => ?_⟩
    · by_contra sound
      obtain ⟨chars, rfl⟩ := (not_lone_iff small).mp sound
      obtain ⟨before, after, -, -, -, run⟩ :=
        (uriEncode_reads (uriExtra component) chars).run_eq outLimit
      rw [encodeUriText_eq, cesu8_charUnits, run] at none
      cases none
    · obtain ⟨chars, tail, split, starts⟩ := (loneSurrogate_iff small).mp lone
      exact (outcome split starts).mpr (inside chars tail split starts)

/-- A decoder is right when the limit stops none of its turns. -/
theorem decode_holds_unstopped (component : Bool) (small : ∀ u ∈ us, u < 0x10000)
    : (UriCall.decode component us).Holds
      ↔ (uriDecodeBody (!component)).Unstopped outLimit 0 (cesu8 us) := by
  have whole {out : List Nat} (decodes : UriDecodes (!component) us out)
      : decodeUriText component (cesu8 us) = some (cesu8 out)
        ↔ (uriDecodeBody (!component)).Unstopped outLimit 0 (cesu8 us) := by
    have ends := decodes.reaches small []
    rw [List.append_nil] at ends
    rw [decodeUriText_eq]
    exact Body.run_iff uriDecode_emits ends
  rcases uriDecode_outcome (!component) small
    with ⟨out, decodes⟩ | ⟨before, after, out, rfl, some, decodes, fails⟩
  · constructor
    · intro holds
      exact (whole decodes).mp (holds.2 out decodes)
    · intro unstopped
      refine ⟨⟨fun none => ?_, fun none => absurd ⟨out, decodes⟩ none⟩,
        fun out' decodes' => (whole decodes').mpr unstopped⟩
      rw [(whole decodes).mpr unstopped] at none
      cases none
  · have left : cesu8 after ≠ [] := by
      obtain ⟨u, rest, rfl⟩ := List.exists_cons_of_ne_nil some
      exact List.append_ne_nil_of_left_ne_nil (sequence_ne_nil u) _
    have reached := decodes.reaches (fun u member => small u (List.mem_append_left _ member))
      (cesu8 after)
    rw [← cesu8_append] at reached
    have never : ¬∃ out, UriDecodes (!component) (before ++ after) out := by
      rintro ⟨full, decodes'⟩
      have ends := decodes'.reaches small []
      rw [List.append_nil] at ends
      obtain ⟨more, -, ahead⟩ := reached.ahead ends
      generalize cesu8 after = rest at ahead left fails
      cases ahead with
      | start => exact left rfl
      | next turn =>
          rw [fails] at turn
          cases turn
    have outcome
        : decodeUriText component (cesu8 (before ++ after)) = none
          ↔ (uriDecodeBody (!component)).Unstopped outLimit 0 (cesu8 (before ++ after)) := by
      rw [decodeUriText_eq]
      exact Body.run_none_iff reached left fails
    constructor
    · intro holds
      exact outcome.mp (holds.1.mpr never)
    · intro unstopped
      exact ⟨iff_of_true (outcome.mpr unstopped) never,
        fun out' decodes' => absurd ⟨out', decodes'⟩ never⟩

theorem unstopped_iff_inBuffer (component : Bool) (small : ∀ u ∈ us, u < 0x10000)
    : (uriDecodeBody (!component)).Unstopped outLimit 0 (cesu8 us)
      ↔ (UriCall.decode component us).InBuffer := by
  constructor
  · rintro unstopped before u after out rfl decodes
    have bound := small u (by simp)
    have reached := decodes.reaches (fun v member => small v (List.mem_append_left _ member))
      (cesu8 (u :: after))
    rw [← cesu8_append] at reached
    rw [copiedLength]
    split
    · have room := unstopped _ _ reached (by
        rw [cesu8_cons]
        exact List.append_ne_nil_of_left_ne_nil (sequence_ne_nil u) _)
      omega
    · rename_i other
      -- The position before the last byte of the unit.
      obtain ⟨front, last, is⟩ : ∃ front last, sequence u = front ++ [last] :=
        ⟨_, _, (List.dropLast_concat_getLast (sequence_ne_nil u)).symm⟩
      have others := sequence_other (show u < 0x110000 by omega) other
      have copies : (uriDecodeBody (!component)).ReadsItems _ _ front :=
        uriDecode_copies fun b member => others b (by rw [is]; exact List.mem_append_left _ member)
      have copied := copies.reaches (last :: cesu8 after)
      rw [List.flatMap_singleton'] at copied
      rw [cesu8_cons, is, List.append_assoc] at reached
      have room := unstopped _ _ (reached.trans copied) (List.cons_ne_nil _ _)
      rw [List.length_append] at room
      rw [is, List.length_append, List.length_singleton]
      omega
  · intro inside out rest reached some
    obtain ⟨before, u, after, units, split, decodes, room⟩ :=
      uriDecode_positions small reached some
    have whole := inside before u after units split decodes
    omega

/-- Encoding and decoding give back characters when their text is in the buffer. -/
theorem uriRoundTrip_iff (component : Bool) (chars : List Char)
    : (encodeUriText component (cesu8 (charUnits chars))).bind (decodeUriText component)
        = some (cesu8 (charUnits chars))
      ↔ GuardedLoop.Fits outLimit (encodedChar (uriStays (uriExtra component))) chars := by
  have decoder : decodeUriText component = (uriDecodeBody (!component)).run outLimit [] :=
    funext (decodeUriText_eq component)
  rw [encodeUriText_eq, decoder, cesu8_charUnits]
  exact roundTrip_iff (uriEncode_reads _ chars) (uriDecode_reads component chars)
    fun c _ => length_encoded component c

theorem escapeRoundTrip_iff (small : ∀ u ∈ us, u < 0x10000)
    : (UriCall.escape us).Holds ↔ GuardedLoop.Fits outLimit escapeEmit us :=
  roundTrip_iff (escape_reads small) (unescape_reads small)
    fun u member => length_escaped (small u member)

/-- The functions meet what is asked of them for a string exactly when the text of all but the
last turn of the first loop is shorter than the limit. Witness: `uriCoding_iff_pair`.
-/
theorem uriCoding_iff (call : UriCall) (small : ∀ u ∈ call.string, u < 0x10000)
    : call.Holds ↔ call.InBuffer := by
  cases call with
  | encode component us => exact encode_holds_iff component small
  | decode component us =>
      exact (decode_holds_unstopped component small).trans (unstopped_iff_inBuffer component small)
  | roundTrip component us =>
      constructor
      · rintro holds chars rfl
        exact (uriRoundTrip_iff component chars).mp (holds (not_lone_charUnits chars))
      · intro inside sound
        obtain ⟨chars, rfl⟩ := (not_lone_iff small).mp sound
        exact (uriRoundTrip_iff component chars).mpr (inside chars rfl)
  | escape us => exact escapeRoundTrip_iff small

/-- Both halves of an astral character come back from `unescape(escape(s))`. -/
theorem uriCoding_iff_pair : (UriCall.escape [0xD83D, 0xDE00, 0x25]).Holds := by
  refine (uriCoding_iff (.escape [0xD83D, 0xDE00, 0x25]) (by decide)).mpr ?_
  intro before after split some
  have lengths : before.length + after.length = 3 := by
    rw [← List.length_append, ← split]
    rfl
  have short (items : List Nat) : (items.flatMap escapeEmit).length ≤ 6 * items.length := by
    induction items with
    | nil => exact Nat.le_refl _
    | cons u items ih =>
        have one : (escapeEmit u).length ≤ 6 := by
          unfold escapeEmit
          split_ifs <;> simp [escapeEmitHex]
        rw [List.flatMap_cons, List.length_append, List.length_cons]
        omega
  have bound := short before
  have limit : outLimit = 65500 := rfl
  omega

/-- A long run of a letter. -/
theorem flatMap_replicate_one {α β : Type} {emit : α → List β} {a : α} {b : β}
    (one : emit a = [b]) (n : Nat)
    : (List.replicate n a).flatMap emit = List.replicate n b := by
  induction n with
  | zero => rfl
  | succ n ih => rw [List.replicate_succ, List.flatMap_cons, one, ih]; rfl

/-- `escape` cuts a text of 65501 letters `a`, though the letters stay as they are. -/
theorem escape_truncates
    : ¬(UriCall.escape (List.replicate 65501 0x61)).Holds := by
  have small : ∀ u ∈ List.replicate 65501 0x61, u < 0x10000 := by
    intro u member
    rw [List.eq_of_mem_replicate member]
    decide
  rw [escapeRoundTrip_iff small]
  intro fits
  have room := fits (List.replicate 65500 0x61) [0x61] List.replicate_succ' (List.cons_ne_nil _ _)
  rw [flatMap_replicate_one (b := 0x61) (by decide), List.length_replicate] at room
  exact Nat.lt_irrefl _ room

end Boomkat.Correctness
