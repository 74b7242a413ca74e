import Boomkat.Correctness.Utf8
import Boomkat.Correctness.AstralScan

/-! The canonical encoding of strings: one form for each sequence of code units, and the way back
to UTF-8.
-/

namespace Boomkat.Correctness
open Strings Utf8

-----------------------------------------------------------------------------------------
-- Byte strings
-----------------------------------------------------------------------------------------

/-- A codepoint, or half of a surrogate pair on its own. -/
abbrev Codepoint := Fin 0x110000

/-- A byte string that is built from sequences of UTF-8 and of CESU-8. -/
def bytesOf (cps : List Codepoint) : List UInt8 := cps.flatMap fun cp => sequence cp.val

/-- The code units of a byte string that is built so. -/
def unitsOf (cps : List Codepoint) : List Nat := cps.flatMap fun cp => units cp.val

/-- The canonical bytes of code units: a sequence for each. -/
def cesu8 (us : List Nat) : List UInt8 := us.flatMap sequence

/-- The code units that the decoder reads, two for an astral codepoint. -/
def decodeUnits (data : List UInt8) : List Nat :=
  match data with
  | [] => []
  | b :: rest =>
      have _positive := utf8SeqLen_pos b
      units (decodeCodepoint (b :: rest)).toNat
        ++ decodeUnits ((b :: rest).drop (utf8SeqLen b))
termination_by data.length

theorem unitsOf_lt (cps : List Codepoint) : ∀ u ∈ unitsOf cps, u < 0x10000 := by
  intro u member
  obtain ⟨cp, -, inside⟩ := List.mem_flatMap.mp member
  exact units_lt cp.isLt inside

@[simp] theorem bytesOf_cons (cp : Codepoint) (cps : List Codepoint)
    : bytesOf (cp :: cps) = sequence cp.val ++ bytesOf cps :=
  rfl

@[simp] theorem unitsOf_cons (cp : Codepoint) (cps : List Codepoint)
    : unitsOf (cp :: cps) = units cp.val ++ unitsOf cps :=
  rfl

@[simp] theorem cesu8_cons (u : Nat) (us : List Nat) : cesu8 (u :: us) = sequence u ++ cesu8 us :=
  rfl

theorem cesu8_append (us us' : List Nat) : cesu8 (us ++ us') = cesu8 us ++ cesu8 us' :=
  List.flatMap_append

/-- What is behind a sequence, when the length of its first byte is left out. -/
theorem drop_sequence {n : Nat} (bound : n < 0x110000) (rest : List UInt8)
    : ∃ b tail, sequence n ++ rest = b :: tail ∧ (b :: tail).drop (utf8SeqLen b) = rest
      ∧ (b :: tail).take (utf8SeqLen b) = sequence n := by
  obtain ⟨b, tail, is, length⟩ := utf8SeqLen_sequence bound
  refine ⟨b, tail ++ rest, by rw [is]; rfl, ?_, ?_⟩
  · rw [length, List.drop_succ_cons, List.drop_left]
  · rw [length, List.take_succ_cons, List.take_left, is]

theorem decodeUnits_sequence {n : Nat} (bound : n < 0x110000) (rest : List UInt8)
    : decodeUnits (sequence n ++ rest) = units n ++ decodeUnits rest := by
  obtain ⟨b, tail, is, behind, -⟩ := drop_sequence bound rest
  have codepoint := decodeCodepoint_sequence bound rest
  rw [is] at codepoint ⊢
  rw [decodeUnits, codepoint, behind]

/-- The decoder reads the code units that a byte string was built from. -/
theorem decodeUnits_bytesOf (cps : List Codepoint) : decodeUnits (bytesOf cps) = unitsOf cps := by
  induction cps with
  | nil =>
      rw [bytesOf, List.flatMap_nil, decodeUnits]
      rfl
  | cons cp cps ih => rw [bytesOf_cons, decodeUnits_sequence cp.isLt, ih, unitsOf_cons]

theorem decodeUnits_cesu8 {us : List Nat} (small : ∀ u ∈ us, u < 0x10000)
    : decodeUnits (cesu8 us) = us := by
  induction us with
  | nil =>
      rw [cesu8, List.flatMap_nil, decodeUnits]
  | cons u us ih =>
      have bound := small u List.mem_cons_self
      rw [cesu8_cons, decodeUnits_sequence (by omega), units_small bound,
        ih fun v member => small v (List.mem_cons_of_mem u member)]
      rfl

-----------------------------------------------------------------------------------------
-- Normalization
-----------------------------------------------------------------------------------------

/-- A byte that starts no four-byte sequence stays. -/
theorem normalize_plain {b : UInt8} (plain : isAstralLead b = false) (rest : List UInt8)
    : normalizeToCesu8 (b :: rest) = b :: normalizeToCesu8 rest := by
  rw [normalizeToCesu8.eq_def]
  split
  · rename_i same
    obtain ⟨rfl, rfl⟩ := List.cons.inj same
    simp only [plain, Bool.false_eq_true, if_false]
  · rename_i same
    obtain ⟨rfl, rfl⟩ := List.cons.inj same
    rfl
  · contradiction

theorem isAstralLead_byte (b : UInt8) : isAstralLead b = decide (b.toNat / 8 = 30) := lead4_iff b

/-- A sequence of up to three bytes stays. -/
theorem normalize_small {n : Nat} (small : n < 0x10000) (rest : List UInt8)
    : normalizeToCesu8 (sequence n ++ rest) = sequence n ++ normalizeToCesu8 rest := by
  have plain (b : UInt8) (value : b.toNat / 8 ≠ 30) : isAstralLead b = false := by
    rw [isAstralLead_byte]
    exact decide_eq_false value
  rcases sequence_cases (show n < 0x110000 by omega) with ⟨ascii, b, is, value⟩
    | ⟨-, high, b0, b1, is, first, second⟩
    | ⟨-, high, b0, b1, b2, is, first, second, third⟩ | ⟨low, -⟩
  · rw [is, List.singleton_append, normalize_plain (plain b (by omega))]
    rfl
  · rw [is, List.cons_append, List.singleton_append, normalize_plain (plain b0 (by omega)),
      normalize_plain (plain b1 (by omega))]
    rfl
  · rw [is, List.cons_append, List.cons_append, List.singleton_append,
      normalize_plain (plain b0 (by omega)), normalize_plain (plain b1 (by omega)),
      normalize_plain (plain b2 (by omega))]
    rfl
  · omega

/-- The surrogate pair of an astral codepoint, in three bytes each. -/
theorem encodeCodepointCesu8_halves {cp : UInt32} (astral : 0x10000 ≤ cp.toNat)
    (bound : cp.toNat < 0x110000)
    : encodeCodepointCesu8 cp = sequence (highOf cp.toNat) ++ sequence (lowOf cp.toNat) := by
  have least : (0x10000 : UInt32) ≤ cp := UInt32.le_iff_toNat_le.mpr astral
  have above : (cp - 0x10000).toNat = cp.toNat - 0x10000 := UInt32.toNat_sub_of_le _ _ least
  have high : ((cp - 0x10000) >>> 10 + 0xD800).toNat = highOf cp.toNat := by
    rw [UInt32.toNat_add, toNat_from _ 10 (by decide), above]
    change ((cp.toNat - 0x10000) / 1024 + 0xD800) % 2 ^ 32 = 0xD800 + _
    omega
  have low : (((cp - 0x10000) &&& 0x3FF) + 0xDC00).toNat = lowOf cp.toNat := by
    have bits : ((cp - 0x10000) &&& 0x3FF).toNat = (cp.toNat - 0x10000) % 1024 := by
      rw [UInt32.toNat_and, above]
      exact Nat.and_two_pow_sub_one_eq_mod _ 10
    rw [UInt32.toNat_add, bits]
    change ((cp.toNat - 0x10000) % 1024 + 0xDC00) % 2 ^ 32 = 0xDC00 + _
    omega
  have highRange := highOf_isHigh bound
  have lowRange := lowOf_isLow cp.toNat
  unfold IsHigh at highRange
  unfold IsLow at lowRange
  rw [encodeCodepointCesu8, encodeSurrogate_sequence (by rw [high]; omega) (by rw [high]; omega),
    encodeSurrogate_sequence (by rw [low]; omega) (by rw [low]; omega), high, low]

theorem normalize_astral {n : Nat} (astral : 0x10000 ≤ n) (bound : n < 0x110000)
    (rest : List UInt8)
    : normalizeToCesu8 (sequence n ++ rest)
      = sequence (highOf n) ++ sequence (lowOf n) ++ normalizeToCesu8 rest := by
  rcases sequence_cases bound with ⟨small, -⟩ | ⟨-, small, -⟩ | ⟨-, small, -⟩
    | ⟨-, b0, b1, b2, b3, is, first, second, third, fourth⟩
  · omega
  · omega
  · omega
  · obtain ⟨cp, decoded, value⟩ := decodeAstral_sequence astral bound first second third fourth
    have lead : isAstralLead b0 = true := by
      rw [isAstralLead_byte]
      exact decide_eq_true (by omega)
    rw [is, List.cons_append, List.cons_append, List.cons_append, List.singleton_append,
      normalizeToCesu8]
    simp only [lead, if_true, decoded]
    rw [encodeCodepointCesu8_halves (by omega) (by omega), value]

theorem normalize_sequence {n : Nat} (bound : n < 0x110000) (rest : List UInt8)
    : normalizeToCesu8 (sequence n ++ rest) = cesu8 (units n) ++ normalizeToCesu8 rest := by
  rcases Nat.lt_or_ge n 0x10000 with small | astral
  · rw [normalize_small small, units_small small, cesu8_cons, cesu8, List.flatMap_nil,
      List.append_nil]
  · rw [normalize_astral astral bound, units_astral astral, cesu8_cons, cesu8_cons, cesu8,
      List.flatMap_nil, List.append_nil]

/-- Normalization leaves the canonical bytes of the code units. -/
theorem normalize_bytesOf (cps : List Codepoint)
    : normalizeToCesu8 (bytesOf cps) = cesu8 (unitsOf cps) := by
  induction cps with
  | nil => rfl
  | cons cp cps ih =>
      rw [bytesOf_cons, normalize_sequence cp.isLt, ih, unitsOf_cons, cesu8_append]

theorem normalize_cesu8 {us : List Nat} (small : ∀ u ∈ us, u < 0x10000)
    : normalizeToCesu8 (cesu8 us) = cesu8 us := by
  induction us with
  | nil => rfl
  | cons u us ih =>
      rw [cesu8_cons, normalize_small (small u List.mem_cons_self),
        ih fun v member => small v (List.mem_cons_of_mem u member)]

/-- Nothing is there to rewrite when no four-byte sequence starts. -/
theorem normalize_skipped (data : List UInt8)
    : (if hasRawUtf8AstralWords data then normalizeToCesu8 data else data)
      = normalizeToCesu8 data := by
  split
  · rfl
  · rename_i none
    rw [hasRawUtf8AstralWords_eq, hasRawUtf8Astral, Bool.not_eq_true] at none
    induction data with
    | nil => rfl
    | cons b rest ih =>
        rw [List.any_cons, Bool.or_eq_false_iff] at none
        rw [normalize_plain none.1, ← ih none.2]

-----------------------------------------------------------------------------------------
-- The way back
-----------------------------------------------------------------------------------------

/-- The test of a range, on numbers. -/
theorem between_iff (low cp high : UInt32)
    : (decide (low ≤ cp) && decide (cp ≤ high))
      = decide (low.toNat ≤ cp.toNat ∧ cp.toNat ≤ high.toNat) := by
  simp only [UInt32.le_iff_toNat_le, Bool.decide_and]

theorem isHighSurrogate_iff (cp : UInt32) : isHighSurrogate cp = decide (IsHigh cp.toNat) :=
  between_iff 0xD800 cp 0xDBFF

theorem isLowSurrogate_iff (cp : UInt32) : isLowSurrogate cp = decide (IsLow cp.toNat) :=
  between_iff 0xDC00 cp 0xDFFF

theorem isSurrogate_iff (cp : UInt32)
    : isSurrogate cp = decide (0xD800 ≤ cp.toNat ∧ cp.toNat ≤ 0xDFFF) :=
  between_iff 0xD800 cp 0xDFFF

theorem surrogatesToCodepoint_joined {high low : UInt32} (isHigh : IsHigh high.toNat)
    (isLow : IsLow low.toNat)
    : (surrogatesToCodepoint high low).toNat = joined high.toNat low.toNat := by
  unfold IsHigh at isHigh
  unfold IsLow at isLow
  have highLeast : (0xD800 : UInt32) ≤ high := UInt32.le_iff_toNat_le.mpr isHigh.1
  have lowLeast : (0xDC00 : UInt32) ≤ low := UInt32.le_iff_toNat_le.mpr isLow.1
  have first : (high - 0xD800).toNat = high.toNat - 0xD800 :=
    UInt32.toNat_sub_of_le _ _ highLeast
  have second : (low - 0xDC00).toNat = low.toNat - 0xDC00 := UInt32.toNat_sub_of_le _ _ lowLeast
  have shifted : ((high - 0xD800) <<< 10).toNat = (high.toNat - 0xD800) * 1024 := by
    rw [toNat_shift (by decide) (by rw [first]; change _ * 2 ^ 10 < _; omega), first]
    exact Nat.shiftLeft_eq _ _
  have sum : (surrogatesToCodepoint high low).toNat
      = (((high - 0xD800) <<< 10).toNat + (0x10000 : UInt32).toNat + (low - 0xDC00).toNat)
        % 2 ^ 32 := by
    rw [surrogatesToCodepoint, UInt32.toNat_add, UInt32.toNat_add]
    omega
  have start : (0x10000 : UInt32).toNat = 0x10000 := by decide
  rw [sum, shifted, second, start]
  unfold joined
  omega

/-- No pair starts with anything but a high surrogate. -/
theorem surrogatePairAt_none {n : Nat} (bound : n < 0x110000) (notHigh : ¬IsHigh n)
    (rest : List UInt8)
    : surrogatePairAt (sequence n ++ rest) = none := by
  have codepoint := decodeCodepoint_sequence bound rest
  cases here : sequence n ++ rest with
  | nil => rfl
  | cons b tail =>
      rw [here] at codepoint
      have other : isHighSurrogate (decodeCodepoint (b :: tail)) = false := by
        rw [isHighSurrogate_iff, codepoint]
        exact decide_eq_false notHigh
      unfold surrogatePairAt
      dsimp only
      split
      · rfl
      · rw [other, Bool.false_and, if_neg Bool.false_ne_true]

/-- A high surrogate and a low one are a pair. -/
theorem surrogatePairAt_pair {high low : Nat} (isHigh : IsHigh high) (isLow : IsLow low)
    (rest : List UInt8)
    : ∃ cp, surrogatePairAt (sequence high ++ (sequence low ++ rest)) = some (cp, rest)
      ∧ cp.toNat = joined high low := by
  have highBound : high < 0x110000 := by
    unfold IsHigh at isHigh
    omega
  have lowBound : low < 0x110000 := by
    unfold IsLow at isLow
    omega
  have first := decodeCodepoint_sequence highBound (sequence low ++ rest)
  have second := decodeCodepoint_sequence lowBound rest
  obtain ⟨b, tail, is, behind, -⟩ := drop_sequence highBound (sequence low ++ rest)
  obtain ⟨b', tail', is', behind', -⟩ := drop_sequence lowBound rest
  rw [is] at first ⊢
  rw [is'] at second behind
  have pair : (isHighSurrogate (decodeCodepoint (b :: tail))
      && isLowSurrogate (decodeCodepoint (b' :: tail'))) = true := by
    rw [isHighSurrogate_iff, isLowSurrogate_iff, first, second, decide_eq_true isHigh,
      decide_eq_true isLow, Bool.and_self]
  refine ⟨surrogatesToCodepoint (decodeCodepoint (b :: tail)) (decodeCodepoint (b' :: tail')),
    ?_, ?_⟩
  · simp only [surrogatePairAt, behind, pair, if_true, behind']
  · rw [surrogatesToCodepoint_joined (by rwa [first]) (by rwa [second]), first, second]

/-- A unit that is no surrogate leaves as it is. -/
theorem write_plain {n : Nat} (bound : n < 0x110000) (plain : ¬(0xD800 ≤ n ∧ n ≤ 0xDFFF))
    (rest : List UInt8)
    : writeCesu8AsUtf8 (sequence n ++ rest) = sequence n ++ writeCesu8AsUtf8 rest := by
  have alone := surrogatePairAt_none bound (by unfold IsHigh; omega) rest
  have codepoint := decodeCodepoint_sequence bound rest
  obtain ⟨b, tail, is, behind, front⟩ := drop_sequence bound rest
  have other : isSurrogate (decodeCodepoint (b :: tail)) = false := by
    rw [isSurrogate_iff, ← is, codepoint]
    exact decide_eq_false plain
  rw [is] at alone ⊢
  rw [writeCesu8AsUtf8]
  split
  · rename_i pair
    rw [alone] at pair
    cases pair
  · rw [other, if_neg Bool.false_ne_true, front, behind]

/-- A surrogate pair leaves as the sequence of its codepoint. -/
theorem write_pair {high low : Nat} (isHigh : IsHigh high) (isLow : IsLow low)
    (rest : List UInt8)
    : writeCesu8AsUtf8 (sequence high ++ (sequence low ++ rest))
      = sequence (joined high low) ++ writeCesu8AsUtf8 rest := by
  obtain ⟨cp, pair, value⟩ := surrogatePairAt_pair isHigh isLow rest
  have bound : cp.toNat < 0x110000 := by
    rw [value]
    unfold IsHigh at isHigh
    unfold IsLow at isLow
    unfold joined
    omega
  cases here : sequence high ++ (sequence low ++ rest) with
  | nil =>
      rw [here] at pair
      cases pair
  | cons b tail =>
      rw [here] at pair
      rw [writeCesu8AsUtf8]
      split
      · rename_i found
        rw [pair] at found
        cases found
        rw [encodeCodepoint_sequence bound, value]
      · rename_i none
        rw [pair] at none
        cases none

/-- The text that leaves is the text that came in. -/
theorem write_normalize (chars : List Char)
    : writeCesu8AsUtf8 (normalizeToCesu8 (chars.flatMap String.utf8EncodeChar))
      = chars.flatMap String.utf8EncodeChar := by
  induction chars with
  | nil =>
      rw [List.flatMap_nil, normalizeToCesu8, writeCesu8AsUtf8]
  | cons c cs ih =>
      have valid : c.toNat < 0x110000 ∧ ¬(0xD800 ≤ c.toNat ∧ c.toNat ≤ 0xDFFF) := by
        have valid := c.valid
        simp only [UInt32.isValidChar, Nat.isValidChar] at valid
        change c.val.toNat < _ ∧ ¬(_ ≤ c.val.toNat ∧ c.val.toNat ≤ _)
        omega
      rw [List.flatMap_cons, utf8EncodeChar_eq]
      rcases Nat.lt_or_ge c.toNat 0x10000 with small | astral
      · rw [normalize_small small, write_plain valid.1 valid.2, ih]
      · rw [normalize_astral astral valid.1, List.append_assoc,
          write_pair (highOf_isHigh valid.1) (lowOf_isLow c.toNat), joined_halves astral, ih]

-----------------------------------------------------------------------------------------
-- One form for each string
-----------------------------------------------------------------------------------------

/-- The two spellings of one string are the same bytes after normalization. -/
theorem normalize_eq_iff (cps cps' : List Codepoint)
    : normalizeToCesu8 (bytesOf cps) = normalizeToCesu8 (bytesOf cps')
      ↔ decodeUnits (bytesOf cps) = decodeUnits (bytesOf cps') := by
  rw [normalize_bytesOf, normalize_bytesOf, decodeUnits_bytesOf, decodeUnits_bytesOf]
  constructor
  · intro same
    rw [← decodeUnits_cesu8 (unitsOf_lt cps), same, decodeUnits_cesu8 (unitsOf_lt cps')]
  · intro same
    rw [same]

/-- Normalization is canonical and the writer undoes it: well-formed UTF-8 comes back, a second
pass changes nothing, two byte strings built from sequences of UTF-8 and CESU-8 normalize to the
same bytes exactly when they have the same code units, and the scan by words skips only what stays.
-/
theorem normalizeToCesu8_canonical
    : (∀ chars : List Char,
        writeCesu8AsUtf8 (normalizeToCesu8 (chars.flatMap String.utf8EncodeChar))
          = chars.flatMap String.utf8EncodeChar)
      ∧ (∀ cps : List Codepoint,
        normalizeToCesu8 (normalizeToCesu8 (bytesOf cps)) = normalizeToCesu8 (bytesOf cps))
      ∧ (∀ cps cps' : List Codepoint,
        normalizeToCesu8 (bytesOf cps) = normalizeToCesu8 (bytesOf cps')
          ↔ decodeUnits (bytesOf cps) = decodeUnits (bytesOf cps'))
      ∧ ∀ data : List UInt8,
        (if hasRawUtf8AstralWords data then normalizeToCesu8 data else data)
          = normalizeToCesu8 data := by
  refine ⟨write_normalize, ?_, normalize_eq_iff, normalize_skipped⟩
  intro cps
  rw [normalize_bytesOf, normalize_cesu8 (unitsOf_lt cps)]

/-- Bytes that are no sequence stay, though the decoder reads them as the replacement character. -/
theorem normalizeToCesu8_malformed
    : decodeUnits [0x80] = decodeUnits [0xEF, 0xBF, 0xBD]
      ∧ normalizeToCesu8 [0x80] ≠ normalizeToCesu8 [0xEF, 0xBF, 0xBD] := by
  refine ⟨?_, by decide⟩
  have invalid : decodeUnits [0x80] = [0xFFFD] := by
    rw [decodeUnits]
    change _ ++ decodeUnits [] = _
    rw [decodeUnits]
    rfl
  have valid : decodeUnits [0xEF, 0xBF, 0xBD] = [0xFFFD] := by
    rw [decodeUnits]
    change _ ++ decodeUnits [] = _
    rw [decodeUnits]
    rfl
  rw [invalid, valid]

end Boomkat.Correctness
