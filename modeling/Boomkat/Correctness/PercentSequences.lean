import Boomkat.Globals.Uri
import Boomkat.Correctness.LoneSurrogates

/-! Percent triplets of bytes, and the decoder of percent sequences on the sequences of characters.
-/

namespace Boomkat.Correctness
open Globals Strings Utf8

-----------------------------------------------------------------------------------------
-- Percent triplets
-----------------------------------------------------------------------------------------

theorem hexDigitVal_bounds {c : UInt8} {d : Nat} (digit : hexDigitVal c = some d)
    : d < 16 ∧ c.toNat < 0x80 := by
  unfold hexDigitVal at digit
  simp only [UInt8.le_iff_toNat_le, UInt8.reduceToNat] at digit
  split at digit
  · obtain rfl := Option.some.inj digit
    omega
  split at digit
  · obtain rfl := Option.some.inj digit
    omega
  split at digit
  · obtain rfl := Option.some.inj digit
    omega
  · cases digit

/-- Percent triplets of bytes. -/
inductive Triplets : List UInt8 → List UInt8 → Prop
  | nil : Triplets [] []
  | cons {c1 c2 b : UInt8} {d1 d2 : Nat} {text bytes : List UInt8}
      (first : hexDigitVal c1 = some d1) (second : hexDigitVal c2 = some d2)
      (value : b.toNat = d1 * 16 + d2) (others : Triplets text bytes)
      : Triplets (0x25 :: c1 :: c2 :: text) (b :: bytes)

theorem Triplets.ascii {text bytes : List UInt8} (triplets : Triplets text bytes)
    : ∀ c ∈ text, c.toNat < 0x80 := by
  induction triplets with
  | nil => exact fun c member => absurd member List.not_mem_nil
  | cons first second _ _ ih =>
      intro c member
      simp only [List.mem_cons] at member
      rcases member with rfl | rfl | rfl | inside
      · decide
      · exact (hexDigitVal_bounds first).2
      · exact (hexDigitVal_bounds second).2
      · exact ih c inside

theorem Triplets.append {text text' bytes bytes' : List UInt8} (front : Triplets text bytes)
    (back : Triplets text' bytes')
    : Triplets (text ++ text') (bytes ++ bytes') := by
  induction front with
  | nil => exact back
  | cons first second value _ ih => exact .cons first second value ih

theorem tripletAt_cons {c1 c2 : UInt8} {d1 d2 : Nat} (first : hexDigitVal c1 = some d1)
    (second : hexDigitVal c2 = some d2) (rest : List UInt8)
    : tripletAt (0x25 :: c1 :: c2 :: rest) = some (d1 * 16 + d2, rest) := by
  have value : d1 <<< 4 ||| d2 = d1 * 16 + d2 := shift_or (hexDigitVal_bounds second).1
  rw [tripletAt, if_pos rfl, first, second]
  dsimp only
  rw [value]

theorem Triplets.tripletAt {b : UInt8} {text bytes : List UInt8}
    (triplets : Triplets text (b :: bytes)) (rest : List UInt8)
    : ∃ text', Triplets text' bytes
      ∧ Globals.tripletAt (text ++ rest) = some (b.toNat, text' ++ rest) := by
  cases triplets with
  | cons first second value others =>
      refine ⟨_, others, ?_⟩
      rw [List.cons_append, List.cons_append, List.cons_append, tripletAt_cons first second, value]

theorem exists_triplet {src rest : List UInt8} {n : Nat} (found : tripletAt src = some (n, rest))
    : ∃ b text, b.toNat = n ∧ src = text ++ rest ∧ Triplets text [b] := by
  unfold tripletAt at found
  split at found
  · rename_i percent c1 c2 behind
    split at found
    · rename_i isPercent
      split at found
      · rename_i d1 d2 first second
        cases found
        have value : d1 <<< 4 ||| d2 = d1 * 16 + d2 := shift_or (hexDigitVal_bounds second).1
        have low := (hexDigitVal_bounds first).1
        have low' := (hexDigitVal_bounds second).1
        have number : (UInt8.ofNat (d1 * 16 + d2)).toNat = d1 * 16 + d2 := toNat_ofNat (by omega)
        exact ⟨UInt8.ofNat (d1 * 16 + d2), [percent, c1, c2], by rw [number, value], rfl,
          by rw [isPercent]; exact .cons first second number .nil⟩
      · cases found
    · cases found
  · cases found

/-- Continuation bytes are read from their triplets. -/
theorem Triplets.continuationsAt {text bytes : List UInt8} (triplets : Triplets text bytes)
    (inside : ∀ b ∈ bytes, 0x80 ≤ b.toNat ∧ b.toNat ≤ 0xBF) (rest : List UInt8)
    : Globals.continuationsAt bytes.length (text ++ rest)
      = some (bytes.map (·.toNat), rest) := by
  induction bytes generalizing text with
  | nil =>
      cases triplets
      rfl
  | cons b bytes ih =>
      have range := inside b List.mem_cons_self
      obtain ⟨text', others, found⟩ := triplets.tripletAt rest
      rw [List.length_cons, Globals.continuationsAt, found]
      dsimp only
      rw [if_neg (by omega), ih others fun c member => inside c (List.mem_cons_of_mem b member)]
      rfl

theorem exists_continuations {n : Nat} {src rest : List UInt8} {numbers : List Nat}
    (found : continuationsAt n src = some (numbers, rest))
    : ∃ text bytes, src = text ++ rest ∧ Triplets text bytes ∧ numbers = bytes.map (·.toNat)
      ∧ bytes.length = n ∧ ∀ b ∈ bytes, 0x80 ≤ b.toNat ∧ b.toNat ≤ 0xBF := by
  induction n generalizing src numbers with
  | zero =>
      cases found
      exact ⟨[], [], rfl, .nil, rfl, rfl, fun b member => absurd member List.not_mem_nil⟩
  | succ n ih =>
      unfold continuationsAt at found
      split at found
      · rename_i number behind triplet
        split at found
        · cases found
        · rename_i range
          obtain ⟨⟨more, last⟩, others, same⟩ := Option.map_eq_some_iff.mp found
          cases same
          obtain ⟨b, text, rfl, rfl, spelled⟩ := exists_triplet triplet
          obtain ⟨text', bytes, rfl, spelled', rfl, length, inside⟩ := ih others
          refine ⟨text ++ text', b :: bytes, (List.append_assoc _ _ _).symm,
            spelled.append spelled', rfl, congrArg (· + 1) length, ?_⟩
          intro c member
          rcases List.mem_cons.mp member with rfl | member
          · omega
          · exact inside c member
      · cases found

-----------------------------------------------------------------------------------------
-- Percent sequences
-----------------------------------------------------------------------------------------

theorem payloadBits_eq (a : Nat) (bytes : List Nat)
    : payloadBits (a <<< (6 * bytes.length)) bytes
      = bytes.foldl (fun a b => a * 64 + b % 64) a := by
  induction bytes generalizing a with
  | nil => exact Nat.shiftLeft_zero
  | cons b bytes ih =>
      have low : b &&& 0x3F = b % 64 := Nat.and_two_pow_sub_one_eq_mod b 6
      have bits : a <<< 6 ||| b % 64 = a * 64 + b % 64 := shift_or (Nat.mod_lt b (by decide))
      rw [payloadBits, List.foldl_cons, ← ih, low, ← bits, Nat.shiftLeft_or_distrib,
        ← Nat.shiftLeft_add, List.length_cons]
      congr 3
      omega

/-- The payload bits of a first byte. -/
theorem lead_payload
    : ∀ first < 256, 0xC2 ≤ first → first ≤ 0xF4 →
        first &&& (0xFF >>> uriSeqLen first)
          = first - (if first < 0xE0 then 0xC0 else if first < 0xF0 then 0xE0 else 0xF0) := by
  decide +kernel

/-- The codepoint that a decoder of percent sequences computes. -/
def decodedOf (first : UInt8) (bytes : List UInt8) : Nat :=
  payloadBits
    ((first.toNat &&& (0xFF >>> uriSeqLen first.toNat)) <<< (6 * (uriSeqLen first.toNat - 1)))
    (bytes.map (·.toNat))

theorem decodedOf_eq {first : UInt8} {bytes : List UInt8} (low : 0xC2 ≤ first.toNat)
    (high : first.toNat ≤ 0xF4) (length : bytes.length = uriSeqLen first.toNat - 1)
    : decodedOf first bytes
      = (bytes.map (·.toNat)).foldl (fun a b => a * 64 + b % 64)
        (first.toNat - (if first.toNat < 0xE0 then 0xC0 else if first.toNat < 0xF0 then 0xE0
          else 0xF0)) := by
  rw [decodedOf, ← length, ← List.length_map (f := (·.toNat)), payloadBits_eq,
    lead_payload first.toNat first.toNat_lt low high]

/-- The bytes of a valid codepoint are its sequence. -/
theorem sequence_decodedOf {first : UInt8} {bytes : List UInt8} (low : 0xC2 ≤ first.toNat)
    (high : first.toNat ≤ 0xF4) (length : bytes.length = uriSeqLen first.toNat - 1)
    (inside : ∀ b ∈ bytes, 0x80 ≤ b.toNat ∧ b.toNat ≤ 0xBF)
    (least : minCodepoint (uriSeqLen first.toNat) ≤ decodedOf first bytes)
    : sequence (decodedOf first bytes) = first :: bytes := by
  have value := decodedOf_eq low high length
  generalize decodedOf first bytes = n at value least
  unfold uriSeqLen at length least
  unfold Utf8.sequence
  split at length
  · rename_i two
    obtain ⟨b1, rfl⟩ := List.length_eq_one_iff.mp length
    have range1 := inside b1 (by simp)
    simp only [if_pos two, List.map_cons, List.map_nil, List.foldl_cons, List.foldl_nil,
      minCodepoint, if_true] at value least
    rw [if_neg (by omega), if_pos (by omega), show 0xC0 + n / 64 = first.toNat by omega,
      show 0x80 + n % 64 = b1.toNat by omega, UInt8.ofNat_toNat, UInt8.ofNat_toNat]
  · rename_i two
    rw [if_neg two] at least value
    split at length
    · rename_i three
      match bytes, length with
      | [b1, b2], _ =>
      have range1 := inside b1 (by simp)
      have range2 := inside b2 (by simp)
      rw [if_pos three] at least value
      simp only [List.map_cons, List.map_nil, List.foldl_cons, List.foldl_nil] at value
      have least' : 0x800 ≤ n := least
      rw [if_neg (by omega), if_neg (by omega), if_pos (by omega),
        show 0xE0 + n / 4096 = first.toNat by omega,
        show 0x80 + n / 64 % 64 = b1.toNat by omega, show 0x80 + n % 64 = b2.toNat by omega]
      simp only [UInt8.ofNat_toNat]
    · rename_i three
      match bytes, length with
      | [b1, b2, b3], _ =>
      have range1 := inside b1 (by simp)
      have range2 := inside b2 (by simp)
      have range3 := inside b3 (by simp)
      rw [if_neg three] at least value
      simp only [List.map_cons, List.map_nil, List.foldl_cons, List.foldl_nil] at value
      have least' : 0x10000 ≤ n := least
      rw [if_neg (by omega), if_neg (by omega), if_neg (by omega),
        show 0xF0 + n / 262144 = first.toNat by omega,
        show 0x80 + n / 4096 % 64 = b1.toNat by omega,
        show 0x80 + n / 64 % 64 = b2.toNat by omega, show 0x80 + n % 64 = b3.toNat by omega]
      simp only [UInt8.ofNat_toNat]

/-- A percent sequence that is decoded is one of a character. -/
theorem uriDecodeSequence_char {src rest : List UInt8} {n : Nat}
    (found : uriDecodeSequence src = some (n, rest))
    : ∃ (c : Char) (text : List UInt8), c.toNat = n ∧ src = text ++ rest
      ∧ Triplets text (sequence c.toNat) := by
  unfold uriDecodeSequence at found
  split at found
  · cases found
  · rename_i first behind triplet
    obtain ⟨b, text, rfl, rfl, spelled⟩ := exists_triplet triplet
    split at found
    · rename_i ascii
      cases found
      obtain ⟨c, value⟩ := exists_char (show b.toNat < 0x110000 by omega) (by omega)
      refine ⟨c, text, value, rfl, ?_⟩
      rw [value, Utf8.sequence, if_pos ascii, UInt8.ofNat_toNat]
      exact spelled
    split at found
    · cases found
    split at found
    · cases found
    · rename_i lead numbers last others
      obtain ⟨text', bytes, rfl, spelled', rfl, length, inside⟩ := exists_continuations others
      dsimp only at found
      split at found
      · cases found
      split at found
      · cases found
      · rename_i range surrogate
        change ¬(decodedOf b bytes < _ ∨ _ < decodedOf b bytes) at range
        cases found
        have number : (UInt32.ofNat (decodedOf b bytes)).toNat = decodedOf b bytes :=
          UInt32.toNat_ofNat_of_lt' (by change _ < 2 ^ 32; omega)
        change ¬isSurrogate (UInt32.ofNat (decodedOf b bytes)) = true at surrogate
        rw [isSurrogate_iff, number, decide_eq_true_eq] at surrogate
        obtain ⟨c, value⟩ := exists_char (show decodedOf b bytes < 0x110000 by omega) surrogate
        refine ⟨c, text ++ text', value, (List.append_assoc _ _ _).symm, ?_⟩
        rw [value, sequence_decodedOf (by omega) (by omega) length inside (by omega)]
        exact spelled.append spelled'

/-- The decoder with the first byte and the continuation bytes of a sequence of more than one. -/
theorem uriDecodeSequence_bytes {c : Char} {first : UInt8} {bytes text : List UInt8}
    (spelled : Triplets text (first :: bytes)) (low : 0xC2 ≤ first.toNat)
    (high : first.toNat ≤ 0xF4) (length : bytes.length = uriSeqLen first.toNat - 1)
    (inside : ∀ b ∈ bytes, 0x80 ≤ b.toNat ∧ b.toNat ≤ 0xBF)
    (value : decodedOf first bytes = c.toNat)
    (least : minCodepoint (uriSeqLen first.toNat) ≤ c.toNat) (rest : List UInt8)
    : uriDecodeSequence (text ++ rest) = some (c.toNat, rest) := by
  obtain ⟨bound, scalar⟩ := char_scalar c
  obtain ⟨text', others, found⟩ := spelled.tripletAt rest
  have number : (UInt32.ofNat c.toNat).toNat = c.toNat :=
    UInt32.toNat_ofNat_of_lt' (by change _ < 2 ^ 32; omega)
  unfold uriDecodeSequence
  rw [found]
  dsimp only
  rw [if_neg (by omega), if_neg (by omega), ← length, others.continuationsAt inside rest]
  dsimp only
  rw [length]
  unfold decodedOf at value
  simp only [value]
  rw [if_neg (by omega), isSurrogate_iff, number, if_neg (by simpa using scalar)]

/-- The percent sequence of a character is decoded to it. -/
theorem uriDecodeSequence_sequence {c : Char} {text : List UInt8}
    (spelled : Triplets text (sequence c.toNat)) (rest : List UInt8)
    : uriDecodeSequence (text ++ rest) = some (c.toNat, rest) := by
  obtain ⟨bound, scalar⟩ := char_scalar c
  rcases sequence_cases bound with ⟨small, b, is, value⟩ | ⟨low, high, b0, b1, is, first, second⟩
    | ⟨low, high, b0, b1, b2, is, first, second, third⟩
    | ⟨low, b0, b1, b2, b3, is, first, second, third, fourth⟩
  · rw [is] at spelled
    obtain ⟨text', others, found⟩ := spelled.tripletAt rest
    cases others
    unfold uriDecodeSequence
    rw [found]
    dsimp only
    rw [if_pos (by omega), value]
    rfl
  · rw [is] at spelled
    have len : uriSeqLen b0.toNat = 2 := if_pos (by omega)
    have length : [b1].length = uriSeqLen b0.toNat - 1 := by rw [len]; rfl
    refine uriDecodeSequence_bytes spelled (by omega) (by omega) length ?_ ?_ ?_ rest
    · simp only [List.mem_singleton, forall_eq]
      omega
    · rw [decodedOf_eq (by omega) (by omega) length, if_pos (by omega)]
      simp only [List.map_cons, List.map_nil, List.foldl_cons, List.foldl_nil]
      omega
    · rw [len]
      exact low
  · rw [is] at spelled
    have len : uriSeqLen b0.toNat = 3 := by
      rw [uriSeqLen, if_neg (by omega), if_pos (by omega)]
    have length : [b1, b2].length = uriSeqLen b0.toNat - 1 := by rw [len]; rfl
    refine uriDecodeSequence_bytes spelled (by omega) (by omega) length ?_ ?_ ?_ rest
    · simp only [List.mem_cons, List.not_mem_nil, or_false, forall_eq_or_imp, forall_eq]
      omega
    · rw [decodedOf_eq (by omega) (by omega) length, if_neg (by omega), if_pos (by omega)]
      simp only [List.map_cons, List.map_nil, List.foldl_cons, List.foldl_nil]
      omega
    · rw [len]
      exact low
  · rw [is] at spelled
    have len : uriSeqLen b0.toNat = 4 := by
      rw [uriSeqLen, if_neg (by omega), if_neg (by omega)]
    have length : [b1, b2, b3].length = uriSeqLen b0.toNat - 1 := by rw [len]; rfl
    refine uriDecodeSequence_bytes spelled (by omega) (by omega) length ?_ ?_ ?_ rest
    · simp only [List.mem_cons, List.not_mem_nil, or_false, forall_eq_or_imp, forall_eq]
      omega
    · rw [decodedOf_eq (by omega) (by omega) length, if_neg (by omega), if_neg (by omega)]
      simp only [List.map_cons, List.map_nil, List.foldl_cons, List.foldl_nil]
      omega
    · rw [len]
      exact low

end Boomkat.Correctness
