import Boomkat.Strings.Utf8
import Boomkat.Foundation.Utf8

/-! The decoder and the encoders of strings on the sequences of codepoints. -/

namespace Boomkat.Correctness
open Strings Utf8

-----------------------------------------------------------------------------------------
-- Encoding
-----------------------------------------------------------------------------------------

/-- A byte of payload bits under the fixed bits of a sequence. -/
theorem toChar_or {fixed payload : UInt32} {a k : Nat} (isFixed : fixed.toNat = a * 2 ^ k)
    (below : payload.toNat < 2 ^ k)
    : toChar (payload ||| fixed) = UInt8.ofNat (fixed.toNat + payload.toNat) := by
  rw [← UInt8.toNat_inj, toChar, UInt32.toNat_toUInt8, UInt32.toNat_or, UInt8.toNat_ofNat',
    isFixed]
  congr 1
  rw [Nat.or_comm, ← Nat.shiftLeft_eq, shift_or below, Nat.shiftLeft_eq]

theorem toNat_lowSix (cp : UInt32) : (cp &&& 0x3F).toNat = cp.toNat % 64 := by
  rw [UInt32.toNat_and]
  exact Nat.and_two_pow_sub_one_eq_mod _ 6

theorem toNat_from (cp k : UInt32) (narrow : k.toNat < 32)
    : (cp >>> k).toNat = cp.toNat / 2 ^ k.toNat := by
  rw [UInt32.toNat_shiftRight, Nat.mod_eq_of_lt narrow, Nat.shiftRight_eq_div_pow]

/-- A continuation byte of the low bits. -/
theorem continuation_low (cp : UInt32)
    : toChar (cp &&& 0x3F ||| 0x80) = UInt8.ofNat (0x80 + cp.toNat % 64) := by
  have bits := toNat_lowSix cp
  rw [toChar_or (a := 2) (k := 6) rfl (by omega), bits]
  rfl

/-- The encoder writes the sequence of a codepoint. -/
theorem encodeCodepoint_sequence {cp : UInt32} (bound : cp.toNat < 0x110000)
    : encodeCodepoint cp = sequence cp.toNat := by
  unfold encodeCodepoint Utf8.sequence
  have lt (c : UInt32) : cp < c ↔ cp.toNat < c.toNat := UInt32.lt_iff_toNat_lt
  by_cases one : cp.toNat < 0x80
  · rw [if_pos ((lt 0x80).mpr one), if_pos one, toChar]
    rfl
  rw [if_neg (mt (lt 0x80).mp one), if_neg one]
  by_cases two : cp.toNat < 0x800
  · have lead := toNat_from cp 6 (by decide)
    rw [if_pos ((lt 0x800).mpr two), if_pos two, continuation_low,
      toChar_or (a := 6) (k := 5) rfl (by rw [lead]; change _ / 64 < 32; omega), lead]
    rfl
  rw [if_neg (mt (lt 0x800).mp two), if_neg two]
  by_cases three : cp.toNat < 0x10000
  · have lead := toNat_from cp 12 (by decide)
    rw [if_pos ((lt 0x10000).mpr three), if_pos three, continuation_low,
      continuation_low, toNat_from cp 6 (by decide),
      toChar_or (a := 14) (k := 4) rfl (by rw [lead]; change _ / 4096 < 16; omega), lead]
    rfl
  have lead := toNat_from cp 18 (by decide)
  have last : cp ≤ 0x10FFFF := UInt32.le_iff_toNat_le.mpr (Nat.le_of_lt_succ bound)
  rw [if_neg (mt (lt 0x10000).mp three), if_neg three, if_pos last, continuation_low,
    continuation_low, continuation_low, toNat_from cp 6 (by decide), toNat_from cp 12 (by decide),
    toChar_or (a := 30) (k := 3) rfl (by rw [lead]; change _ / 262144 < 8; omega), lead]
  rfl

/-- The encoder of surrogates writes the sequence as well. -/
theorem encodeSurrogate_sequence {cp : UInt32} (low : 0x800 ≤ cp.toNat)
    (high : cp.toNat < 0x10000)
    : encodeSurrogate cp = sequence cp.toNat := by
  rw [← encodeCodepoint_sequence (by omega)]
  have lt (c : UInt32) : cp < c ↔ cp.toNat < c.toNat := UInt32.lt_iff_toNat_lt
  unfold encodeCodepoint
  rw [if_neg (mt (lt 0x80).mp (by change ¬_ < 128; omega)),
    if_neg (mt (lt 0x800).mp (by change ¬_ < 2048; omega)), if_pos ((lt 0x10000).mpr high)]
  simp only [encodeSurrogate, toChar, UInt32.toUInt8_or]
  rfl

-----------------------------------------------------------------------------------------
-- Decoding
-----------------------------------------------------------------------------------------

/-- A sequence by its length, with the numbers of its bytes. -/
theorem sequence_cases {n : Nat} (bound : n < 0x110000)
    : (n < 0x80 ∧ ∃ b : UInt8, sequence n = [b] ∧ b.toNat = n)
      ∨ (0x80 ≤ n ∧ n < 0x800
        ∧ ∃ b0 b1 : UInt8, sequence n = [b0, b1] ∧ b0.toNat = 0xC0 + n / 64
          ∧ b1.toNat = 0x80 + n % 64)
      ∨ (0x800 ≤ n ∧ n < 0x10000
        ∧ ∃ b0 b1 b2 : UInt8, sequence n = [b0, b1, b2] ∧ b0.toNat = 0xE0 + n / 4096
          ∧ b1.toNat = 0x80 + n / 64 % 64 ∧ b2.toNat = 0x80 + n % 64)
      ∨ (0x10000 ≤ n
        ∧ ∃ b0 b1 b2 b3 : UInt8, sequence n = [b0, b1, b2, b3] ∧ b0.toNat = 0xF0 + n / 262144
          ∧ b1.toNat = 0x80 + n / 4096 % 64 ∧ b2.toNat = 0x80 + n / 64 % 64
          ∧ b3.toNat = 0x80 + n % 64) := by
  unfold Utf8.sequence
  split
  · exact .inl ⟨‹_›, _, rfl, toNat_ofNat (by omega)⟩
  split
  · exact .inr (.inl ⟨by omega, ‹_›, _, _, rfl, toNat_ofNat (by omega), toNat_ofNat (by omega)⟩)
  split
  · exact .inr (.inr (.inl ⟨by omega, ‹_›, _, _, _, rfl, toNat_ofNat (by omega),
      toNat_ofNat (by omega), toNat_ofNat (by omega)⟩))
  · exact .inr (.inr (.inr ⟨by omega, _, _, _, _, rfl, toNat_ofNat (by omega),
      toNat_ofNat (by omega), toNat_ofNat (by omega), toNat_ofNat (by omega)⟩))

/-- No byte of a longer sequence is an ASCII character. -/
theorem sequence_high {n : Nat} (bound : n < 0x110000) (high : 0x80 ≤ n)
    : ∀ b ∈ sequence n, 0x80 ≤ b.toNat := by
  intro b member
  rcases sequence_cases bound with ⟨small, -⟩ | ⟨-, -, b0, b1, is, first, second⟩
    | ⟨-, -, b0, b1, b2, is, first, second, third⟩
    | ⟨-, b0, b1, b2, b3, is, first, second, third, fourth⟩
  · omega
  all_goals
    rw [is] at member
    simp only [List.mem_cons, List.not_mem_nil, or_false] at member
  · rcases member with rfl | rfl <;> omega
  · rcases member with rfl | rfl | rfl <;> omega
  · rcases member with rfl | rfl | rfl | rfl <;> omega

theorem isContinuation_iff (b : UInt8) : isContinuation b = decide (b.toNat / 64 = 2) :=
  tail_iff b

/-- The first byte of a sequence gives its length. -/
theorem utf8SeqLen_sequence {n : Nat} (bound : n < 0x110000)
    : ∃ b tail, sequence n = b :: tail ∧ utf8SeqLen b = tail.length + 1 := by
  unfold utf8SeqLen
  rcases sequence_cases bound with ⟨small, b, is, value⟩ | ⟨low, high, b0, b1, is, value, -⟩
    | ⟨low, high, b0, b1, b2, is, value, -⟩ | ⟨low, b0, b1, b2, b3, is, value, -⟩
  · exact ⟨b, [], is, if_pos ((ascii_iff b).mpr (by omega))⟩
  · refine ⟨b0, [b1], is, ?_⟩
    rw [if_neg (mt (ascii_iff b0).mp (by omega)), if_pos]
    · rfl
    · rw [lead2_iff]
      exact decide_eq_true (by omega)
  · refine ⟨b0, [b1, b2], is, ?_⟩
    rw [if_neg (mt (ascii_iff b0).mp (by omega)), if_neg, if_pos]
    · rfl
    · rw [lead3_iff]
      exact decide_eq_true (by omega)
    · rw [lead2_iff, decide_eq_true_eq]
      omega
  · refine ⟨b0, [b1, b2, b3], is, ?_⟩
    rw [if_neg (mt (ascii_iff b0).mp (by omega)), if_neg, if_neg, if_pos]
    · rfl
    · rw [lead4_iff]
      exact decide_eq_true (by omega)
    · rw [lead3_iff, decide_eq_true_eq]
      omega
    · rw [lead2_iff, decide_eq_true_eq]
      omega

/-- The decoder of four bytes on the sequence of an astral codepoint. -/
theorem decodeAstral_sequence {n : Nat} (low : 0x10000 ≤ n) (bound : n < 0x110000)
    {b0 b1 b2 b3 : UInt8} (first : b0.toNat = 0xF0 + n / 262144)
    (second : b1.toNat = 0x80 + n / 4096 % 64) (third : b2.toNat = 0x80 + n / 64 % 64)
    (fourth : b3.toNat = 0x80 + n % 64)
    : ∃ cp, decodeAstral b0 b1 b2 b3 = some cp ∧ cp.toNat = n := by
  have value := codepoint4 b0 b1 b2 b3
  unfold decodeAstral
  simp only [isContinuation_iff]
  rw [if_pos (by simp only [Bool.and_eq_true, decide_eq_true_eq]; omega)]
  generalize (b0.toUInt32 &&& 0x07) <<< 18 ||| (b1.toUInt32 &&& 0x3F) <<< 12
    ||| (b2.toUInt32 &&& 0x3F) <<< 6 ||| (b3.toUInt32 &&& 0x3F) = cp at value ⊢
  refine ⟨cp, if_neg ?_, by omega⟩
  simp only [gt_iff_lt, UInt32.lt_iff_toNat_lt, Bool.or_eq_true, decide_eq_true_eq]
  change ¬(_ < 0x10000 ∨ 0x10FFFF < _)
  omega

/-- The decoder reads the codepoint of a sequence, whatever comes behind it. -/
theorem decodeCodepoint_sequence {n : Nat} (bound : n < 0x110000) (rest : List UInt8)
    : (decodeCodepoint (sequence n ++ rest)).toNat = n := by
  rcases sequence_cases bound with ⟨small, b, is, value⟩ | ⟨low, high, b0, b1, is, first, second⟩
    | ⟨low, high, b0, b1, b2, is, first, second, third⟩
    | ⟨low, b0, b1, b2, b3, is, first, second, third, fourth⟩
  · rw [is, List.singleton_append]
    unfold decodeCodepoint
    dsimp only
    rw [if_pos ((ascii_iff b).mpr (by omega))]
    exact value
  · have number := codepoint2 b0 b1
    rw [is, List.cons_append, List.singleton_append, decodeCodepoint,
      if_neg (mt (ascii_iff b0).mp (by omega)), lead2_iff, if_pos (decide_eq_true (by omega))]
    simp only [isContinuation_iff]
    rw [if_neg (by simp only [Bool.not_eq_true', decide_eq_false_iff_not]; omega)]
    generalize (b0.toUInt32 &&& 0x1F) <<< 6 ||| (b1.toUInt32 &&& 0x3F) = cp at number ⊢
    rw [if_neg (mt UInt32.lt_iff_toNat_lt.mp (by change ¬_ < 128; omega))]
    omega
  · have number := codepoint3 b0 b1 b2
    rw [is, List.cons_append, List.cons_append, List.singleton_append, decodeCodepoint,
      if_neg (mt (ascii_iff b0).mp (by omega)), lead2_iff, if_neg (by simp; omega), lead3_iff,
      if_pos (decide_eq_true (by omega))]
    simp only [isContinuation_iff]
    rw [if_neg (by simp only [Bool.or_eq_true, Bool.not_eq_true', decide_eq_false_iff_not]; omega)]
    generalize (b0.toUInt32 &&& 0x0F) <<< 12 ||| (b1.toUInt32 &&& 0x3F) <<< 6
      ||| (b2.toUInt32 &&& 0x3F) = cp at number ⊢
    rw [if_neg (mt UInt32.lt_iff_toNat_lt.mp (by change ¬_ < 2048; omega))]
    omega
  · obtain ⟨cp, decoded, number⟩ := decodeAstral_sequence low bound first second third fourth
    rw [is, List.cons_append, List.cons_append, List.cons_append, List.singleton_append,
      decodeCodepoint, if_neg (mt (ascii_iff b0).mp (by omega)), lead2_iff,
      if_neg (by simp; omega), lead3_iff, if_neg (by simp; omega), lead4_iff,
      if_pos (decide_eq_true (by omega))]
    simp only [decoded]
    exact number

end Boomkat.Correctness
