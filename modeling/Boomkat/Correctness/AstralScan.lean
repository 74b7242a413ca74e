import Boomkat.Strings.Utf8
import Boomkat.Foundation.Utf8
import Mathlib.Tactic.IntervalCases

/-! The scan for four-byte sequences by words sees what a scan by bytes sees. -/

namespace Boomkat.Correctness
open Strings Utf8

-----------------------------------------------------------------------------------------
-- Zero bytes of a word
-----------------------------------------------------------------------------------------

/-- The word of eight bytes given as numbers, the first one lowest. -/
def ofBytes (y0 y1 y2 y3 y4 y5 y6 y7 : Nat) : Nat :=
  y0 + 2 ^ 8 * y1 + 2 ^ 16 * y2 + 2 ^ 24 * y3 + 2 ^ 32 * y4 + 2 ^ 40 * y5 + 2 ^ 48 * y6
    + 2 ^ 56 * y7

theorem highBits_getLsbD
    : ∀ i < 64, (0x8080808080808080 : BitVec 64).getLsbD i = decide (i % 8 = 7) := by
  decide +kernel

/-- Under the mask of the high bits, one of the eight is left. -/
theorem highBits_iff (x : BitVec 64)
    : (x &&& 0x8080808080808080 != 0) = true
      ↔ ∃ j < 8, x.toNat / 2 ^ (8 * j + 7) % 2 = 1 := by
  have bit (i : Nat) : x.getLsbD i = true ↔ x.toNat / 2 ^ i % 2 = 1 := by
    rw [← BitVec.testBit_toNat, Nat.testBit_eq_decide_div_mod_eq, decide_eq_true_eq]
  rw [bne_iff_ne]
  constructor
  · intro some
    by_contra none
    refine some (BitVec.eq_of_getLsbD_eq fun i small => ?_)
    rw [BitVec.getLsbD_and, highBits_getLsbD i small]
    change (_ && _) = (0#64).getLsbD i
    rw [BitVec.getLsbD_zero, Bool.and_eq_false_iff]
    by_cases place : i % 8 = 7
    · left
      rw [← Bool.not_eq_true, bit]
      intro set
      refine none ⟨i / 8, by omega, ?_⟩
      rwa [show 8 * (i / 8) + 7 = i by omega]
    · exact .inr (decide_eq_false place)
  · rintro ⟨j, small, set⟩ none
    have cleared := congrArg (fun y => BitVec.getLsbD y (8 * j + 7)) none
    simp only [BitVec.getLsbD_and] at cleared
    rw [(bit _).mpr set, highBits_getLsbD _ (by omega), decide_eq_true (by omega)] at cleared
    exact absurd cleared (by simp)

/-- The lowest zero byte borrows and shows its high bit; without one nothing borrows. -/
theorem hasZeroByte_iff (w : BitVec 64) {y0 y1 y2 y3 y4 y5 y6 y7 : Nat}
    (word : w.toNat = ofBytes y0 y1 y2 y3 y4 y5 y6 y7)
    (bytes
      : y0 < 256 ∧ y1 < 256 ∧ y2 < 256 ∧ y3 < 256 ∧ y4 < 256 ∧ y5 < 256 ∧ y6 < 256 ∧ y7 < 256)
    : hasZeroByte w = true
      ↔ y0 = 0 ∨ y1 = 0 ∨ y2 = 0 ∨ y3 = 0 ∨ y4 = 0 ∨ y5 = 0 ∨ y6 = 0 ∨ y7 = 0 := by
  have difference
      : (w - 0x0101010101010101).toNat
        = (ofBytes y0 y1 y2 y3 y4 y5 y6 y7 + (2 ^ 64 - 0x0101010101010101)) % 2 ^ 64 := by
    rw [BitVec.toNat_sub, word, Nat.add_comm]
    rfl
  have places (j : Nat) (small : j < 8)
      : ((w - 0x0101010101010101) &&& ~~~w).toNat / 2 ^ (8 * j + 7) % 2 = 1
        ↔ (ofBytes y0 y1 y2 y3 y4 y5 y6 y7 + (2 ^ 64 - 0x0101010101010101)) % 2 ^ 64
              / 2 ^ (8 * j + 7) % 2 = 1
          ∧ ¬ofBytes y0 y1 y2 y3 y4 y5 y6 y7 / 2 ^ (8 * j + 7) % 2 = 1 := by
    have bit (x : BitVec 64) : x.getLsbD (8 * j + 7) = decide (x.toNat / 2 ^ (8 * j + 7) % 2 = 1) := by
      rw [← BitVec.testBit_toNat, Nat.testBit_eq_decide_div_mod_eq]
    have joint := bit ((w - 0x0101010101010101) &&& ~~~w)
    rw [BitVec.getLsbD_and, BitVec.getLsbD_not, bit, bit, difference, word,
      decide_eq_true (show 8 * j + 7 < 64 by omega), Bool.true_and, ← decide_not] at joint
    rw [← decide_eq_true_iff (p := _ % 2 = 1), ← joint, Bool.and_eq_true, decide_eq_true_eq,
      decide_eq_true_eq]
  rw [hasZeroByte, highBits_iff]
  unfold ofBytes at places
  constructor
  · rintro ⟨j, small, set⟩
    rw [places j small] at set
    obtain ⟨borrowed, clear⟩ := set
    by_contra none
    interval_cases j <;> omega
  · intro zero
    -- The lowest zero byte is the place.
    have found (j : Nat) (small : j < 8) := (places j small).mpr
    rcases Nat.eq_zero_or_pos y0 with none0 | some0
    · exact ⟨0, by omega, found 0 (by omega) ⟨by omega, by omega⟩⟩
    rcases Nat.eq_zero_or_pos y1 with none1 | some1
    · exact ⟨1, by omega, found 1 (by omega) ⟨by omega, by omega⟩⟩
    rcases Nat.eq_zero_or_pos y2 with none2 | some2
    · exact ⟨2, by omega, found 2 (by omega) ⟨by omega, by omega⟩⟩
    rcases Nat.eq_zero_or_pos y3 with none3 | some3
    · exact ⟨3, by omega, found 3 (by omega) ⟨by omega, by omega⟩⟩
    rcases Nat.eq_zero_or_pos y4 with none4 | some4
    · exact ⟨4, by omega, found 4 (by omega) ⟨by omega, by omega⟩⟩
    rcases Nat.eq_zero_or_pos y5 with none5 | some5
    · exact ⟨5, by omega, found 5 (by omega) ⟨by omega, by omega⟩⟩
    rcases Nat.eq_zero_or_pos y6 with none6 | some6
    · exact ⟨6, by omega, found 6 (by omega) ⟨by omega, by omega⟩⟩
    · exact ⟨7, by omega, found 7 (by omega) ⟨by omega, by omega⟩⟩

-----------------------------------------------------------------------------------------
-- The scan
-----------------------------------------------------------------------------------------

/-- The operators on bits act on each byte of a word. -/
theorem and_loadWord (b0 b1 b2 b3 b4 b5 b6 b7 c0 c1 c2 c3 c4 c5 c6 c7 : UInt8)
    : loadWord b0 b1 b2 b3 b4 b5 b6 b7 &&& loadWord c0 c1 c2 c3 c4 c5 c6 c7
      = loadWord (b0 &&& c0) (b1 &&& c1) (b2 &&& c2) (b3 &&& c3) (b4 &&& c4) (b5 &&& c5)
        (b6 &&& c6) (b7 &&& c7) := by
  simp only [loadWord, UInt8.toBitVec_and, ← BitVec.and_append]

theorem xor_loadWord (b0 b1 b2 b3 b4 b5 b6 b7 c0 c1 c2 c3 c4 c5 c6 c7 : UInt8)
    : loadWord b0 b1 b2 b3 b4 b5 b6 b7 ^^^ loadWord c0 c1 c2 c3 c4 c5 c6 c7
      = loadWord (b0 ^^^ c0) (b1 ^^^ c1) (b2 ^^^ c2) (b3 ^^^ c3) (b4 ^^^ c4) (b5 ^^^ c5)
        (b6 ^^^ c6) (b7 ^^^ c7) := by
  simp only [loadWord, UInt8.toBitVec_xor, ← BitVec.xor_append]

/-- Mask and comparison act on each byte of a word. -/
theorem masked_loadWord (b0 b1 b2 b3 b4 b5 b6 b7 : UInt8)
    : (loadWord b0 b1 b2 b3 b4 b5 b6 b7 &&& 0xF8F8F8F8F8F8F8F8) ^^^ 0xF0F0F0F0F0F0F0F0
      = loadWord (b0 &&& 0xF8 ^^^ 0xF0) (b1 &&& 0xF8 ^^^ 0xF0) (b2 &&& 0xF8 ^^^ 0xF0)
        (b3 &&& 0xF8 ^^^ 0xF0) (b4 &&& 0xF8 ^^^ 0xF0) (b5 &&& 0xF8 ^^^ 0xF0)
        (b6 &&& 0xF8 ^^^ 0xF0) (b7 &&& 0xF8 ^^^ 0xF0) := by
  have mask : (0xF8F8F8F8F8F8F8F8 : BitVec 64)
      = loadWord 0xF8 0xF8 0xF8 0xF8 0xF8 0xF8 0xF8 0xF8 := by decide
  have lead : (0xF0F0F0F0F0F0F0F0 : BitVec 64)
      = loadWord 0xF0 0xF0 0xF0 0xF0 0xF0 0xF0 0xF0 0xF0 := by decide
  rw [mask, lead, and_loadWord, xor_loadWord]

theorem toNat_loadWord (b0 b1 b2 b3 b4 b5 b6 b7 : UInt8)
    : (loadWord b0 b1 b2 b3 b4 b5 b6 b7).toNat
      = ofBytes b0.toNat b1.toNat b2.toNat b3.toNat b4.toNat b5.toNat b6.toNat b7.toNat := by
  have append {w : Nat} (x : BitVec w) (b : UInt8)
      : (x ++ b.toBitVec).toNat = x.toNat * 2 ^ 8 + b.toNat := by
    rw [BitVec.toNat_append]
    exact shift_or b.toNat_lt
  unfold loadWord ofBytes
  rw [append, append, append, append, append, append, append]
  change _ = _
  rw [UInt8.toNat_toBitVec]
  omega

theorem isAstralLead_iff (b : UInt8) : isAstralLead b = true ↔ (b &&& 0xF8 ^^^ 0xF0).toNat = 0 := by
  rw [isAstralLead, beq_iff_eq]
  change _ ↔ _ = (0 : UInt8).toNat
  rw [UInt8.toNat_inj, UInt8.xor_eq_zero_iff]

/-- Both scans find the same, so that the rewrite is skipped only where it changes nothing. -/
theorem hasRawUtf8AstralWords_eq (data : List UInt8)
    : hasRawUtf8AstralWords data = hasRawUtf8Astral data := by
  induction data using hasRawUtf8AstralWords.induct with
  | case1 b0 b1 b2 b3 b4 b5 b6 b7 rest ih =>
      rw [hasRawUtf8AstralWords, ih]
      rw [masked_loadWord, hasRawUtf8Astral, Bool.eq_iff_iff, Bool.or_eq_true,
        hasZeroByte_iff _ (toNat_loadWord _ _ _ _ _ _ _ _)
          ⟨UInt8.toNat_lt _, UInt8.toNat_lt _, UInt8.toNat_lt _, UInt8.toNat_lt _,
            UInt8.toNat_lt _, UInt8.toNat_lt _, UInt8.toNat_lt _, UInt8.toNat_lt _⟩]
      simp only [← isAstralLead_iff, hasRawUtf8Astral, List.any_cons, Bool.or_eq_true, or_assoc]
  | case2 data short =>
      rw [hasRawUtf8AstralWords.eq_def]
      split
      · rename_i b0 b1 b2 b3 b4 b5 b6 b7 rest
        exact absurd rfl (short b0 b1 b2 b3 b4 b5 b6 b7 rest)
      · rfl

end Boomkat.Correctness
