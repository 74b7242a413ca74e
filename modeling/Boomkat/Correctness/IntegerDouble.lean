import Boomkat.Json.Number
import Mathlib.Tactic.NormNum
import Mathlib.Tactic.Ring

/-! Integers of less than 54 bits as doubles: their bits, their value and the cast back. -/

namespace Boomkat.Correctness

open Machine

/-- The significand of an integer below 2^53 fills its 53 bits. -/
theorem shifted_bounds {m : Nat} (positive : m ≠ 0) (small : m < 2 ^ 53)
    : m.log2 ≤ 52 ∧ 2 ^ 52 ≤ m * 2 ^ (52 - m.log2) ∧ m * 2 ^ (52 - m.log2) < 2 ^ 53 := by
  have bits : m.log2 < 53 := (Nat.log2_lt positive).mpr small
  have below : 2 ^ m.log2 ≤ m := Nat.log2_self_le positive
  have above : m < 2 ^ (m.log2 + 1) := Nat.lt_log2_self
  have lower : 2 ^ m.log2 * 2 ^ (52 - m.log2) = 2 ^ 52 := by
    rw [← Nat.pow_add]
    congr 1
    omega
  have upper : 2 ^ (m.log2 + 1) * 2 ^ (52 - m.log2) = 2 ^ 53 := by
    rw [← Nat.pow_add]
    congr 1
    omega
  refine ⟨by omega, ?_, ?_⟩
  · rw [← lower]
    exact Nat.mul_le_mul_right _ below
  · rw [← upper]
    exact Nat.mul_lt_mul_of_pos_right above (Nat.two_pow_pos _)

/-- The bits of an integer below 2^53. -/
theorem toNat_ofInt {n : Int} (nonzero : n ≠ 0) (small : n.natAbs < 2 ^ 53)
    : (Double.ofInt n).toNat
      = (if n < 0 then 2 ^ 63 else 0) + (n.natAbs.log2 + 1022) * 2 ^ 52
        + n.natAbs * 2 ^ (52 - n.natAbs.log2) := by
  have positive : n.natAbs ≠ 0 := Int.natAbs_ne_zero.mpr nonzero
  obtain ⟨bits, lower, upper⟩ := shifted_bounds positive small
  simp only [Double.ofInt, bits, positive, if_true, if_false, BitVec.toNat_ofNat]
  split <;> omega

/-- The fields of an integer below 2^53. -/
theorem ofInt_fields {n : Int} (nonzero : n ≠ 0) (small : n.natAbs < 2 ^ 53)
    : (Double.ofInt n).biased = n.natAbs.log2 + 1023
      ∧ (Double.ofInt n).significand = n.natAbs * 2 ^ (52 - n.natAbs.log2)
      ∧ (Double.ofInt n).isNegative = decide (n < 0) := by
  obtain ⟨bits, lower, upper⟩ := shifted_bounds (Int.natAbs_ne_zero.mpr nonzero) small
  have layout := toNat_ofInt nonzero small
  have biased : (Double.ofInt n).biased = n.natAbs.log2 + 1023 := by
    rw [Double.biased, layout]
    split <;> omega
  refine ⟨biased, ?_, ?_⟩
  · rw [Double.significand, biased, if_neg (by omega), layout]
    split <;> omega
  · rw [Double.isNegative, layout]
    split <;> simp_all <;> omega

theorem ofInt_zero : Double.ofInt 0 = 0 := by decide

theorem isFinite_ofInt {n : Int} (small : n.natAbs < 2 ^ 53) : (Double.ofInt n).isFinite := by
  rcases Decidable.em (n = 0) with rfl | nonzero
  · decide
  · obtain ⟨biased, -, -⟩ := ofInt_fields nonzero small
    obtain ⟨bits, -, -⟩ := shifted_bounds (Int.natAbs_ne_zero.mpr nonzero) small
    simp only [Double.isFinite, biased, bne_iff_ne]
    omega

theorem scale_ofInt {n : Int} (nonzero : n ≠ 0) (small : n.natAbs < 2 ^ 53)
    : (Double.ofInt n).scale = (n.natAbs.log2 : Int) - 52 := by
  obtain ⟨biased, -, -⟩ := ofInt_fields nonzero small
  simp only [Double.scale, biased]
  omega

/-- An integer below 2^53 is the value of its double. -/
theorem value_ofInt {n : Int} (small : n.natAbs < 2 ^ 53) : (Double.ofInt n).value = n := by
  rcases Decidable.em (n = 0) with rfl | nonzero
  · simp [ofInt_zero, Double.value, Double.significand, Double.biased]
  · obtain ⟨-, significand, sign⟩ := ofInt_fields nonzero small
    obtain ⟨bits, -, -⟩ := shifted_bounds (Int.natAbs_ne_zero.mpr nonzero) small
    have power : ((2 : ℚ) ^ (52 - n.natAbs.log2)) * 2 ^ ((n.natAbs.log2 : Int) - 52) = 1 := by
      rw [← zpow_natCast, ← zpow_add₀ (by norm_num)]
      simp [Nat.cast_sub bits]
    have magnitude : ((Double.ofInt n).significand : ℚ) * 2 ^ (Double.ofInt n).scale
        = n.natAbs := by
      rw [significand, scale_ofInt nonzero small]
      push_cast
      rw [mul_assoc, power, mul_one]
    simp only [Double.value, magnitude, sign, decide_eq_true_eq]
    split
    · have absolute : (n.natAbs : Int) = -n := by omega
      rw [← Int.cast_natCast, absolute]
      simp
    · have absolute : (n.natAbs : Int) = n := by omega
      rw [← Int.cast_natCast, absolute]

/-- The cast back from the double of an integer below 2^53 gives the integer. -/
theorem toLong_ofInt {n : Int} (outside : Double → Int) (small : n.natAbs < 2 ^ 53)
    : (Double.ofInt n).toLong outside = n := by
  rcases Decidable.em (n = 0) with rfl | nonzero
  · simp [ofInt_zero, Double.toLong, Double.significand, Double.biased, Double.isFinite]
  · obtain ⟨-, significand, sign⟩ := ofInt_fields nonzero small
    obtain ⟨bits, -, -⟩ := shifted_bounds (Int.natAbs_ne_zero.mpr nonzero) small
    have shifted : (if 0 ≤ (Double.ofInt n).scale
          then (Double.ofInt n).significand * 2 ^ (Double.ofInt n).scale.toNat
          else (Double.ofInt n).significand / 2 ^ (-(Double.ofInt n).scale).toNat)
        = n.natAbs := by
      rw [significand, scale_ofInt nonzero small]
      split
      · have full : n.natAbs.log2 = 52 := by omega
        simp [full]
      · have shift : (-((n.natAbs.log2 : Int) - 52)).toNat = 52 - n.natAbs.log2 := by omega
        rw [shift]
        exact Nat.mul_div_cancel _ (Nat.two_pow_pos _)
    have signed : (if (Double.ofInt n).isNegative then -(n.natAbs : Int) else n.natAbs) = n := by
      simp only [sign, decide_eq_true_eq]
      split <;> omega
    simp only [Double.toLong, shifted, signed]
    rw [if_pos ⟨isFinite_ofInt small, by omega, by omega⟩]

/-- Different integers below 2^53 are different doubles, by the cast back. -/
theorem ofInt_injective {m n : Int} (left : m.natAbs < 2 ^ 53) (right : n.natAbs < 2 ^ 53)
    (same : Double.ofInt m = Double.ofInt n)
    : m = n := by
  have cast := congrArg (Double.toLong fun _ => 0) same
  rwa [toLong_ofInt _ left, toLong_ofInt _ right] at cast

theorem isNan_ofInt {n : Int} (small : n.natAbs < 2 ^ 53) : (Double.ofInt n).isNan = false := by
  have finite := isFinite_ofInt small
  simp only [Double.isFinite, Double.biased, bne_iff_ne] at finite
  simp only [Double.isNan, Bool.and_eq_false_iff, beq_eq_false_iff_ne]
  exact .inl finite

/-- No integer is cast to the negative zero. -/
theorem ofInt_ne_negZero {n : Int} (small : n.natAbs < 2 ^ 53)
    : Double.ofInt n ≠ 0x8000000000000000 := by
  intro same
  rcases Decidable.em (n = 0) with rfl | nonzero
  · exact absurd same (by decide)
  · have layout := toNat_ofInt nonzero small
    obtain ⟨bits, lower, upper⟩ := shifted_bounds (Int.natAbs_ne_zero.mpr nonzero) small
    have zero : (0x8000000000000000 : Double).toNat = 2 ^ 63 := rfl
    rw [same, zero] at layout
    split at layout <;> omega

/-- Doubles that compare equal have the same bits, apart from the two zeros. -/
theorem eq_of_double_eq {x y : Double} (same : Double.eq x y = true)
    (left : x ≠ 0x8000000000000000) (right : y ≠ 0x8000000000000000)
    : x = y := by
  have zero : (0x8000000000000000 : Double).toNat = 2 ^ 63 := rfl
  have left' : x.toNat ≠ 2 ^ 63 := fun same => left (BitVec.eq_of_toNat_eq (same.trans zero.symm))
  have right' : y.toNat ≠ 2 ^ 63 := fun same => right (BitVec.eq_of_toNat_eq (same.trans zero.symm))
  have ranks : x.rank = y.rank := by simp_all [Double.eq]
  simp only [Double.rank] at ranks
  apply BitVec.eq_of_toNat_eq
  split at ranks <;> split at ranks <;> omega

end Boomkat.Correctness
