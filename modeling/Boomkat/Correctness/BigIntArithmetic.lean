import Boomkat.BigInts.Arithmetic
import Boomkat.Foundation.TwosComplement
import Mathlib.Tactic.NormNum
import Mathlib.Data.Rat.Defs
import Mathlib.Algebra.Order.Field.Rat

/-! BigInt operators: the exact integer wherever 128 bits hold it, and a fault where they do not.
-/

namespace Boomkat.Correctness
open Bytecode BigInts TwosComplement

/-- An exact integer as the result of checked arithmetic. -/
def narrow (n : Int) : Except Fault Int128 :=
  if Holds 128 n then .ok (BitVec.ofInt 128 n) else .error .bigintOverflow

theorem narrow_toInt (x : Int128) : narrow x.toInt = .ok x := by
  rw [narrow, if_pos (holds_toInt x), BitVec.ofInt_toInt]

theorem narrow_of_toInt {x : Int128} {n : Int} (value : x.toInt = n) : narrow n = .ok x := by
  rw [← value, narrow_toInt]

theorem narrow_of_not {n : Int} (beyond : ¬Holds 128 n)
    : narrow n = .error .bigintOverflow :=
  if_neg beyond

/-- The result of an integer that is held has that integer as its value. -/
theorem narrow_of_holds {n : Int} (held : Holds 128 n)
    : ∃ x : Int128, narrow n = .ok x ∧ x.toInt = n :=
  ⟨BitVec.ofInt 128 n, if_pos held, toInt_ofInt (by decide) held⟩

theorem holds_iff (n : Int) : Holds 128 n ↔ -2 ^ 127 ≤ n ∧ n < 2 ^ 127 := Iff.rfl

-----------------------------------------------------------------------------------------
-- Sums and negation
-----------------------------------------------------------------------------------------

theorem bigintAdd_exact (a b : Int128) : bigintAdd a b = narrow (a.toInt + b.toInt) := by
  have test : ((a ^^^ (a + b)) &&& (b ^^^ (a + b))).slt 0 = a.saddOverflow b := by
    rw [BitVec.saddOverflow_eq]
    change BitVec.slt _ 0#128 = _
    rw [BitVec.slt_zero_eq_msb, BitVec.msb_and, BitVec.msb_xor, BitVec.msb_xor]
    cases a.msb <;> cases b.msb <;> cases (a + b).msb <;> rfl
  have overflow : a.saddOverflow b = true ↔ ¬Holds 128 (a.toInt + b.toInt) := by
    simp only [BitVec.saddOverflow, holds_iff, Bool.or_eq_true, decide_eq_true_eq]
    omega
  simp only [bigintAdd, test]
  by_cases past : a.saddOverflow b = true
  · rw [if_pos past, narrow_of_not (overflow.mp past)]
  · rw [if_neg past]
    exact (narrow_of_toInt (BitVec.toInt_add_of_not_saddOverflow past)).symm

theorem bigintSub_exact (a b : Int128) : bigintSub a b = narrow (a.toInt - b.toInt) := by
  have test : ((a ^^^ b) &&& (a ^^^ (a - b))).slt 0 = a.ssubOverflow b := by
    rw [BitVec.ssubOverflow_eq]
    change BitVec.slt _ 0#128 = _
    rw [BitVec.slt_zero_eq_msb, BitVec.msb_and, BitVec.msb_xor, BitVec.msb_xor]
    cases a.msb <;> cases b.msb <;> cases (a - b).msb <;> rfl
  have overflow : a.ssubOverflow b = true ↔ ¬Holds 128 (a.toInt - b.toInt) := by
    simp only [BitVec.ssubOverflow, holds_iff, Bool.or_eq_true, decide_eq_true_eq]
    omega
  simp only [bigintSub, test]
  by_cases past : a.ssubOverflow b = true
  · rw [if_pos past, narrow_of_not (overflow.mp past)]
  · rw [if_neg past]
    exact (narrow_of_toInt (BitVec.toInt_sub_of_not_ssubOverflow past)).symm

theorem bigintMin_toInt : bigintMin.toInt = -2 ^ 127 := by decide

theorem eq_bigintMin_iff (a : Int128) : a = bigintMin ↔ a.toInt = -2 ^ 127 := by
  rw [← bigintMin_toInt, BitVec.toInt_inj]

theorem eq_minusOne_iff (b : Int128) : b = -1 ↔ b.toInt = -1 := by
  rw [← BitVec.toInt_inj]
  exact Iff.rfl

theorem eq_zero_iff (b : Int128) : b = 0 ↔ b.toInt = 0 := by
  rw [← BitVec.toInt_inj]
  exact Iff.rfl

theorem bigintNeg_exact (a : Int128) : bigintNeg a = narrow (-a.toInt) := by
  obtain ⟨low, high⟩ := (holds_iff _).mp (holds_toInt a)
  unfold bigintNeg
  by_cases least : a = bigintMin
  · rw [if_pos least]
    rw [eq_bigintMin_iff] at least
    exact (narrow_of_not (by rw [holds_iff]; omega)).symm
  · rw [if_neg least]
    rw [eq_bigintMin_iff] at least
    refine (narrow_of_toInt (toInt_eq_of_congruent (by decide) ?_ ?_)).symm
    · rw [holds_iff]
      omega
    · rw [BitVec.toInt_neg]
      exact dvd_bmod_sub _

-----------------------------------------------------------------------------------------
-- Products and quotients
-----------------------------------------------------------------------------------------

/-- Dividing a product that wrapped around never gives the factor back: what is left of the
division is smaller than the distance of the wrap.
-/
theorem tdiv_ne_of_wrapped {r a b p : Int} (wraps : (2 : Int) ^ 128 ∣ r - p) (product : p = a * b)
    (moved : r ≠ p) (nonzero : b ≠ 0) (small : Holds 128 b)
    : r.tdiv b ≠ a := by
  intro back
  obtain ⟨low, high⟩ := (holds_iff _).mp small
  have division := Int.mul_tdiv_add_tmod r b
  rw [back, mul_comm b a, ← product] at division
  obtain ⟨k, multiple⟩ := wraps
  have bound : (r.tmod b).natAbs < b.natAbs := by
    rw [Int.natAbs_tmod]
    exact Nat.mod_lt _ (Int.natAbs_pos.mpr nonzero)
  omega

theorem bigintMul_exact (a b : Int128) : bigintMul a b = narrow (a.toInt * b.toInt) := by
  obtain ⟨lowA, highA⟩ := (holds_iff _).mp (holds_toInt a)
  obtain ⟨lowB, highB⟩ := (holds_iff _).mp (holds_toInt b)
  unfold bigintMul
  by_cases zero : a = 0 ∨ b = 0
  · rw [if_pos zero]
    rw [eq_zero_iff, eq_zero_iff] at zero
    exact (narrow_of_toInt (by rcases zero with zero | zero <;> simp [zero])).symm
  rw [if_neg zero]
  rw [eq_zero_iff, eq_zero_iff] at zero
  dsimp only
  by_cases special : a = bigintMin ∧ b = -1 ∨ b = bigintMin ∧ a = -1
  · rw [if_pos special]
    simp only [eq_bigintMin_iff, eq_minusOne_iff] at special
    refine (narrow_of_not ?_).symm
    rw [holds_iff]
    rcases special with ⟨least, minus⟩ | ⟨least, minus⟩ <;> rw [least, minus] <;> norm_num
  rw [if_neg special]
  have wraps : (2 : Int) ^ 128 ∣ (a * b).toInt - a.toInt * b.toInt := by
    rw [BitVec.toInt_mul]
    exact dvd_bmod_sub _
  have quotient : ((a * b).sdiv b).toInt = (a * b).toInt.tdiv b.toInt := by
    refine BitVec.toInt_sdiv_of_ne_or_ne _ _ ?_
    by_contra both
    rw [not_or, not_not, not_not] at both
    obtain ⟨least, minus⟩ := both
    have minus : b.toInt = -1 := (eq_minusOne_iff b).mp minus
    have least : (a * b).toInt = -2 ^ 127 := (eq_bigintMin_iff _).mp least
    simp only [eq_bigintMin_iff, eq_minusOne_iff] at special
    rw [least, minus] at wraps
    omega
  by_cases held : Holds 128 (a.toInt * b.toInt)
  · have value := toInt_eq_of_congruent (by decide) held wraps
    have back : (a * b).sdiv b = a := by
      rw [← BitVec.toInt_inj, quotient, value]
      exact Int.mul_tdiv_cancel _ (fun none => zero (.inr none))
    rw [if_neg (not_not.mpr back)]
    exact (narrow_of_toInt value).symm
  · rw [narrow_of_not held, if_pos]
    intro back
    rw [← BitVec.toInt_inj, quotient] at back
    refine tdiv_ne_of_wrapped wraps rfl ?_ (fun none => zero (.inr none)) (holds_toInt b) back
    intro same
    exact held (same ▸ holds_toInt (a * b))

theorem bigintDiv_exact (a b : Int128)
    : bigintDiv a b
      = if b.toInt = 0 then .error .bigintDivZero else narrow (a.toInt.tdiv b.toInt) := by
  unfold bigintDiv
  by_cases zero : b = 0
  · rw [if_pos zero, if_pos ((eq_zero_iff b).mp zero)]
  rw [if_neg zero, if_neg (fun none => zero ((eq_zero_iff b).mpr none))]
  by_cases special : a = bigintMin ∧ b = -1
  · rw [if_pos special]
    simp only [eq_bigintMin_iff, eq_minusOne_iff] at special
    rw [special.1, special.2]
    exact (narrow_of_not (by decide)).symm
  · rw [if_neg special]
    refine (narrow_of_toInt (BitVec.toInt_sdiv_of_ne_or_ne a b ?_)).symm
    exact not_and_or.mp special

theorem bigintRem_exact (a b : Int128)
    : bigintRem a b
      = if b.toInt = 0 then .error .bigintDivZero else narrow (a.toInt.tmod b.toInt) := by
  unfold bigintRem
  by_cases zero : b = 0
  · rw [if_pos zero, if_pos ((eq_zero_iff b).mp zero)]
  rw [if_neg zero, if_neg (fun none => zero ((eq_zero_iff b).mpr none))]
  by_cases special : a = bigintMin ∧ b = -1
  · rw [if_pos special]
    simp only [eq_bigintMin_iff, eq_minusOne_iff] at special
    rw [special.1, special.2]
    exact (narrow_of_toInt (x := 0) (by decide)).symm
  · rw [if_neg special]
    exact (narrow_of_toInt (BitVec.toInt_srem a b)).symm

-----------------------------------------------------------------------------------------
-- Powers
-----------------------------------------------------------------------------------------

/-- An integer beyond the range stays beyond it when it is multiplied by a positive one. -/
theorem not_holds_mul {n m : Int} (beyond : ¬Holds 128 n) (positive : 0 < m)
    : ¬Holds 128 (n * m) := by
  rw [holds_iff] at beyond ⊢
  intro ⟨low, high⟩
  rcases le_or_gt n 0 with negative | past
  · have : n * m ≤ n := by nlinarith
    omega
  · have : n ≤ n * m := by nlinarith
    omega

/-- No square is `2 ^ 127`, so that one beyond the range is beyond its lower end as well. -/
theorem square_beyond {n : Int} (beyond : ¬Holds 128 (n * n)) : 2 ^ 127 < n * n := by
  have square : n * n = (n.natAbs * n.natAbs : Nat) := (Int.natAbs_mul_self).symm
  have low : 2 ^ 127 ≤ n * n := by
    rw [holds_iff] at beyond
    have := mul_self_nonneg n
    omega
  refine lt_of_le_of_ne low fun same => ?_
  rw [square] at same
  have same : n.natAbs * n.natAbs = 2 ^ 127 := by exact_mod_cast same.symm
  rcases Nat.lt_or_ge n.natAbs 13043817825332782213 with below | above
  · have := Nat.mul_le_mul (Nat.le_of_lt_succ below) (Nat.le_of_lt_succ below)
    omega
  · have := Nat.mul_le_mul above above
    omega

/-- The step of an exponent: its last bit, and twice the rest. -/
theorem pow_halved (base : Int) (exp : Nat)
    : base ^ exp = (if exp % 2 = 1 then base else 1) * (base * base) ^ (exp / 2) := by
  rw [← pow_two, ← pow_mul]
  split
  · rw [← pow_succ']
    congr 1
    omega
  · rw [one_mul]
    congr 1
    omega

/-- The loop gives the exact power. An overflow on the way is one of the result: the factors
still to come have magnitude one at least, and all but the one of the last bit are squares.
-/
theorem powLoop_exact (exp : Nat)
    : ∀ result base : Int128, result.toInt ≠ 0 ∨ base.toInt = 0 →
        powLoop result base exp = narrow (result.toInt * base.toInt ^ exp) := by
  induction exp using Nat.strong_induction_on with
  | _ exp ih =>
  intro result base fits
  rw [powLoop]
  by_cases done : exp = 0
  · rw [dif_pos done, done, pow_zero, mul_one, narrow_toInt]
  rw [dif_neg done]
  have whole := pow_halved base.toInt exp
  have stepped
      : (if exp % 2 = 1 then bigintMul result base else .ok result)
        = narrow (result.toInt * if exp % 2 = 1 then base.toInt else 1) := by
    split
    · exact bigintMul_exact result base
    · rw [mul_one, narrow_toInt]
  rw [stepped, whole, ← mul_assoc]
  generalize factor : result.toInt * (if exp % 2 = 1 then base.toInt else 1) = partial_
  by_cases heldPartial : Holds 128 partial_
  · obtain ⟨product, isOk, value⟩ := narrow_of_holds heldPartial
    simp only [isOk, Except.bind]
    by_cases last : exp / 2 = 0
    · rw [if_pos last, last, pow_zero, mul_one]
      exact isOk.symm
    rw [if_neg last, bigintMul_exact]
    have squares : 0 < base.toInt * base.toInt ∨ base.toInt = 0 := by
      rcases eq_or_ne base.toInt 0 with none | some
      · exact .inr none
      · exact .inl (mul_self_pos.mpr some)
    have alive : partial_ ≠ 0 ∨ base.toInt = 0 := by
      rcases eq_or_ne base.toInt 0 with none | some
      · exact .inr none
      · left
        rw [← factor]
        refine mul_ne_zero (fits.resolve_right some) ?_
        split
        · exact some
        · exact one_ne_zero
    by_cases heldSquare : Holds 128 (base.toInt * base.toInt)
    · obtain ⟨square, squareOk, squareValue⟩ := narrow_of_holds heldSquare
      simp only [squareOk]
      rw [ih (exp / 2) (by omega) product square ?_, value, squareValue]
      rw [value, squareValue]
      rcases alive with alive | none
      · exact .inl alive
      · exact .inr (by rw [none, mul_zero])
    · simp only [narrow_of_not heldSquare]
      refine (narrow_of_not ?_).symm
      have far := square_beyond heldSquare
      have nonzero : base.toInt ≠ 0 := by
        intro none
        rw [none] at far
        omega
      have power : base.toInt * base.toInt ≤ (base.toInt * base.toInt) ^ (exp / 2) :=
        le_self_pow₀ (by omega) last
      generalize (base.toInt * base.toInt) ^ (exp / 2) = rest at power ⊢
      have := alive.resolve_right nonzero
      rw [holds_iff]
      intro ⟨low, high⟩
      rcases lt_or_gt_of_ne this with negative | positive
      · have : partial_ * rest ≤ -rest := by nlinarith
        omega
      · have : rest ≤ partial_ * rest := by nlinarith
        omega
  · simp only [narrow_of_not heldPartial, Except.bind]
    refine (narrow_of_not (not_holds_mul heldPartial (pow_pos ?_ _))).symm
    refine mul_self_pos.mpr fun none => heldPartial ?_
    rw [← factor, none]
    split
    · rw [mul_zero]
      decide
    · rw [mul_one]
      exact holds_toInt result

theorem slt_zero_iff (b : Int128) : b.slt 0 = true ↔ b.toInt < 0 := by
  rw [BitVec.slt_iff_toInt_lt]
  exact Iff.rfl

theorem toInt_eq_toNat {b : Int128} (natural : 0 ≤ b.toInt) : b.toInt = b.toNat := by
  refine BitVec.toInt_eq_toNat_of_msb ?_
  rw [BitVec.msb_eq_toInt]
  exact decide_eq_false (not_lt.mpr natural)

/-- The power is exact, and a negative exponent always faults. -/
theorem bigintPow_exact (a b : Int128)
    : bigintPow a b
      = if b.toInt < 0 then .error .bigintOverflow else narrow (a.toInt ^ b.toInt.toNat) := by
  unfold bigintPow
  by_cases negative : b.toInt < 0
  · rw [if_pos ((slt_zero_iff b).mpr negative), if_pos negative]
  · rw [if_neg (mt (slt_zero_iff b).mp negative), if_neg negative,
      powLoop_exact b.toNat 1 a (.inl (by decide)), toInt_eq_toNat (not_lt.mp negative)]
    congr 1
    exact one_mul _

-----------------------------------------------------------------------------------------
-- Shifts
-----------------------------------------------------------------------------------------

theorem sshiftRight_toInt (v : Int128) (count : Nat)
    : (v.sshiftRight count).toInt = v.toInt / 2 ^ count := by
  rw [BitVec.toInt_sshiftRight, Int.shiftRight_eq_div_pow]
  norm_cast

/-- By the width or more, only the sign is left of a value. -/
theorem shiftedOut_toInt (v : Int128) {count : Nat} (wide : 127 ≤ count)
    : (shiftedOut v).toInt = v.toInt / 2 ^ count := by
  obtain ⟨low, high⟩ := (holds_iff _).mp (holds_toInt v)
  have power : (2 : Int) ^ 127 ≤ 2 ^ count := pow_le_pow_right₀ (by decide) wide
  unfold shiftedOut
  by_cases negative : v.toInt < 0
  · rw [if_pos ((slt_zero_iff v).mpr negative)]
    symm
    have minusOne : (-1 : Int128).toInt = -1 := by decide
    rw [Int.ediv_eq_iff_of_pos (by omega), minusOne]
    constructor <;> omega
  · rw [if_neg (mt (slt_zero_iff v).mp negative)]
    exact (Int.ediv_eq_zero_of_lt (not_lt.mp negative) (by omega)).symm

theorem shiftLeftChecked_exact (v : Int128) {count : Nat} (narrower : count < 128)
    : shiftLeftChecked v count = narrow (v.toInt * 2 ^ count) := by
  have wraps : (2 : Int) ^ 128 ∣ (v <<< count).toInt - v.toInt * 2 ^ count := by
    have shifted : ((v.toNat <<< count : Nat) : Int) = v.toNat * 2 ^ count := by
      rw [Nat.shiftLeft_eq]
      push_cast
      rfl
    have parts
        : (v <<< count).toInt - v.toInt * 2 ^ count
          = ((v <<< count).toInt - v.toNat * 2 ^ count)
            + (v.toNat - v.toInt) * 2 ^ count := by
      ring
    rw [parts, BitVec.toInt_shiftLeft, shifted]
    exact Int.dvd_add (dvd_bmod_sub _) (Dvd.dvd.mul_right (dvd_toNat_sub_toInt v) _)
  have power : (2 : Int) ^ count ≤ 2 ^ 127 := pow_le_pow_right₀ (by decide) (by omega)
  have positive : (0 : Int) < 2 ^ count := by positivity
  unfold shiftLeftChecked
  dsimp only
  by_cases held : Holds 128 (v.toInt * 2 ^ count)
  · have value := toInt_eq_of_congruent (by decide) held wraps
    have back : (v <<< count).sshiftRight count = v := by
      rw [← BitVec.toInt_inj, sshiftRight_toInt, value]
      exact Int.mul_ediv_cancel _ positive.ne'
    rw [if_neg (not_not.mpr back)]
    exact (narrow_of_toInt value).symm
  · rw [narrow_of_not held, if_pos]
    intro back
    rw [← BitVec.toInt_inj, sshiftRight_toInt] at back
    have division := Int.mul_ediv_add_emod (v <<< count).toInt (2 ^ count)
    rw [back, mul_comm] at division
    have lower := Int.emod_nonneg (v <<< count).toInt positive.ne'
    have upper := Int.emod_lt_of_pos (v <<< count).toInt positive
    obtain ⟨k, multiple⟩ := wraps
    have same : (v <<< count).toInt = v.toInt * 2 ^ count := by omega
    exact held (same ▸ holds_toInt (v <<< count))

/-- `n` shifted left, where a negative count shifts right and rounds down. -/
def shiftedBy (n count : Int) : Int :=
  if 0 ≤ count then n * 2 ^ count.toNat else n / 2 ^ (-count).toNat

theorem shiftedBy_zero (n : Int) : shiftedBy n 0 = n := by simp [shiftedBy]

theorem shiftedBy_negative (n : Int) {count : Int} (negative : count < 0)
    : shiftedBy n count = n / 2 ^ (-count).toNat :=
  if_neg (not_le.mpr negative)

theorem shiftedBy_positive (n : Int) {count : Int} (positive : 0 < count)
    : shiftedBy n count = n * 2 ^ count.toNat :=
  if_pos positive.le

/-- By the width or more, a value other than zero is shifted out of the range. -/
theorem not_holds_shifted {n : Int} (nonzero : n ≠ 0) {count : Nat} (wide : 128 ≤ count)
    : ¬Holds 128 (n * 2 ^ count) := by
  have power : (2 : Int) ^ 128 ≤ 2 ^ count := pow_le_pow_right₀ (by decide) wide
  rw [holds_iff]
  intro ⟨low, high⟩
  rcases lt_or_gt_of_ne nonzero with negative | positive
  · have : n * 2 ^ count ≤ -2 ^ count := by nlinarith
    omega
  · have : 2 ^ count ≤ n * 2 ^ count := by nlinarith
    omega

theorem sle_minusWidth_iff (count : Int128) : count.sle (-128) = true ↔ count.toInt ≤ -128 := by
  rw [BitVec.sle_iff_toInt_le]
  exact Iff.rfl

theorem width_sle_iff (count : Int128)
    : (128 : Int128).sle count = true ↔ 128 ≤ count.toInt := by
  rw [BitVec.sle_iff_toInt_le]
  exact Iff.rfl

theorem zero_slt_iff (count : Int128) : (0 : Int128).slt count = true ↔ 0 < count.toInt := by
  rw [BitVec.slt_iff_toInt_lt]
  exact Iff.rfl

/-- The magnitude of a negative count that is no wider than the word. -/
theorem toNat_neg_count (count : Int128) (negative : count.toInt < 0)
    (narrower : -128 < count.toInt)
    : (-count).toNat = (-count.toInt).toNat := by
  have value : (-count).toInt = -count.toInt := by
    refine toInt_eq_of_congruent (by decide) ?_ ?_
    · rw [holds_iff]
      omega
    · rw [BitVec.toInt_neg]
      exact dvd_bmod_sub _
  have natural := toInt_eq_toNat (b := -count) (by omega)
  omega

theorem vmBigintShl_exact (v count : Int128)
    : vmBigintShl v count = narrow (shiftedBy v.toInt count.toInt) := by
  unfold vmBigintShl
  by_cases none : count = 0
  · rw [if_pos none, (eq_zero_iff count).mp none, shiftedBy_zero, narrow_toInt]
  rw [if_neg none]
  rw [eq_zero_iff] at none
  by_cases negative : count.toInt < 0
  · rw [if_pos ((slt_zero_iff count).mpr negative), shiftedBy_negative _ negative]
    by_cases wide : count.toInt ≤ -128
    · rw [if_pos ((sle_minusWidth_iff count).mpr wide)]
      exact (narrow_of_toInt (shiftedOut_toInt v (by omega))).symm
    · rw [if_neg (mt (sle_minusWidth_iff count).mp wide),
        toNat_neg_count count negative (by omega)]
      exact (narrow_of_toInt (sshiftRight_toInt v _)).symm
  rw [if_neg (mt (slt_zero_iff count).mp negative), shiftedBy_positive _ (by omega)]
  by_cases zero : v = 0
  · rw [if_pos zero, (eq_zero_iff v).mp zero, zero_mul]
    exact (narrow_of_toInt (by decide)).symm
  rw [if_neg zero]
  by_cases wide : 128 ≤ count.toInt
  · rw [if_pos ((width_sle_iff count).mpr wide)]
    exact (narrow_of_not
      (not_holds_shifted (mt (eq_zero_iff v).mpr zero) (by omega))).symm
  · have natural := toInt_eq_toNat (b := count) (by omega)
    rw [if_neg (mt (width_sle_iff count).mp wide), shiftLeftChecked_exact v (by omega)]
    congr 3
    omega

theorem vmBigintShr_exact (v count : Int128)
    : vmBigintShr v count = narrow (shiftedBy v.toInt (-count.toInt)) := by
  unfold vmBigintShr
  by_cases none : count = 0
  · rw [if_pos none, (eq_zero_iff count).mp none, neg_zero, shiftedBy_zero, narrow_toInt]
  rw [if_neg none]
  rw [eq_zero_iff] at none
  by_cases positive : 0 < count.toInt
  · have natural := toInt_eq_toNat positive.le
    rw [if_pos ((zero_slt_iff count).mpr positive), shiftedBy_negative _ (by omega), neg_neg]
    by_cases wide : 128 ≤ count.toInt
    · rw [if_pos ((width_sle_iff count).mpr wide)]
      exact (narrow_of_toInt (shiftedOut_toInt v (by omega))).symm
    · rw [if_neg (mt (width_sle_iff count).mp wide)]
      refine (narrow_of_toInt ?_).symm
      rw [sshiftRight_toInt, natural, Int.toNat_natCast]
  rw [if_neg (mt (zero_slt_iff count).mp positive), shiftedBy_positive _ (by omega)]
  by_cases zero : v = 0
  · rw [if_pos zero, (eq_zero_iff v).mp zero, zero_mul]
    exact (narrow_of_toInt (by decide)).symm
  rw [if_neg zero]
  by_cases wide : count.toInt ≤ -128
  · rw [if_pos ((sle_minusWidth_iff count).mpr wide)]
    exact (narrow_of_not
      (not_holds_shifted (mt (eq_zero_iff v).mpr zero) (by omega))).symm
  · have magnitude := toNat_neg_count count (by omega) (by omega)
    rw [if_neg (mt (sle_minusWidth_iff count).mp wide), shiftLeftChecked_exact v (by omega),
      magnitude]

-----------------------------------------------------------------------------------------
-- The operators
-----------------------------------------------------------------------------------------

/-- What an operator stands for on integers. -/
inductive Exact where
  | value (n : Int)
  | divisionByZero
  | negativeExponent

/-- The result of checked arithmetic for an exact answer. -/
def Exact.checked : Exact → Except Fault Int128
  | .value n => narrow n
  | .divisionByZero => .error .bigintDivZero
  | .negativeExponent => .error .bigintOverflow

/-- What the machine makes of an exact answer. -/
def Exact.answer : Exact → BigIntOpResult
  | .value n =>
      if Holds 128 n then .handled (BitVec.ofInt 128 n)
      else .threw (.rangeError "BigInt value exceeds supported precision")
  | .divisionByZero => .threw (.rangeError "Division by zero")
  | .negativeExponent => .threw (.rangeError "Exponent must be non-negative")

/-- The binary operators on BigInts. -/
inductive BinaryOp where
  | add | sub | mul | div | rem | pow | band | bor | bxor | shl | shr

def BinaryOp.opcode : BinaryOp → Opcode
  | add => .add
  | sub => .sub
  | mul => .mul
  | div => .div
  | rem => .mod
  | pow => .exp
  | band => .band
  | bor => .bor
  | bxor => .bxor
  | shl => .shl
  | shr => .shr

/-- The checked function behind an operator. -/
def BinaryOp.run : BinaryOp → Int128 → Int128 → Except Fault Int128
  | add => bigintAdd
  | sub => bigintSub
  | mul => bigintMul
  | div => bigintDiv
  | rem => bigintRem
  | pow => bigintPow
  | band => fun a b => .ok (a &&& b)
  | bor => fun a b => .ok (a ||| b)
  | bxor => fun a b => .ok (a ^^^ b)
  | shl => vmBigintShl
  | shr => vmBigintShr

/-- The operators on all integers: quotients are truncated, bits are those of two's
complement without a width, and a right shift rounds down.
-/
def BinaryOp.exact : BinaryOp → Int → Int → Exact
  | add, a, b => .value (a + b)
  | sub, a, b => .value (a - b)
  | mul, a, b => .value (a * b)
  | div, a, b => if b = 0 then .divisionByZero else .value (a.tdiv b)
  | rem, a, b => if b = 0 then .divisionByZero else .value (a.tmod b)
  | pow, a, b => if b < 0 then .negativeExponent else .value (a ^ b.toNat)
  | band, a, b => .value (Int.land a b)
  | bor, a, b => .value (Int.lor a b)
  | bxor, a, b => .value (Int.xor a b)
  | shl, a, b => .value (shiftedBy a b)
  | shr, a, b => .value (shiftedBy a (-b))

theorem BinaryOp.run_exact (op : BinaryOp) (a b : Int128)
    : op.run a b = (op.exact a.toInt b.toInt).checked := by
  cases op with
  | add => exact bigintAdd_exact a b
  | sub => exact bigintSub_exact a b
  | mul => exact bigintMul_exact a b
  | div =>
      refine (bigintDiv_exact a b).trans ?_
      simp only [BinaryOp.exact]
      split <;> rfl
  | rem =>
      refine (bigintRem_exact a b).trans ?_
      simp only [BinaryOp.exact]
      split <;> rfl
  | pow =>
      refine (bigintPow_exact a b).trans ?_
      simp only [BinaryOp.exact]
      split <;> rfl
  | band => exact (narrow_of_toInt (toInt_and a b)).symm
  | bor => exact (narrow_of_toInt (toInt_or a b)).symm
  | bxor => exact (narrow_of_toInt (toInt_xor a b)).symm
  | shl => exact vmBigintShl_exact a b
  | shr => exact vmBigintShr_exact a b

theorem finishBinop_narrow (n : Int) : finishBinop (narrow n) = (Exact.value n).answer := by
  unfold narrow
  simp only [Exact.answer]
  split <;> rfl

theorem finishUnary_narrow (n : Int) : finishUnary (narrow n) = (Exact.value n).answer := by
  unfold narrow
  simp only [Exact.answer]
  split <;> rfl

/-- The machine ends an operator with what the checked function answers. A negative exponent
does not get there.
-/
theorem BinaryOp.machine_answer (op : BinaryOp) (a b : Int128)
    : vmBigintBinop op.opcode (some a) (some b) = (op.exact a.toInt b.toInt).answer := by
  have finished
      : op.exact a.toInt b.toInt ≠ .negativeExponent
        → finishBinop (op.run a b) = (op.exact a.toInt b.toInt).answer := by
    rw [op.run_exact]
    intro natural
    cases exact : op.exact a.toInt b.toInt with
    | value n => exact finishBinop_narrow n
    | divisionByZero => rfl
    | negativeExponent => exact absurd exact natural
  cases op with
  | pow =>
      simp only [BinaryOp.exact, BinaryOp.opcode, vmBigintBinop, BinaryOp.run, slt_zero_iff]
        at finished ⊢
      split
      · rfl
      · rename_i natural
        rw [if_neg natural] at finished
        exact finished nofun
  | div | rem =>
      refine finished ?_
      simp only [BinaryOp.exact]
      split <;> nofun
  | _ => exact finished nofun

/-- BigInt operators on 128-bit payloads answer the exact integer whenever 128 bits hold it
and fault otherwise; a zero divisor and every negative exponent fault as well.
-/
theorem bigintOperators_exact (a b : Int128)
    : (∀ op : BinaryOp,
        op.run a b = (op.exact a.toInt b.toInt).checked
        ∧ vmBigintBinop op.opcode (some a) (some b) = (op.exact a.toInt b.toInt).answer)
      ∧ bigintNeg a = narrow (-a.toInt)
      ∧ vmBigintUnary .unm (some a) = (Exact.value (-a.toInt)).answer
      ∧ vmBigintUnary .bnot (some a) = (Exact.value (Int.lnot a.toInt)).answer
      ∧ (∀ inc,
          bigintStep a inc = narrow (if inc then a.toInt + 1 else a.toInt - 1)
          ∧ vmBigintIncdec a inc
            = (Exact.value (if inc then a.toInt + 1 else a.toInt - 1)).answer) := by
  have one : (1 : Int128).toInt = 1 := by decide
  have step (inc : Bool)
      : bigintStep a inc = narrow (if inc then a.toInt + 1 else a.toInt - 1) := by
    cases inc with
    | false =>
        refine (bigintSub_exact a 1).trans ?_
        rw [one]
        rfl
    | true =>
        refine (bigintAdd_exact a 1).trans ?_
        rw [one]
        rfl
  refine ⟨fun op => ⟨op.run_exact a b, op.machine_answer a b⟩, bigintNeg_exact a, ?_, ?_,
    fun inc => ⟨step inc, ?_⟩⟩
  · refine Eq.trans ?_ (finishUnary_narrow (-a.toInt))
    rw [← bigintNeg_exact]
    rfl
  · refine Eq.trans ?_ (finishUnary_narrow (Int.lnot a.toInt))
    rw [narrow_of_toInt (toInt_not (by decide) a)]
    rfl
  · rw [vmBigintIncdec, step, finishUnary_narrow]

/-- The power of one to minus one is one, but a negative exponent faults. -/
theorem bigintPow_negativeExponent
    : ((1 : Int128).toInt : ℚ) ^ (-1 : Int128).toInt = ((1 : Int128).toInt : ℚ)
      ∧ Holds 128 (1 : Int128).toInt
      ∧ bigintPow 1 (-1) = .error .bigintOverflow
      ∧ vmBigintBinop .exp (some 1) (some (-1))
        = .threw (.rangeError "Exponent must be non-negative") := by
  have one : (1 : Int128).toInt = 1 := by decide
  refine ⟨?_, by decide, by decide, by decide⟩
  rw [one]
  norm_num

end Boomkat.Correctness
