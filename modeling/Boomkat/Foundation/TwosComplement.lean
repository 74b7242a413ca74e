import Mathlib.Data.Int.Bitwise
import Mathlib.Tactic.Linarith
import Mathlib.Tactic.Ring

/-! Words in two's complement: the integers a width holds, and their bits. -/

namespace Boomkat.TwosComplement

variable {w : Nat}

-----------------------------------------------------------------------------------------
-- The integers of a width
-----------------------------------------------------------------------------------------

/-- `n` is the value of some word of width `w`. -/
def Holds (w : Nat) (n : Int) : Prop := -2 ^ (w - 1) ≤ n ∧ n < 2 ^ (w - 1)

instance (n : Int) : Decidable (Holds w n) := inferInstanceAs (Decidable (_ ∧ _))

theorem holds_toInt (x : BitVec w) : Holds w x.toInt := ⟨x.le_toInt, x.toInt_lt⟩

/-- The word of a value has that value. -/
theorem toInt_ofInt (positive : 0 < w) {n : Int} (held : Holds w n)
    : (BitVec.ofInt w n).toInt = n :=
  BitVec.toInt_ofInt_eq_self positive held.1 held.2

theorem two_pow_pred (positive : 0 < w) : (2 : Int) ^ w = 2 * 2 ^ (w - 1) := by
  obtain ⟨v, rfl⟩ := Nat.exists_eq_succ_of_ne_zero positive.ne'
  simp [pow_succ, mul_comm]

/-- A value of the width that is congruent to an integer of the width is that integer. -/
theorem eq_of_congruent (positive : 0 < w) {m n : Int} (heldM : Holds w m) (heldN : Holds w n)
    (congruent : (2 : Int) ^ w ∣ m - n)
    : m = n := by
  have width := two_pow_pred positive
  obtain ⟨k, multiple⟩ := congruent
  obtain ⟨lowM, highM⟩ := heldM
  obtain ⟨lowN, highN⟩ := heldN
  rw [width] at multiple
  have power : (0 : Int) < 2 ^ (w - 1) := by positivity
  generalize (2 : Int) ^ (w - 1) = p at *
  have below : k < 1 := by nlinarith
  have above : -1 < k := by nlinarith
  have none : k = 0 := by omega
  subst none
  linarith

/-- What wraps around is congruent to what it stands for. -/
theorem dvd_bmod_sub (n : Int) : (2 : Int) ^ w ∣ n.bmod (2 ^ w) - n := by
  have congruent : n.bmod (2 ^ w) % (2 ^ w : Nat) = n % (2 ^ w : Nat) := Int.bmod_emod
  have divides := Int.dvd_of_emod_eq_zero (Int.emod_eq_emod_iff_emod_sub_eq_zero.mp congruent)
  exact_mod_cast divides

/-- A word read with a sign and without one. -/
theorem dvd_toNat_sub_toInt (x : BitVec w) : (2 : Int) ^ w ∣ x.toNat - x.toInt := by
  rw [BitVec.toInt]
  split
  · exact ⟨0, by ring⟩
  · refine ⟨1, ?_⟩
    push_cast
    ring

/-- A word that is congruent to an integer of the width has it as its value. -/
theorem toInt_eq_of_congruent (positive : 0 < w) {x : BitVec w} {n : Int} (held : Holds w n)
    (congruent : (2 : Int) ^ w ∣ x.toInt - n)
    : x.toInt = n :=
  eq_of_congruent positive (holds_toInt x) held congruent

-----------------------------------------------------------------------------------------
-- Bits
-----------------------------------------------------------------------------------------

/-- Integers with the same bits are equal. A bit far beyond both tells the signs apart. -/
theorem eq_of_testBit {m n : Int} (bits : ∀ i, m.testBit i = n.testBit i) : m = n := by
  have far (a : Nat) : ∀ i, a ≤ i → a.testBit i = false := fun i beyond =>
    Nat.testBit_lt_two_pow (lt_of_le_of_lt beyond Nat.lt_two_pow_self)
  cases m with
  | ofNat a =>
      cases n with
      | ofNat b => exact congrArg Int.ofNat (Nat.eq_of_testBit_eq bits)
      | negSucc b =>
          have apart := bits (max a b)
          simp [Int.testBit, far a _ (le_max_left a b), far b _ (le_max_right a b)] at apart
  | negSucc a =>
      cases n with
      | ofNat b =>
          have apart := bits (max a b)
          simp [Int.testBit, far a _ (le_max_left a b), far b _ (le_max_right a b)] at apart
      | negSucc b =>
          refine congrArg Int.negSucc (Nat.eq_of_testBit_eq fun i => ?_)
          have same := bits i
          simpa [Int.testBit] using same

/-- The bits of a value are those of the word, and beyond the width its sign. -/
theorem testBit_toInt (x : BitVec w) (i : Nat)
    : x.toInt.testBit i = if i < w then x.getLsbD i else x.msb := by
  cases sign : x.msb with
  | false =>
      rw [BitVec.toInt_eq_toNat_of_msb sign]
      change x.toNat.testBit i = _
      rw [BitVec.testBit_toNat]
      split
      · rfl
      · exact BitVec.getLsbD_of_ge x i (by omega)
  | true =>
      have value : x.toInt = Int.negSucc (~~~x).toNat := by
        have bound := x.isLt
        rw [BitVec.toInt_eq_msb_cond, sign, BitVec.toNat_not, Int.negSucc_eq]
        simp only [if_true]
        have power : (0 : Nat) < 2 ^ w := Nat.two_pow_pos w
        push_cast [Nat.sub_sub, Nat.cast_sub (show 1 + x.toNat ≤ 2 ^ w by omega)]
        ring
      rw [value]
      change (!(~~~x).toNat.testBit i) = _
      rw [BitVec.testBit_toNat, BitVec.getLsbD_not]
      split <;> simp_all

theorem toInt_and (x y : BitVec w) : (x &&& y).toInt = Int.land x.toInt y.toInt := by
  refine eq_of_testBit fun i => ?_
  simp only [testBit_toInt, Int.testBit_land, BitVec.getLsbD_and, BitVec.msb_and]
  split <;> rfl

theorem toInt_or (x y : BitVec w) : (x ||| y).toInt = Int.lor x.toInt y.toInt := by
  refine eq_of_testBit fun i => ?_
  simp only [testBit_toInt, Int.testBit_lor, BitVec.getLsbD_or, BitVec.msb_or]
  split <;> rfl

theorem toInt_xor (x y : BitVec w) : (x ^^^ y).toInt = Int.xor x.toInt y.toInt := by
  refine eq_of_testBit fun i => ?_
  simp only [testBit_toInt, Int.testBit_lxor, BitVec.getLsbD_xor, BitVec.msb_xor]
  split <;> rfl

theorem toInt_not (positive : 0 < w) (x : BitVec w) : (~~~x).toInt = Int.lnot x.toInt := by
  refine eq_of_testBit fun i => ?_
  simp only [testBit_toInt, Int.testBit_lnot, BitVec.getLsbD_not, BitVec.msb_not]
  split <;> simp_all

end Boomkat.TwosComplement
