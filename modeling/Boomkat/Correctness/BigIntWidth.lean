import Boomkat.BigInts.BitWidth
import Boomkat.Correctness.BigIntArithmetic

/-! `BigInt.asUintN` and `BigInt.asIntN` against reduction modulo a power of two. -/

namespace Boomkat.Correctness
open BigInts TwosComplement

-----------------------------------------------------------------------------------------
-- What the functions stand for
-----------------------------------------------------------------------------------------

/-- `x` modulo `2 ^ bits`. -/
def asUintN (bits : Nat) (x : Int) : Int := x % 2 ^ bits

/-- `x` modulo `2 ^ bits`, read as a word of that width in two's complement. -/
def asIntN (bits : Nat) (x : Int) : Int :=
  if bits ≠ 0 ∧ 2 ^ (bits - 1) ≤ x % 2 ^ bits then x % 2 ^ bits - 2 ^ bits else x % 2 ^ bits

/-- The outcome is the integer when 128 bits hold it, and a range error otherwise. -/
def Yields (outcome : Except Thrown Int128) (n : Int) : Prop :=
  if Holds 128 n then outcome = .ok (BitVec.ofInt 128 n)
  else ∃ message, outcome = .error (.rangeError message)

theorem yields_ok {x : Int128} {n : Int} (value : x.toInt = n) : Yields (.ok x) n := by
  have held : Holds 128 n := value ▸ holds_toInt x
  rw [Yields, if_pos held, ← value, BitVec.ofInt_toInt]

theorem yields_error_iff (message : String) (n : Int)
    : Yields (.error (.rangeError message)) n ↔ ¬Holds 128 n := by
  unfold Yields
  split
  · rename_i held
    exact ⟨nofun, fun beyond => absurd held beyond⟩
  · rename_i beyond
    exact ⟨fun _ => beyond, fun _ => ⟨message, rfl⟩⟩

-----------------------------------------------------------------------------------------
-- Below the width of the payload
-----------------------------------------------------------------------------------------

theorem toNat_one_shift {bits : Nat} (narrower : bits < 128)
    : ((1 : Int128) <<< bits).toNat = 2 ^ bits := by
  change (1#128 <<< bits).toNat = 2 ^ bits
  rw [← BitVec.twoPow_eq, BitVec.toNat_twoPow_of_lt narrower]

theorem toNat_lowMask {bits : Nat} (narrower : bits < 128)
    : (lowMask bits).toNat = 2 ^ bits - 1 := by
  have shift := toNat_one_shift narrower
  have least : (1 : Int128) ≤ (1 : Int128) <<< bits := by
    rw [BitVec.le_def, shift]
    exact Nat.one_le_two_pow
  rw [lowMask, BitVec.toNat_sub_of_le least, shift]
  rfl

/-- Masking reduces modulo a power of two, also for a negative value. -/
theorem toNat_masked (x : Int128) {bits : Nat} (narrower : bits < 128)
    : ((x &&& lowMask bits).toNat : Int) = x.toInt % 2 ^ bits := by
  rw [BitVec.toNat_and, toNat_lowMask narrower, Nat.and_two_pow_sub_one_eq_mod]
  have multiple : (2 : Int) ^ bits ∣ 2 ^ 128 := pow_dvd_pow 2 narrower.le
  push_cast
  rw [BitVec.toInt]
  split
  · rfl
  · have wrapped : ((2 ^ 128 : Nat) : Int) % 2 ^ bits = 0 := by
      exact Int.emod_eq_zero_of_dvd (by exact_mod_cast multiple)
    rw [Int.sub_emod, wrapped, sub_zero, Int.emod_emod]

theorem masked_lt (x : Int128) {bits : Nat} (narrower : bits < 128)
    : (x &&& lowMask bits).toNat < 2 ^ bits := by
  have reduced := toNat_masked x narrower
  have bound := Int.emod_lt_of_pos x.toInt (show (0 : Int) < 2 ^ bits by positivity)
  exact_mod_cast reduced ▸ bound

/-- A masked value keeps the sign bit clear. -/
theorem toInt_masked (x : Int128) {bits : Nat} (narrower : bits < 128)
    : (x &&& lowMask bits).toInt = x.toInt % 2 ^ bits := by
  rw [← toNat_masked x narrower]
  have bound := masked_lt x narrower
  have power : 2 ^ bits ≤ 2 ^ 127 := Nat.pow_le_pow_right (by decide) (by omega)
  rw [BitVec.toInt, if_pos (by omega)]

/-- The test of the sign bit compares with half of the modulus. -/
theorem signBit_set_iff (m : Int128) (bits : Nat) (narrower : bits < 128)
    (bound : m.toNat < 2 ^ (bits + 1))
    : m &&& ((1 : Int128) <<< bits) ≠ 0 ↔ 2 ^ bits ≤ m.toNat := by
  change m &&& (1#128 <<< bits) ≠ 0#128 ↔ _
  rw [← BitVec.twoPow_eq, BitVec.and_twoPow, ← BitVec.testBit_toNat,
    Nat.testBit_eq_decide_div_mod_eq]
  have half : m.toNat / 2 ^ bits < 2 := by
    rw [Nat.div_lt_iff_lt_mul (Nat.two_pow_pos bits)]
    rw [pow_succ] at bound
    omega
  have set : m.toNat / 2 ^ bits % 2 = 1 ↔ 2 ^ bits ≤ m.toNat := by
    rw [Nat.mod_eq_of_lt half]
    constructor
    · intro one
      exact (Nat.one_le_div_iff (Nat.two_pow_pos bits)).mp one.ge
    · intro above
      have := (Nat.one_le_div_iff (Nat.two_pow_pos bits)).mpr above
      omega
  rw [← set]
  have nonzero : BitVec.twoPow 128 bits ≠ 0#128 := by
    intro none
    have := congrArg BitVec.toNat none
    rw [BitVec.toNat_twoPow_of_lt narrower] at this
    exact absurd this (Nat.two_pow_pos bits).ne'
  by_cases one : m.toNat / 2 ^ bits % 2 = 1 <;> simp [one, nonzero]

theorem asUintn_narrow (x : Int128) {bits : Nat} (narrower : bits < 128)
    : Yields (.ok (x &&& lowMask bits)) (asUintN bits x.toInt) :=
  yields_ok (toInt_masked x narrower)

theorem asIntn_narrow (x : Int128) {bits : Nat} (some : bits ≠ 0) (narrower : bits < 128)
    : Yields (builtinBigintAsIntn bits x) (asIntN bits x.toInt) := by
  have read : bigintReadBits bits = .ok bits := by
    rw [bigintReadBits, if_neg (by omega), Int.toNat_natCast]
  simp only [builtinBigintAsIntn, read, bind, Except.bind, if_neg some,
    if_neg (not_le.mpr narrower)]
  have bound := masked_lt x narrower
  have reduced := toInt_masked x narrower
  have natural := toNat_masked x narrower
  have sign := signBit_set_iff (x &&& lowMask bits) (bits - 1) (by omega)
    (by rwa [Nat.sub_add_cancel (by omega)])
  have half : 2 ^ bits = 2 * 2 ^ (bits - 1) := by
    rw [← pow_succ']
    congr 1
    omega
  have power : 2 ^ (bits - 1) ≤ 2 ^ 126 := Nat.pow_le_pow_right (by decide) (by omega)
  by_cases set : 2 ^ (bits - 1) ≤ (x &&& lowMask bits).toNat
  · have above : (2 : Int) ^ (bits - 1) ≤ x.toInt % 2 ^ bits := by
      rw [← natural]
      exact_mod_cast set
    rw [if_pos (sign.mpr set), asIntN, if_pos ⟨some, above⟩, ← reduced]
    refine yields_ok (toInt_eq_of_congruent (by decide) ?_ ?_)
    · rw [holds_iff, reduced, ← natural]
      have half : (2 : Int) ^ bits = 2 * 2 ^ (bits - 1) := by exact_mod_cast half
      have bound : ((x &&& lowMask bits).toNat : Int) < 2 ^ bits := by exact_mod_cast bound
      have power : (2 : Int) ^ (bits - 1) ≤ 2 ^ 126 := by exact_mod_cast power
      omega
    · have unit := dvd_toNat_sub_toInt ((1 : Int128) <<< bits)
      rw [toNat_one_shift narrower] at unit
      push_cast at unit
      rw [BitVec.toInt_sub]
      generalize ((1 : Int128) <<< bits).toInt = shifted at unit ⊢
      have wraps := dvd_bmod_sub (w := 128) ((x &&& lowMask bits).toInt - shifted)
      have parts := Int.dvd_add wraps unit
      ring_nf at parts ⊢
      exact parts
  · have below : ¬(2 : Int) ^ (bits - 1) ≤ x.toInt % 2 ^ bits := by
      rw [← natural]
      exact_mod_cast set
    rw [if_neg (mt sign.mp set), asIntN, if_neg (fun ⟨_, above⟩ => below above), ← reduced]
    exact yields_ok rfl

-----------------------------------------------------------------------------------------
-- From the width of the payload on
-----------------------------------------------------------------------------------------

/-- Of a wide width, reduction keeps a natural value and moves a negative one up. -/
theorem asUintN_wide (x : Int128) {bits : Nat} (wide : 128 ≤ bits)
    : asUintN bits x.toInt = if x.toInt < 0 then x.toInt + 2 ^ bits else x.toInt := by
  obtain ⟨low, high⟩ := (holds_iff _).mp (holds_toInt x)
  have power : (2 : Int) ^ 128 ≤ 2 ^ bits := pow_le_pow_right₀ (by decide) wide
  unfold asUintN
  split
  · rw [← Int.add_emod_right]
    exact Int.emod_eq_of_lt (by omega) (by omega)
  · exact Int.emod_eq_of_lt (by omega) (by omega)

theorem asIntN_wide (x : Int128) {bits : Nat} (wide : 128 ≤ bits)
    : asIntN bits x.toInt = x.toInt := by
  obtain ⟨low, high⟩ := (holds_iff _).mp (holds_toInt x)
  have power : (2 : Int) ^ 127 ≤ 2 ^ (bits - 1) := pow_le_pow_right₀ (by decide) (by omega)
  have half : (2 : Int) ^ bits = 2 * 2 ^ (bits - 1) := by
    rw [← pow_succ']
    congr 1
    omega
  have reduced := asUintN_wide x wide
  unfold asUintN at reduced
  unfold asIntN
  rw [reduced]
  split <;> split <;> omega

theorem bigintReadBits_natCast (bits : Nat)
    : bigintReadBits bits
      = if bits ≤ 4294967295 then .ok bits
        else .error (.rangeError "Invalid bit count for BigInt.asIntN/asUintN") := by
  unfold bigintReadBits
  by_cases accepted : bits ≤ 4294967295
  · rw [if_pos accepted, if_neg (by omega), Int.toNat_natCast]
  · rw [if_neg accepted, if_pos (by omega)]

/-- A refused call is right only for an integer that 128 bits do not hold. -/
theorem not_holds_asUintN_wide (x : Int128) {bits : Nat} (wide : 128 ≤ bits)
    : ¬Holds 128 (asUintN bits x.toInt) ↔ x.toInt < 0 := by
  obtain ⟨low, high⟩ := (holds_iff _).mp (holds_toInt x)
  have power : (2 : Int) ^ 128 ≤ 2 ^ bits := pow_le_pow_right₀ (by decide) wide
  rw [asUintN_wide x wide, holds_iff]
  split <;> omega

theorem asUintn_exact_iff (bits : Nat) (x : Int128)
    : Yields (builtinBigintAsUintn bits x) (asUintN bits x.toInt)
      ↔ bits ≤ 128 ∨ x.toInt < 0 := by
  unfold builtinBigintAsUintn
  rw [bigintReadBits_natCast]
  by_cases accepted : bits ≤ 4294967295
  · rw [if_pos accepted]
    simp only [bind, Except.bind]
    by_cases none : bits = 0
    · subst none
      have value : (0 : Int128).toInt = asUintN 0 x.toInt := by
        rw [asUintN, pow_zero, Int.emod_one]
        decide
      exact iff_of_true (yields_ok value) (.inl (by omega))
    rw [if_neg none]
    by_cases wide : 128 ≤ bits
    · rw [if_pos wide]
      simp only [slt_zero_iff]
      by_cases kept : bits = 128 ∧ ¬x.toInt < 0
      · rw [if_pos kept]
        refine iff_of_true (yields_ok ?_) (.inl kept.1.le)
        rw [asUintN_wide x wide, if_neg kept.2]
      · rw [if_neg kept, yields_error_iff, not_holds_asUintN_wide x wide]
        omega
    · rw [if_neg wide]
      exact iff_of_true (asUintn_narrow x (by omega)) (.inl (by omega))
  · rw [if_neg accepted]
    simp only [bind, Except.bind]
    rw [yields_error_iff, not_holds_asUintN_wide x (by omega)]
    omega

theorem asIntn_exact_iff (bits : Nat) (x : Int128)
    : Yields (builtinBigintAsIntn bits x) (asIntN bits x.toInt) ↔ bits ≤ 4294967295 := by
  by_cases accepted : bits ≤ 4294967295
  · refine iff_of_true ?_ accepted
    by_cases none : bits = 0
    · subst none
      have value : (0 : Int128).toInt = asIntN 0 x.toInt := by
        rw [asIntN, if_neg (fun ⟨nonzero, _⟩ => nonzero rfl), pow_zero, Int.emod_one]
        decide
      exact yields_ok value
    by_cases wide : 128 ≤ bits
    · unfold builtinBigintAsIntn
      rw [bigintReadBits_natCast, if_pos accepted]
      simp only [bind, Except.bind]
      rw [if_neg none, if_pos wide]
      exact yields_ok (asIntN_wide x wide).symm
    · exact asIntn_narrow x none (by omega)
  · refine iff_of_false ?_ accepted
    unfold builtinBigintAsIntn
    rw [bigintReadBits_natCast, if_neg accepted]
    simp only [bind, Except.bind]
    rw [yields_error_iff, asIntN_wide x (by omega)]
    exact not_not.mpr (holds_toInt x)

/-- Both functions reduce modulo the width, and refuse only what 128 bits do not hold, exactly
as follows: the unsigned one up to 128 bits or for a negative integer, the signed one for
every bit count that fits 32 bits.
-/
theorem bigintWidth_exact_iff (bits : Nat) (x : Int128)
    : (Yields (builtinBigintAsUintn bits x) (asUintN bits x.toInt)
        ↔ bits ≤ 128 ∨ x.toInt < 0)
      ∧ (Yields (builtinBigintAsIntn bits x) (asIntN bits x.toInt) ↔ bits ≤ 4294967295) :=
  ⟨asUintn_exact_iff bits x, asIntn_exact_iff bits x⟩

/-- `BigInt.asUintN(200, 5n)` is five, but throws. -/
theorem asUintn_wide_refused
    : asUintN 200 (5 : Int128).toInt = 5
      ∧ builtinBigintAsUintn 200 5
        = .error (.rangeError "BigInt.asUintN result exceeds supported precision")
      ∧ ¬Yields (builtinBigintAsUintn 200 5) (asUintN 200 (5 : Int128).toInt) := by
  have reduced : asUintN 200 (5 : Int128).toInt = 5 := by decide
  have refused
      : builtinBigintAsUintn 200 5
        = .error (.rangeError "BigInt.asUintN result exceeds supported precision") := by
    rfl
  refine ⟨reduced, refused, ?_⟩
  rw [refused, reduced, yields_error_iff]
  decide

end Boomkat.Correctness
