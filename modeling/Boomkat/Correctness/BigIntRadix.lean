import Boomkat.BigInts.Radix
import Boomkat.Correctness.BigIntArithmetic
import Mathlib.Data.Nat.Digits.Lemmas

/-! BigInts as text: the digits are those of the number in the radix, and a string of digits is read
as its exact value or overflows. The sign is put behind the digits, so that one number is lost.
-/

namespace Boomkat.Correctness
open BigInts TwosComplement

variable {radix : Nat}

-----------------------------------------------------------------------------------------
-- Digits
-----------------------------------------------------------------------------------------

theorem digitOf_digitChar : ∀ d < 36, digitOf (digitChar d) = some d := by decide +kernel

theorem digitChar_plain
    : ∀ d < 36, digitChar d ≠ 0x5F ∧ isEcmaWhitespace (digitChar d) = false := by
  decide +kernel

theorem digitChar_decimal : ∀ d < 10, 0x30 ≤ digitChar d ∧ digitChar d ≤ 0x39 := by
  decide +kernel

/-- The digits in a string, whose separators stand for nothing. -/
def digitsIn (s : List UInt8) : List Nat := s.filterMap digitOf

/-- The value of digits, the highest first, behind a value. -/
def numeralValue (radix : Nat) (digits : List Nat) (value : Nat) : Nat :=
  digits.foldl (fun value d => value * radix + d) value

theorem numeralValue_cons (d : Nat) (digits : List Nat) (value : Nat)
    : numeralValue radix (d :: digits) value
      = numeralValue radix digits (value * radix + d) := rfl

/-- More digits never make a value smaller. -/
theorem le_numeralValue (positive : 0 < radix) (digits : List Nat) (value : Nat)
    : value ≤ numeralValue radix digits value := by
  induction digits generalizing value with
  | nil => exact Nat.le_refl value
  | cons d digits ih =>
      have more := ih (value * radix + d)
      have scaled : value ≤ value * radix := Nat.le_mul_of_pos_right value positive
      rw [numeralValue_cons]
      omega

/-- The digits of a number, the highest first, have the value of the number. -/
theorem numeralValue_digits (n : Nat) : numeralValue radix (radix.digits n).reverse 0 = n := by
  rw [numeralValue, List.foldl_reverse]
  calc
    (radix.digits n).foldr (fun d value => value * radix + d) 0
      = (radix.digits n).foldr (fun d value => d + radix * value) 0 := by
        congr 1
        funext d value
        rw [Nat.mul_comm, Nat.add_comm]
    _ = Nat.ofDigits radix (radix.digits n) := (Nat.ofDigits_eq_foldr radix _).symm
    _ = n := Nat.ofDigits_digits radix n

/-- Digits of the radix, with separators between them. -/
structure IsNumeral (radix : Nat) (s : List UInt8) : Prop where
  digits : ∀ c ∈ s, c = 0x5F ∨ ∃ d < radix, digitOf c = some d
  some : digitsIn s ≠ []

-----------------------------------------------------------------------------------------
-- From text
-----------------------------------------------------------------------------------------

/-- A small natural number as a value of 128 bits. -/
theorem ofNat_toInt {n : Nat} (small : n ≤ 36) : (BitVec.ofNat 128 n).toInt = n := by
  rw [BitVec.toInt_ofNat']
  exact Int.bmod_eq_of_le (by omega) (by omega)

/-- An intermediate overflow is one of the whole value. -/
theorem parseDigits_exact (low : 2 ≤ radix) (high : radix ≤ 36) {s : List UInt8}
    (digits : ∀ c ∈ s, c = 0x5F ∨ ∃ d < radix, digitOf c = some d) {acc : Int128} {value : Nat}
    (exact_acc : acc.toInt = value) {sawDigit : Bool} (saw : sawDigit = true ∨ digitsIn s ≠ [])
    : parseDigits radix acc sawDigit s = narrow (numeralValue radix (digitsIn s) value : Nat) := by
  induction s generalizing acc value sawDigit with
  | nil =>
      rw [parseDigits, if_pos (saw.resolve_right (not_not.mpr rfl))]
      exact (narrow_of_toInt exact_acc).symm
  | cons c s ih =>
      have rest : ∀ c ∈ s, c = 0x5F ∨ ∃ d < radix, digitOf c = some d :=
        fun c mem => digits c (List.mem_cons_of_mem _ mem)
      have positive : 0 < radix := by omega
      rw [parseDigits]
      split
      · rename_i separator
        have same : digitsIn (c :: s) = digitsIn s := by
          rw [separator]
          rfl
        rw [same] at saw ⊢
        exact ih rest exact_acc saw
      · rename_i other
        obtain ⟨d, small, is⟩ := (digits c List.mem_cons_self).resolve_left other
        have first : digitsIn (c :: s) = d :: digitsIn s := List.filterMap_cons_some is
        rw [is, first, numeralValue_cons]
        dsimp only
        rw [if_neg (by omega), bigintMul_exact, exact_acc, ofNat_toInt high]
        have beyond {n : Nat} (wide : ¬Holds 128 (n : Int)) (more : n ≤ value * radix + d)
            : narrow (numeralValue radix (digitsIn s) (value * radix + d) : Nat)
              = .error .bigintOverflow := by
          apply narrow_of_not
          have whole := le_numeralValue positive (digitsIn s) (value * radix + d)
          rw [holds_iff] at wide ⊢
          omega
        rcases Decidable.em (Holds 128 ((value * radix : Nat) : Int)) with held | wide
        · obtain ⟨scaled, narrowed, scaled_value⟩ := narrow_of_holds held
          rw [Int.natCast_mul] at narrowed
          rw [narrowed]
          dsimp only [Except.bind]
          rw [bigintAdd_exact, scaled_value, ofNat_toInt (by omega)]
          rcases Decidable.em (Holds 128 ((value * radix + d : Nat) : Int)) with held | wide
          · obtain ⟨sum, narrowed, sum_value⟩ := narrow_of_holds held
            rw [Int.natCast_add] at narrowed
            rw [narrowed]
            exact ih rest sum_value (.inl rfl)
          · rw [beyond wide (Nat.le_refl _), ← Int.natCast_add, narrow_of_not wide]
        · rw [beyond wide (Nat.le_add_right _ _), ← Int.natCast_mul, narrow_of_not wide]
          rfl

theorem parseInt128Radix_exact (low : 2 ≤ radix) (high : radix ≤ 36) {s : List UInt8}
    (numeral : IsNumeral radix s)
    : parseInt128Radix s radix = narrow (numeralValue radix (digitsIn s) 0 : Nat) :=
  parseDigits_exact low high numeral.digits (show (0 : Int128).toInt = (0 : Nat) from rfl)
    (.inr numeral.some)

-----------------------------------------------------------------------------------------
-- To text
-----------------------------------------------------------------------------------------

/-- The characters of a number that is not zero. -/
def digitChars (radix n : Nat) : List UInt8 := ((radix.digits n).map digitChar).reverse

theorem digit_lt (low : 2 ≤ radix) (high : radix ≤ 36) {n : Nat} {d : Nat}
    (mem : d ∈ radix.digits n) : d < 36 :=
  Nat.lt_of_lt_of_le (Nat.digits_lt_base low mem) high

theorem mem_digitChars {n : Nat} {c : UInt8} (mem : c ∈ digitChars radix n)
    : ∃ d ∈ radix.digits n, digitChar d = c := List.mem_map.mp (List.mem_reverse.mp mem)

theorem digitsIn_digitChars (low : 2 ≤ radix) (high : radix ≤ 36) (n : Nat)
    : digitsIn (digitChars radix n) = (radix.digits n).reverse := by
  rw [digitsIn, digitChars, List.filterMap_reverse, List.filterMap_map]
  congr 1
  have each : ∀ d ∈ radix.digits n, (digitOf ∘ digitChar) d = some d :=
    fun d mem => digitOf_digitChar d (digit_lt low high mem)
  rw [List.filterMap_congr each, List.filterMap_some]

theorem digitChars_numeral (low : 2 ≤ radix) (high : radix ≤ 36) {n : Nat} (positive : 0 < n)
    : IsNumeral radix (digitChars radix n) where
  digits c mem := by
    obtain ⟨d, digit, rfl⟩ := mem_digitChars mem
    exact .inr ⟨d, Nat.digits_lt_base low digit, digitOf_digitChar d (digit_lt low high digit)⟩
  some := by
    rw [digitsIn_digitChars low high, Ne, List.reverse_eq_nil_iff, Nat.digits_eq_nil_iff_eq_zero]
    exact Nat.ne_of_gt positive

/-- The loop writes the digits of the magnitude in front of what there is. -/
theorem writeDigits_exact (low : 2 ≤ radix) (high : radix ≤ 36) {room : Nat} {n : Int128} {m : Nat}
    (value : n.toInt = -m) (enough : (radix.digits m).length ≤ room) (written : List UInt8)
    : writeDigits (BitVec.ofNat 128 radix) n written room
      = some (digitChars radix m ++ written) := by
  have zero : n = 0 ↔ m = 0 := by
    rw [eq_zero_iff, value]
    omega
  induction room generalizing n m written with
  | zero =>
      have none : m = 0 := by
        rw [← Nat.digits_eq_nil_iff_eq_zero (b := radix)]
        exact List.length_eq_zero_iff.mp (Nat.le_zero.mp enough)
      rw [writeDigits, if_pos (zero.mpr none), none, digitChars, Nat.digits_zero]
      rfl
  | succ room ih =>
      rw [writeDigits]
      split
      · rename_i none
        rw [zero.mp none, digitChars, Nat.digits_zero]
        rfl
      · rename_i some
        have positive : 0 < m := Nat.pos_of_ne_zero fun none => some (zero.mpr none)
        have r_value := ofNat_toInt high
        have quotient : (n.sdiv (BitVec.ofNat 128 radix)).toInt = -((m / radix : Nat) : Int) := by
          rw [BitVec.toInt_sdiv_of_ne_or_ne, value, r_value, Int.neg_tdiv, Int.ofNat_tdiv]
          right
          intro minus
          rw [← BitVec.toInt_inj, r_value] at minus
          have minus : (radix : Int) = -1 := minus
          omega
        have remainder : (-(n.srem (BitVec.ofNat 128 radix))).toNat = m % radix := by
          have smaller := Nat.mod_lt m (show 0 < radix by omega)
          have rem : (n.srem (BitVec.ofNat 128 radix)).toInt = -((m % radix : Nat) : Int) := by
            rw [BitVec.toInt_srem, value, r_value, Int.neg_tmod, Int.ofNat_tmod]
          have negated : (-(n.srem (BitVec.ofNat 128 radix))).toInt = ((m % radix : Nat) : Int) := by
            rw [BitVec.toInt_neg, rem, Int.neg_neg]
            exact Int.bmod_eq_of_le (by omega) (by omega)
          have natural := toInt_eq_toNat (by rw [negated]; exact Int.natCast_nonneg _)
          rw [negated] at natural
          exact (Int.ofNat.inj natural).symm
        have digits := Nat.digits_def' low positive
        have enough' : (radix.digits (m / radix)).length ≤ room := by
          rw [digits, List.length_cons] at enough
          omega
        rw [ih quotient enough' _ (by rw [eq_zero_iff, quotient]; omega), remainder, digitChars,
          digitChars, digits, List.map_cons, List.reverse_cons, List.append_assoc]
        rfl

/-- A magnitude has at most as many digits as its bits. -/
theorem length_digits_le (low : 2 ≤ radix) {m bits : Nat} (small : m < 2 ^ bits)
    : (radix.digits m).length ≤ bits := by
  rw [Nat.digits_length_le_iff low]
  exact Nat.lt_of_lt_of_le small (Nat.pow_le_pow_left low bits)

variable {v : Int128} {bufLen : Nat}

/-- A positive number is written as its digits. -/
theorem int128ToRadix_positive (low : 2 ≤ radix) (high : radix ≤ 36) {m : Nat} (positive : 0 < m)
    (value : v.toInt = m) (enough : (radix.digits m).length ≤ bufLen)
    : int128ToRadix v radix bufLen = some (digitChars radix m) := by
  have some : v ≠ 0 := by
    rw [Ne, eq_zero_iff]
    omega
  have natural : v.slt 0 = false := by
    rw [← Bool.not_eq_true, slt_zero_iff]
    omega
  have negated : (-v).toInt = -(m : Int) := by
    have bounded := (holds_iff _).mp (holds_toInt v)
    rw [BitVec.toInt_neg, value]
    exact Int.bmod_eq_of_le (by omega) (by omega)
  rw [int128ToRadix, if_neg some]
  simp only [natural, Bool.false_eq_true, if_false]
  rw [writeDigits_exact low high negated enough, List.append_nil]
  rfl

/-- A negative number is written as a sign and the digits of its magnitude, also the least one. -/
theorem int128ToRadix_negative (low : 2 ≤ radix) (high : radix ≤ 36) {m : Nat} (positive : 0 < m)
    (value : v.toInt = -m) (enough : (radix.digits m).length < bufLen)
    : int128ToRadix v radix bufLen = some (0x2D :: digitChars radix m) := by
  have some : v ≠ 0 := by
    rw [Ne, eq_zero_iff]
    omega
  have negative : v.slt 0 = true := by
    rw [slt_zero_iff]
    omega
  rw [int128ToRadix, if_neg some]
  simp only [negative, if_true]
  rw [writeDigits_exact low high value (Nat.le_of_lt enough), List.append_nil, Option.bind_some,
    if_neg]
  rw [digitChars, List.length_reverse, List.length_map]
  exact Nat.ne_of_lt enough

-----------------------------------------------------------------------------------------
-- Strings
-----------------------------------------------------------------------------------------

theorem dropWhile_none {p : UInt8 → Bool} {s : List UInt8} (none : ∀ c ∈ s, p c = false)
    : s.dropWhile p = s := by
  cases s with
  | nil => rfl
  | cons c s => exact List.dropWhile_cons_of_neg (by rw [none c List.mem_cons_self]; nofun)

theorem trimmed_plain {s : List UInt8} (plain : ∀ c ∈ s, isEcmaWhitespace c = false)
    : trimmed s = s := by
  rw [trimmed, dropWhile_none plain, dropWhile_none fun c mem => plain c (List.mem_reverse.mp mem),
    List.reverse_reverse]

theorem digitChars_plain (low : 2 ≤ radix) (high : radix ≤ 36) (n : Nat)
    : ∀ c ∈ digitChars radix n, c ≠ 0x5F ∧ isEcmaWhitespace c = false := by
  intro c mem
  obtain ⟨d, digit, rfl⟩ := mem_digitChars mem
  exact digitChar_plain d (digit_lt low high digit)

theorem digitChars_decimal (n : Nat) : ∀ c ∈ digitChars 10 n, 0x30 ≤ c ∧ c ≤ 0x39 := by
  intro c mem
  obtain ⟨d, digit, rfl⟩ := mem_digitChars mem
  exact digitChar_decimal d (Nat.digits_lt_base (by decide) digit)

/-- No decimal digit is the letter of a radix prefix. -/
theorem radixOf_decimal {s : List UInt8} (decimal : ∀ c ∈ s, 0x30 ≤ c ∧ c ≤ 0x39)
    : radixOf s = 10 := by
  have letter {c a : UInt8} (digit : 0x30 ≤ c ∧ c ≤ 0x39) (above : 0x39 < a) : c ≠ a := by
    rintro rfl
    exact absurd digit.2 (UInt8.not_le.mpr above)
  unfold radixOf
  split
  · rename_i p _
    have digit := decimal p (List.mem_cons_of_mem _ List.mem_cons_self)
    rw [if_neg, if_neg, if_neg]
    all_goals
      rintro (same | same) <;> exact letter digit (by decide) same
  · rfl

/-- The digits of a number are read as the number. -/
theorem parseInt128Radix_digitChars (low : 2 ≤ radix) (high : radix ≤ 36) {m : Nat}
    (positive : 0 < m) : parseInt128Radix (digitChars radix m) radix = narrow m := by
  rw [parseInt128Radix_exact low high (digitChars_numeral low high positive),
    digitsIn_digitChars low high, numeralValue_digits]

theorem digitChars_some (low : 2 ≤ radix) (high : radix ≤ 36) {m : Nat} (positive : 0 < m)
    : digitChars radix m ≠ [] := by
  intro none
  apply (digitChars_numeral low high positive).some
  rw [none]
  rfl

theorem parseUnsigned_digitChars {m : Nat} (positive : 0 < m)
    : parseUnsigned (digitChars 10 m) 10 = narrow m := by
  have low : 2 ≤ 10 := by decide
  have high : 10 ≤ 36 := by decide
  rw [parseUnsigned, if_neg, parseInt128Radix_digitChars low high positive]
  rintro (none | separator)
  · exact digitChars_some low high positive none
  · exact (digitChars_plain low high m _ separator).1 rfl

theorem stringToBigint_positive {m : Nat} (positive : 0 < m)
    : stringToBigint (digitChars 10 m) = narrow m := by
  have low : 2 ≤ 10 := by decide
  have high : 10 ≤ 36 := by decide
  have decimal := digitChars_decimal m
  rw [stringToBigint, trimmed_plain fun c mem => (digitChars_plain low high m c mem).2]
  have result := parseUnsigned_digitChars positive
  cases is : digitChars 10 m with
  | nil => exact absurd is (digitChars_some low high positive)
  | cons c t =>
      rw [is] at decimal result
      have digit := decimal c List.mem_cons_self
      dsimp only
      rw [if_neg, if_neg, if_pos (radixOf_decimal decimal), result]
      · rintro rfl
        exact absurd digit.1 (by decide)
      · rintro rfl
        exact absurd digit.1 (by decide)

/-- The magnitude is read first, so that the least number overflows. -/
theorem stringToBigint_negative {m : Nat} (positive : 0 < m)
    : stringToBigint (0x2D :: digitChars 10 m) = (narrow m).bind bigintNeg := by
  have plain : ∀ c ∈ 0x2D :: digitChars 10 m, isEcmaWhitespace c = false := by
    intro c mem
    rcases List.mem_cons.mp mem with rfl | mem
    · rfl
    · exact (digitChars_plain (by decide) (by decide) m c mem).2
  rw [stringToBigint, trimmed_plain plain]
  dsimp only
  rw [if_pos rfl, parseUnsigned_digitChars positive]

-----------------------------------------------------------------------------------------
-- Numbers and digits
-----------------------------------------------------------------------------------------

/-- A number to be written, or digits to be read, with a radix. -/
inductive RadixInput where
  | number (v : Int128)
  | digits (s : List UInt8)

/-- A number is read as what it was: its digits if it is not negative, and in any case the decimal
string. Digits are read as their value, unless that is too large.
-/
def RadixHolds (radix : Nat) : RadixInput → Prop
  | .number v =>
      (0 ≤ v.toInt → ∀ bufLen, 130 ≤ bufLen → ∃ s, int128ToRadix v radix bufLen = some s
        ∧ parseInt128Radix s radix = .ok v)
      ∧ ∃ s, int128ToDecimal v 44 = some s ∧ stringToBigint s = .ok v
  | .digits s =>
      IsNumeral radix s →
        let value := numeralValue radix (digitsIn s) 0
        parseInt128Radix s radix
          = if value ≤ 2 ^ 127 - 1 then .ok (BitVec.ofNat 128 value) else .error .bigintOverflow

/-- Not the least number, whose magnitude is none. -/
def RadixFits : RadixInput → Prop
  | .number v => v ≠ bigintMin
  | .digits _ => True

theorem digits_hold (low : 2 ≤ radix) (high : radix ≤ 36) (s : List UInt8)
    : RadixHolds radix (.digits s) := by
  intro numeral value
  rw [parseInt128Radix_exact low high numeral]
  split
  · rename_i small
    rw [narrow, if_pos ((holds_iff _).mpr (by omega))]
    rfl
  · rename_i wide
    exact narrow_of_not fun held => by
      have held := (holds_iff _).mp held
      omega

/-- A number that is not negative is read from its digits as what it was. -/
theorem number_digits (low : 2 ≤ radix) (high : radix ≤ 36) (natural : 0 ≤ v.toInt)
    (room : 130 ≤ bufLen)
    : ∃ s, int128ToRadix v radix bufLen = some s ∧ parseInt128Radix s radix = .ok v := by
  obtain ⟨m, value⟩ := Int.eq_ofNat_of_zero_le natural
  have bounded := (holds_iff _).mp (holds_toInt v)
  rcases Nat.eq_zero_or_pos m with rfl | positive
  · obtain rfl := (eq_zero_iff v).mpr value
    refine ⟨[0x30], ?_, ?_⟩
    · rw [int128ToRadix, if_pos rfl, if_neg (by omega)]
    · have numeral : IsNumeral radix [0x30] :=
        ⟨fun c mem => .inr ⟨0, by omega, by rw [List.mem_singleton.mp mem]; rfl⟩, by decide⟩
      rw [parseInt128Radix_exact low high numeral]
      have zero : numeralValue radix (digitsIn [0x30]) 0 = 0 := by
        rw [show digitsIn [0x30] = [0] by rfl, numeralValue_cons, Nat.zero_mul]
        rfl
      rw [zero]
      exact narrow_of_toInt value
  · have length := length_digits_le low (show m < 2 ^ 127 by omega)
    refine ⟨_, int128ToRadix_positive low high positive value (by omega), ?_⟩
    rw [parseInt128Radix_digitChars low high positive]
    exact narrow_of_toInt value

/-- The decimal string of a number is read as what it was, if it is not the least one. -/
theorem number_decimal (v : Int128)
    : (∃ s, int128ToDecimal v 44 = some s ∧ stringToBigint s = .ok v) ↔ v ≠ bigintMin := by
  have low : 2 ≤ 10 := by decide
  have high : 10 ≤ 36 := by decide
  have bounded := (holds_iff _).mp (holds_toInt v)
  have length {m : Nat} (small : m ≤ 2 ^ 127) : (Nat.digits 10 m).length ≤ 39 := by
    rw [Nat.digits_length_le_iff low]
    omega
  rw [Ne, eq_bigintMin_iff]
  rcases Int.lt_trichotomy v.toInt 0 with negative | zero | natural
  · obtain ⟨m, value⟩ := Int.eq_ofNat_of_zero_le (show 0 ≤ -v.toInt by omega)
    have value : v.toInt = -m := by omega
    have positive : 0 < m := by omega
    have few := length (show m ≤ 2 ^ 127 by omega)
    have written : int128ToDecimal v 44 = some (0x2D :: digitChars 10 m) :=
      int128ToRadix_negative low high positive value (by omega)
    rw [written]
    constructor
    · rintro ⟨s, is, read⟩ least
      obtain rfl := Option.some.inj is
      -- The magnitude is one above the greatest number.
      have beyond : ¬Holds 128 (m : Int) := by
        rw [holds_iff]
        omega
      rw [stringToBigint_negative positive, narrow_of_not beyond] at read
      cases read
    · intro more
      refine ⟨_, rfl, ?_⟩
      obtain ⟨magnitude, narrowed, magnitude_value⟩ :=
        narrow_of_holds ((holds_iff (m : Int)).mpr (by omega))
      rw [stringToBigint_negative positive, narrowed]
      dsimp only [Except.bind]
      rw [bigintNeg_exact, magnitude_value]
      exact narrow_of_toInt value
  · obtain rfl := (eq_zero_iff v).mpr zero
    exact ⟨fun _ => by decide, fun _ => ⟨[0x30], rfl, rfl⟩⟩
  · obtain ⟨m, value⟩ := Int.eq_ofNat_of_zero_le (show 0 ≤ v.toInt by omega)
    have positive : 0 < m := by omega
    have few := length (show m ≤ 2 ^ 127 by omega)
    have written : int128ToDecimal v 44 = some (digitChars 10 m) :=
      int128ToRadix_positive low high positive value (by omega)
    rw [written]
    refine ⟨fun _ => by omega, fun _ => ⟨_, rfl, ?_⟩⟩
    rw [stringToBigint_positive positive]
    exact narrow_of_toInt value

/-- Numbers are read from what they are written as, and digits are read as their value or overflow,
except for the decimal string of the least number.
-/
theorem bigintRadix_iff (low : 2 ≤ radix) (high : radix ≤ 36) (input : RadixInput)
    : RadixHolds radix input ↔ RadixFits input := by
  cases input with
  | digits s => exact ⟨fun _ => trivial, fun _ => digits_hold low high s⟩
  | number v =>
      constructor
      · exact fun holds => (number_decimal v).mp holds.2
      · intro fits
        exact ⟨fun natural bufLen room => number_digits low high natural room,
          (number_decimal v).mpr fits⟩

/-- A negative number of thirty digits, and digits of radix 36 that overflow. -/
theorem bigintRadix_long
    : RadixHolds 36 (.number (-123456789012345678901234567890))
      ∧ RadixHolds 36 (.digits (List.replicate 25 0x7A)) := by
  refine ⟨?_, ?_⟩
  · refine (bigintRadix_iff (show 2 ≤ 36 by decide) (show 36 ≤ 36 by decide)
      (.number (-123456789012345678901234567890))).mpr ?_
    intro least
    exact absurd least (by decide)
  · exact (bigintRadix_iff (show 2 ≤ 36 by decide) (show 36 ≤ 36 by decide)
      (.digits (List.replicate 25 0x7A))).mpr trivial

/-- The decimal string of -2^127 overflows. -/
theorem bigintRadix_least : ¬RadixHolds 10 (.number bigintMin) :=
  fun holds => (number_decimal bigintMin).mp holds.2 rfl

end Boomkat.Correctness
