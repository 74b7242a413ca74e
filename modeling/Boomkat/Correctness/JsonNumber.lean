import Boomkat.Correctness.IntegerDouble

/-! Number literals of JSON texts: where the parser stores the number that the literal stands
for, and where it stores another one.
-/

namespace Boomkat.Correctness

open Machine Json

-----------------------------------------------------------------------------------------
-- Stored numbers
-----------------------------------------------------------------------------------------

/-- A boxed integer is read back with its 48-bit payload. -/
theorem getFastint_setFastint (n : Int)
    : (TVal.setFastint n).isFastint = true
      ∧ (TVal.setFastint n).getFastint
        = if 2 ^ 47 ≤ n % 2 ^ 48 then n % 2 ^ 48 - 2 ^ 48 else n % 2 ^ 48 := by
  have bits : (TVal.setFastint n).toNat = tagFastint * 2 ^ 48 + (n % 2 ^ 48).toNat := by
    rw [TVal.setFastint, BitVec.toNat_ofNat]
    simp only [tagFastint]
    omega
  constructor
  · rw [TVal.isFastint, bits, beq_iff_eq]
    simp only [tagFastint]
    omega
  · have payload : ((TVal.setFastint n).toNat : Int) % 2 ^ 48 = n % 2 ^ 48 := by
      rw [bits]
      simp only [tagFastint]
      omega
    simp only [TVal.getFastint, payload]

/-- The payload wraps, so it is the integer exactly if that has 48 bits. -/
theorem getFastint_eq_iff (n : Int)
    : (TVal.setFastint n).getFastint = n ↔ fastintMin ≤ n ∧ n ≤ fastintMax := by
  rw [(getFastint_setFastint n).2]
  simp only [fastintMin, fastintMax]
  split <;> omega

theorem getFastint_small (n : Int) : (TVal.setFastint n).getFastint.natAbs < 2 ^ 53 := by
  rw [(getFastint_setFastint n).2]
  split <;> omega

/-- A double that is not a NaN is stored as it is. -/
theorem setNumber_number {d : Double} (number : d.isNan = false)
    : TVal.setNumber d = d ∧ TVal.isFastint d = false := by
  have range := d.isLt
  have untagged : d.toNat / 2 ^ 48 < tagFastint := by
    by_contra tagged
    simp only [tagFastint] at tagged
    have nan : d.isNan = true := by
      simp only [Double.isNan, Bool.and_eq_true, beq_iff_eq, bne_iff_ne]
      omega
    simp [nan] at number
  refine ⟨if_neg (by omega), ?_⟩
  rw [TVal.isFastint, beq_eq_false_iff_ne]
  omega

/-- The integers that are safe but have no 48 bits, as doubles. -/
def InBand (d : Double) : Prop :=
  ∃ n : Int, d = Double.ofInt n ∧ minSafeInt ≤ n ∧ n ≤ maxSafeInt ∧ ¬(fastintMin ≤ n ∧ n ≤ fastintMax)

theorem safe_small {n : Int} (lower : minSafeInt ≤ n) (upper : n ≤ maxSafeInt)
    : n.natAbs < 2 ^ 53 := by
  simp only [minSafeInt, maxSafeInt] at lower upper
  omega

/-- The safe integers take the path of the boxed integers, and nothing else does. -/
theorem storeNumber_cases (outside : Double → Int) {d : Double} (number : d.isNan = false)
    : (∃ n, d = Double.ofInt n ∧ minSafeInt ≤ n ∧ n ≤ maxSafeInt
        ∧ storeNumber outside d = TVal.setFastint n)
      ∨ (∀ n, d = Double.ofInt n → ¬(minSafeInt ≤ n ∧ n ≤ maxSafeInt))
        ∧ storeNumber outside d = d := by
  simp only [storeNumber]
  split
  case isTrue boxed =>
    obtain ⟨signed, same, lower, upper⟩ := boxed
    have positive := ofInt_ne_negZero (safe_small lower upper)
    exact .inl ⟨_, (eq_of_double_eq same positive signed).symm, lower, upper, rfl⟩
  case isFalse unboxed =>
    refine .inr ⟨?_, (setNumber_number number).1⟩
    rintro n rfl ⟨lower, upper⟩
    apply unboxed
    rw [toLong_ofInt outside (safe_small lower upper)]
    refine ⟨ofInt_ne_negZero (safe_small lower upper), ?_, lower, upper⟩
    simp [Double.eq, number]

/-- A stored number is read back exactly if it is not in the band. -/
theorem storeNumber_exact_iff (outside : Double → Int) {d : Double} (number : d.isNan = false)
    : (storeNumber outside d).getNumberOrFastint = d ↔ ¬InBand d := by
  rcases storeNumber_cases outside number with ⟨n, rfl, lower, upper, stored⟩ | ⟨unsafe', stored⟩
  · have small := safe_small lower upper
    have read : (storeNumber outside (Double.ofInt n)).getNumberOrFastint
        = Double.ofInt (TVal.setFastint n).getFastint := by
      rw [stored, TVal.getNumberOrFastint, if_pos (getFastint_setFastint n).1]
    rw [read]
    constructor
    · rintro same ⟨m, equal, lower', upper', wide⟩
      have wraps := ofInt_injective (getFastint_small n) small same
      have names := ofInt_injective small (safe_small lower' upper') equal
      exact wide (names ▸ (getFastint_eq_iff n).mp wraps)
    · intro narrow
      have fits : fastintMin ≤ n ∧ n ≤ fastintMax := by
        by_contra wide
        exact narrow ⟨n, rfl, lower, upper, wide⟩
      rw [(getFastint_eq_iff n).mpr fits]
  · constructor
    · rintro - ⟨n, equal, lower, upper, -⟩
      exact unsafe' n equal ⟨lower, upper⟩
    · intro
      rw [stored, TVal.getNumberOrFastint, (setNumber_number number).2]
      rfl

/-- A number outside the band is boxed as an integer only if the payload represents it. -/
theorem storeNumber_boxed (outside : Double → Int) {d : Double} (number : d.isNan = false)
    (narrow : ¬InBand d) (boxed : (storeNumber outside d).isFastint)
    : ∃ n, d = Double.ofInt n ∧ fastintMin ≤ n ∧ n ≤ fastintMax := by
  rcases storeNumber_cases outside number with ⟨n, rfl, lower, upper, stored⟩ | ⟨-, stored⟩
  · have fits : fastintMin ≤ n ∧ n ≤ fastintMax := by
      by_contra wide
      exact narrow ⟨n, rfl, lower, upper, wide⟩
    exact ⟨n, rfl, fits⟩
  · rw [stored, (setNumber_number number).2] at boxed
    exact absurd boxed (by decide)

-----------------------------------------------------------------------------------------
-- The parser on a literal
-----------------------------------------------------------------------------------------

theorem isDigit_digitChar (digit : Fin 10) : isDigit (digitChar digit) = true := by
  revert digit
  decide

/-- What is left does not start with a digit. -/
def EndsDigits (rest : List UInt8) : Prop := ∀ c ∈ rest.head?, isDigit c = false

theorem dropWhile_digits (digits : List (Fin 10)) {rest : List UInt8} (ends : EndsDigits rest)
    : (digits.map digitChar ++ rest).dropWhile isDigit = rest := by
  induction digits with
  | nil =>
      cases rest with
      | nil => rfl
      | cons c tail =>
          have other : isDigit c = false := ends c rfl
          simp [other]
  | cons digit digits ih => simp [isDigit_digitChar, ih]

theorem skipDigits_digits {digits : List (Fin 10)} (nonempty : digits ≠ []) {rest : List UInt8}
    (ends : EndsDigits rest)
    : skipDigits (digits.map digitChar ++ rest) = some rest := by
  cases digits with
  | nil => exact absurd rfl nonempty
  | cons digit digits =>
      simp [skipDigits, isDigit_digitChar, dropWhile_digits digits ends]

/-- The integer part of a literal is skipped, by its leading digit. -/
theorem skipInteger_literal (literal : JsonNumber) {rest : List UInt8} (ends : EndsDigits rest)
    : skipInteger (literal.integer.map digitChar ++ rest) = some rest := by
  rcases literal.leading with zero | ⟨digit, digits, spelled, leading⟩
  · rw [zero]
    rfl
  · have leads : ∀ digit : Fin 10, digit ≠ 0 →
        digitChar digit ≠ 0x30 ∧ (0x31 ≤ digitChar digit && digitChar digit ≤ 0x39) := by decide
    rw [spelled]
    simp only [List.map_cons, List.cons_append, skipInteger, if_neg (leads digit leading).1,
      if_pos (leads digit leading).2, dropWhile_digits digits ends]

theorem skipSign_literal (literal : JsonNumber) (rest : List UInt8)
    : skipSign ((if literal.negative then [0x2D] else []) ++ (literal.integer.map digitChar ++ rest))
      = literal.integer.map digitChar ++ rest := by
  have unsigned : ∀ digit : Fin 10, digitChar digit ≠ 0x2D := by decide
  obtain ⟨digit, digits, spelled⟩ : ∃ digit digits, literal.integer = digit :: digits := by
    rcases literal.leading with zero | ⟨digit, digits, spelled, -⟩
    · exact ⟨0, [], zero⟩
    · exact ⟨digit, digits, spelled⟩
  cases literal.negative with
  | true => rfl
  | false =>
      rw [spelled]
      simp [skipSign, unsigned digit]

/-- The text of the fraction part. -/
def fractionText (fraction : List (Fin 10)) : List UInt8 :=
  if fraction = [] then [] else 0x2E :: fraction.map digitChar

theorem skipFraction_literal (fraction : List (Fin 10)) {rest : List UInt8} (ends : EndsDigits rest)
    (dotless : ∀ c ∈ rest.head?, c ≠ 0x2E)
    : skipFraction (fractionText fraction ++ rest) = some rest := by
  rw [fractionText]
  split
  case isTrue =>
    cases rest with
    | nil => rfl
    | cons c tail => simp [skipFraction, dotless c rfl]
  case isFalse nonempty => exact skipDigits_digits nonempty ends

theorem skipExponentSign_text (exponent : Exponent) (rest : List UInt8)
    : ∃ c, exponent.text ++ rest = c :: (exponent.text.tail ++ rest)
      ∧ (c = 0x65 ∨ c = 0x45)
      ∧ skipExponentSign (exponent.text.tail ++ rest) = exponent.digits.map digitChar ++ rest := by
  have unsigned : ∀ digit : Fin 10, digitChar digit ≠ 0x2B ∧ digitChar digit ≠ 0x2D := by decide
  refine ⟨if exponent.upper then 0x45 else 0x65, by simp [Exponent.text], ?_, ?_⟩
  · cases exponent.upper with
    | true => exact .inr rfl
    | false => exact .inl rfl
  · rcases sign : exponent.sign with - | (_ | _)
    · obtain ⟨digit, digits, spelled⟩ := List.exists_cons_of_ne_nil exponent.nonempty
      simp [Exponent.text, sign, spelled, skipExponentSign, unsigned digit]
    · simp [Exponent.text, sign, skipExponentSign]
    · simp [Exponent.text, sign, skipExponentSign]

theorem skipExponent_literal (exponent : Option Exponent) {rest : List UInt8}
    (ends : EndsNumber rest)
    : skipExponent ((exponent.map Exponent.text).getD [] ++ rest) = some rest := by
  have digitless : EndsDigits rest := fun c first => (ends c first).1
  cases exponent with
  | none =>
      cases rest with
      | nil => rfl
      | cons c tail =>
          obtain ⟨-, -, lower, upper⟩ := ends c rfl
          simp [skipExponent, lower, upper]
  | some exponent =>
      obtain ⟨c, spelled, letter, skipped⟩ := skipExponentSign_text exponent rest
      have parsed := skipDigits_digits exponent.nonempty digitless
      rw [Option.map_some, Option.getD_some, spelled]
      rcases letter with rfl | rfl
      · simp only [skipExponent, skipped, parsed]
      · simp only [skipExponent, skipped, parsed]

/-- The parser takes exactly the text of a literal. -/
theorem jsonParseNumber_literal (strtod : List UInt8 → Double) (outside : Double → Int)
    (literal : JsonNumber) {rest : List UInt8} (ends : EndsNumber rest)
    : jsonParseNumber strtod outside (literal.text ++ rest)
      = some (storeNumber outside (strtod literal.text), rest) := by
  have exponentless : ∀ exponent : Option Exponent,
      ∀ c ∈ ((exponent.map Exponent.text).getD [] ++ rest).head?, isDigit c = false ∧ c ≠ 0x2E := by
    intro exponent c first
    cases exponent with
    | none => exact ⟨(ends c first).1, (ends c first).2.1⟩
    | some exponent =>
        obtain ⟨head, spelled, letter, -⟩ := skipExponentSign_text exponent rest
        rw [Option.map_some, Option.getD_some, spelled] at first
        obtain rfl : head = c := by simpa using first
        rcases letter with rfl | rfl <;> decide
  have beforeExponent := exponentless literal.exponent
  have beforeFraction : EndsDigits
      (fractionText literal.fraction ++ ((literal.exponent.map Exponent.text).getD [] ++ rest)) := by
    rw [fractionText]
    intro c first
    split at first
    · exact (beforeExponent c first).1
    · obtain rfl : 0x2E = c := by simpa using first
      decide
  have length : (literal.text ++ rest).length - rest.length = literal.text.length := by simp
  have spelled : literal.text ++ rest
      = (if literal.negative then [0x2D] else []) ++ (literal.integer.map digitChar
        ++ (fractionText literal.fraction
          ++ ((literal.exponent.map Exponent.text).getD [] ++ rest))) := by
    simp [JsonNumber.text, fractionText]
  have skips : (skipInteger (skipSign (literal.text ++ rest))).bind
      (fun rest => (skipFraction rest).bind skipExponent) = some rest := by
    rw [spelled, skipSign_literal, skipInteger_literal literal beforeFraction, Option.bind_some,
      skipFraction_literal literal.fraction (fun c first => (beforeExponent c first).1)
        (fun c first => (beforeExponent c first).2),
      Option.bind_some, skipExponent_literal literal.exponent ends]
  simp only [Option.bind_eq_some_iff] at skips
  obtain ⟨_, integer, _, fraction, exponent⟩ := skips
  simp [jsonParseNumber, integer, fraction, exponent]

-----------------------------------------------------------------------------------------
-- Exact numbers
-----------------------------------------------------------------------------------------

/-- The double is nearest to the number, and infinite only beyond the largest finite one. -/
structure Nearest (q : ℚ) (d : Double) : Prop where
  number : d.isNan = false
  closest : d.isFinite → ∀ other : Double, other.isFinite → |d.value - q| ≤ |other.value - q|
  overflow : d.isFinite = false → (2 ^ 53 - 1) * 2 ^ 971 < |q|

/-- An integer literal with a safe value yields that integer, any other literal yields the
converted double, and only what a fastint represents is boxed as one.
-/
structure ParsesExactly (literal : JsonNumber) (d : Double) (val : TVal) : Prop where
  integer : literal.isInteger → |literal.value| ≤ 2 ^ 53 - 1 →
    val.getNumberOrFastint.isFinite ∧ val.getNumberOrFastint.value = literal.value
  other : ¬(literal.isInteger ∧ |literal.value| ≤ 2 ^ 53 - 1) → val.getNumberOrFastint = d
  boxed : val.isFastint → ∃ n, d = Double.ofInt n ∧ fastintMin ≤ n ∧ n ≤ fastintMax

/-- The value of an integer literal is an integer. -/
theorem value_isInteger {literal : JsonNumber} (integer : literal.isInteger)
    : ∃ n : Int, literal.value = n := by
  obtain ⟨fraction, exponent⟩ := integer
  simp only [JsonNumber.value, fraction, exponent]
  cases literal.negative with
  | true => exact ⟨-(digitsValue (literal.integer ++ []) : Int), by simp⟩
  | false => exact ⟨(digitsValue (literal.integer ++ []) : Int), by simp⟩

/-- The conversion of a safe integer literal is exact, as no double is nearer to the integer than
its own one.
-/
theorem value_nearest {literal : JsonNumber} {d : Double} (nearest : Nearest literal.value d)
    (integer : literal.isInteger) (safe : |literal.value| ≤ 2 ^ 53 - 1)
    : d.isFinite ∧ d.value = literal.value := by
  obtain ⟨n, value⟩ := value_isInteger integer
  have small : n.natAbs < 2 ^ 53 := by
    rw [value, ← Int.cast_abs] at safe
    have bound : |n| ≤ 2 ^ 53 - 1 := by exact_mod_cast safe
    rw [Int.abs_eq_natAbs] at bound
    omega
  have finite : d.isFinite := by
    by_contra infinite
    have beyond := nearest.overflow (by simpa using infinite)
    have large : (2 ^ 53 - 1 : ℚ) ≤ (2 ^ 53 - 1) * 2 ^ 971 := by
      apply le_mul_of_one_le_right
      · norm_num
      · exact one_le_pow₀ (by norm_num)
    exact absurd (lt_of_le_of_lt (safe.trans large) beyond) (lt_irrefl _)
  refine ⟨finite, ?_⟩
  have closest := nearest.closest finite (Double.ofInt n) (isFinite_ofInt small)
  rw [value_ofInt small, value, sub_self, abs_zero] at closest
  rw [value]
  exact sub_eq_zero.mp (abs_eq_zero.mp (le_antisymm closest (abs_nonneg _)))

/-- A number literal is parsed exactly if and only if the converted double is not a safe integer
that a fastint does not represent. Witness: the bits of an integer below 2^53, from which follow
its value and the cast back, and the payload of 48 bits, which wraps.
-/
theorem jsonParseNumber_exact_iff (strtod : List UInt8 → Double) (outside : Double → Int)
    (literal : JsonNumber) (rest : List UInt8) (ends : EndsNumber rest)
    (nearest : Nearest literal.value (strtod literal.text))
    : ∃ val, jsonParseNumber strtod outside (literal.text ++ rest) = some (val, rest)
      ∧ (ParsesExactly literal (strtod literal.text) val ↔ ¬InBand (strtod literal.text)) := by
  refine ⟨_, jsonParseNumber_literal strtod outside literal ends, ?_⟩
  have number := nearest.number
  constructor
  · intro exact' band
    rcases storeNumber_cases outside number with ⟨n, same, lower, upper, stored⟩ | ⟨unsafe', -⟩
    · obtain ⟨m, converted, fits⟩ := exact'.boxed (by rw [stored]; exact (getFastint_setFastint n).1)
      obtain ⟨k, equal, lower', upper', wide⟩ := band
      have small : m.natAbs < 2 ^ 53 := by
        simp only [fastintMin, fastintMax] at fits
        omega
      have names := ofInt_injective small (safe_small lower' upper') (converted.symm.trans equal)
      exact wide (names ▸ fits)
    · obtain ⟨k, equal, lower, upper, -⟩ := band
      exact unsafe' k equal ⟨lower, upper⟩
  · intro narrow
    have read := (storeNumber_exact_iff outside number).mpr narrow
    refine ⟨?_, fun _ => read, storeNumber_boxed outside number narrow⟩
    intro integer safe
    rw [read]
    exact value_nearest nearest integer safe

/-- The double of a safe integer is nearest to it, at distance 0. -/
theorem nearest_ofInt {n : Int} (small : n.natAbs < 2 ^ 53) : Nearest n (Double.ofInt n) where
  number := isNan_ofInt small
  closest := by
    intro _ other _
    rw [value_ofInt small, sub_self, abs_zero]
    exact abs_nonneg _
  overflow := by
    intro infinite
    rw [isFinite_ofInt small] at infinite
    exact absurd infinite (by decide)

/-- The literal `42` is parsed exactly. -/
theorem jsonParseNumber_exact_small
    : let literal : JsonNumber := ⟨false, [4, 2], [], none, .inr ⟨4, [2], rfl, by decide⟩⟩
      ∃ val, jsonParseNumber (fun _ => Double.ofInt 42) (fun _ => 0) (literal.text ++ [])
          = some (val, [])
        ∧ ParsesExactly literal (Double.ofInt 42) val := by
  intro literal
  have digits : digitsValue [4, 2] = 42 := rfl
  have value : literal.value = ((42 : Int) : ℚ) := by simp [literal, JsonNumber.value, digits]
  obtain ⟨val, parsed, exact'⟩ := jsonParseNumber_exact_iff (fun _ => Double.ofInt 42) (fun _ => 0)
    literal [] (by simp [EndsNumber]) (value ▸ nearest_ofInt (by decide))
  refine ⟨val, parsed, exact'.mpr ?_⟩
  rintro ⟨n, same, lower, upper, wide⟩
  have names := ofInt_injective (by decide) (safe_small lower upper) same
  subst names
  exact absurd wide (by decide)

/-- The literal `140737488355328` of the value 2^47 yields the number -2^47. -/
theorem jsonParseNumber_wraps
    : let literal : JsonNumber :=
        ⟨false, [1, 4, 0, 7, 3, 7, 4, 8, 8, 3, 5, 5, 3, 2, 8], [], none,
          .inr ⟨1, _, rfl, by decide⟩⟩
      literal.isInteger ∧ literal.value = 2 ^ 47
        ∧ Nearest literal.value (Double.ofInt (2 ^ 47))
        ∧ ∃ val, jsonParseNumber (fun _ => Double.ofInt (2 ^ 47)) (fun _ => 0) literal.text
            = some (val, [])
          ∧ val.getNumberOrFastint.value = -2 ^ 47
          ∧ ¬ParsesExactly literal (Double.ofInt (2 ^ 47)) val := by
  intro literal
  have digits : digitsValue [1, 4, 0, 7, 3, 7, 4, 8, 8, 3, 5, 5, 3, 2, 8] = 2 ^ 47 := rfl
  have value : literal.value = ((2 ^ 47 : Int) : ℚ) := by simp [literal, JsonNumber.value, digits]
  have parsed := jsonParseNumber_literal (fun _ => Double.ofInt (2 ^ 47)) (fun _ => 0) literal
    (by simp [EndsNumber] : EndsNumber [])
  rw [List.append_nil] at parsed
  have read : (storeNumber (fun _ => 0) (Double.ofInt (2 ^ 47))).getNumberOrFastint
      = Double.ofInt (-2 ^ 47) := by decide
  have number : (Double.ofInt (-2 ^ 47)).value = -2 ^ 47 := by
    rw [value_ofInt (by decide)]
    norm_num
  refine ⟨⟨rfl, rfl⟩, by rw [value]; norm_num, value ▸ nearest_ofInt (by decide), _, parsed, ?_, ?_⟩
  · rw [read, number]
  · intro exact'
    obtain ⟨-, same⟩ := exact'.integer ⟨rfl, rfl⟩ (by rw [value]; norm_num)
    rw [read, number, value] at same
    norm_num at same

end Boomkat.Correctness
