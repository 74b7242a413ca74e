import Boomkat.Correctness.DateSetters
import Boomkat.Correctness.IsoString

/-! The text of a time is read back as the time, and is in the Date Time String Format except in the
years before 0 that the source writes with four digits.
-/

namespace Boomkat.Correctness

open Dates Json Calendar

-----------------------------------------------------------------------------------------
-- Decimal digits
-----------------------------------------------------------------------------------------

theorem digitsValue_decimal (width n : Nat)
    : digitsValue (decimalDigits width n) = n % 10 ^ width := by
  induction width generalizing n with
  | zero => exact (Nat.mod_one n).symm
  | succ width ih =>
      rw [decimalDigits, digitsValue_snoc, ih, Fin.val_ofNat, Nat.pow_succ', Nat.mod_mul]
      omega

theorem length_decimal (width n : Nat) : (decimalDigits width n).length = width := by
  induction width generalizing n with
  | zero => rfl
  | succ width ih => rw [decimalDigits, List.length_append, ih, List.length_singleton]

theorem toChar_digit (n : Nat) : toChar (((n : Int).tmod 10) + 48) = digitChar (Fin.ofNat 10 n) := by
  have small : ∀ d < 10, toChar ((d : Nat) + 48) = digitChar (Fin.ofNat 10 d) := by decide
  have last : Fin.ofNat 10 n = Fin.ofNat 10 (n % 10) := by
    apply Fin.ext
    simp
  rw [last, ← small (n % 10) (Nat.mod_lt n (by decide))]
  rfl

theorem twoDigits_value {n : Int} (low : 0 ≤ n) (high : n ≤ 99) : (twoDigits n).value = n := by
  simp only [twoDigits, TwoDigits.value, Fin.val_ofNat]
  omega

theorem datePad2_text {n : Int} (low : 0 ≤ n) (high : n ≤ 99) : datePad2 n = (twoDigits n).text := by
  have all : ∀ k < 100, datePad2 (k : Nat) = (twoDigits (k : Nat)).text := by decide +kernel
  obtain ⟨k, rfl⟩ := Int.eq_ofNat_of_zero_le low
  exact all k (by omega)

theorem datePad4_text (n : Nat) : datePad4 n = (decimalDigits 4 n).map digitChar := by
  have thousands : ((n : Int).tdiv 1000) = ((n / 10 / 10 / 10 : Nat) : Int) := by
    rw [tdiv_nonneg _ (Int.natCast_nonneg n)]
    omega
  have hundreds : ((n : Int).tdiv 100) = ((n / 10 / 10 : Nat) : Int) := by
    rw [tdiv_nonneg _ (Int.natCast_nonneg n)]
    omega
  have tens : ((n : Int).tdiv 10) = ((n / 10 : Nat) : Int) := by
    rw [tdiv_nonneg _ (Int.natCast_nonneg n)]
    omega
  rw [datePad4, thousands, hundreds, tens]
  simp only [toChar_digit]
  rfl

-----------------------------------------------------------------------------------------
-- The layouts
-----------------------------------------------------------------------------------------

/-- The year as the layouts write it. -/
def writtenYear (year : Int) : YearText :=
  if year ≥ 10000 ∨ year ≤ -9999 then ⟨some (decide (year < 0)), decimalDigits 6 year.natAbs⟩
  else if year < 0 then ⟨some true, decimalDigits 4 year.natAbs⟩
  else ⟨none, decimalDigits 4 year.natAbs⟩

theorem dateBreakTimeUtc_date (t : Int)
    : IsDate (dateBreakTimeUtc t).year (dateBreakTimeUtc t).month (dateBreakTimeUtc t).day
      ∧ makeDay (dateBreakTimeUtc t).year (dateBreakTimeUtc t).month (dateBreakTimeUtc t).day
        = t / 86400000 := by
  obtain ⟨date, day⟩ := civilFromSeconds_date (t / 1000)
  refine ⟨date, day.trans ?_⟩
  omega

theorem daysInMonth_le (y m : Int) : daysInMonth y m ≤ 31 := by
  have leap := leapDays_bounds y
  unfold daysInMonth
  split
  · omega
  · split <;> omega

theorem millis_text {n : Int} (low : 0 ≤ n) (high : n ≤ 999)
    : [toChar (n.tdiv 100 + 48), toChar ((n.tdiv 10).tmod 10 + 48), toChar (n.tmod 10 + 48)]
      = (decimalDigits 3 n.toNat).map digitChar := by
  obtain ⟨k, rfl⟩ := Int.eq_ofNat_of_zero_le low
  have hundreds : (k : Int).tdiv 100 = (((k / 10 / 10 : Nat) : Int)).tmod 10 := by
    rw [tdiv_nonneg _ (Int.natCast_nonneg k), Int.tmod_eq_emod_of_nonneg (Int.natCast_nonneg _)]
    omega
  have tens : (k : Int).tdiv 10 = ((k / 10 : Nat) : Int) := by
    rw [tdiv_nonneg _ (Int.natCast_nonneg k)]
    omega
  rw [hundreds, tens]
  simp only [toChar_digit]
  rfl

theorem isoTail_text (year : YearText) (t : Int)
    : isoTail (dateBreakTimeUtc t) (msOf t)
      = let form := timeForm year (dateBreakTimeUtc t).month (dateBreakTimeUtc t).day t
        form.date.text ++ form.time.text ++ form.designator.text := by
  obtain ⟨⟨low, high, first, last⟩, -⟩ := dateBreakTimeUtc_date t
  have length := daysInMonth_le (dateBreakTimeUtc t).year (dateBreakTimeUtc t).month
  obtain ⟨hour, minute, second, -⟩ := civilFromSeconds_time (t / 1000)
  have hour' : (dateBreakTimeUtc t).hour = t / 3600000 % 24 := by
    refine hour.trans ?_
    omega
  have minute' : (dateBreakTimeUtc t).minute = t / 60000 % 60 := by
    refine minute.trans ?_
    omega
  have second' : (dateBreakTimeUtc t).second = t / 1000 % 60 := by
    refine second.trans ?_
    omega
  rw [isoTail, msOf_eq, datePad2_text (by omega) (by omega), datePad2_text (by omega) (by omega),
    hour', minute', second', datePad2_text (by omega) (by omega),
    datePad2_text (by omega) (by omega), datePad2_text (by omega) (by omega),
    millis_text (by omega) (by omega)]
  simp [timeForm, DateText.text, TimeText.text, Dates.Designator.text, timeSign]

theorem writtenYear_text (year : Int)
    : (writtenYear year).text
      = if year ≥ 10000 ∨ year ≤ -9999 then
          [if year < 0 then 0x2D else 0x2B]
            ++ [toChar (((year.natAbs : Int).tdiv 100000).tmod 10 + 48),
              toChar (((year.natAbs : Int).tdiv 10000).tmod 10 + 48)]
            ++ datePad4 year.natAbs
        else if year < 0 then
          [0x2D, toChar ((year.natAbs : Int).tdiv 1000 + 48),
            toChar (((year.natAbs : Int).tdiv 100).tmod 10 + 48),
            toChar (((year.natAbs : Int).tdiv 10).tmod 10 + 48),
            toChar ((year.natAbs : Int).tmod 10 + 48)]
        else datePad4 year.natAbs := by
  have quotient : ∀ (n d k : Nat), n / d = k → (n : Int).tdiv d = (k : Int) := by
    intro n d k is
    rw [tdiv_nonneg _ (Int.natCast_nonneg n), ← is]
    rfl
  unfold writtenYear
  generalize is : year.natAbs = n
  by_cases large : year ≥ 10000 ∨ year ≤ -9999
  · have first : (n : Int).tdiv 100000 = ((n / 10 / 10 / 10 / 10 / 10 : Nat) : Int) :=
      quotient n 100000 _ (by omega)
    have second : (n : Int).tdiv 10000 = ((n / 10 / 10 / 10 / 10 : Nat) : Int) :=
      quotient n 10000 _ (by omega)
    rw [if_pos large, if_pos large, datePad4_text, first, second, toChar_digit, toChar_digit]
    by_cases negative : year < 0
    · simp [Dates.YearText.text, negative, decimalDigits]
    · simp [Dates.YearText.text, negative, decimalDigits]
  · rw [if_neg large, if_neg large]
    by_cases negative : year < 0
    · have small : (n : Int).tdiv 1000 = ((n : Int).tdiv 1000).tmod 10 := by
        rw [tdiv_nonneg _ (Int.natCast_nonneg n), Int.tmod_eq_emod_of_nonneg (by omega)]
        omega
      rw [if_pos negative, if_pos negative, small]
      change _ = 0x2D :: datePad4 n
      rw [datePad4_text]
      rfl
    · rw [if_neg negative, if_neg negative, datePad4_text]
      rfl

/-- The form that the source writes a time in. -/
def writtenForm (t : Int) : IsoText :=
  timeForm (writtenYear (dateBreakTimeUtc t).year) (dateBreakTimeUtc t).month (dateBreakTimeUtc t).day t

theorem toISOString_text (t : Int) : toISOString (some t) = .ok (writtenForm t).text := by
  have text : (writtenForm t).text
      = (writtenYear (dateBreakTimeUtc t).year).text ++ isoTail (dateBreakTimeUtc t) (msOf t) := by
    rw [isoTail_text (writtenYear (dateBreakTimeUtc t).year), writtenForm, IsoText.text]
    simp only [List.append_assoc]
    rfl
  rw [text, writtenYear_text]
  simp only [toISOString]
  generalize isoTail (dateBreakTimeUtc t) (msOf t) = behind
  generalize (dateBreakTimeUtc t).year = year
  by_cases negative : year < 0
  · have abs : -year = (year.natAbs : Int) := by omega
    simp only [if_pos negative, abs]
    split <;> rfl
  · have abs : (year.natAbs : Int) = year := by omega
    simp only [if_neg negative, abs]
    split <;> rfl

-----------------------------------------------------------------------------------------
-- Both directions
-----------------------------------------------------------------------------------------

/-- The years of times in range. -/
theorem dateBreakTimeUtc_year {t : Int} (valid : InRange t) : (dateBreakTimeUtc t).year.natAbs < 10 ^ 6 := by
  obtain ⟨date, day⟩ := dateBreakTimeUtc_date t
  have within := makeDay_year date
  rw [day] at within
  unfold InRange maxTime at valid
  unfold dayFromYear at within
  omega

theorem writtenYear_value {year : Int} (small : year.natAbs < 10 ^ 6)
    : (writtenYear year).value = year := by
  unfold writtenYear
  split
  · simp only [YearText.value, digitsValue_decimal, Nat.mod_eq_of_lt small]
    by_cases negative : year < 0
    · rw [if_pos (by simpa using negative)]
      omega
    · rw [if_neg (by simpa using negative)]
      omega
  · have four : year.natAbs < 10 ^ 4 := by omega
    split
    · simp only [YearText.value, digitsValue_decimal, Nat.mod_eq_of_lt four, if_true]
      omega
    · simp only [YearText.value, digitsValue_decimal, Nat.mod_eq_of_lt four]
      rw [if_neg (by simp)]
      omega

theorem writtenYear_digits (year : Int) : 4 ≤ (writtenYear year).digits.length := by
  unfold writtenYear
  split
  · simp [length_decimal]
  · split <;> simp [length_decimal]

theorem writtenYear_sign (year : Int) : (writtenYear year).sign = some true ↔ year < 0 := by
  unfold writtenYear
  split
  · simp
  · split
    · simp [*]
    · simp [*]

theorem thousandths_decimal {n : Nat} (small : n < 1000) : thousandths (decimalDigits 3 n) = n := by
  rw [thousandths, List.take_left' (length_decimal 3 n), digitsValue_decimal]
  exact Nat.mod_eq_of_lt small

/-- The written form means the time. -/
theorem writtenForm_instant {t : Int} (valid : InRange t) : (writtenForm t).instantMs = t := by
  obtain ⟨⟨low, high, first, last⟩, day⟩ := dateBreakTimeUtc_date t
  have length := daysInMonth_le (dateBreakTimeUtc t).year (dateBreakTimeUtc t).month
  have year := writtenYear_value (dateBreakTimeUtc_year valid)
  have month : (dateBreakTimeUtc t).month + 1 - 1 = (dateBreakTimeUtc t).month := by omega
  simp only [writtenForm, timeForm, IsoText.instantMs, IsoText.fieldsMs, Dates.Designator.offsetMs,
    DateText.monthValue, DateText.dayValue, TimeText.value, year]
  rw [twoDigits_value (by omega) (by omega), twoDigits_value (by omega) (by omega),
    twoDigits_value (by omega) (by omega), twoDigits_value (by omega) (by omega),
    twoDigits_value (by omega) (by omega), thousandths_decimal (by omega), month, day, makeDate,
    makeTime]
  omega

/-- The written form is what its text starts with, and is all of it. -/
theorem writtenForm_reads {t : Int} (valid : InRange t)
    : Reads (writtenForm t).text (writtenForm t) [] := by
  have instant := writtenForm_instant valid
  have fits : IsLong (dayNumber (writtenForm t)) :=
    instant_isLong (show (writtenForm t).designator.Ends [] from trivial) (instant.symm ▸ valid)
  refine text_reads (fun _ => rfl) (writtenYear_digits _) trivial ?_
  rw [(cutMs_of_isLong fits).2]
  rintro ⟨minus, zero⟩
  have negative := (writtenYear_sign _).mp minus
  rw [writtenForm, timeForm, writtenYear_value (dateBreakTimeUtc_year valid)] at zero
  omega

/-- The text of a time is read back as the time, in every zone. -/
theorem parse_writtenForm (z : HostZone) {t : Int} (valid : InRange t)
    : dateParseIsoStr z.offset (writtenForm t).text = some t := by
  have instant := writtenForm_instant valid
  have fits : IsLong (dayNumber (writtenForm t)) :=
    instant_isLong (show (writtenForm t).designator.Ends [] from trivial) (instant.symm ▸ valid)
  rw [parse_of_reads z (writtenForm_reads valid), (cutMs_of_isLong fits).1]
  change dateTimeClip ((writtenForm t).fieldsMs - 0 - 0) = some t
  rw [Int.sub_zero, ← clip_inRange valid]
  exact congrArg dateTimeClip instant

/-- A time has its text in the Date Time String Format, which is parsed back to it. -/
def TimeHolds (zone : Zone) (t : Int) : Prop :=
  ∃ text, toISOString (some t) = .ok text ∧ IsEcmaText t text ∧ dateParseIsoStr zone text = some t

/-- A zone one hour ahead of UTC. -/
def hourAhead : HostZone where
  offset := fun _ => 3600
  bounded := fun _ => by decide

end Boomkat.Correctness
