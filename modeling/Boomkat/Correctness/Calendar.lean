import Boomkat.Dates.Calendar
import Boomkat.Foundation.Calendar

/-! The two conversions of dates against the calendar: the fields of a second are its date, and the
day number of fields is that of the calendar as long as it has 64 bits.
-/

namespace Boomkat.Correctness

open Calendar Dates

-----------------------------------------------------------------------------------------
-- Division and wrapping
-----------------------------------------------------------------------------------------

theorem tdiv_nonneg {n : Int} (d : Int) (positive : 0 ≤ n) : n.tdiv d = n / d :=
  Int.tdiv_eq_ediv_of_nonneg positive

/-- The division towards zero by the floors of two numbers that are not negative. -/
theorem tdiv_floor (n d : Int) : n.tdiv d = if 0 ≤ n then n / d else -(-n / d) := by
  split
  · exact tdiv_nonneg d ‹_›
  · have negated := Int.neg_tdiv (a := -n) (b := d)
    rw [Int.neg_neg] at negated
    rw [negated, tdiv_nonneg d (by omega)]

theorem tmod_floor (n d : Int) : n.tmod d = if 0 ≤ n then n % d else -(-n % d) := by
  split
  · exact Int.tmod_eq_emod_of_nonneg ‹_›
  · have negated := Int.neg_tmod (-n) d
    rw [Int.neg_neg] at negated
    rw [negated, Int.tmod_eq_emod_of_nonneg (by omega)]

theorem long_isLong (n : Int) : IsLong (long n) := by
  unfold IsLong long
  omega

theorem long_of_isLong {n : Int} (fits : IsLong n) : long n = n := by
  unfold IsLong at fits
  unfold long
  omega

-----------------------------------------------------------------------------------------
-- From seconds to fields
-----------------------------------------------------------------------------------------

theorem split_seconds (n : Int)
    : (if n.tmod 86400 < 0 then n.tdiv 86400 - 1 else n.tdiv 86400) = n / 86400
      ∧ (if n.tmod 86400 < 0 then n.tmod 86400 + 86400 else n.tmod 86400) = n % 86400 := by
  rw [tdiv_floor, tmod_floor]
  split <;> split <;> omega

theorem weekday (days : Int)
    : (if (days.tmod 7 + 4).tmod 7 < 0 then (days.tmod 7 + 4).tmod 7 + 7
        else (days.tmod 7 + 4).tmod 7) = (days + 4) % 7 := by
  simp only [tmod_floor]
  split <;> split <;> split <;> omega

theorem era_floor (z : Int) : (if z ≥ 0 then z else z - 146096).tdiv 146097 = z / 146097 := by
  by_cases positive : z ≥ 0
  · rw [if_pos positive, tdiv_nonneg _ positive]
  · rw [if_neg positive, tdiv_floor, if_neg (by omega)]
    omega

/-- The fields of a second by the parts of the day of the era. -/
theorem civilFromSeconds_parts (secs : Int) {c q t u : Int}
    (parts : EraParts ((secs / 86400 + 719468) % 146097) c q t u)
    : civilFromSeconds secs
      = { year := 100 * c + 4 * q + t + (secs / 86400 + 719468) / 146097 * 400
            + if (5 * u + 2) / 153 < 10 then 0 else 1
          month := if (5 * u + 2) / 153 < 10 then (5 * u + 2) / 153 + 2
            else (5 * u + 2) / 153 - 10
          day := u - marchOffset ((5 * u + 2) / 153) + 1
          wday := (secs / 86400 + 4) % 7
          hour := secs % 86400 / 3600
          minute := secs % 86400 % 3600 / 60
          second := secs % 86400 % 60 } := by
  obtain ⟨year, days⟩ := parts.year
  have centuries := parts.centuries
  have spans := parts.spans
  have years := parts.years
  have inside := parts.days
  have doe : secs / 86400 + 719468 - (secs / 86400 + 719468) / 146097 * 146097
      = (secs / 86400 + 719468) % 146097 := by
    omega
  have low : 0 ≤ (secs / 86400 + 719468) % 146097 := by omega
  have numerator : 0 ≤ (secs / 86400 + 719468) % 146097
      - (secs / 86400 + 719468) % 146097 / 1460 + (secs / 86400 + 719468) % 146097 / 36524
      - (secs / 86400 + 719468) % 146097 / 146096 := by
    omega
  have rem : 0 ≤ secs % 86400 := by omega
  have month : 0 ≤ (5 * u + 2) / 153 := by omega
  simp only [civilFromSeconds, split_seconds, weekday, era_floor, doe, tdiv_nonneg _ low,
    tdiv_nonneg _ numerator, year, tdiv_nonneg _ rem, Int.tmod_eq_emod_of_nonneg rem,
    tdiv_nonneg 4 (show 0 ≤ 100 * c + 4 * q + t by omega),
    tdiv_nonneg 100 (show 0 ≤ 100 * c + 4 * q + t by omega), days,
    tdiv_nonneg 153 (show 0 ≤ 5 * u + 2 by omega),
    tdiv_nonneg 5 (show 0 ≤ 153 * ((5 * u + 2) / 153) + 2 by omega),
    tdiv_nonneg 60 (show 0 ≤ secs % 86400 % 3600 by omega), CivilFields.mk.injEq]
  refine ⟨?_, ?_, rfl, trivial, trivial, trivial, trivial⟩
  · split <;> split <;> omega
  · split <;> omega

/-- The month of a day that is counted from March on, and the length of the month. -/
theorem march_month {u mp : Int} (low : 0 ≤ u) (high : u ≤ 365) (is : mp = (5 * u + 2) / 153)
    : (0 ≤ mp ∧ mp ≤ 11) ∧ marchOffset mp ≤ u
      ∧ (mp < 11 → u < marchOffset (mp + 1)) := by
  unfold marchOffset
  omega

theorem marchOffset_length {y mp : Int} (low : 0 ≤ mp) (high : mp < 11)
    : marchOffset (mp + 1) - marchOffset mp
      = daysInMonth y (if mp < 10 then mp + 2 else mp - 10) := by
  obtain rfl | rfl | rfl | rfl | rfl | rfl | rfl | rfl | rfl | rfl | rfl :
      mp = 0 ∨ mp = 1 ∨ mp = 2 ∨ mp = 3 ∨ mp = 4 ∨ mp = 5 ∨ mp = 6 ∨ mp = 7 ∨ mp = 8 ∨ mp = 9
        ∨ mp = 10 := by
    omega
  all_goals rfl

/-- The fields of a second are the date of its day. -/
theorem civilFromSeconds_date (secs : Int)
    : let c := civilFromSeconds secs
      IsDate c.year c.month c.day ∧ makeDay c.year c.month c.day = secs / 86400 := by
  obtain ⟨c, q, t, u, parts⟩ : ∃ c q t u, EraParts ((secs / 86400 + 719468) % 146097) c q t u :=
    eraParts_exists (by omega) (by omega)
  rw [civilFromSeconds_parts secs parts]
  dsimp only
  generalize month : (5 * u + 2) / 153 = mp
  obtain ⟨⟨low, high⟩, offset, next⟩ := march_month parts.days.1 parts.days.2 month.symm
  obtain ⟨day, leap⟩ := parts.marchDay_era ((secs / 86400 + 719468) / 146097)
  generalize 100 * c + 4 * q + t + (secs / 86400 + 719468) / 146097 * 400 = y at day leap ⊢
  have inside := parts.days
  constructor
  · refine ⟨by split <;> omega, by split <;> omega, by omega, ?_⟩
    rcases Int.lt_or_le mp 11 with early | late
    · rw [← marchOffset_length low early]
      have := next early
      omega
    · obtain rfl : mp = 11 := by omega
      have february := leapDays_bounds (y + 1)
      have first : marchOffset 11 = 337 := rfl
      rw [if_neg (by decide), if_neg (by decide), first, daysInMonth, if_pos (by decide)]
      by_cases last : u = 365
      · rw [leap last, last]
        decide
      · omega
  · rw [makeDay_march]
    by_cases early : mp < 10
    · have month' : (mp + 2) % 12 = mp + 2 := Int.emod_eq_of_lt (by omega) (by omega)
      have carry : (mp + 2) / 12 = 0 := Int.ediv_eq_zero_of_lt (by omega) (by omega)
      rw [if_pos early, if_pos early, month', carry, if_neg (by omega), Int.add_sub_cancel,
        Int.add_zero, Int.add_zero]
      omega
    · have month' : (mp - 10) % 12 = mp - 10 := Int.emod_eq_of_lt (by omega) (by omega)
      have carry : (mp - 10) / 12 = 0 := Int.ediv_eq_zero_of_lt (by omega) (by omega)
      rw [if_neg early, if_neg early, month', carry, if_pos (by omega), Int.sub_add_cancel,
        Int.add_zero, Int.add_sub_cancel]
      omega

-----------------------------------------------------------------------------------------
-- From fields to days
-----------------------------------------------------------------------------------------

/-- The month as it is carried into the year, where the subtraction does not wrap. -/
theorem carriedMonth {month : Int} (fits : IsLong month) (above : -2 ^ 63 + 11 ≤ month)
    : (if month ≥ 0 then month.tdiv 12 else (long (month - 11)).tdiv 12) = month / 12 := by
  unfold IsLong at fits
  by_cases positive : month ≥ 0
  · rw [if_pos positive, tdiv_nonneg _ positive]
  · have inside : IsLong (month - 11) := by
      unfold IsLong
      omega
    rw [if_neg positive, long_of_isLong inside, tdiv_floor, if_neg (by omega)]
    omega

theorem yearEra {y : Int} (inside : -2 ^ 63 + 399 ≤ y)
    : (if y ≥ 0 then y else long (y - 399)).tdiv 400 = y / 400 := by
  by_cases positive : y ≥ 0
  · rw [if_pos positive, tdiv_nonneg _ positive]
  · have fits : IsLong (y - 399) := by
      unfold IsLong
      omega
    rw [if_neg positive, long_of_isLong fits, tdiv_floor, if_neg (by omega)]
    omega

/-- The day number behind the carry of the month, in the years that start in March. -/
theorem marchDay_wrapped {y m : Int} (day : Int) (low : -2 ^ 63 + 399 ≤ y) (first : 2 ≤ m)
    : long ((if y ≥ 0 then y else long (y - 399)).tdiv 400 * 146097
        + long (long (y - (if y ≥ 0 then y else long (y - 399)).tdiv 400 * 400) * 365
          + (long (y - (if y ≥ 0 then y else long (y - 399)).tdiv 400 * 400)).tdiv 4
          - (long (y - (if y ≥ 0 then y else long (y - 399)).tdiv 400 * 400)).tdiv 100
          + long ((153 * (m - 2) + 2).tdiv 5 + day - 1)) - 719468)
      = long (marchDay y + marchOffset (m - 2) + day - 1 - 719468) := by
  rw [yearEra low]
  have yoe : long (y - y / 400 * 400) = y % 400 := by
    have fits : IsLong (y % 400) := by
      unfold IsLong
      omega
    have same : y - y / 400 * 400 = y % 400 := by omega
    rw [same, long_of_isLong fits]
  have positive : 0 ≤ y % 400 := by omega
  rw [yoe, tdiv_nonneg _ positive, tdiv_nonneg _ positive,
    tdiv_nonneg 5 (show 0 ≤ 153 * (m - 2) + 2 by omega)]
  have sum : marchDay y + marchOffset (m - 2) + day - 1 - 719468
      = y / 400 * 146097 + (y % 400 * 365 + y % 400 / 4 - y % 400 / 100
        + ((153 * (m - 2) + 2) / 5 + day - 1)) - 719468 := by
    unfold marchDay marchOffset
    omega
  rw [sum]
  generalize (153 * (m - 2) + 2) / 5 + day - 1 = doy
  generalize y % 400 * 365 + y % 400 / 4 - y % 400 / 100 = doe
  unfold long
  omega

/-- The day number is that of the calendar, reduced to 64 bits. -/
theorem epochDay_long {year month day : Int} (fits : IsLong month)
    (above : -2 ^ 63 + 11 ≤ month) (low : -2 ^ 63 + 400 ≤ year + month / 12)
    (high : year + month / 12 < 2 ^ 63)
    : epochDay year month day = long (makeDay year month day) := by
  have fitsYear : IsLong (year + month / 12) := by
    unfold IsLong
    omega
  have fitsMonth : IsLong (month % 12) := by
    unfold IsLong
    omega
  have rest : month - month / 12 * 12 = month % 12 := by omega
  rw [epochDay, carriedMonth fits above, long_of_isLong fitsYear, rest,
    long_of_isLong fitsMonth, makeDay_march]
  by_cases early : month % 12 < 2
  · have previous : IsLong (year + month / 12 - 1) := by
      unfold IsLong
      omega
    simp only [if_pos early, long_of_isLong previous]
    have winter : month % 12 + 12 - 2 = month % 12 + 10 := by omega
    rw [marchDay_wrapped day (by omega) (by omega), winter]
  · simp only [if_neg early]
    exact marchDay_wrapped day (by omega) (by omega)

/-- Numbers whose difference is between two neighbouring multiples of 2^64. -/
theorem long_apart {m n : Int} (low : 30 * 2 ^ 64 < m - n) (high : m - n < 31 * 2 ^ 64)
    : long m ≠ n := by
  unfold long
  omega

theorem marchDay_bounds (y : Int)
    : 146097 * y - 1200 ≤ 400 * marchDay y ∧ 400 * marchDay y ≤ 146097 * y + 1200 := by
  unfold marchDay
  omega

/-- A day number that is out of every range of times. -/
def Far (n : Int) : Prop := n < -2 ^ 40 ∨ 2 ^ 40 < n

theorem far_long {n : Int} (k : Int) (low : k * 2 ^ 64 + 2 ^ 62 < n)
    (high : n < k * 2 ^ 64 + 3 * 2 ^ 62)
    : Far (long n) := by
  unfold Far long
  omega

/-- The day numbers of the least and the greatest years are cut to ones that are far. -/
theorem makeDay_far {year month day : Int} (days : 0 ≤ day) (days' : day ≤ 99)
    (outside : year + month / 12 < -2 ^ 63 + 400 ∧ -2 ^ 63 - 400 ≤ year + month / 12
      ∨ 2 ^ 63 - 400 ≤ year + month / 12 ∧ year + month / 12 < 2 ^ 63 + 400)
    : Far (long (makeDay year month day)) := by
  have offset : ∀ k, 0 ≤ k → k ≤ 12 → 0 ≤ marchOffset k ∧ marchOffset k ≤ 700 := by
    intro k low high
    unfold marchOffset
    omega
  have earlier := marchDay_bounds (year + month / 12 - 1)
  have later := marchDay_bounds (year + month / 12)
  rw [makeDay_march]
  split
  · have winter := offset (month % 12 + 10) (by omega) (by omega)
    generalize marchOffset (month % 12 + 10) = more at winter ⊢
    generalize marchDay (year + month / 12 - 1) = here at earlier ⊢
    generalize year + month / 12 = y at outside earlier
    rcases outside with least | greatest
    · exact far_long (-183) (by omega) (by omega)
    · exact far_long 182 (by omega) (by omega)
  · have summer := offset (month % 12 - 2) (by omega) (by omega)
    generalize marchOffset (month % 12 - 2) = more at summer ⊢
    generalize marchDay (year + month / 12) = here at later ⊢
    generalize year + month / 12 = y at outside later
    rcases outside with least | greatest
    · exact far_long (-183) (by omega) (by omega)
    · exact far_long 182 (by omega) (by omega)

/-- The era of an extreme year, which need not be its own, and the year within it. -/
theorem extremeEra {y : Int} (fits : IsLong y) (outside : y < -2 ^ 63 + 401 ∨ 2 ^ 63 - 401 ≤ y)
    : let era := (if y ≥ 0 then y else long (y - 399)).tdiv 400
      (23058430092136935 < era ∧ era < 23058430092136943
        ∨ -23058430092136943 < era ∧ era < -23058430092136935)
      ∧ 0 ≤ long (y - era * 400) ∧ long (y - era * 400) < 1000 := by
  unfold IsLong at fits
  by_cases positive : y ≥ 0
  · have within : y - y / 400 * 400 = y % 400 := by omega
    have small : long (y % 400) = y % 400 := by
      unfold long
      omega
    dsimp only
    rw [if_pos positive, tdiv_nonneg _ positive, within, small]
    omega
  · by_cases wraps : y < -2 ^ 63 + 399
    · have carried : long (y - 399) = y - 399 + 2 ^ 64 := by
        unfold long
        omega
      have within : long (y - (y - 399 + 2 ^ 64) / 400 * 400) = 399 + (y - 399 + 2 ^ 64) % 400 := by
        unfold long
        omega
      dsimp only
      rw [if_neg positive, carried, tdiv_nonneg _ (by omega), within]
      omega
    · have era := yearEra (show -2 ^ 63 + 399 ≤ y by omega)
      have within : y - y / 400 * 400 = y % 400 := by omega
      have small : long (y % 400) = y % 400 := by
        unfold long
        omega
      dsimp only
      rw [era, within, small]
      omega

/-- The day numbers that the source computes of them are far as well. -/
theorem epochDay_far {year month day : Int} (first : -1 ≤ month)
    (last : month ≤ 98) (days : 0 ≤ day) (days' : day ≤ 99)
    (outside : year + month / 12 < -2 ^ 63 + 400 ∧ -2 ^ 63 - 400 ≤ year + month / 12
      ∨ 2 ^ 63 ≤ year + month / 12 ∧ year + month / 12 < 2 ^ 63 + 400)
    : Far (epochDay year month day) := by
  have fitsMonth : IsLong month := by
    unfold IsLong
    omega
  have rest : month - month / 12 * 12 = month % 12 := by omega
  have small : long (month % 12) = month % 12 := by
    unfold long
    omega
  -- behind the carry, the year is still an extreme one
  have part : ∀ y m : Int, IsLong y → (y < -2 ^ 63 + 401 ∨ 2 ^ 63 - 401 ≤ y) → 2 ≤ m → m ≤ 13 →
      Far (long ((if y ≥ 0 then y else long (y - 399)).tdiv 400 * 146097
        + long (long (y - (if y ≥ 0 then y else long (y - 399)).tdiv 400 * 400) * 365
          + (long (y - (if y ≥ 0 then y else long (y - 399)).tdiv 400 * 400)).tdiv 4
          - (long (y - (if y ≥ 0 then y else long (y - 399)).tdiv 400 * 400)).tdiv 100
          + long ((153 * (m - 2) + 2).tdiv 5 + day - 1)) - 719468)) := by
    intro y m fits extreme low high
    obtain ⟨era, yoe⟩ := extremeEra fits extreme
    generalize (if y ≥ 0 then y else long (y - 399)).tdiv 400 = e at era yoe ⊢
    generalize long (y - e * 400) = yoe' at yoe ⊢
    rw [tdiv_nonneg _ yoe.1, tdiv_nonneg _ yoe.1,
      tdiv_nonneg 5 (show 0 ≤ 153 * (m - 2) + 2 by omega)]
    have doy : long ((153 * (m - 2) + 2) / 5 + day - 1) = (153 * (m - 2) + 2) / 5 + day - 1 := by
      unfold long
      omega
    rw [doy]
    have bounds : -1 ≤ (153 * (m - 2) + 2) / 5 + day - 1
        ∧ (153 * (m - 2) + 2) / 5 + day - 1 ≤ 1000 := by
      omega
    generalize (153 * (m - 2) + 2) / 5 + day - 1 = d at bounds ⊢
    have doe : long (yoe' * 365 + yoe' / 4 - yoe' / 100 + d)
        = yoe' * 365 + yoe' / 4 - yoe' / 100 + d := by
      unfold long
      omega
    rw [doe]
    rcases era with positive | negative
    · exact far_long 182 (by omega) (by omega)
    · exact far_long (-183) (by omega) (by omega)
  rw [epochDay, carriedMonth fitsMonth (by omega), rest, small]
  have wrapped : ∀ n, long (long n - 1) = long (n - 1) := by
    intro n
    unfold long
    omega
  generalize year + month / 12 = carry at outside
  by_cases early : month % 12 < 2
  · simp only [if_pos early, wrapped]
    refine part _ _ (long_isLong _) ?_ (by omega) (by omega)
    unfold long
    omega
  · simp only [if_neg early]
    refine part _ _ (long_isLong _) ?_ (by omega) (by omega)
    unfold long
    omega

/-- The day number is that of the calendar, reduced to 64 bits, or both are far. -/
theorem epochDay_cut {year month day : Int} (fits : IsLong year) (first : -1 ≤ month)
    (last : month ≤ 98) (days : 0 ≤ day) (days' : day ≤ 99)
    : epochDay year month day = long (makeDay year month day)
      ∨ Far (epochDay year month day) ∧ Far (long (makeDay year month day)) := by
  unfold IsLong at fits
  by_cases inside : -2 ^ 63 + 400 ≤ year + month / 12 ∧ year + month / 12 < 2 ^ 63
  · have fitsMonth : IsLong month := by
      unfold IsLong
      omega
    exact .inl (epochDay_long fitsMonth (by omega) inside.1 inside.2)
  · exact .inr ⟨epochDay_far first last days days' (by omega),
      makeDay_far days days' (by omega)⟩

/-- Where the subtraction from the month wraps, the day number is that of another year. -/
theorem epochDay_wrapped {year month : Int} (day : Int) (fits : IsLong month)
    (below : month < -2 ^ 63 + 11) (low : -2 ^ 56 ≤ year + month / 12)
    (high : year + month / 12 ≤ 2 ^ 56)
    : epochDay year month day ≠ makeDay year month day := by
  unfold IsLong at fits
  have difference : long (month - 11) = month - 11 + 2 ^ 64 := by
    unfold long
    omega
  have positive : 0 ≤ month - 11 + 2 ^ 64 := by omega
  have quotient : (month - 11 + 2 ^ 64) / 12 * 12 + (month - 11 + 2 ^ 64) % 12
      = month - 11 + 2 ^ 64 := by
    omega
  have remainder : 0 ≤ (month - 11 + 2 ^ 64) % 12 ∧ (month - 11 + 2 ^ 64) % 12 < 12 := by omega
  have floor : month / 12 * 12 + month % 12 = month ∧ 0 ≤ month % 12 ∧ month % 12 < 12 := by omega
  rw [epochDay, if_neg (show ¬month ≥ 0 by omega), difference, tdiv_nonneg _ positive]
  generalize (month - 11 + 2 ^ 64) / 12 = carry at quotient
  generalize (month - 11 + 2 ^ 64) % 12 = past at quotient remainder
  have year' : long (year + carry) = year + carry := by
    apply long_of_isLong
    unfold IsLong
    omega
  have month' : long (month - carry * 12) = 11 + past := by
    unfold long
    omega
  rw [year', month']
  simp only [if_neg (show ¬11 + past < 2 by omega)]
  rw [marchDay_wrapped day (by omega) (by omega), makeDay_march]
  -- the years are 2^64 / 12 apart, which is no multiple of 2^64 days
  have bounds := marchDay_bounds (year + carry)
  have earlier := marchDay_bounds (year + month / 12 - 1)
  have later := marchDay_bounds (year + month / 12)
  have offset : 0 ≤ marchOffset (11 + past - 2) ∧ marchOffset (11 + past - 2) ≤ 700 := by
    unfold marchOffset
    omega
  have offset' : ∀ k, 0 ≤ k → k ≤ 12 → 0 ≤ marchOffset k ∧ marchOffset k ≤ 700 := by
    intro k low' high'
    unfold marchOffset
    omega
  generalize marchDay (year + carry) = there at bounds ⊢
  generalize marchOffset (11 + past - 2) = more at offset ⊢
  split
  · have winter := offset' (month % 12 + 10) (by omega) (by omega)
    generalize marchOffset (month % 12 + 10) = less at winter ⊢
    generalize marchDay (year + month / 12 - 1) = here at earlier ⊢
    exact long_apart (by omega) (by omega)
  · have summer := offset' (month % 12 - 2) (by omega) (by omega)
    generalize marchOffset (month % 12 - 2) = less at summer ⊢
    generalize marchDay (year + month / 12) = here at later ⊢
    exact long_apart (by omega) (by omega)

/-- The years of day numbers that fit. -/
theorem makeDay_isLong {year month day : Int} (fits : IsLong day)
    (whole : IsLong (makeDay year month day))
    : -2 ^ 56 ≤ year + month / 12 ∧ year + month / 12 ≤ 2 ^ 56 := by
  unfold IsLong at fits whole
  rw [makeDay_march] at whole
  unfold marchDay marchOffset at whole
  split at whole <;> omega

theorem epochDay_isLong (year month day : Int) : IsLong (epochDay year month day) := by
  unfold epochDay
  exact long_isLong _

/-- The day number is that of the calendar exactly if that has 64 bits and the month is not among
the eleven least.
-/
theorem epochDay_eq_iff {year month day : Int} (fitsMonth : IsLong month) (fitsDay : IsLong day)
    : epochDay year month day = makeDay year month day
      ↔ IsLong (makeDay year month day) ∧ -2 ^ 63 + 11 ≤ month := by
  constructor
  · intro same
    have whole : IsLong (makeDay year month day) := same ▸ epochDay_isLong year month day
    refine ⟨whole, ?_⟩
    by_contra below
    obtain ⟨low, high⟩ := makeDay_isLong fitsDay whole
    exact epochDay_wrapped day fitsMonth (by omega) low high same
  · rintro ⟨whole, above⟩
    obtain ⟨low, high⟩ := makeDay_isLong fitsDay whole
    rw [epochDay_long fitsMonth above (by omega) (by omega), long_of_isLong whole]

-----------------------------------------------------------------------------------------
-- Both conversions
-----------------------------------------------------------------------------------------

/-- What is to hold of the fields of a second. -/
structure CivilHolds (secs : Int) (c : CivilFields) : Prop where
  back : dateUtcToMs c.year c.month c.day c.hour c.minute c.second 0 = secs * 1000
  date : IsDate c.year c.month c.day
  day : makeDay c.year c.month c.day = secs / 86400
  only : ∀ y m d, IsDate y m d → makeDay y m d = secs / 86400 →
    y = c.year ∧ m = c.month ∧ d = c.day
  wday : c.wday = (secs / 86400 + 4) % 7
  time : (0 ≤ c.hour ∧ c.hour ≤ 23) ∧ (0 ≤ c.minute ∧ c.minute ≤ 59)
    ∧ (0 ≤ c.second ∧ c.second ≤ 59)

/-- What is to hold of fields, whose month and day may be any. -/
structure FieldsHold (year month day hour minute second ms : Int) : Prop where
  number : epochDay year month day = makeDay year month day
  copy : utcEpochDay year month day = makeDay year month day
  value : dateUtcToMs year month day hour minute second ms
    = makeDate (makeDay year month day) (makeTime hour minute second ms)

theorem civilFromSeconds_time (secs : Int)
    : let c := civilFromSeconds secs
      c.hour = secs % 86400 / 3600 ∧ c.minute = secs % 86400 % 3600 / 60
        ∧ c.second = secs % 86400 % 60 ∧ c.wday = (secs / 86400 + 4) % 7 := by
  obtain ⟨c, q, t, u, parts⟩ : ∃ c q t u, EraParts ((secs / 86400 + 719468) % 146097) c q t u :=
    eraParts_exists (by omega) (by omega)
  rw [civilFromSeconds_parts secs parts]
  exact ⟨rfl, rfl, rfl, rfl⟩

theorem civilFromSeconds_holds {secs : Int} (fits : IsLong secs)
    : CivilHolds secs (civilFromSeconds secs) := by
  unfold IsLong at fits
  obtain ⟨date, day⟩ := civilFromSeconds_date secs
  obtain ⟨hour, minute, second, wday⟩ := civilFromSeconds_time secs
  have whole : IsLong (secs / 86400) := by
    unfold IsLong
    omega
  have inside := daysBefore_end (civilFromSeconds secs).year date
  have leap := leapDays_bounds (civilFromSeconds secs).year
  have epoch : epochDay (civilFromSeconds secs).year (civilFromSeconds secs).month
      (civilFromSeconds secs).day = secs / 86400 := by
    rw [← day]
    obtain ⟨low, high, first, last⟩ := date
    refine (epochDay_eq_iff ?_ ?_).mpr ⟨day ▸ whole, by omega⟩
    · unfold IsLong
      omega
    · unfold IsLong
      omega
  exact {
    back := by
      rw [dateUtcToMs, epoch, hour, minute, second, makeDate, makeTime]
      omega
    date := date
    day := day
    only := fun y m d date' day' => makeDay_injective date' date (day'.trans day.symm)
    wday := wday
    time := by
      rw [hour, minute, second]
      omega }

/-- Every second is that of its fields, which are those of the calendar, and the day number of
fields is that of the calendar exactly if this has 64 bits and the month is not among the eleven
least. Witness: the parts of the day of an era, and the years that start in March.
-/
theorem calendar_exact_iff (secs year month day : Int64) (hour minute second ms : Int)
    : CivilHolds secs.toInt (civilFromSeconds secs.toInt)
      ∧ (FieldsHold year.toInt month.toInt day.toInt hour minute second ms
        ↔ IsLong (makeDay year.toInt month.toInt day.toInt) ∧ -2 ^ 63 + 11 ≤ month.toInt)
      ∧ builtinDateUtc year.toInt month.toInt day.toInt hour minute second ms
        = dateUtcToMs (fullYear year.toInt) month.toInt day.toInt hour minute second ms := by
  have fits (n : Int64) : IsLong n.toInt := ⟨n.le_toInt, n.toInt_lt⟩
  refine ⟨civilFromSeconds_holds (fits secs), ?_, rfl⟩
  rw [← epochDay_eq_iff (fits month) (fits day)]
  constructor
  · intro holds
    exact holds.number
  · intro same
    exact ⟨same, same, by rw [dateUtcToMs, same]⟩

/-- `Date.UTC(50505469855534768, 0)` is a valid time, on another day than that of the calendar. -/
theorem calendar_wraps
    : ¬FieldsHold 50505469855534768 0 1 0 0 0 0
      ∧ (builtinDateUtc 50505469855534768 0 1 0 0 0 0).natAbs ≤ 8640000000000000 := by
  constructor
  · intro holds
    exact absurd holds.number (by decide)
  · decide

end Boomkat.Correctness
