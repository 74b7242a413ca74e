import Mathlib.Data.Int.Basic
import Mathlib.Tactic.Common

/-! The proleptic Gregorian calendar by day numbers, from the first of January 1970 on. Months are
counted from 0, and dates are compared with those of years that start in March.
-/

namespace Boomkat.Calendar

-----------------------------------------------------------------------------------------
-- Years and months
-----------------------------------------------------------------------------------------

def IsLeap (y : Int) : Prop := y % 4 = 0 ∧ (y % 100 ≠ 0 ∨ y % 400 = 0)

instance (y : Int) : Decidable (IsLeap y) := inferInstanceAs (Decidable (_ ∧ _))

def leapDays (y : Int) : Int := if IsLeap y then 1 else 0

/-- The number of the first day of a year. -/
def dayFromYear (y : Int) : Int :=
  365 * (y - 1970) + (y - 1969) / 4 - (y - 1901) / 100 + (y - 1601) / 400

def daysInMonth (y m : Int) : Int :=
  if m = 1 then 28 + leapDays y
  else if m = 3 ∨ m = 5 ∨ m = 8 ∨ m = 10 then 30 else 31

/-- The days of a year before a month. -/
def daysBefore (y m : Int) : Int :=
  (List.range m.toNat).foldl (fun days (month : Nat) => days + daysInMonth y month) 0

/-- The day number of a date whose month is carried into the year. -/
def makeDay (y m d : Int) : Int :=
  dayFromYear (y + m / 12) + daysBefore (y + m / 12) (m % 12) + d - 1

/-- The month and the day are those of a date. -/
def IsDate (y m d : Int) : Prop := 0 ≤ m ∧ m ≤ 11 ∧ 1 ≤ d ∧ d ≤ daysInMonth y m

instance (y m d : Int) : Decidable (IsDate y m d) := inferInstanceAs (Decidable (_ ∧ _))

/-- The leap day as the difference of the floors in the number of a year. -/
theorem leapDays_eq (y : Int)
    : leapDays y = (y / 4 - (y - 1) / 4) - (y / 100 - (y - 1) / 100) + (y / 400 - (y - 1) / 400) := by
  unfold leapDays
  by_cases leap : IsLeap y
  · rw [if_pos leap]
    unfold IsLeap at leap
    omega
  · rw [if_neg leap]
    unfold IsLeap at leap
    omega

theorem leapDays_bounds (y : Int) : 0 ≤ leapDays y ∧ leapDays y ≤ 1 := by
  unfold leapDays
  split <;> decide

theorem dayFromYear_succ (y : Int) : dayFromYear (y + 1) = dayFromYear y + 365 + leapDays y := by
  rw [leapDays_eq]
  unfold dayFromYear
  omega

theorem daysBefore_succ (y : Int) {m : Int} (positive : 0 ≤ m)
    : daysBefore y (m + 1) = daysBefore y m + daysInMonth y m := by
  have next : (m + 1).toNat = m.toNat + 1 := by omega
  have same : ((m.toNat : Nat) : Int) = m := by omega
  rw [daysBefore, daysBefore, next, List.range_succ, List.foldl_append, List.foldl_cons,
    List.foldl_nil, same]

/-- The days before each month, with the leap day behind February. -/
theorem daysBefore_eq (y : Int) {m : Int} (low : 0 ≤ m) (high : m ≤ 11)
    : daysBefore y m
      = if m = 0 then 0 else if m = 1 then 31
        else (153 * (m - 2) + 2) / 5 + 59 + leapDays y := by
  obtain rfl | rfl | rfl | rfl | rfl | rfl | rfl | rfl | rfl | rfl | rfl | rfl :
      m = 0 ∨ m = 1 ∨ m = 2 ∨ m = 3 ∨ m = 4 ∨ m = 5 ∨ m = 6 ∨ m = 7 ∨ m = 8 ∨ m = 9 ∨ m = 10
        ∨ m = 11 := by
    omega
  all_goals
    simp [daysBefore, List.range_succ, daysInMonth]
    try omega

/-- A year has the days of its twelve months. -/
theorem daysBefore_end (y : Int) {m d : Int} (date : IsDate y m d)
    : 0 ≤ daysBefore y m ∧ daysBefore y m + d ≤ 365 + leapDays y := by
  obtain ⟨low, high, -, last⟩ := date
  have leap := leapDays_bounds y
  rw [daysBefore_eq y low high]
  unfold daysInMonth at last
  split at last
  · split <;> omega
  · split at last
    all_goals split <;> omega

-----------------------------------------------------------------------------------------
-- Dates
-----------------------------------------------------------------------------------------

theorem dayFromYear_add (y : Int) (n : Nat) : dayFromYear y + 365 * n ≤ dayFromYear (y + n) := by
  induction n with
  | zero => simp
  | succ n ih =>
      have step := dayFromYear_succ (y + n)
      have leap := leapDays_bounds (y + n)
      have next : y + ((n + 1 : Nat) : Int) = y + n + 1 := by omega
      rw [next]
      omega

theorem dayFromYear_lt {y y' : Int} (below : y < y')
    : dayFromYear y + 365 + leapDays y ≤ dayFromYear y' := by
  have later := dayFromYear_add (y + 1) (y' - (y + 1)).toNat
  have same : y + 1 + (((y' - (y + 1)).toNat : Nat) : Int) = y' := by omega
  rw [same] at later
  have step := dayFromYear_succ y
  omega

theorem makeDay_date {y m d : Int} (date : IsDate y m d)
    : makeDay y m d = dayFromYear y + daysBefore y m + d - 1 := by
  have year : y + m / 12 = y := by
    have := date.1
    have := date.2.1
    omega
  have month : m % 12 = m := by
    have := date.1
    have := date.2.1
    omega
  rw [makeDay, year, month]

/-- A date lies within its year. -/
theorem makeDay_year {y m d : Int} (date : IsDate y m d)
    : dayFromYear y ≤ makeDay y m d ∧ makeDay y m d < dayFromYear (y + 1) := by
  have inside := daysBefore_end y date
  have positive := date.2.2.1
  have step := dayFromYear_succ y
  rw [makeDay_date date]
  omega

theorem daysBefore_lt (y : Int) {m m' : Int} (low : 0 ≤ m) (below : m < m') (high : m' ≤ 11)
    : daysBefore y m + daysInMonth y m ≤ daysBefore y m' := by
  rw [← daysBefore_succ y low, daysBefore_eq y (by omega) (by omega), daysBefore_eq y (by omega) high]
  have leap := leapDays_bounds y
  split
  · omega
  · split
    · split
      · omega
      · split <;> omega
    · split
      · omega
      · split <;> omega

/-- No two dates have one day number. -/
theorem makeDay_injective {y m d y' m' d' : Int} (date : IsDate y m d) (date' : IsDate y' m' d')
    (same : makeDay y m d = makeDay y' m' d') : y = y' ∧ m = m' ∧ d = d' := by
  have within := makeDay_year date
  have within' := makeDay_year date'
  have year : y = y' := by
    rcases Int.lt_trichotomy y y' with below | same' | above
    · have := dayFromYear_lt below
      have := dayFromYear_succ y
      omega
    · exact same'
    · have := dayFromYear_lt above
      have := dayFromYear_succ y'
      omega
  subst year
  rw [makeDay_date date, makeDay_date date'] at same
  obtain ⟨low, high, first, last⟩ := date
  obtain ⟨low', high', first', last'⟩ := date'
  rcases Int.lt_trichotomy m m' with below | rfl | above
  · have := daysBefore_lt y low below high'
    omega
  · exact ⟨rfl, rfl, by omega⟩
  · have := daysBefore_lt y low' above high
    omega

-----------------------------------------------------------------------------------------
-- Years that start in March
-----------------------------------------------------------------------------------------

/-- The days from the first of March of the year 0 to that of a year. -/
def marchDay (y : Int) : Int := 365 * y + y / 4 - y / 100 + y / 400

/-- The days from the first of March to the first of a month, which is counted from March on. -/
def marchOffset (k : Int) : Int := (153 * k + 2) / 5

theorem dayFromYear_march (y : Int)
    : dayFromYear y + 59 + leapDays y = marchDay y - 719468
      ∧ dayFromYear y = marchDay (y - 1) + 306 - 719468 := by
  rw [leapDays_eq]
  unfold dayFromYear marchDay
  omega

/-- The day number of a date in the years that start in March. -/
theorem makeDay_march (y m d : Int)
    : makeDay y m d
      = if m % 12 < 2 then marchDay (y + m / 12 - 1) + marchOffset (m % 12 + 10) + d - 1 - 719468
        else marchDay (y + m / 12) + marchOffset (m % 12 - 2) + d - 1 - 719468 := by
  obtain ⟨march, before⟩ := dayFromYear_march (y + m / 12)
  rw [makeDay, daysBefore_eq _ (by omega) (by omega)]
  unfold marchOffset
  by_cases early : m % 12 < 2
  · rw [if_pos early, before]
    by_cases january : m % 12 = 0
    · rw [if_pos january, january]
      omega
    · rw [if_neg january, if_pos (by omega)]
      omega
  · rw [if_neg early, if_neg (by omega), if_neg (by omega)]
    omega

-----------------------------------------------------------------------------------------
-- The days of an era
-----------------------------------------------------------------------------------------

/-- A day of an era of 400 years as centuries, spans of four years, years and days. Only a year at
the end of four has 366 days, and of the last years of centuries only the last one.
-/
structure EraParts (doe c q t u : Int) : Prop where
  centuries : 0 ≤ c ∧ c ≤ 3
  spans : 0 ≤ q ∧ q ≤ 24
  years : 0 ≤ t ∧ t ≤ 3
  days : 0 ≤ u ∧ u ≤ 365
  leap : u = 365 → t = 3 ∧ (q = 24 → c = 3)
  sum : doe = 36524 * c + (1461 * q + (365 * t + u))

theorem eraParts_exists {doe : Int} (low : 0 ≤ doe) (high : doe ≤ 146096)
    : ∃ c q t u, EraParts doe c q t u := by
  obtain ⟨c, r, centuries, inside, last, is⟩ : ∃ c r : Int, (0 ≤ c ∧ c ≤ 3) ∧ (0 ≤ r ∧ r ≤ 36524)
      ∧ (r = 36524 → c = 3) ∧ doe = 36524 * c + r := by
    by_cases last : doe = 146096
    · exact ⟨3, 36524, by omega⟩
    · exact ⟨doe / 36524, doe % 36524, by omega⟩
  obtain ⟨q, s, spans, inside', is'⟩ : ∃ q s : Int, (0 ≤ q ∧ q ≤ 24) ∧ (0 ≤ s ∧ s ≤ 1460)
      ∧ r = 1461 * q + s :=
    ⟨r / 1461, r % 1461, by omega⟩
  obtain ⟨t, u, years, days, last', is''⟩ : ∃ t u : Int, (0 ≤ t ∧ t ≤ 3) ∧ (0 ≤ u ∧ u ≤ 365)
      ∧ (u = 365 → t = 3) ∧ s = 365 * t + u := by
    by_cases last' : s = 1460
    · exact ⟨3, 365, by omega⟩
    · exact ⟨s / 365, s % 365, by omega⟩
  refine ⟨c, q, t, u, centuries, spans, years, days, fun leap => ⟨last' leap, fun end' => ?_⟩, ?_⟩
  · apply last
    omega
  · rw [is, is', is'']

/-- The year of an era, and the days of the year. -/
theorem EraParts.year {doe c q t u : Int} (parts : EraParts doe c q t u)
    : (doe - doe / 1460 + doe / 36524 - doe / 146096) / 365 = 100 * c + 4 * q + t
      ∧ doe - (365 * (100 * c + 4 * q + t) + (100 * c + 4 * q + t) / 4
        - (100 * c + 4 * q + t) / 100) = u := by
  obtain ⟨⟨c0, c3⟩, ⟨q0, q24⟩, ⟨t0, t3⟩, ⟨u0, u1⟩, leap, rfl⟩ := parts
  have spans : (36524 * c + (1461 * q + (365 * t + u))) / 1460
      = 25 * c + q + (24 * c + q + (365 * t + u)) / 1460 := by
    omega
  have carry : (24 * c + q + (365 * t + u)) / 1460 = 0 ∧ 24 * c + q + (365 * t + u) < 1460
      ∨ (24 * c + q + (365 * t + u)) / 1460 = 1 ∧ 1364 ≤ 365 * t + u := by
    omega
  have centuries : ∀ r, 0 ≤ r → r ≤ 36524 → (r = 36524 → c = 3) →
      (36524 * c + r) / 36524 - (36524 * c + r) / 146096 = c := by
    intro r low high last
    omega
  have century := centuries (1461 * q + (365 * t + u)) (by omega) (by omega) (by omega)
  have fours : (100 * c + 4 * q + t) / 4 = 25 * c + q ∧ (100 * c + 4 * q + t) / 100 = c := by
    omega
  constructor
  · generalize (24 * c + q + (365 * t + u)) / 1460 = k at spans carry
    have within : 0 ≤ u - k ∧ u - k ≤ 364 := by omega
    rw [spans]
    generalize (36524 * c + (1461 * q + (365 * t + u))) / 36524 = a at century ⊢
    generalize (36524 * c + (1461 * q + (365 * t + u))) / 146096 = b at century ⊢
    omega
  · rw [fours.1, fours.2]
    omega

/-- The day of an era within its year, by the days of March. -/
theorem EraParts.marchDay_era {doe c q t u : Int} (parts : EraParts doe c q t u) (era : Int)
    : marchDay (100 * c + 4 * q + t + era * 400) + u = era * 146097 + doe
      ∧ (u = 365 → leapDays (100 * c + 4 * q + t + era * 400 + 1) = 1) := by
  obtain ⟨⟨c0, c3⟩, ⟨q0, q24⟩, ⟨t0, t3⟩, ⟨u0, u1⟩, leap, rfl⟩ := parts
  constructor
  · unfold marchDay
    omega
  · intro last
    obtain ⟨end', century⟩ := leap last
    rw [leapDays, if_pos]
    constructor
    · omega
    · by_cases hundred : q = 24
      · have := century hundred
        omega
      · omega

end Boomkat.Calendar
