import Mathlib.Algebra.Group.Int.Defs
import Mathlib.Algebra.Group.Nat.Defs
import Mathlib.Data.Int.Basic

/-! The two conversions between day numbers and civil dates. A `long` is an integer of 64 bits, and
the arithmetic of times is exact.
-/

namespace Boomkat.Dates

/-- The `long` that is left of an integer. -/
def long (n : Int) : Int := (n + 2 ^ 63) % 2 ^ 64 - 2 ^ 63

def IsLong (n : Int) : Prop := -2 ^ 63 ≤ n ∧ n < 2 ^ 63

instance (n : Int) : Decidable (IsLong n) := inferInstanceAs (Decidable (_ ∧ _))

/-- What `civil_from_seconds` writes. -/
structure CivilFields where
  year : Int
  month : Int
  day : Int
  wday : Int
  hour : Int
  minute : Int
  second : Int
deriving DecidableEq

/-- `civil_from_seconds`, whose operations stay within 64 bits for every second. -/
def civilFromSeconds (secs : Int) : CivilFields :=
  let days := if secs.tmod 86400 < 0 then secs.tdiv 86400 - 1 else secs.tdiv 86400
  let rem := if secs.tmod 86400 < 0 then secs.tmod 86400 + 86400 else secs.tmod 86400
  let w := (days.tmod 7 + 4).tmod 7
  let z := days + 719468
  let era := (if z ≥ 0 then z else z - 146096).tdiv 146097
  let doe := z - era * 146097
  let yoe := (doe - doe.tdiv 1460 + doe.tdiv 36524 - doe.tdiv 146096).tdiv 365
  let y := yoe + era * 400
  let doy := doe - (365 * yoe + yoe.tdiv 4 - yoe.tdiv 100)
  let mp := (5 * doy + 2).tdiv 153
  let d := doy - (153 * mp + 2).tdiv 5 + 1
  let m := if mp < 10 then mp + 3 else mp - 9
  { year := y + if m ≤ 2 then 1 else 0
    month := m - 1
    day := d
    wday := if w < 0 then w + 7 else w
    hour := rem.tdiv 3600
    minute := (rem.tmod 3600).tdiv 60
    second := rem.tmod 60 }

/-- `boomkat_date_make_time`. -/
def makeTime (hour minute second ms : Int) : Int :=
  hour * 3600000 + minute * 60000 + second * 1000 + ms

/-- `boomkat_date_make_date`. -/
def makeDate (day timeWithinDay : Int) : Int := day * 86400000 + timeWithinDay

/-- The `epoch_day` of `date_utc_to_ms`. -/
def epochDay (year month day : Int) : Int :=
  let monthFloorDiv := if month ≥ 0 then month.tdiv 12 else (long (month - 11)).tdiv 12
  let y := long (year + monthFloorDiv)
  let m := long (month - monthFloorDiv * 12)
  let (y, m) := if m < 2 then (long (y - 1), m + 12) else (y, m)
  let era := (if y ≥ 0 then y else long (y - 399)).tdiv 400
  let yoe := long (y - era * 400)
  let doy := long ((153 * (m - 2) + 2).tdiv 5 + day - 1)
  let doe := long (yoe * 365 + yoe.tdiv 4 - yoe.tdiv 100 + doy)
  long (era * 146097 + doe - 719468)

def dateUtcToMs (year month day hour minute second ms : Int) : Int :=
  makeDate (epochDay year month day) (makeTime hour minute second ms)

/-- The year of `Date.UTC`. -/
def fullYear (yearInt : Int) : Int :=
  if yearInt ≥ 0 ∧ yearInt ≤ 99 then long (yearInt + 1900) else yearInt

/-- The `epoch_day` of `builtin_date_utc` for the truncated arguments. -/
def utcEpochDay (year month day : Int) : Int :=
  let monthFloorDiv := if month ≥ 0 then month.tdiv 12 else (long (month - 11)).tdiv 12
  let y := long (year + monthFloorDiv)
  let m := long (month - monthFloorDiv * 12)
  let (y, m) := if m < 2 then (long (y - 1), m + 12) else (y, m)
  let era := (if y ≥ 0 then y else long (y - 399)).tdiv 400
  let yoe := long (y - era * 400)
  let doy := long ((153 * (m - 2) + 2).tdiv 5 + day - 1)
  let doe := long (yoe * 365 + yoe.tdiv 4 - yoe.tdiv 100 + doy)
  long (era * 146097 + doe - 719468)

/-- The time value of `builtin_date_utc` before it is clipped. -/
def builtinDateUtc (yearInt month day hour min sec ms : Int) : Int :=
  makeDate (utcEpochDay (fullYear yearInt) month day) (makeTime hour min sec ms)

end Boomkat.Dates
