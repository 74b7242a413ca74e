import Boomkat.Dates.Calendar

/-! Local times: the getters and setters of dates in a time zone. A time value is an integer of
milliseconds, which a double holds exactly, and has no value where it is NaN. The quotients of time
values are floored as the source floors them.
-/

namespace Boomkat.Dates

-----------------------------------------------------------------------------------------
-- Time values
-----------------------------------------------------------------------------------------

/-- The largest time value. -/
def maxTime : Nat := 8640000000000000

def dateTimeClip (t : Int) : Option Int := if t.natAbs > maxTime then none else some t

def dateMsToSec (timeVal : Int) : Int := timeVal / 1000

def dateFloorModField (timeVal unitMs modulus : Int) : Int :=
  let r := (timeVal / unitMs).tmod modulus
  if r < 0 then r + modulus else r

/-- The milliseconds as the getter and some of the setters compute them. -/
def msOf (timeVal : Int) : Int :=
  let ms := timeVal.tmod 1000
  if ms < 0 then ms + 1000 else ms

/-- The offset of local time in seconds by the second at which it is looked up
(`date_tz_offset_seconds`).
-/
abbrev Zone := Int → Int

def dateLocalToMs (zone : Zone) (year month day hour minute second ms : Int) : Int :=
  let utcMs := dateUtcToMs year month day hour minute second ms
  utcMs - zone (utcMs.tdiv 1000) * 1000

/-- `date_break_time_local_fields`. -/
def dateBreakTime (zone : Zone) (timeVal : Int) : CivilFields :=
  civilFromSeconds (dateMsToSec timeVal + zone (timeVal.tdiv 1000))

-----------------------------------------------------------------------------------------
-- Getters
-----------------------------------------------------------------------------------------

/-- The components that getters return and setters take. -/
inductive DateField
  | year
  | month
  | day
  | hour
  | minute
  | second
  | ms
deriving DecidableEq

/-- `date_get_field` of a valid date in local time. -/
def dateGetField (zone : Zone) (tv : Int) : DateField → Int
  | .year => (dateBreakTime zone tv).year
  | .month => (dateBreakTime zone tv).month
  | .day => (dateBreakTime zone tv).day
  | .hour => (dateBreakTime zone tv).hour
  | .minute => (dateBreakTime zone tv).minute
  | .second => (dateBreakTime zone tv).second
  | .ms => msOf tv

-----------------------------------------------------------------------------------------
-- Setters
-----------------------------------------------------------------------------------------

/-- An argument as a number cut to an integer. One that is missing is NaN, and has no value. -/
def arg (args : List (Option Int)) (i : Nat) : Option Int := (args[i]?).join

/-- An argument, or the current value where the argument is not given. -/
def argOr (args : List (Option Int)) (i : Nat) (current : Int) : Option Int :=
  if args.length ≤ i then some current else arg args i

def setMilliseconds (zone : Zone) (tv : Option Int) (args : List (Option Int)) : Option Int := do
  let tv ← tv
  let ms ← arg args 0
  let f := dateBreakTime zone tv
  dateTimeClip (dateLocalToMs zone f.year f.month f.day f.hour f.minute f.second ms)

def setSeconds (zone : Zone) (tv : Option Int) (args : List (Option Int)) : Option Int := do
  let tv ← tv
  let ms ← argOr args 1 (msOf tv)
  let sec ← arg args 0
  let f := dateBreakTime zone tv
  dateTimeClip (dateLocalToMs zone f.year f.month f.day f.hour f.minute sec ms)

def setMinutes (zone : Zone) (tv : Option Int) (args : List (Option Int)) : Option Int := do
  let tv ← tv
  let secCur := dateFloorModField tv 1000 60
  let ms ← argOr args 2 (msOf tv)
  let sec ← argOr args 1 secCur
  let min ← arg args 0
  let f := dateBreakTime zone tv
  dateTimeClip (dateLocalToMs zone f.year f.month f.day f.hour min sec ms)

def setHours (zone : Zone) (tv : Option Int) (args : List (Option Int)) : Option Int := do
  let tv ← tv
  let minCur := dateFloorModField tv 60000 60
  let secCur := dateFloorModField tv 1000 60
  let ms ← argOr args 3 (msOf tv)
  let sec ← argOr args 2 secCur
  let min ← argOr args 1 minCur
  let hour ← arg args 0
  let f := dateBreakTime zone tv
  dateTimeClip (dateLocalToMs zone f.year f.month f.day hour min sec ms)

def setDate (zone : Zone) (tv : Option Int) (args : List (Option Int)) : Option Int := do
  let tv ← tv
  let date ← arg args 0
  let f := dateBreakTime zone tv
  dateTimeClip (dateLocalToMs zone f.year f.month date f.hour f.minute f.second
    (dateFloorModField tv 1 1000))

def setMonth (zone : Zone) (tv : Option Int) (args : List (Option Int)) : Option Int := do
  let tv ← tv
  let f := dateBreakTime zone tv
  let date ← argOr args 1 f.day
  let month ← arg args 0
  dateTimeClip (dateLocalToMs zone f.year month date f.hour f.minute f.second
    (dateFloorModField tv 1 1000))

def setFullYear (zone : Zone) (tv : Option Int) (args : List (Option Int)) : Option Int := do
  let year ← arg args 0
  let f : CivilFields :=
    match tv with
    | none =>
        { year := 1970, month := 0, day := 1, wday := 0, hour := 0, minute := 0, second := 0 }
    | some tv => dateBreakTime zone tv
  let date ← argOr args 2 f.day
  let month ← argOr args 1 f.month
  dateTimeClip (dateLocalToMs zone year month date f.hour f.minute f.second
    (match tv with
    | none => 0
    | some tv => dateFloorModField tv 1 1000))

inductive Setter
  | setMilliseconds
  | setSeconds
  | setMinutes
  | setHours
  | setDate
  | setMonth
  | setFullYear
deriving DecidableEq

/-- The time value behind a call of a setter. -/
def Setter.call (zone : Zone) (tv : Option Int) (args : List (Option Int)) : Setter → Option Int
  | .setMilliseconds => Dates.setMilliseconds zone tv args
  | .setSeconds => Dates.setSeconds zone tv args
  | .setMinutes => Dates.setMinutes zone tv args
  | .setHours => Dates.setHours zone tv args
  | .setDate => Dates.setDate zone tv args
  | .setMonth => Dates.setMonth zone tv args
  | .setFullYear => Dates.setFullYear zone tv args

/-- The fields that a setter takes, in the order of its arguments. -/
def Setter.takes : Setter → List DateField
  | .setMilliseconds => [.ms]
  | .setSeconds => [.second, .ms]
  | .setMinutes => [.minute, .second, .ms]
  | .setHours => [.hour, .minute, .second, .ms]
  | .setDate => [.day]
  | .setMonth => [.month, .day]
  | .setFullYear => [.year, .month, .day]

end Boomkat.Dates
