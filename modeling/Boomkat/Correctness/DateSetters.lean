import Boomkat.Correctness.Calendar
import Boomkat.Dates.LocalTime

/-! Setters of dates in a time zone with a constant offset: the fields that are not given stay, but
for the minutes that `setHours` takes from the time value without the offset.
-/

namespace Boomkat.Correctness

open Calendar Dates

/-- A time zone that is always the same number of minutes ahead, in seconds of an `int`. -/
structure MinuteZone where
  minutes : Int
  fits : (60 * minutes).natAbs < 2 ^ 31

def MinuteZone.zone (z : MinuteZone) : Zone := fun _ => 60 * z.minutes

variable {z : MinuteZone} {f : DateField → Int}

-----------------------------------------------------------------------------------------
-- Local times
-----------------------------------------------------------------------------------------

/-- The fields are those of a time on a day of the calendar. -/
structure IsLocalTime (f : DateField → Int) : Prop where
  date : IsDate (f .year) (f .month) (f .day)
  hour : 0 ≤ f .hour ∧ f .hour ≤ 23
  minute : 0 ≤ f .minute ∧ f .minute ≤ 59
  second : 0 ≤ f .second ∧ f .second ≤ 59
  ms : 0 ≤ f .ms ∧ f .ms ≤ 999

/-- The milliseconds of fields on the clock of their zone. -/
def localMs (f : DateField → Int) : Int :=
  makeDate (makeDay (f .year) (f .month) (f .day))
    (makeTime (f .hour) (f .minute) (f .second) (f .ms))

/-- The time value of fields. -/
def MinuteZone.timeOf (z : MinuteZone) (f : DateField → Int) : Int :=
  localMs f - 60 * z.minutes * 1000

/-- The remainder that is moved up where it is negative. -/
theorem tmod_moved (q : Int) {modulus : Int} (positive : 0 < modulus)
    : (if q.tmod modulus < 0 then q.tmod modulus + modulus else q.tmod modulus)
      = q % modulus := by
  have low := Int.emod_nonneg q (Int.ne_of_gt positive)
  have high := Int.emod_lt_of_pos q positive
  rw [Int.tmod_eq_emod]
  split
  · rw [if_neg (by omega)]
    omega
  · rw [if_pos (by omega)]
    omega

theorem msOf_eq (tv : Int) : msOf tv = tv % 1000 := tmod_moved tv (by decide)

theorem dateFloorModField_eq (tv unit : Int) {modulus : Int} (positive : 0 < modulus)
    : dateFloorModField tv unit modulus = tv / unit % modulus :=
  tmod_moved (tv / unit) positive

/-- The fields of a time value on the clock. -/
theorem dateGetField_clock (z : MinuteZone) (tv : Int)
    : let secs := tv / 1000 + 60 * z.minutes
      (∀ field, field ≠ .ms → dateGetField z.zone tv field
          = match field with
            | .year => (civilFromSeconds secs).year
            | .month => (civilFromSeconds secs).month
            | .day => (civilFromSeconds secs).day
            | .hour => secs % 86400 / 3600
            | .minute => secs % 86400 % 3600 / 60
            | .second => secs % 86400 % 60
            | .ms => 0)
        ∧ dateGetField z.zone tv .ms = tv % 1000 := by
  intro secs
  obtain ⟨hours, minutes, seconds, -⟩ := civilFromSeconds_time secs
  have broken : dateBreakTime z.zone tv = civilFromSeconds secs := rfl
  constructor
  · intro field other
    cases field with
    | ms => exact absurd rfl other
    | hour => rw [dateGetField, broken, hours]
    | minute => rw [dateGetField, broken, minutes]
    | second => rw [dateGetField, broken, seconds]
    | _ => rw [dateGetField, broken]
  · exact msOf_eq tv

/-- The time value of fields reads back as the fields. -/
theorem dateGetField_timeOf (isTime : IsLocalTime f) : dateGetField z.zone (z.timeOf f) = f := by
  obtain ⟨clock, ms⟩ := dateGetField_clock z (z.timeOf f)
  obtain ⟨date, hour, minute, second, milli⟩ := isTime
  have secs : z.timeOf f / 1000 + 60 * z.minutes
      = makeDay (f .year) (f .month) (f .day) * 86400 + f .hour * 3600 + f .minute * 60
        + f .second := by
    rw [MinuteZone.timeOf, localMs, makeDate, makeTime]
    omega
  have rest : z.timeOf f % 1000 = f .ms := by
    rw [MinuteZone.timeOf, localMs, makeDate, makeTime]
    omega
  rw [secs] at clock
  obtain ⟨date', number⟩ := civilFromSeconds_date
    (makeDay (f .year) (f .month) (f .day) * 86400 + f .hour * 3600 + f .minute * 60 + f .second)
  have day : makeDay (f .year) (f .month) (f .day) = (makeDay (f .year) (f .month) (f .day) * 86400
      + f .hour * 3600 + f .minute * 60 + f .second) / 86400 := by
    omega
  obtain ⟨year, month, day'⟩ := makeDay_injective date' date (number.trans day.symm)
  funext field
  cases field with
  | ms => exact ms.trans rest
  | year => exact (clock .year DateField.noConfusion).trans year
  | month => exact (clock .month DateField.noConfusion).trans month
  | day => exact (clock .day DateField.noConfusion).trans day'
  | hour =>
      rw [clock .hour DateField.noConfusion]
      dsimp only
      omega
  | minute =>
      rw [clock .minute DateField.noConfusion]
      dsimp only
      omega
  | second =>
      rw [clock .second DateField.noConfusion]
      dsimp only
      omega

/-- The source's time value of fields, on a day that a time value can have. -/
theorem dateLocalToMs_timeOf (isDate : IsDate (f .year) (f .month) (f .day))
    (whole : IsLong (makeDay (f .year) (f .month) (f .day)))
    : dateLocalToMs z.zone (f .year) (f .month) (f .day) (f .hour) (f .minute) (f .second) (f .ms)
      = z.timeOf f := by
  have inside := daysBefore_end (f .year) isDate
  have leap := leapDays_bounds (f .year)
  obtain ⟨low, high, first, last⟩ := isDate
  have same : epochDay (f .year) (f .month) (f .day) = makeDay (f .year) (f .month) (f .day) := by
    refine (epochDay_eq_iff ?_ ?_).mpr ⟨whole, by omega⟩
    · unfold IsLong
      omega
    · unfold IsLong
      omega
  rw [dateLocalToMs, dateUtcToMs, same]
  rfl

-----------------------------------------------------------------------------------------
-- Setters
-----------------------------------------------------------------------------------------

/-- The value that a call gives to a field, where it gives one. -/
def givenField (s : Setter) (args : List Int) (field : DateField) : Option Int :=
  (s.takes.zip args).lookup field

/-- The fields with those that a call gives in their place. -/
def setFields (s : Setter) (args : List Int) (old : DateField → Int) : DateField → Int :=
  fun field => (givenField s args field).getD (old field)

/-- The fields that stand for those that are not given. `setHours` takes the minute of the time
value, which is without the offset.
-/
def currentFields (z : MinuteZone) (tv : Int) (s : Setter) : DateField → Int :=
  fun field =>
    if s = .setHours ∧ field = .minute then tv / 60000 % 60 else dateGetField z.zone tv field

/-- The offset has no part of a minute. -/
theorem second_utc (z : MinuteZone) (tv : Int)
    : dateFloorModField tv 1000 60 = dateGetField z.zone tv .second := by
  rw [dateFloorModField_eq _ _ (by decide)]
  have second := (dateGetField_clock z tv).1 .second DateField.noConfusion
  dsimp only at second
  omega

theorem ms_utc (z : MinuteZone) (tv : Int)
    : dateFloorModField tv 1 1000 = dateGetField z.zone tv .ms
      ∧ msOf tv = dateGetField z.zone tv .ms := by
  rw [dateFloorModField_eq _ _ (by decide), Int.ediv_one]
  exact ⟨(dateGetField_clock z tv).2.symm, rfl⟩

/-- The minute of the clock is that of the time value in zones of whole hours only. -/
theorem minute_utc_iff (z : MinuteZone) (tv : Int)
    : tv / 60000 % 60 = dateGetField z.zone tv .minute ↔ 60 ∣ z.minutes := by
  have minute := (dateGetField_clock z tv).1 .minute DateField.noConfusion
  dsimp only at minute
  rw [minute]
  omega

/-- A call passes the fields that it gives and the current ones to the conversion. -/
theorem call_passes (z : MinuteZone) (tv : Int) (s : Setter) {args : List Int}
    (given : args ≠ [])
    : s.call z.zone (some tv) (args.map some)
      = let f := setFields s args (currentFields z tv s)
        dateTimeClip (dateLocalToMs z.zone (f .year) (f .month) (f .day) (f .hour) (f .minute)
          (f .second) (f .ms)) := by
  obtain ⟨a, args, rfl⟩ := List.exists_cons_of_ne_nil given
  have seconds := second_utc z tv
  obtain ⟨ms, ms'⟩ := ms_utc z tv
  cases s with
  | setMilliseconds => rfl
  | setSeconds => cases args <;> rfl
  | setMinutes =>
      rcases args with _ | ⟨b, _ | ⟨c, args⟩⟩
      all_goals
        rw [Setter.call, setMinutes]
        simp only [Option.bind_eq_bind, Option.bind_some, seconds]
        rfl
  | setHours =>
      rcases args with _ | ⟨b, _ | ⟨c, _ | ⟨d, args⟩⟩⟩
      all_goals
        rw [Setter.call, setHours]
        simp only [Option.bind_eq_bind, Option.bind_some, seconds,
          dateFloorModField_eq tv 60000 (show (0 : Int) < 60 by decide)]
        rfl
  | setDate =>
      rw [Setter.call, setDate]
      simp only [Option.bind_eq_bind, Option.bind_some, ms]
      rfl
  | setMonth =>
      rw [Setter.call, setMonth]
      simp only [Option.bind_eq_bind, Option.bind_some, ms]
      cases args <;> rfl
  | setFullYear =>
      rw [Setter.call, setFullYear]
      simp only [Option.bind_eq_bind, ms]
      rcases args with _ | ⟨b, _ | ⟨c, args⟩⟩ <;> rfl

/-- The fields are a time of the clock whose time value is in range. -/
structure InTimeRange (z : MinuteZone) (f : DateField → Int) : Prop where
  isTime : IsLocalTime f
  valid : (z.timeOf f).natAbs ≤ maxTime

/-- What is to hold of a call: every getter reads the value that is given for its field, and else
what it read before.
-/
def SetterHolds (z : MinuteZone) (tv : Int) (s : Setter) (args : List Int) : Prop :=
  ∃ t, s.call z.zone (some tv) (args.map some) = some t
    ∧ ∀ field, dateGetField z.zone t field
      = setFields s args (dateGetField z.zone tv) field

theorem makeDay_inRange (inRange : InTimeRange z f)
    : IsLong (makeDay (f .year) (f .month) (f .day)) := by
  obtain ⟨⟨-, hour, minute, second, ms⟩, valid⟩ := inRange
  have offset := z.fits
  simp only [MinuteZone.timeOf, localMs, makeDate, makeTime, maxTime] at valid
  unfold IsLong
  omega

/-- The current fields are those of the getters, but for the minute of `setHours`. -/
theorem currentFields_eq {tv : Int} {s : Setter} {args : List Int} (given : args ≠ [])
    (whole : s = .setHours → args.length = 1 → 60 ∣ z.minutes)
    : setFields s args (currentFields z tv s) = setFields s args (dateGetField z.zone tv) := by
  funext field
  rw [setFields, setFields, currentFields]
  split
  · rename_i minute
    obtain ⟨rfl, rfl⟩ := minute
    match args, given with
    | [hour], _ => rw [(minute_utc_iff z tv).mpr (whole rfl rfl)]
    | hour :: minute :: args, _ => rfl
  · rfl

/-- The fields that stand for those of an invalid date: the first millisecond of 1970. -/
def epochFields : DateField → Int
  | .year => 1970
  | .month => 0
  | .day => 1
  | .hour | .minute | .second | .ms => 0

/-- The setter of the year passes on the fields that it gives to the first millisecond of 1970. -/
theorem setFullYear_passes (z : MinuteZone) {args : List Int} (given : args ≠ [])
    : Setter.call z.zone none (args.map some) .setFullYear
      = let f := setFields .setFullYear args epochFields
        dateTimeClip (dateLocalToMs z.zone (f .year) (f .month) (f .day) (f .hour) (f .minute)
          (f .second) (f .ms)) := by
  obtain ⟨year, args, rfl⟩ := List.exists_cons_of_ne_nil given
  rw [Setter.call, setFullYear]
  simp only [Option.bind_eq_bind]
  rcases args with _ | ⟨month, _ | ⟨day, args⟩⟩ <;> rfl

/-- Fields of a time in range are passed on as their time value. -/
theorem dateTimeClip_inRange (inRange : InTimeRange z f)
    : dateTimeClip (dateLocalToMs z.zone (f .year) (f .month) (f .day) (f .hour) (f .minute)
        (f .second) (f .ms))
      = some (z.timeOf f) := by
  rw [dateLocalToMs_timeOf inRange.isTime.date (makeDay_inRange inRange), dateTimeClip]
  exact if_neg (Nat.not_lt.mpr inRange.valid)

/-- On an invalid date the setter of the year sets the fields that are given on the first
millisecond of 1970.
-/
theorem setFullYear_invalid (z : MinuteZone) {args : List Int} (given : args ≠ [])
    (inRange : InTimeRange z (setFields .setFullYear args epochFields))
    : ∃ t, Setter.call z.zone none (args.map some) .setFullYear = some t
      ∧ ∀ field, dateGetField z.zone t field = setFields .setFullYear args epochFields field := by
  refine ⟨z.timeOf (setFields .setFullYear args epochFields), ?_, fun field => ?_⟩
  · rw [setFullYear_passes z given]
    exact dateTimeClip_inRange inRange
  · rw [dateGetField_timeOf inRange.isTime]

/-- A setter changes the fields that are given and no others exactly if it is not `setHours` of an
hour alone in a zone that is ahead by a part of an hour. An invalid date stays invalid but for
`setFullYear`, which gives the date of its arguments as on the first millisecond of 1970. Witness:
the fields that each setter passes on, and the fields of a time on the clock read back.
-/
theorem dateSetters_iff (z : MinuteZone) (tv : Int) (s : Setter) {args : List Int}
    (given : args ≠ [])
    (inRange : InTimeRange z (setFields s args (dateGetField z.zone tv)))
    : (SetterHolds z tv s args ↔ (s = .setHours → args.length = 1 → 60 ∣ z.minutes))
      ∧ (∀ (zone : Zone) (args' : List (Option Int)), s ≠ .setFullYear
        → s.call zone none args' = none)
      ∧ ∀ args' : List Int, args' ≠ []
        → InTimeRange z (setFields .setFullYear args' epochFields)
        → ∃ t, Setter.call z.zone none (args'.map some) .setFullYear = some t
          ∧ ∀ field, dateGetField z.zone t field
            = setFields .setFullYear args' epochFields field := by
  refine ⟨⟨?_, fun wholeHours => ?_⟩, ?_, fun args' => setFullYear_invalid z⟩
  · rintro ⟨t, called, read⟩ rfl single
    obtain ⟨hour, rfl⟩ := List.length_eq_one_iff.mp single
    rw [call_passes z tv .setHours given] at called
    obtain ⟨date, hours, minutes, seconds, milliseconds⟩ := inRange.isTime
    have whole := makeDay_inRange inRange
    -- the fields that are passed on are those of a time as well
    have isTime : IsLocalTime (setFields .setHours [hour] (currentFields z tv .setHours)) := by
      refine ⟨date, hours, ?_, seconds, milliseconds⟩
      change 0 ≤ tv / 60000 % 60 ∧ tv / 60000 % 60 ≤ 59
      omega
    dsimp only at called
    rw [dateLocalToMs_timeOf isTime.date whole, dateTimeClip] at called
    split at called
    · cases called
    · cases called
      rw [dateGetField_timeOf isTime] at read
      exact (minute_utc_iff z tv).mp (read .minute)
  · have same : setFields s args (currentFields z tv s)
        = setFields s args (dateGetField z.zone tv) :=
      currentFields_eq given wholeHours
    refine ⟨z.timeOf (setFields s args (dateGetField z.zone tv)), ?_, fun field => ?_⟩
    · rw [call_passes z tv s given, same]
      exact dateTimeClip_inRange inRange
    · rw [dateGetField_timeOf inRange.isTime]
  · intro zone args' other
    cases s with
    | setFullYear => exact absurd rfl other
    | _ => rfl

/-- In the zone of India: `setHours(0, 15)` on a date, and `setFullYear(2024, 1, 29)` on an invalid
one.
-/
theorem dateSetters_hours
    : let z : MinuteZone := ⟨330, by decide⟩
      SetterHolds z 0 .setHours [0, 15]
        ∧ ∃ t, Setter.call z.zone none [some 2024, some 1, some 29] .setFullYear = some t
          ∧ ∀ field, dateGetField z.zone t field
            = setFields .setFullYear [2024, 1, 29] epochFields field := by
  intro z
  obtain ⟨valid, -, starts⟩ := dateSetters_iff z 0 .setHours (List.cons_ne_nil 0 [15])
    ⟨⟨by decide, by decide, by decide, by decide, by decide⟩, by decide⟩
  refine ⟨valid.mpr fun _ two => ?_, starts [2024, 1, 29] (List.cons_ne_nil _ _) ?_⟩
  · cases two
  · exact ⟨⟨by decide, by decide, by decide, by decide, by decide⟩, by decide⟩

/-- `setHours(0)` there takes the minute 0 of 00:00 UTC in the place of the minute 30 of the clock. -/
theorem setHours_minute
    : let z : MinuteZone := ⟨330, by decide⟩
      InTimeRange z (setFields .setHours [0] (dateGetField z.zone 0))
        ∧ dateGetField z.zone 0 .minute = 30
        ∧ (∃ t, Setter.call z.zone (some 0) [some 0] .setHours = some t
          ∧ dateGetField z.zone t .minute = 0)
        ∧ ¬SetterHolds z 0 .setHours [0] := by
  intro z
  have result : Setter.call z.zone (some 0) [some 0] .setHours = some (-19800000) := by
    decide
  have minute : dateGetField z.zone (-19800000) .minute = 0 := by
    decide
  refine ⟨⟨⟨by decide, by decide, by decide, by decide, by decide⟩, by decide⟩, by decide,
    ⟨_, result, minute⟩, ?_⟩
  intro ⟨t, called, read⟩
  have same : t = -19800000 := Option.some.inj (called.symm.trans result)
  subst same
  exact absurd (minute.symm.trans (read .minute)) (by decide)

end Boomkat.Correctness
