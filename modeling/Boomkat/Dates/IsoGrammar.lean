import Boomkat.Dates.IsoString
import Boomkat.Foundation.Calendar

/-! The forms of ISO 8601 date strings as syntax: a year of at least four digits, then optionally a
month and a day, a time behind `T` or a space, and a designator of the time zone. The fields of a
form need not be those of a date.
-/

namespace Boomkat.Dates

open Json Calendar

-----------------------------------------------------------------------------------------
-- Forms
-----------------------------------------------------------------------------------------

/-- A year with an optional sign, which is minus or not. -/
structure YearText where
  sign : Option Bool
  digits : List (Fin 10)

def YearText.text (year : YearText) : List UInt8 :=
  (match year.sign with
    | none => []
    | some true => [0x2D]
    | some false => [0x2B]) ++ year.digits.map digitChar

def YearText.value (year : YearText) : Int :=
  if year.sign = some true then -(digitsValue year.digits : Int) else digitsValue year.digits

structure TwoDigits where
  tens : Fin 10
  ones : Fin 10
deriving DecidableEq

def TwoDigits.text (n : TwoDigits) : List UInt8 := [digitChar n.tens, digitChar n.ones]

def TwoDigits.value (n : TwoDigits) : Int := 10 * (n.tens.val : Int) + n.ones.val

inductive DateText
  | toYear
  | toMonth (month : TwoDigits)
  | toDay (month day : TwoDigits)

def DateText.text : DateText → List UInt8
  | .toYear => []
  | .toMonth month => 0x2D :: month.text
  | .toDay month day => 0x2D :: (month.text ++ 0x2D :: day.text)

def DateText.monthValue : DateText → Int
  | .toYear => 1
  | .toMonth month => month.value
  | .toDay month _ => month.value

def DateText.dayValue : DateText → Int
  | .toYear => 1
  | .toMonth _ => 1
  | .toDay _ day => day.value

inductive TimeText
  | absent
  | toHour (space : Bool) (hour : TwoDigits)
  | toMinute (space : Bool) (hour minute : TwoDigits)
  | toSecond (space : Bool) (hour minute second : TwoDigits)
  | toFraction (space : Bool) (hour minute second : TwoDigits) (digits : List (Fin 10))

def timeSign (space : Bool) : UInt8 := if space then 0x20 else 0x54

def TimeText.text : TimeText → List UInt8
  | .absent => []
  | .toHour space hour => timeSign space :: hour.text
  | .toMinute space hour minute => timeSign space :: (hour.text ++ 0x3A :: minute.text)
  | .toSecond space hour minute second =>
      timeSign space :: (hour.text ++ 0x3A :: (minute.text ++ 0x3A :: second.text))
  | .toFraction space hour minute second digits =>
      timeSign space :: (hour.text ++ 0x3A :: (minute.text ++ 0x3A :: (second.text
        ++ 0x2E :: digits.map digitChar)))

/-- The thousandths of a fraction, whose further digits do not count. -/
def thousandths (digits : List (Fin 10)) : Nat := digitsValue ((digits ++ [0, 0, 0]).take 3)

def TimeText.value : TimeText → TimePart
  | .absent => ⟨0, 0, 0, 0, false⟩
  | .toHour _ hour => ⟨hour.value, 0, 0, 0, true⟩
  | .toMinute _ hour minute => ⟨hour.value, minute.value, 0, 0, true⟩
  | .toSecond _ hour minute second => ⟨hour.value, minute.value, second.value, 0, true⟩
  | .toFraction _ hour minute second digits =>
      ⟨hour.value, minute.value, second.value, thousandths digits, true⟩

inductive Designator
  | absent
  | utc
  | offset (negative : Bool) (hour : List (Fin 10)) (colon : Bool) (minute : List (Fin 10))

/-- The text behind the digits of an offset's hour. -/
def minuteText (colon : Bool) (minute : List (Fin 10)) : List UInt8 :=
  (if colon then [0x3A] else []) ++ minute.map digitChar

def Designator.text : Designator → List UInt8
  | .absent => []
  | .utc => [0x5A]
  | .offset negative hour colon minute =>
      (if negative then 0x2D else 0x2B) :: (hour.map digitChar ++ minuteText colon minute)

/-- The milliseconds of an offset. -/
def Designator.offsetMs : Designator → Int
  | .absent => 0
  | .utc => 0
  | .offset negative hour _ minute =>
      (if negative then -1 else 1) * (((digitsValue hour * 60 + digitsValue minute : Nat) : Int) * 60000)

structure IsoText where
  year : YearText
  date : DateText
  time : TimeText
  designator : Designator

def IsoText.text (form : IsoText) : List UInt8 :=
  form.year.text ++ form.date.text ++ form.time.text ++ form.designator.text

-----------------------------------------------------------------------------------------
-- Supported forms
-----------------------------------------------------------------------------------------

/-- A year has four digits, or a sign and six digits that are not those of minus zero. -/
def YearText.Supported (year : YearText) : Prop :=
  match year.sign with
  | none => year.digits.length = 4
  | some negative => year.digits.length = 6 ∧ ¬(negative = true ∧ digitsValue year.digits = 0)

/-- A time has at least an hour and a minute behind `T`, and three digits in its fraction. -/
def TimeText.Supported : TimeText → Prop
  | .absent => True
  | .toHour _ _ => False
  | .toMinute space _ _ => space = false
  | .toSecond space _ _ _ => space = false
  | .toFraction space _ _ _ digits => space = false ∧ digits.length = 3

/-- A time of the day, or midnight at its end. -/
def TimePart.InDay (time : TimePart) : Prop :=
  (time.hour ≤ 23 ∧ time.minute ≤ 59 ∧ time.second ≤ 59)
    ∨ (time.hour = 24 ∧ time.minute = 0 ∧ time.second = 0 ∧ time.millis = 0)

/-- An offset has two digits for its hour and two for its minute, and a colon between them. -/
def Designator.Complete : Designator → Prop
  | .absent => True
  | .utc => True
  | .offset _ hour colon minute =>
      (hour.length = 2 ∧ digitsValue hour ≤ 23) ∧ colon = true
        ∧ (minute.length = 2 ∧ digitsValue minute ≤ 59)

/-- The form names UTC or an offset. -/
def IsoText.Explicit (form : IsoText) : Prop := form.designator.text ≠ []

/-- The form is one of the Date Time String Format, of which are those that the parser lists:
`YYYY`, `YYYY-MM` or `YYYY-MM-DD`, with or without `THH:mm`, `THH:mm:ss` or `THH:mm:ss.sss` and,
behind a time, `Z` or an offset, where the year may be `+YYYYYY` or `-YYYYYY` and no field is out of
range.
-/
structure IsoText.Supported (form : IsoText) : Prop where
  year : form.year.Supported
  date : IsDate form.year.value (form.date.monthValue - 1) form.date.dayValue
  time : form.time.Supported
  inDay : form.time.value.InDay
  designator : form.designator.Complete
  timed : form.Explicit → form.time.value.hasTimePart = true

/-- The fields of a form as a time, without regard to time zones. -/
def IsoText.fieldsMs (form : IsoText) : Int :=
  makeDate (makeDay form.year.value (form.date.monthValue - 1) form.date.dayValue)
    (makeTime form.time.value.hour form.time.value.minute form.time.value.second
      form.time.value.millis)

/-- The instant of a form that names UTC or an offset. -/
def IsoText.instantMs (form : IsoText) : Int := form.fieldsMs - form.designator.offsetMs

-----------------------------------------------------------------------------------------
-- The format of times
-----------------------------------------------------------------------------------------

/-- The last digits of a number. -/
def decimalDigits : Nat → Nat → List (Fin 10)
  | 0, _ => []
  | width + 1, n => decimalDigits width (n / 10) ++ [Fin.ofNat 10 n]

def twoDigits (n : Int) : TwoDigits := ⟨Fin.ofNat 10 (n.toNat / 10), Fin.ofNat 10 n.toNat⟩

/-- The form of a time by its date in UTC. -/
def timeForm (year : YearText) (month day t : Int) : IsoText where
  year := year
  date := .toDay (twoDigits (month + 1)) (twoDigits day)
  time := .toFraction false (twoDigits (t / 3600000 % 24)) (twoDigits (t / 60000 % 60))
    (twoDigits (t / 1000 % 60)) (decimalDigits 3 (t % 1000).toNat)
  designator := .utc

/-- Four digits for the years from 0 to 9999, a sign and six digits for others. -/
def ecmaYear (year : Int) : YearText :=
  if 0 ≤ year ∧ year ≤ 9999 then ⟨none, decimalDigits 4 year.natAbs⟩
  else ⟨some (decide (year < 0)), decimalDigits 6 year.natAbs⟩

/-- The text of a time in the Date Time String Format. -/
def IsEcmaText (t : Int) (text : List UInt8) : Prop :=
  ∃ year month day, IsDate year month day ∧ makeDay year month day = t / 86400000
    ∧ text = (timeForm (ecmaYear year) month day t).text

-----------------------------------------------------------------------------------------
-- Readings
-----------------------------------------------------------------------------------------

/-- A text does not start with a digit. -/
def Digitless (rest : List UInt8) : Prop := ∀ c ∈ rest.head?, isDigit c = false

def Lacks (c : UInt8) (rest : List UInt8) : Prop := rest.head? ≠ some c

instance (c : UInt8) (rest : List UInt8) : Decidable (Lacks c rest) :=
  inferInstanceAs (Decidable (_ ≠ _))

/-- The date goes no further than this. -/
def DateText.Ends (rest : List UInt8) : DateText → Prop
  | .toYear => Lacks 0x2D rest
  | .toMonth _ => Lacks 0x2D rest ∧ Digitless rest
  | .toDay _ _ => Digitless rest

/-- The time goes no further than this. -/
def TimeText.Ends (rest : List UInt8) : TimeText → Prop
  | .absent => Lacks 0x54 rest ∧ Lacks 0x20 rest
  | .toHour _ _ => Lacks 0x3A rest ∧ Digitless rest
  | .toMinute _ _ _ => Lacks 0x3A rest ∧ Digitless rest
  | .toSecond _ _ _ _ => Lacks 0x2E rest ∧ Digitless rest
  | .toFraction _ _ _ _ _ => Digitless rest

/-- Digits of which at most two are read. -/
def AtMostTwo (digits : List (Fin 10)) (rest : List UInt8) : Prop :=
  digits.length ≤ 2 ∧ (digits.length < 2 → Digitless rest)

/-- The designator goes no further than this. One of an offset has five characters behind the time
at least, whatever they are.
-/
def Designator.Ends (rest : List UInt8) : Designator → Prop
  | .absent => Lacks 0x5A rest ∧ (5 ≤ rest.length → Lacks 0x2B rest ∧ Lacks 0x2D rest)
  | .utc => True
  | .offset negative hour colon minute =>
      5 ≤ ((Designator.offset negative hour colon minute).text ++ rest).length
        ∧ AtMostTwo hour (minuteText colon minute ++ rest)
        ∧ (colon = false → Lacks 0x3A (minute.map digitChar ++ rest))
        ∧ AtMostTwo minute rest

/-- A string starts with a form, which goes as far as it can. -/
structure Reads (str : List UInt8) (form : IsoText) (rest : List UInt8) : Prop where
  text : str = form.text ++ rest
  digits : 4 ≤ form.year.digits.length
  year : Digitless (form.date.text ++ (form.time.text ++ (form.designator.text ++ rest)))
  date : form.date.Ends (form.time.text ++ (form.designator.text ++ rest))
  time : form.time.Ends (form.designator.text ++ rest)
  designator : form.designator.Ends rest
  zero : ¬(form.year.sign = some true ∧ long form.year.value = 0)

def InRange (t : Int) : Prop := t.natAbs ≤ maxTime

instance (t : Int) : Decidable (InRange t) := inferInstanceAs (Decidable (_ ≤ _))

/-- The fields of a form as a time where the year and the number of the day are cut to 64 bits. -/
def IsoText.cutMs (form : IsoText) : Int :=
  makeDate (long (makeDay (long form.year.value) (form.date.monthValue - 1) form.date.dayValue))
    (makeTime form.time.value.hour form.time.value.minute form.time.value.second
      form.time.value.millis)

/-- The offset of the host zone that is taken from a form: none where it names UTC, or has neither
a time nor an offset.
-/
def IsoText.hostMs (zone : Zone) (form : IsoText) : Int :=
  match form.designator with
  | .utc => 0
  | .offset _ _ _ _ => zone (form.cutMs.tdiv 1000) * 1000
  | .absent => if form.time.value.hasTimePart then zone (form.cutMs.tdiv 1000) * 1000 else 0

/-- The fields of a form are within the range of times, where the year and the number of the day
have 64 bits and the offsets of the host and of the form are taken off.
-/
def IsoText.Within (zone : Zone) (form : IsoText) : Prop :=
  InRange (form.cutMs - form.hostMs zone - form.designator.offsetMs)

end Boomkat.Dates
