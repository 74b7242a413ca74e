import Boomkat.Dates.LocalTime
import Boomkat.Json.Number

/-! Date strings by their bytes: `toISOString`, and the parser of ISO 8601 strings with its parts in
the order in which it consumes them.
-/

namespace Boomkat.Dates

open Json (isDigit)

-----------------------------------------------------------------------------------------
-- The parser
-----------------------------------------------------------------------------------------

/-- The `long` that a loop over digits accumulates. -/
def readDigits (digits : List UInt8) : Int :=
  digits.foldl (fun (n : Int) (c : UInt8) => long (n * 10 + ((c.toNat : Int) - 0x30))) 0

def parseYear (str : List UInt8) : Option (Int × List UInt8) :=
  let hasSign := str.head? = some 0x2B ∨ str.head? = some 0x2D
  let src := if hasSign then str.tail else str
  let digits := src.takeWhile isDigit
  let year := if str.head? = some 0x2D then long (-readDigits digits) else readDigits digits
  if digits.length < 4 then none
  else if year = 0 ∧ str.head? = some 0x2D then none
  else some (year, src.dropWhile isDigit)

/-- A loop over digits that has to find two of them. -/
def parseTwo (src : List UInt8) : Option (Int × List UInt8) :=
  if (src.takeWhile isDigit).length = 2 then
    some (readDigits (src.takeWhile isDigit), src.dropWhile isDigit)
  else none

def parseDay (month : Int) : List UInt8 → Option ((Int × Int) × List UInt8)
  | 0x2D :: src => (parseTwo src).map fun (day, rest) => ((month, day), rest)
  | src => some ((month, 1), src)

/-- The optional month and day. -/
def parseDate : List UInt8 → Option ((Int × Int) × List UInt8)
  | 0x2D :: src => (parseTwo src).bind fun (month, rest) => parseDay month rest
  | src => some ((1, 1), src)

/-- The hour, minute, second and millisecond, and whether a string has them. -/
structure TimePart where
  hour : Int
  minute : Int
  second : Int
  millis : Int
  hasTimePart : Bool

/-- The milliseconds of the first three digits, behind which the others are passed over. -/
def parseFraction (hour minute second : Int) : List UInt8 → TimePart × List UInt8
  | 0x2E :: src =>
      let digits := (src.take 3).takeWhile isDigit
      (⟨hour, minute, second, readDigits digits * 10 ^ (3 - digits.length), true⟩,
        src.dropWhile isDigit)
  | src => (⟨hour, minute, second, 0, true⟩, src)

def parseSecond (hour minute : Int) : List UInt8 → Option (TimePart × List UInt8)
  | 0x3A :: src => (parseTwo src).map fun (second, rest) => parseFraction hour minute second rest
  | src => some (⟨hour, minute, 0, 0, true⟩, src)

def parseMinute (hour : Int) : List UInt8 → Option (TimePart × List UInt8)
  | 0x3A :: src => (parseTwo src).bind fun (minute, rest) => parseSecond hour minute rest
  | src => some (⟨hour, 0, 0, 0, true⟩, src)

/-- The optional time. -/
def parseTime : List UInt8 → Option (TimePart × List UInt8)
  | 0x54 :: src | 0x20 :: src => (parseTwo src).bind fun (hour, rest) => parseMinute hour rest
  | src => some (⟨0, 0, 0, 0, false⟩, src)

/-- A loop over at most two digits. -/
def upToTwo (src : List UInt8) : Int × List UInt8 :=
  let digits := (src.take 2).takeWhile isDigit
  (readDigits digits, src.drop digits.length)

def skipColon : List UInt8 → List UInt8
  | 0x3A :: src => src
  | src => src

/-- The offset behind its sign. -/
def parseOffset (src : List UInt8) : Int :=
  let (tzHour, rest) := upToTwo src
  let (tzMin, _) := upToTwo (skipColon rest)
  (tzHour * 60 + tzMin) * 60000

/-- The time value of the fields in front of the time zone designator. -/
def parseDesignator (zone : Zone) (year month day : Int) (time : TimePart) (src : List UInt8)
    : Option Int :=
  if src.head? = some 0x5A then
    dateTimeClip (dateUtcToMs year (month - 1) day time.hour time.minute time.second time.millis)
  else if 5 ≤ src.length ∧ (src.head? = some 0x2B ∨ src.head? = some 0x2D) then
    let offset := parseOffset src.tail
    let offsetMs := if src.head? = some 0x2D then -offset else offset
    let localMs :=
      dateLocalToMs zone year (month - 1) day time.hour time.minute time.second time.millis
    dateTimeClip (localMs - offsetMs)
  else if time.hasTimePart then
    dateTimeClip
      (dateLocalToMs zone year (month - 1) day time.hour time.minute time.second time.millis)
  else
    dateTimeClip (dateUtcToMs year (month - 1) day time.hour time.minute time.second time.millis)

/-- `date_parse_iso_str`, without a value where it returns NaN. -/
def dateParseIsoStr (zone : Zone) (str : List UInt8) : Option Int := do
  if str.length < 4 then none
  let (year, rest) ← parseYear str
  let ((month, day), rest) ← parseDate rest
  let (time, rest) ← parseTime rest
  parseDesignator zone year month day time rest

-----------------------------------------------------------------------------------------
-- The formatter
-----------------------------------------------------------------------------------------

/-- The cast of a sum to a `char`. -/
def toChar (n : Int) : UInt8 := UInt8.ofNat (n % 256).toNat

def datePad2 (val : Int) : List UInt8 :=
  if val < 10 then [0x30, toChar (val + 48)]
  else [toChar (val.tdiv 10 + 48), toChar (val.tmod 10 + 48)]

def datePad4 (val : Int) : List UInt8 :=
  [toChar ((val.tdiv 1000).tmod 10 + 48), toChar ((val.tdiv 100).tmod 10 + 48),
    toChar ((val.tdiv 10).tmod 10 + 48), toChar (val.tmod 10 + 48)]

def dateBreakTimeUtc (timeVal : Int) : CivilFields := civilFromSeconds (dateMsToSec timeVal)

/-- What the three layouts have in common behind the year. -/
def isoTail (f : CivilFields) (ms : Int) : List UInt8 :=
  [0x2D] ++ datePad2 (f.month + 1) ++ [0x2D] ++ datePad2 f.day ++ [0x54] ++ datePad2 f.hour
    ++ [0x3A] ++ datePad2 f.minute ++ [0x3A] ++ datePad2 f.second ++ [0x2E]
    ++ [toChar (ms.tdiv 100 + 48), toChar ((ms.tdiv 10).tmod 10 + 48), toChar (ms.tmod 10 + 48)]
    ++ [0x5A]

/-- `builtin_date_proto_toISOString`, with the message of its `RangeError`. -/
def toISOString : Option Int → Except String (List UInt8)
  | none => .error "Invalid Date"
  | some tv =>
      let f := dateBreakTimeUtc tv
      let ms := msOf tv
      if f.year ≥ 10000 ∨ f.year ≤ -9999 then
        let absYear := if f.year < 0 then -f.year else f.year
        .ok ([if f.year < 0 then 0x2D else 0x2B]
          ++ [toChar ((absYear.tdiv 100000).tmod 10 + 48), toChar ((absYear.tdiv 10000).tmod 10 + 48)]
          ++ datePad4 absYear ++ isoTail f ms)
      else if f.year < 0 then
        let negYear := -f.year
        .ok ([0x2D, toChar (negYear.tdiv 1000 + 48), toChar ((negYear.tdiv 100).tmod 10 + 48),
          toChar ((negYear.tdiv 10).tmod 10 + 48), toChar (negYear.tmod 10 + 48)] ++ isoTail f ms)
      else .ok (datePad4 f.year ++ isoTail f ms)

end Boomkat.Dates
