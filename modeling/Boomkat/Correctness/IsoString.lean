import Boomkat.Correctness.IsoReading
import Mathlib.Data.List.Induction

/-! Date strings: a string starts with one form at most, which is what it is parsed to. The parser is
right on a string exactly if the form is all of it and supported or has its fields out of range, and
no offset of the host is taken from a form with one of its own.
-/

namespace Boomkat.Correctness

open Dates Json Calendar

-----------------------------------------------------------------------------------------
-- Readings
-----------------------------------------------------------------------------------------

theorem designator_split (src : List UInt8)
    : ∃ (designator : Designator) (rest : List UInt8),
        src = designator.text ++ rest ∧ designator.Ends rest := by
  by_cases utc : src.head? = some 0x5A
  · obtain ⟨tail, rfl⟩ := List.head?_eq_some_iff.mp utc
    exact ⟨.utc, tail, rfl, trivial⟩
  · by_cases offset : 5 ≤ src.length ∧ (src.head? = some 0x2B ∨ src.head? = some 0x2D)
    · obtain ⟨long, sign⟩ := offset
      obtain ⟨negative, tail, rfl⟩ : ∃ (negative : Bool) (tail : List UInt8),
          src = (if negative then 0x2D else 0x2B) :: tail := by
        rcases sign with plus | minus
        · obtain ⟨tail, rfl⟩ := List.head?_eq_some_iff.mp plus
          exact ⟨false, tail, rfl⟩
        · obtain ⟨tail, rfl⟩ := List.head?_eq_some_iff.mp minus
          exact ⟨true, tail, rfl⟩
      obtain ⟨hour, behind, rfl, hours⟩ := upToTwo_split tail
      by_cases colon : behind.head? = some 0x3A
      · obtain ⟨behind, rfl⟩ := List.head?_eq_some_iff.mp colon
        obtain ⟨minute, rest, rfl, minutes⟩ := upToTwo_split behind
        exact ⟨.offset negative hour true minute, rest, by simp [Designator.text, minuteText],
          by simpa [Designator.text, minuteText] using long, hours, nofun, minutes⟩
      · obtain ⟨minute, rest, rfl, minutes⟩ := upToTwo_split behind
        exact ⟨.offset negative hour false minute, rest, by simp [Designator.text, minuteText],
          by simpa [Designator.text, minuteText] using long, hours, fun _ => colon, minutes⟩
    · refine ⟨.absent, src, rfl, utc, fun long => ?_⟩
      exact ⟨fun plus => offset ⟨long, .inl plus⟩, fun minus => offset ⟨long, .inr minus⟩⟩

/-- What the parser sees of a designator. -/
theorem parseDesignator_text (zone : Zone) (year month day : Int) (time : TimePart)
    (designator : Designator) (rest : List UInt8)
    : designator.Ends rest → parseDesignator zone year month day time (designator.text ++ rest)
      = match designator with
        | .utc =>
            dateTimeClip (dateUtcToMs year (month - 1) day time.hour time.minute time.second
              time.millis)
        | .offset _ _ _ _ =>
            dateTimeClip (dateLocalToMs zone year (month - 1) day time.hour time.minute time.second
              time.millis - designator.offsetMs)
        | .absent =>
            if time.hasTimePart then
              dateTimeClip (dateLocalToMs zone year (month - 1) day time.hour time.minute
                time.second time.millis)
            else
              dateTimeClip (dateUtcToMs year (month - 1) day time.hour time.minute time.second
                time.millis) := by
  intro ends
  cases designator with
  | utc => rfl
  | absent =>
      obtain ⟨utc, offset⟩ := ends
      change parseDesignator zone year month day time rest = _
      rw [parseDesignator, if_neg utc, if_neg]
      rintro ⟨long, plus | minus⟩
      · exact (offset long).1 plus
      · exact (offset long).2 minus
  | offset negative hour colon minute =>
      have text : (Designator.offset negative hour colon minute).text ++ rest
          = (if negative then 0x2D else 0x2B)
            :: (hour.map digitChar ++ (minuteText colon minute ++ rest)) := by
        simp [Designator.text]
      have long := ends.1
      rw [text] at long ⊢
      rw [parseDesignator, List.tail_cons, parseOffset_text ends]
      cases negative with
      | true =>
          rw [if_neg (by simp), if_pos ⟨long, by simp⟩, if_pos (by simp), Designator.offsetMs]
          simp
      | false =>
          rw [if_neg (by simp), if_pos ⟨long, by simp⟩, if_neg (by simp), Designator.offsetMs]
          simp

/-- A minute behind its optional colon is the only one. -/
theorem minuteText_unique {colon colon' : Bool} {minute minute' : List (Fin 10)}
    {rest rest' : List UInt8}
    (same : minuteText colon minute ++ rest = minuteText colon' minute' ++ rest')
    (lacks : colon = false → Lacks 0x3A (minute.map digitChar ++ rest))
    (lacks' : colon' = false → Lacks 0x3A (minute'.map digitChar ++ rest'))
    (ends : AtMostTwo minute rest) (ends' : AtMostTwo minute' rest')
    : colon = colon' ∧ minute = minute' ∧ rest = rest' := by
  have texts := congrArg skipColon same
  rw [skipColon_minute lacks, skipColon_minute lacks'] at texts
  obtain ⟨rfl, rfl⟩ := atMostTwo_unique texts ends ends'
  refine ⟨?_, rfl, rfl⟩
  cases colon with
  | true =>
      cases colon' with
      | true => rfl
      | false =>
          refine absurd ?_ (lacks' rfl)
          have first := congrArg List.head? same
          exact first.symm
  | false =>
      cases colon' with
      | true =>
          refine absurd ?_ (lacks rfl)
          have first := congrArg List.head? same
          exact first
      | false => rfl

theorem designator_unique {designator designator' : Designator} {rest rest' : List UInt8}
    (same : designator.text ++ rest = designator'.text ++ rest') (ends : designator.Ends rest)
    (ends' : designator'.Ends rest') : designator = designator' ∧ rest = rest' := by
  -- an offset is told from its absence by its length and its sign
  have offset : ∀ {negative hour colon minute} {rest rest' : List UInt8},
      (Designator.offset negative hour colon minute).text ++ rest = rest' →
      (Designator.offset negative hour colon minute).Ends rest →
      ¬Designator.absent.Ends rest' := by
    intro negative hour colon minute rest rest' is ends absent
    obtain ⟨plus, minus⟩ := absent.2 (is ▸ ends.1)
    subst is
    cases negative with
    | true => exact minus rfl
    | false => exact plus rfl
  cases designator with
  | absent =>
      cases designator' with
      | absent => exact ⟨rfl, same⟩
      | utc =>
          have first := congrArg List.head? same
          exact absurd first ends.1
      | offset => exact absurd ends (offset same.symm ends')
  | utc =>
      cases designator' with
      | absent =>
          have first := congrArg List.head? same
          exact absurd first.symm ends'.1
      | utc => exact ⟨rfl, (List.cons.inj same).2⟩
      | offset negative =>
          have first := (List.cons.inj same).1
          cases negative <;> exact absurd first (by decide)
  | offset negative hour colon minute =>
      cases designator' with
      | absent => exact absurd ends' (offset same ends)
      | utc =>
          have first := (List.cons.inj same).1
          cases negative <;> exact absurd first (by decide)
      | offset negative' hour' colon' minute' =>
          obtain ⟨first, behind⟩ := List.cons.inj same
          have sign : negative = negative' := by
            cases negative <;> cases negative' <;> first | rfl | exact absurd first (by decide)
          have hours : hour.map digitChar ++ (minuteText colon minute ++ rest)
              = hour'.map digitChar ++ (minuteText colon' minute' ++ rest') := by
            simpa using behind
          obtain ⟨rfl, behind'⟩ := atMostTwo_unique hours ends.2.1 ends'.2.1
          obtain ⟨rfl, rfl, rfl⟩ :=
            minuteText_unique behind' ends.2.2.1 ends'.2.2.1 ends.2.2.2 ends'.2.2.2
          exact ⟨by rw [sign], rfl⟩

theorem twoDigits_injective {n n' : TwoDigits} (same : n.text = n'.text) : n = n' := by
  obtain ⟨tens, ones⟩ := n
  obtain ⟨tens', ones'⟩ := n'
  simp only [TwoDigits.text, List.cons.injEq, digitChar_injective.eq_iff, and_true] at same
  obtain ⟨rfl, rfl⟩ := same
  rfl

theorem twoDigits_append {n n' : TwoDigits} {rest rest' : List UInt8}
    (same : n.text ++ rest = n'.text ++ rest') : n = n' ∧ rest = rest' := by
  obtain ⟨text, behind⟩ := List.append_inj same rfl
  exact ⟨twoDigits_injective text, behind⟩

theorem date_unique {date date' : DateText} {rest rest' : List UInt8}
    (same : date.text ++ rest = date'.text ++ rest') (ends : date.Ends rest)
    (ends' : date'.Ends rest') : date = date' ∧ rest = rest' := by
  have parsed := parseDate_text date ends
  rw [same, parseDate_text date' ends'] at parsed
  obtain ⟨-, rfl⟩ := Prod.mk.inj (Option.some.inj parsed)
  refine ⟨?_, rfl⟩
  have text := List.append_cancel_right same
  have length := congrArg List.length text
  cases date with
  | toYear =>
      cases date' with
      | toYear => rfl
      | toMonth | toDay => exact absurd length (by simp [DateText.text])
  | toMonth month =>
      cases date' with
      | toMonth month' => rw [twoDigits_injective (List.cons.inj text).2]
      | toYear | toDay => exact absurd length (by simp [DateText.text, TwoDigits.text])
  | toDay month day =>
      cases date' with
      | toDay month' day' =>
          obtain ⟨rfl, behind⟩ := twoDigits_append (List.cons.inj text).2
          rw [twoDigits_injective (List.cons.inj behind).2]
      | toYear | toMonth => exact absurd length (by simp [DateText.text, TwoDigits.text])

/-- The parts of a time are told by the length of its text. -/
theorem time_unique {time time' : TimeText} {rest rest' : List UInt8}
    (same : time.text ++ rest = time'.text ++ rest') (ends : time.Ends rest)
    (ends' : time'.Ends rest') : time = time' ∧ rest = rest' := by
  have parsed := parseTime_text time ends
  rw [same, parseTime_text time' ends'] at parsed
  obtain ⟨-, rfl⟩ := Prod.mk.inj (Option.some.inj parsed)
  refine ⟨?_, rfl⟩
  have text := List.append_cancel_right same
  have length := congrArg List.length text
  have sign : ∀ {space space' : Bool}, timeSign space = timeSign space' → space = space' := by
    decide
  cases time with
  | absent =>
      cases time' with
      | absent => rfl
      | _ => exact absurd length (by simp [TimeText.text])
  | toHour space hour =>
      cases time' with
      | toHour space' hour' =>
          obtain ⟨first, behind⟩ := List.cons.inj text
          rw [sign first, twoDigits_injective behind]
      | _ => exact absurd length (by simp [TimeText.text, TwoDigits.text])
  | toMinute space hour minute =>
      cases time' with
      | toMinute space' hour' minute' =>
          obtain ⟨first, behind⟩ := List.cons.inj text
          obtain ⟨rfl, behind'⟩ := twoDigits_append behind
          rw [sign first, twoDigits_injective (List.cons.inj behind').2]
      | _ => exact absurd length (by simp [TimeText.text, TwoDigits.text])
  | toSecond space hour minute second =>
      cases time' with
      | toSecond space' hour' minute' second' =>
          obtain ⟨first, behind⟩ := List.cons.inj text
          obtain ⟨rfl, behind'⟩ := twoDigits_append behind
          obtain ⟨rfl, behind''⟩ := twoDigits_append (List.cons.inj behind').2
          rw [sign first, twoDigits_injective (List.cons.inj behind'').2]
      | _ => exact absurd length (by simp [TimeText.text, TwoDigits.text])
  | toFraction space hour minute second digits =>
      cases time' with
      | toFraction space' hour' minute' second' digits' =>
          obtain ⟨first, behind⟩ := List.cons.inj text
          obtain ⟨rfl, behind'⟩ := twoDigits_append behind
          obtain ⟨rfl, behind''⟩ := twoDigits_append (List.cons.inj behind').2
          obtain ⟨rfl, fractions⟩ := twoDigits_append (List.cons.inj behind'').2
          rw [sign first, List.map_injective_iff.mpr digitChar_injective (List.cons.inj fractions).2]
      | _ => exact absurd length (by simp [TimeText.text, TwoDigits.text])

theorem year_unique {year year' : YearText} {rest rest' : List UInt8}
    (same : year.text ++ rest = year'.text ++ rest') (many : 4 ≤ year.digits.length)
    (many' : 4 ≤ year'.digits.length) (ends : Digitless rest) (ends' : Digitless rest')
    : year = year' ∧ rest = rest' := by
  obtain ⟨-, behind⟩ := YearText.sign_text year many rest
  obtain ⟨-, behind'⟩ := YearText.sign_text year' many' rest'
  rw [same, behind'] at behind
  obtain ⟨sign, digits⟩ := year
  obtain ⟨sign', digits'⟩ := year'
  obtain ⟨rfl, rfl⟩ := digits_unique behind.symm ends ends'
  refine ⟨?_, rfl⟩
  have signs := List.append_cancel_right (List.append_cancel_right same)
  congr 1
  rcases sign with _ | _ | _ <;> rcases sign' with _ | _ | _ <;> simp at signs ⊢

/-- A string starts with at most one form. -/
theorem reads_unique {str : List UInt8} {form form' : IsoText} {rest rest' : List UInt8}
    (reads : Reads str form rest) (reads' : Reads str form' rest')
    : form = form' ∧ rest = rest' := by
  have text := reads.text.symm.trans reads'.text
  simp only [IsoText.text, List.append_assoc] at text
  obtain ⟨year, dates⟩ := year_unique text reads.digits reads'.digits reads.year reads'.year
  obtain ⟨date, times⟩ := date_unique dates reads.date reads'.date
  obtain ⟨time, designators⟩ := time_unique times reads.time reads'.time
  obtain ⟨designator, same⟩ := designator_unique designators reads.designator reads'.designator
  refine ⟨?_, same⟩
  obtain ⟨_, _, _, _⟩ := form
  obtain ⟨_, _, _, _⟩ := form'
  exact congr (congr (congrArg₂ IsoText.mk year date) time) designator

-----------------------------------------------------------------------------------------
-- The value of a reading
-----------------------------------------------------------------------------------------

/-- The offsets of a host, which are integers of 32 bits. -/
structure HostZone where
  offset : Zone
  bounded : ∀ s, -2 ^ 31 ≤ offset s ∧ offset s < 2 ^ 31

theorem parse_stages (zone : Zone) {str : List UInt8} {form : IsoText} {rest : List UInt8}
    (reads : Reads str form rest)
    : dateParseIsoStr zone str
      = parseDesignator zone (long form.year.value) form.date.monthValue form.date.dayValue
          form.time.value (form.designator.text ++ rest) := by
  have text := reads.text
  simp only [IsoText.text, List.append_assoc] at text
  have length : ¬str.length < 4 := by
    have digits := reads.digits
    rw [text, List.length_append, Dates.YearText.text, List.length_append, List.length_map]
    omega
  have nonzero : ¬(long form.year.value = 0 ∧ form.year.sign = some true) :=
    fun both => reads.zero both.symm
  have year := parseYear_text form.year reads.digits reads.year
  rw [if_neg nonzero, ← text] at year
  simp [dateParseIsoStr, length, year, parseDate_text _ reads.date, parseTime_text _ reads.time]

theorem reads_of_parse {zone : Zone} {str : List UInt8} {t : Int}
    (parsed : dateParseIsoStr zone str = some t) : ∃ form rest, Reads str form rest := by
  unfold dateParseIsoStr at parsed
  split at parsed
  · cases parsed
  · obtain ⟨⟨y, behind⟩, years, parsed⟩ := Option.bind_eq_some_iff.mp parsed
    obtain ⟨⟨⟨m, d⟩, behind'⟩, dates, parsed⟩ := Option.bind_eq_some_iff.mp parsed
    obtain ⟨⟨time, behind''⟩, times, -⟩ := Option.bind_eq_some_iff.mp parsed
    obtain ⟨year, rfl, digits, digitless, zero, -⟩ := parseYear_sound years
    obtain ⟨date, rfl, dateEnds, -⟩ := parseDate_sound dates
    obtain ⟨time', rfl, timeEnds, -⟩ := parseTime_sound times
    obtain ⟨designator, rest, rfl, ends⟩ := designator_split behind''
    exact ⟨⟨year, date, time', designator⟩, rest, by simp [IsoText.text], digits, digitless,
      dateEnds, timeEnds, ends, zero⟩

theorem DateText.value_bounds (date : DateText)
    : (0 ≤ date.monthValue ∧ date.monthValue ≤ 99) ∧ 0 ≤ date.dayValue ∧ date.dayValue ≤ 99 := by
  have one : (0 : Int) ≤ 1 ∧ (1 : Int) ≤ 99 := by decide
  cases date with
  | toYear => exact ⟨one, one⟩
  | toMonth month => exact ⟨TwoDigits.value_bounds month, one⟩
  | toDay month day => exact ⟨TwoDigits.value_bounds month, TwoDigits.value_bounds day⟩

theorem digitsValue_three {digits : List (Fin 10)} (three : digits.length = 3)
    : digitsValue digits ≤ 999 := by
  obtain ⟨a, b, c, rfl⟩ := List.length_eq_three.mp three
  have := a.isLt
  have := b.isLt
  have := c.isLt
  simp [digitsValue]
  omega

theorem TimeText.value_bounds (time : TimeText)
    : (0 ≤ time.value.hour ∧ time.value.hour ≤ 99) ∧ (0 ≤ time.value.minute ∧ time.value.minute ≤ 99)
      ∧ (0 ≤ time.value.second ∧ time.value.second ≤ 99)
      ∧ 0 ≤ time.value.millis ∧ time.value.millis ≤ 999 := by
  have two := TwoDigits.value_bounds
  have zero : (0 : Int) ≤ 0 ∧ (0 : Int) ≤ 99 := by decide
  have none : (0 : Int) ≤ 0 ∧ (0 : Int) ≤ 999 := by decide
  cases time with
  | absent => exact ⟨zero, zero, zero, none⟩
  | toHour _ hour => exact ⟨two hour, zero, zero, none⟩
  | toMinute _ hour minute => exact ⟨two hour, two minute, zero, none⟩
  | toSecond _ hour minute second => exact ⟨two hour, two minute, two second, none⟩
  | toFraction _ hour minute second digits =>
      refine ⟨two hour, two minute, two second, Int.natCast_nonneg _, ?_⟩
      have bound : thousandths digits ≤ 999 := digitsValue_three (by simp)
      exact Int.ofNat_le.mpr bound

theorem Designator.offset_bounds {designator : Designator} {rest : List UInt8}
    (ends : designator.Ends rest)
    : -2 ^ 30 ≤ designator.offsetMs ∧ designator.offsetMs ≤ 2 ^ 30 := by
  cases designator with
  | absent => decide
  | utc => decide
  | offset negative hour colon minute =>
      have hours := digitsValue_two ends.2.1.1
      have minutes := digitsValue_two ends.2.2.2.1
      cases negative with
      | true =>
          simp only [Dates.Designator.offsetMs, if_true]
          omega
      | false =>
          simp only [Dates.Designator.offsetMs, Bool.false_eq_true, if_false]
          omega

/-- A time that is out of range by more than every offset. -/
def Apart (t : Int) : Prop := t < -2 ^ 60 ∨ 2 ^ 60 < t

/-- The time of the fields as the source computes it. -/
def codeMs (form : IsoText) : Int :=
  dateUtcToMs (long form.year.value) (form.date.monthValue - 1) form.date.dayValue
    form.time.value.hour form.time.value.minute form.time.value.second form.time.value.millis

theorem codeMs_cut (form : IsoText)
    : codeMs form = form.cutMs ∨ Apart (codeMs form) ∧ Apart form.cutMs := by
  obtain ⟨month, day⟩ := DateText.value_bounds form.date
  obtain ⟨hour, minute, second, millis⟩ := TimeText.value_bounds form.time
  rcases (epochDay_cut (long_isLong _) (by omega) (by omega) day.1 day.2 :
    epochDay (long form.year.value) (form.date.monthValue - 1) form.date.dayValue = _ ∨ _) with
    same | ⟨far, far'⟩
  · exact .inl (by rw [codeMs, dateUtcToMs, same, IsoText.cutMs])
  · refine .inr ?_
    unfold Far at far far'
    unfold Apart codeMs IsoText.cutMs dateUtcToMs makeDate makeTime
    omega

theorem clip_apart {t e : Int} (apart : Apart t) (low : -2 ^ 50 ≤ e) (high : e ≤ 2 ^ 50)
    : dateTimeClip (t - e) = none := by
  unfold Apart at apart
  rw [dateTimeClip, maxTime, if_pos (by omega)]

/-- A string is parsed to the time of the form that it starts with. -/
theorem parse_of_reads (z : HostZone) {str : List UInt8} {form : IsoText} {rest : List UInt8}
    (reads : Reads str form rest)
    : dateParseIsoStr z.offset str
      = dateTimeClip (form.cutMs - form.hostMs z.offset - form.designator.offsetMs) := by
  have offset := Designator.offset_bounds reads.designator
  rw [parse_stages z.offset reads, parseDesignator_text _ _ _ _ _ _ _ reads.designator]
  -- the two ways in which the offset of the host is taken
  have utc : ∀ e, -2 ^ 49 ≤ e → e ≤ 2 ^ 49 →
      dateTimeClip (codeMs form - e) = dateTimeClip (form.cutMs - e) := by
    intro e low high
    rcases codeMs_cut form with same | ⟨apart, apart'⟩
    · rw [same]
    · rw [clip_apart apart (by omega) (by omega), clip_apart apart' (by omega) (by omega)]
  have host : ∀ e, -2 ^ 49 ≤ e → e ≤ 2 ^ 49 →
      dateTimeClip (codeMs form - z.offset ((codeMs form).tdiv 1000) * 1000 - e)
        = dateTimeClip (form.cutMs - z.offset (form.cutMs.tdiv 1000) * 1000 - e) := by
    intro e low high
    rcases codeMs_cut form with same | ⟨apart, apart'⟩
    · rw [same]
    · have bound := z.bounded ((codeMs form).tdiv 1000)
      have bound' := z.bounded (form.cutMs.tdiv 1000)
      rw [Int.sub_sub, Int.sub_sub, clip_apart apart (by omega) (by omega),
        clip_apart apart' (by omega) (by omega)]
  have none : dateTimeClip (codeMs form) = dateTimeClip form.cutMs := by
    simpa using utc 0 (by decide) (by decide)
  have bare := host 0 (by decide) (by decide)
  rw [Int.sub_zero] at bare
  have explicit := host form.designator.offsetMs (by omega) (by omega)
  unfold IsoText.hostMs
  generalize is : form.designator = designator at explicit ⊢
  cases designator with
  | utc =>
      change dateTimeClip (codeMs form) = dateTimeClip (form.cutMs - 0 - 0)
      rw [Int.sub_zero, Int.sub_zero, none]
  | offset => exact explicit
  | absent =>
      by_cases time : form.time.value.hasTimePart = true
      · simp only [if_pos time]
        exact bare
      · simp only [if_neg time]
        change dateTimeClip (codeMs form) = dateTimeClip (form.cutMs - 0 - 0)
        rw [Int.sub_zero, Int.sub_zero, none]

-----------------------------------------------------------------------------------------
-- Supported forms
-----------------------------------------------------------------------------------------

/-- A text starts, if it does at all, with one of the characters. -/
def StartsIn (chars : List UInt8) (text : List UInt8) : Prop := ∀ c ∈ text.head?, c ∈ chars

theorem StartsIn.digitless {chars text : List UInt8} (starts : StartsIn chars text)
    (others : ∀ c ∈ chars, isDigit c = false) : Digitless text :=
  fun c first => others c (starts c first)

theorem StartsIn.lacks {chars text : List UInt8} (starts : StartsIn chars text) {c : UInt8}
    (other : c ∉ chars) : Lacks c text :=
  fun first => other (starts c first)

theorem designator_starts (designator : Designator)
    : StartsIn [0x5A, 0x2B, 0x2D] (designator.text ++ []) := by
  cases designator with
  | absent => exact nofun
  | utc =>
      rintro c ⟨⟩
      decide
  | offset negative hour colon minute =>
      cases negative <;>
        · rintro c ⟨⟩
          decide

/-- A designator stands behind a time only. -/
def TimedDesignator (form : IsoText) : Prop :=
  form.Explicit → form.time.value.hasTimePart = true

theorem time_starts {form : IsoText} (timed : TimedDesignator form)
    : StartsIn [0x54, 0x20] (form.time.text ++ (form.designator.text ++ [])) := by
  unfold TimedDesignator at timed
  generalize form.time = time at timed ⊢
  cases time with
  | absent =>
      have none : form.designator.text = [] := by
        by_contra explicit
        exact absurd (timed explicit) (by decide)
      rw [none]
      exact nofun
  | _ space =>
      cases space <;>
        · rintro c ⟨⟩
          decide

theorem date_starts {form : IsoText} (timed : TimedDesignator form)
    : StartsIn [0x2D, 0x54, 0x20]
        (form.date.text ++ (form.time.text ++ (form.designator.text ++ []))) := by
  have times := time_starts timed
  cases form.date with
  | toYear => exact fun c first => List.mem_cons_of_mem _ (times c first)
  | toMonth month =>
      rintro c ⟨⟩
      decide
  | toDay month day =>
      rintro c ⟨⟩
      decide

theorem designator_complete {designator : Designator} (complete : designator.Complete)
    : designator.Ends [] := by
  cases designator with
  | absent => exact ⟨nofun, nofun⟩
  | utc => trivial
  | offset negative hour colon minute =>
      obtain ⟨⟨hours, -⟩, rfl, minutes, -⟩ := complete
      refine ⟨?_, ⟨by omega, by omega⟩, nofun, ⟨by omega, by omega⟩⟩
      simp [Dates.Designator.text, minuteText, hours, minutes]

/-- The text of a form, where a designator stands behind a time only, starts with nothing but that
form.
-/
theorem text_reads {form : IsoText} (timed : TimedDesignator form)
    (digits : 4 ≤ form.year.digits.length) (ends : form.designator.Ends [])
    (zero : ¬(form.year.sign = some true ∧ long form.year.value = 0))
    : Reads form.text form [] := by
  have dates := date_starts timed
  have times := time_starts timed
  have designators := designator_starts form.designator
  exact {
    text := (List.append_nil _).symm
    digits := digits
    year := dates.digitless (by decide +kernel)
    date := by
      cases form.date with
      | toYear => exact times.lacks (by decide)
      | toMonth => exact ⟨times.lacks (by decide), times.digitless (by decide +kernel)⟩
      | toDay => exact times.digitless (by decide +kernel)
    time := by
      cases is : form.time with
      | absent =>
          exact ⟨designators.lacks (by decide), designators.lacks (by decide)⟩
      | toHour =>
          exact ⟨designators.lacks (by decide), designators.digitless (by decide +kernel)⟩
      | toMinute =>
          exact ⟨designators.lacks (by decide), designators.digitless (by decide +kernel)⟩
      | toSecond =>
          exact ⟨designators.lacks (by decide), designators.digitless (by decide +kernel)⟩
      | toFraction => exact designators.digitless (by decide +kernel)
    designator := ends
    zero := zero }

/-- The day number that a form has by the calendar. -/
def dayNumber (form : IsoText) : Int :=
  makeDay form.year.value (form.date.monthValue - 1) form.date.dayValue

theorem fieldsMs_bounds (form : IsoText)
    : dayNumber form * 86400000 ≤ form.fieldsMs
      ∧ form.fieldsMs ≤ dayNumber form * 86400000 + 2 ^ 30 := by
  obtain ⟨hour, minute, second, millis⟩ := TimeText.value_bounds form.time
  unfold IsoText.fieldsMs makeDate makeTime dayNumber
  omega

/-- A day number of 64 bits is not cut. -/
theorem cutMs_of_isLong {form : IsoText} (fits : IsLong (dayNumber form))
    : form.cutMs = form.fieldsMs ∧ long form.year.value = form.year.value := by
  obtain ⟨month, day⟩ := DateText.value_bounds form.date
  have small : IsLong form.date.dayValue := by
    unfold IsLong
    omega
  obtain ⟨low, high⟩ := makeDay_isLong small fits
  have year : long form.year.value = form.year.value := by
    apply long_of_isLong
    unfold IsLong
    omega
  have whole : long (makeDay form.year.value (form.date.monthValue - 1) form.date.dayValue)
      = makeDay form.year.value (form.date.monthValue - 1) form.date.dayValue :=
    long_of_isLong fits
  refine ⟨?_, year⟩
  rw [IsoText.cutMs, year, whole, IsoText.fieldsMs]

theorem instant_isLong {form : IsoText} {rest : List UInt8} (ends : form.designator.Ends rest)
    (inRange : InRange form.instantMs) : IsLong (dayNumber form) := by
  have offset := Designator.offset_bounds ends
  have bounds := fieldsMs_bounds form
  unfold InRange maxTime IsoText.instantMs at inRange
  unfold IsLong
  omega

theorem digitsValue_bound (digits : List (Fin 10)) : digitsValue digits < 10 ^ digits.length := by
  induction digits using List.reverseRecOn with
  | nil => decide
  | append_singleton digits digit ih =>
      have small := digit.isLt
      rw [digitsValue_snoc, List.length_append, List.length_singleton, Nat.pow_succ]
      omega

theorem value_natAbs (year : YearText) : year.value.natAbs = digitsValue year.digits := by
  unfold Dates.YearText.value
  split <;> omega

/-- A supported year has at least four digits, at most six, and is not minus zero. -/
theorem year_bounds {year : YearText} (supported : year.Supported)
    : 4 ≤ year.digits.length ∧ year.value.natAbs < 10 ^ 6
      ∧ ¬(year.sign = some true ∧ year.value = 0) := by
  have bound := digitsValue_bound year.digits
  have magnitude := value_natAbs year
  unfold Dates.YearText.Supported at supported
  cases sign : year.sign with
  | none =>
      simp only [sign] at supported
      rw [supported] at bound
      exact ⟨supported.ge, by omega, by simp⟩
  | some negative =>
      simp only [sign] at supported
      obtain ⟨six, nonzero⟩ := supported
      rw [six] at bound
      refine ⟨by omega, by omega, ?_⟩
      rintro ⟨minus, zero⟩
      exact nonzero ⟨Option.some.inj minus, by omega⟩

/-- A supported form has a day number of 64 bits. -/
theorem supported_isLong {form : IsoText} (supported : form.Supported)
    : IsLong (dayNumber form) := by
  obtain ⟨-, small, -⟩ := year_bounds supported.year
  have within := makeDay_year supported.date
  unfold dayFromYear at within
  unfold IsLong dayNumber
  omega

/-- A string of a supported form starts with nothing but that form. -/
theorem supported_reads {form : IsoText} (supported : form.Supported)
    : Reads form.text form [] := by
  obtain ⟨digits, -, zero⟩ := year_bounds supported.year
  have year := (cutMs_of_isLong (supported_isLong supported)).2
  exact text_reads supported.timed digits (designator_complete supported.designator)
    (year.symm ▸ zero)

/-- A string of a supported form is parsed to its instant less the offset of the host. -/
theorem parse_supported (z : HostZone) {form : IsoText} (supported : form.Supported)
    : dateParseIsoStr z.offset form.text
      = dateTimeClip (form.instantMs - form.hostMs z.offset) := by
  rw [parse_of_reads z (supported_reads supported),
    (cutMs_of_isLong (supported_isLong supported)).1, IsoText.instantMs]
  congr 1
  omega

theorem clip_inRange {t : Int} (inRange : InRange t) : dateTimeClip t = some t :=
  if_neg (Nat.not_lt.mpr inRange)

theorem clip_outside {t : Int} (outside : ¬InRange t) : dateTimeClip t = none :=
  if_pos (Nat.lt_of_not_le outside)

/-- Two times are clipped to one value if they are the same or both out of range. -/
theorem clip_eq_iff (t t' : Int)
    : dateTimeClip t = dateTimeClip t' ↔ t = t' ∨ (¬InRange t ∧ ¬InRange t') := by
  constructor
  · intro same
    by_cases inRange : InRange t
    · rw [clip_inRange inRange, dateTimeClip] at same
      split at same
      · cases same
      · exact .inl (Option.some.inj same)
    · rw [clip_outside inRange, dateTimeClip] at same
      split at same
      · rename_i outside
        exact .inr ⟨inRange, Nat.not_le.mpr outside⟩
      · cases same
  · rintro (rfl | ⟨outside, outside'⟩)
    · rfl
    · rw [clip_outside outside, clip_outside outside']

-----------------------------------------------------------------------------------------
-- Strict parsing
-----------------------------------------------------------------------------------------

/-- A string of a supported form with an explicit designator is parsed to its instant, and one of no
supported form to NaN.
-/
structure StringHolds (zone : Zone) (str : List UInt8) : Prop where
  explicit : ∀ form : IsoText, form.Supported → form.Explicit → str = form.text →
    dateParseIsoStr zone str = dateTimeClip form.instantMs
  strict : (∀ form : IsoText, form.Supported → str ≠ form.text) → dateParseIsoStr zone str = none

/-- The host has no offset at the fields of a string of a supported form with an offset, or they are
out of range with it and without it. A string that goes on behind the form it starts with, or whose
form is not supported, has its fields out of range.
-/
structure StringFits (zone : Zone) (str : List UInt8) : Prop where
  explicit : ∀ form : IsoText, form.Supported → form.Explicit → str = form.text →
    form.hostMs zone = 0
      ∨ (¬InRange (form.instantMs - form.hostMs zone) ∧ ¬InRange form.instantMs)
  strict : ∀ form rest, Reads str form rest → rest ≠ [] ∨ ¬form.Supported → ¬form.Within zone

/-- What a string starts with is the whole of it and supported, or else the string is of no
supported form.
-/
theorem reads_supported {str : List UInt8} {form : IsoText} {rest : List UInt8}
    (reads : Reads str form rest) (other : rest ≠ [] ∨ ¬form.Supported)
    : ∀ form' : IsoText, form'.Supported → str ≠ form'.text := by
  rintro form' supported rfl
  obtain ⟨rfl, rfl⟩ := reads_unique reads (supported_reads supported)
  rcases other with more | unsupported
  · exact more rfl
  · exact unsupported supported

theorem stringHolds_iff (z : HostZone) (str : List UInt8)
    : StringHolds z.offset str ↔ StringFits z.offset str := by
  constructor
  · intro holds
    constructor
    · rintro form supported explicit rfl
      have instant := holds.explicit form supported explicit rfl
      rw [parse_supported z supported] at instant
      rcases (clip_eq_iff _ _).mp instant with same | outside
      · exact .inl (by omega)
      · exact .inr outside
    · intro form rest reads other within
      have none := holds.strict (reads_supported reads other)
      rw [parse_of_reads z reads, clip_inRange within] at none
      cases none
  · intro fits
    constructor
    · rintro form supported explicit rfl
      rw [parse_supported z supported]
      refine (clip_eq_iff _ _).mpr ?_
      rcases fits.explicit form supported explicit rfl with host | outside
      · exact .inl (by omega)
      · exact .inr outside
    · intro unsupported
      by_contra accepted
      obtain ⟨t, parsed⟩ := Option.ne_none_iff_exists'.mp accepted
      obtain ⟨form, rest, reads⟩ := reads_of_parse parsed
      have other : rest ≠ [] ∨ ¬form.Supported := by
        by_contra whole
        obtain ⟨nothing, supported⟩ := not_or.mp whole
        refine unsupported form (not_not.mp supported) ?_
        rw [reads.text, not_not.mp nothing, List.append_nil]
      rw [parse_of_reads z reads, clip_outside (fits.strict form rest reads other)] at parsed
      cases parsed

end Boomkat.Correctness
