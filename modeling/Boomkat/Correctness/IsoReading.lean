import Boomkat.Correctness.Calendar
import Boomkat.Correctness.JsonTokens
import Boomkat.Dates.IsoGrammar

/-! The parser of date strings consumes a form, each part as far as it goes. -/

namespace Boomkat.Correctness

open Dates Json Calendar

-----------------------------------------------------------------------------------------
-- Digits
-----------------------------------------------------------------------------------------

/-- One more digit behind a number. -/
theorem digitsValue_snoc (digits : List (Fin 10)) (digit : Fin 10)
    : digitsValue (digits ++ [digit]) = 10 * digitsValue digits + digit.val := by
  rw [digitsValue, digitsValue, List.foldl_append]
  rfl

/-- The scanner computes the value of the digits, in 64 bits. -/
theorem readDigits_digits (digits : List (Fin 10))
    : readDigits (digits.map digitChar) = long (digitsValue digits) := by
  have step : ∀ (n : Nat) (digit : Fin 10),
      long (long n * 10 + (((digitChar digit).toNat : Int) - 0x30))
        = long ((10 * n + digit.val : Nat) : Int) := by
    intro n digit
    have value : ∀ digit : Fin 10, ((digitChar digit).toNat : Int) - 0x30 = digit.val := by decide
    rw [value digit]
    unfold long
    omega
  have loop : ∀ (digits : List (Fin 10)) (n : Nat),
      (digits.map digitChar).foldl
          (fun (n : Int) (c : UInt8) => long (n * 10 + ((c.toNat : Int) - 0x30))) (long n)
        = long ((digits.foldl (fun n (digit : Fin 10) => 10 * n + digit.val) n : Nat) : Int) := by
    intro digits
    induction digits with
    | nil =>
        intro n
        rw [List.map_nil, List.foldl_nil, List.foldl_nil]
    | cons digit digits ih =>
        intro n
        rw [List.map_cons, List.foldl_cons, List.foldl_cons, step, ih]
  have zero : long ((0 : Nat) : Int) = 0 := by
    unfold long
    omega
  have whole := loop digits 0
  rw [zero] at whole
  rw [readDigits, digitsValue, whole]

/-- The digits that a text starts with. -/
theorem takeWhile_digits (digits : List (Fin 10)) {rest : List UInt8} (ends : Digitless rest)
    : (digits.map digitChar ++ rest).takeWhile isDigit = digits.map digitChar := by
  induction digits with
  | nil =>
      cases rest with
      | nil => rfl
      | cons c tail =>
          have other : isDigit c = false := ends c rfl
          simp [other]
  | cons digit digits ih => simp [isDigit_digitChar, ih]

/-- A text is its leading digits and the rest. -/
theorem digits_split (src : List UInt8)
    : ∃ (digits : List (Fin 10)) (rest : List UInt8),
        src = digits.map digitChar ++ rest ∧ Digitless rest := by
  obtain ⟨digits, is⟩ := digits_sound src
  refine ⟨digits, src.dropWhile isDigit, is, ?_⟩
  intro c first
  have not := List.head?_dropWhile_not isDigit src
  rw [Option.mem_def.mp first] at not
  simpa using not

theorem digitChar_injective : Function.Injective digitChar := by
  intro a b
  revert a b
  decide

/-- A text starts with one run of digits only. -/
theorem digits_unique {digits digits' : List (Fin 10)} {rest rest' : List UInt8}
    (same : digits.map digitChar ++ rest = digits'.map digitChar ++ rest') (ends : Digitless rest)
    (ends' : Digitless rest') : digits = digits' ∧ rest = rest' := by
  have left := takeWhile_digits digits ends
  rw [same, takeWhile_digits digits' ends'] at left
  have equal : digits' = digits := (List.map_injective_iff.mpr digitChar_injective) left
  subst equal
  exact ⟨rfl, List.append_cancel_left same⟩

/-- The digits that are read where there is room for `k` of them. -/
theorem take_digits {k : Nat} {digits : List (Fin 10)} {rest : List UInt8}
    (room : digits.length ≤ k) (ends : digits.length < k → Digitless rest)
    : ((digits.map digitChar ++ rest).take k).takeWhile isDigit = digits.map digitChar := by
  rw [List.take_append, List.length_map, List.take_of_length_le (by simpa using room)]
  apply takeWhile_digits
  by_cases full : digits.length = k
  · rw [full, Nat.sub_self]
    exact fun c first => nomatch first
  · intro c first
    have more : 0 < k - digits.length := by omega
    rw [List.head?_take, if_neg (by omega)] at first
    exact ends (by omega) c first

-----------------------------------------------------------------------------------------
-- Parts
-----------------------------------------------------------------------------------------

/-- Two digits and their value. -/
theorem two_digits (n : TwoDigits)
    : n.text = [n.tens, n.ones].map digitChar ∧ (digitsValue [n.tens, n.ones] : Int) = n.value := by
  refine ⟨rfl, ?_⟩
  change ((10 * (10 * 0 + n.tens.val) + n.ones.val : Nat) : Int)
    = 10 * (n.tens.val : Int) + n.ones.val
  omega

theorem TwoDigits.value_bounds (n : TwoDigits) : 0 ≤ n.value ∧ n.value ≤ 99 := by
  have tens := n.tens.isLt
  have ones := n.ones.isLt
  unfold Dates.TwoDigits.value
  omega

theorem long_small {n : Int} (low : 0 ≤ n) (high : n ≤ 1000) : long n = n := by
  unfold long
  omega

/-- Two digits that no third one follows are read. -/
theorem parseTwo_text (n : TwoDigits) {rest : List UInt8} (ends : Digitless rest)
    : parseTwo (n.text ++ rest) = some (n.value, rest) := by
  obtain ⟨text, value⟩ := two_digits n
  obtain ⟨low, high⟩ := TwoDigits.value_bounds n
  rw [parseTwo, text, takeWhile_digits _ ends, dropWhile_digits _ ends, readDigits_digits, value,
    long_small low (by omega)]
  rfl

/-- What is read as two digits is two digits, and no third one follows. -/
theorem parseTwo_sound {src rest : List UInt8} {v : Int} (parsed : parseTwo src = some (v, rest))
    : ∃ n : TwoDigits, src = n.text ++ rest ∧ v = n.value ∧ Digitless rest := by
  obtain ⟨digits, behind, rfl, ends⟩ := digits_split src
  rw [parseTwo, takeWhile_digits _ ends, dropWhile_digits _ ends, readDigits_digits] at parsed
  split at parsed
  · rename_i two
    rw [List.length_map] at two
    obtain ⟨tens, ones, rfl⟩ := List.length_eq_two.mp two
    obtain ⟨rfl, rfl⟩ := Prod.mk.inj (Option.some.inj parsed)
    obtain ⟨low, high⟩ := TwoDigits.value_bounds ⟨tens, ones⟩
    refine ⟨⟨tens, ones⟩, rfl, ?_, ends⟩
    rw [(two_digits ⟨tens, ones⟩).2, long_small low (by omega)]
  · cases parsed

/-- The fallback branch of a match on a character. -/
theorem lacks_of_other {c : UInt8} {rest : List UInt8} (other : ∀ tail, rest = c :: tail → False)
    : Lacks c rest := by
  intro first
  obtain ⟨tail, is⟩ := List.head?_eq_some_iff.mp first
  exact other tail is

theorem digitless_cons {c : UInt8} (rest : List UInt8) (other : isDigit c = false)
    : Digitless (c :: rest) := by
  rintro c' ⟨⟩
  exact other

/-- Without a hyphen the day is 1. -/
theorem parseDay_lacks (month : Int) {src : List UInt8} (lacks : Lacks 0x2D src)
    : parseDay month src = some ((month, 1), src) := by
  unfold parseDay
  split
  · exact absurd rfl lacks
  · rfl

/-- Month and day are read as far as they are there. -/
theorem parseDate_text (date : DateText) {rest : List UInt8} (ends : date.Ends rest)
    : parseDate (date.text ++ rest) = some ((date.monthValue, date.dayValue), rest) := by
  cases date with
  | toYear =>
      change parseDate rest = some ((1, 1), rest)
      unfold parseDate
      split
      · exact absurd rfl ends
      · rfl
  | toMonth month =>
      change parseDate (0x2D :: (month.text ++ rest)) = some ((month.value, 1), rest)
      rw [parseDate, parseTwo_text month ends.2]
      exact parseDay_lacks _ ends.1
  | toDay month day =>
      have text : (DateText.toDay month day).text ++ rest
          = 0x2D :: (month.text ++ 0x2D :: (day.text ++ rest)) := by
        simp [DateText.text]
      rw [text, parseDate, parseTwo_text month (digitless_cons _ rfl)]
      change parseDay month.value (0x2D :: (day.text ++ rest)) = _
      rw [parseDay, parseTwo_text day ends]
      rfl

/-- What is read as month and day is the text of such. -/
theorem parseDate_sound {src rest : List UInt8} {fields : Int × Int}
    (parsed : parseDate src = some (fields, rest))
    : ∃ date : DateText, src = date.text ++ rest ∧ date.Ends rest
      ∧ fields = (date.monthValue, date.dayValue) := by
  unfold parseDate at parsed
  split at parsed
  · rename_i behind
    obtain ⟨⟨month, mid⟩, two, parsed⟩ := Option.bind_eq_some_iff.mp parsed
    obtain ⟨m, rfl, rfl, ends⟩ := parseTwo_sound two
    dsimp only at parsed
    unfold parseDay at parsed
    split at parsed
    · obtain ⟨⟨day, last⟩, two', is⟩ := Option.map_eq_some_iff.mp parsed
      obtain ⟨d, rfl, rfl, ends'⟩ := parseTwo_sound two'
      obtain ⟨rfl, rfl⟩ := Prod.mk.inj is
      exact ⟨.toDay m d, by simp [DateText.text], ends', rfl⟩
    · rename_i other
      obtain ⟨rfl, rfl⟩ := Prod.mk.inj (Option.some.inj parsed)
      exact ⟨.toMonth m, rfl, ⟨lacks_of_other other, ends⟩, rfl⟩
  · rename_i other
    obtain ⟨rfl, rfl⟩ := Prod.mk.inj (Option.some.inj parsed)
    exact ⟨.toYear, rfl, lacks_of_other other, rfl⟩

-----------------------------------------------------------------------------------------
-- Times
-----------------------------------------------------------------------------------------

/-- Of a fraction the first three digits count. -/
theorem fraction_digits (digits : List (Fin 10)) {rest : List UInt8} (ends : Digitless rest)
    : ((digits.map digitChar ++ rest).take 3).takeWhile isDigit
      = (digits.take 3).map digitChar := by
  have parts : digits.map digitChar ++ rest
      = (digits.take 3).map digitChar ++ ((digits.drop 3).map digitChar ++ rest) := by
    rw [← List.append_assoc, ← List.map_append, List.take_append_drop]
  rw [parts]
  apply take_digits (List.length_take_le 3 digits)
  intro short
  have none : digits.drop 3 = [] := by
    rw [List.length_take] at short
    exact List.drop_eq_nil_of_le (by omega)
  rw [none]
  exact ends

/-- They are filled up to thousandths. -/
theorem thousandths_eq (digits : List (Fin 10))
    : long (digitsValue (digits.take 3)) * 10 ^ (3 - ((digits.take 3).map digitChar).length)
      = (thousandths digits : Int) := by
  unfold thousandths digitsValue
  match digits with
  | [] => rfl
  | [a] =>
      have := a.isLt
      simp [long]
      omega
  | [a, b] =>
      have := a.isLt
      have := b.isLt
      simp [long]
      omega
  | a :: b :: c :: _ =>
      have := a.isLt
      have := b.isLt
      have := c.isLt
      simp [long]
      omega

/-- A fraction is read, with all its digits. -/
theorem parseFraction_digits (hour minute second : Int) (digits : List (Fin 10))
    {rest : List UInt8} (ends : Digitless rest)
    : parseFraction hour minute second (0x2E :: (digits.map digitChar ++ rest))
      = (⟨hour, minute, second, thousandths digits, true⟩, rest) := by
  rw [parseFraction, fraction_digits digits ends, readDigits_digits, thousandths_eq,
    dropWhile_digits _ ends]

/-- A time starts behind a `T` or a space. -/
theorem parseTime_sign (space : Bool) (src : List UInt8)
    : parseTime (timeSign space :: src)
      = (parseTwo src).bind fun (hour, rest) => parseMinute hour rest := by
  cases space <;> rfl

theorem parseFraction_lacks (hour minute second : Int) {src : List UInt8} (lacks : Lacks 0x2E src)
    : parseFraction hour minute second src = (⟨hour, minute, second, 0, true⟩, src) := by
  unfold parseFraction
  split
  · exact absurd rfl lacks
  · rfl

theorem parseSecond_lacks (hour minute : Int) {src : List UInt8} (lacks : Lacks 0x3A src)
    : parseSecond hour minute src = some (⟨hour, minute, 0, 0, true⟩, src) := by
  unfold parseSecond
  split
  · exact absurd rfl lacks
  · rfl

theorem parseMinute_lacks (hour : Int) {src : List UInt8} (lacks : Lacks 0x3A src)
    : parseMinute hour src = some (⟨hour, 0, 0, 0, true⟩, src) := by
  unfold parseMinute
  split
  · exact absurd rfl lacks
  · rfl

/-- Minutes behind a colon lead to the seconds. -/
theorem parseMinute_text (hour : Int) (minute : TwoDigits) {rest : List UInt8}
    (ends : Digitless rest)
    : parseMinute hour (0x3A :: (minute.text ++ rest)) = parseSecond hour minute.value rest := by
  rw [parseMinute, parseTwo_text minute ends]
  rfl

/-- Seconds behind a colon lead to the fraction. -/
theorem parseSecond_text (hour minute : Int) (second : TwoDigits) {rest : List UInt8}
    (ends : Digitless rest)
    : parseSecond hour minute (0x3A :: (second.text ++ rest))
      = some (parseFraction hour minute second.value rest) := by
  rw [parseSecond, parseTwo_text second ends]
  rfl

theorem parseTime_hour (space : Bool) (hour : TwoDigits) {rest : List UInt8}
    (ends : Digitless rest)
    : parseTime (timeSign space :: (hour.text ++ rest)) = parseMinute hour.value rest := by
  rw [parseTime_sign, parseTwo_text hour ends]
  rfl

/-- A time in each of its forms is read. -/
theorem parseTime_text (time : TimeText) {rest : List UInt8} (ends : time.Ends rest)
    : parseTime (time.text ++ rest) = some (time.value, rest) := by
  cases time with
  | absent =>
      change parseTime rest = some (⟨0, 0, 0, 0, false⟩, rest)
      unfold parseTime
      split
      · exact absurd rfl ends.1
      · exact absurd rfl ends.2
      · rfl
  | toHour space hour =>
      change parseTime (timeSign space :: (hour.text ++ rest)) = _
      rw [parseTime_hour space hour ends.2]
      exact parseMinute_lacks _ ends.1
  | toMinute space hour minute =>
      have text : (TimeText.toMinute space hour minute).text ++ rest
          = timeSign space :: (hour.text ++ 0x3A :: (minute.text ++ rest)) := by
        simp [TimeText.text]
      rw [text, parseTime_hour space hour (digitless_cons _ rfl), parseMinute_text _ _ ends.2]
      exact parseSecond_lacks _ _ ends.1
  | toSecond space hour minute second =>
      have text : (TimeText.toSecond space hour minute second).text ++ rest
          = timeSign space :: (hour.text ++ 0x3A :: (minute.text
            ++ 0x3A :: (second.text ++ rest))) := by
        simp [TimeText.text]
      rw [text, parseTime_hour space hour (digitless_cons _ rfl),
        parseMinute_text _ _ (digitless_cons _ rfl), parseSecond_text _ _ _ ends.2]
      exact congrArg some (parseFraction_lacks _ _ _ ends.1)
  | toFraction space hour minute second digits =>
      have text : (TimeText.toFraction space hour minute second digits).text ++ rest
          = timeSign space :: (hour.text ++ 0x3A :: (minute.text
            ++ 0x3A :: (second.text ++ 0x2E :: (digits.map digitChar ++ rest)))) := by
        simp [TimeText.text]
      rw [text, parseTime_hour space hour (digitless_cons _ rfl),
        parseMinute_text _ _ (digitless_cons _ rfl), parseSecond_text _ _ _ (digitless_cons _ rfl)]
      exact congrArg some (parseFraction_digits _ _ _ digits ends)

/-- Behind the second: nothing, or a fraction. -/
theorem parseFraction_sound {hour minute second : Int} {src rest : List UInt8} {time : TimePart}
    (parsed : parseFraction hour minute second src = (time, rest)) (ends : Digitless src)
    : (src = rest ∧ Lacks 0x2E rest ∧ Digitless rest ∧ time = ⟨hour, minute, second, 0, true⟩)
      ∨ ∃ digits : List (Fin 10), src = 0x2E :: (digits.map digitChar ++ rest) ∧ Digitless rest
        ∧ time = ⟨hour, minute, second, thousandths digits, true⟩ := by
  by_cases point : src.head? = some 0x2E
  · obtain ⟨tail, rfl⟩ := List.head?_eq_some_iff.mp point
    obtain ⟨digits, behind, rfl, ends'⟩ := digits_split tail
    rw [parseFraction_digits _ _ _ _ ends'] at parsed
    obtain ⟨rfl, rfl⟩ := Prod.mk.inj parsed
    exact .inr ⟨digits, rfl, ends', rfl⟩
  · rw [parseFraction_lacks _ _ _ point] at parsed
    obtain ⟨rfl, rfl⟩ := Prod.mk.inj parsed
    exact .inl ⟨rfl, point, ends, rfl⟩

/-- What is read as a time is the text of one: hours, minutes, seconds and a fraction as far as they
were there.
-/
theorem parseTime_sound {src rest : List UInt8} {fields : TimePart}
    (parsed : parseTime src = some (fields, rest))
    : ∃ time : TimeText, src = time.text ++ rest ∧ time.Ends rest ∧ fields = time.value := by
  by_cases sign : ∃ space tail, src = timeSign space :: tail
  · obtain ⟨space, tail, rfl⟩ := sign
    rw [parseTime_sign] at parsed
    obtain ⟨⟨hour, behind⟩, two, parsed⟩ := Option.bind_eq_some_iff.mp parsed
    obtain ⟨h, rfl, rfl, ends⟩ := parseTwo_sound two
    dsimp only at parsed
    by_cases colon : behind.head? = some 0x3A
    · obtain ⟨tail, rfl⟩ := List.head?_eq_some_iff.mp colon
      rw [parseMinute] at parsed
      obtain ⟨⟨minute, behind⟩, two', parsed⟩ := Option.bind_eq_some_iff.mp parsed
      obtain ⟨m, rfl, rfl, ends'⟩ := parseTwo_sound two'
      dsimp only at parsed
      by_cases colon' : behind.head? = some 0x3A
      · obtain ⟨tail, rfl⟩ := List.head?_eq_some_iff.mp colon'
        rw [parseSecond] at parsed
        obtain ⟨⟨second, behind⟩, two'', parsed⟩ := Option.map_eq_some_iff.mp parsed
        obtain ⟨s, rfl, rfl, ends''⟩ := parseTwo_sound two''
        rcases parseFraction_sound parsed ends'' with
          ⟨rfl, lacks, digitless, rfl⟩ | ⟨digits, rfl, digitless, rfl⟩
        · exact ⟨.toSecond space h m s, by simp [TimeText.text], ⟨lacks, digitless⟩, rfl⟩
        · exact ⟨.toFraction space h m s digits, by simp [TimeText.text], digitless, rfl⟩
      · rw [parseSecond_lacks _ _ colon'] at parsed
        obtain ⟨rfl, rfl⟩ := Prod.mk.inj (Option.some.inj parsed)
        exact ⟨.toMinute space h m, by simp [TimeText.text], ⟨colon', ends'⟩, rfl⟩
    · rw [parseMinute_lacks _ colon] at parsed
      obtain ⟨rfl, rfl⟩ := Prod.mk.inj (Option.some.inj parsed)
      exact ⟨.toHour space h, rfl, ⟨colon, ends⟩, rfl⟩
  · have first : ∀ space, Lacks (timeSign space) src := by
      intro space
      exact lacks_of_other fun tail is => sign ⟨space, tail, is⟩
    have absent : parseTime src = some (⟨0, 0, 0, 0, false⟩, src) :=
      parseTime_text .absent ⟨first false, first true⟩
    cases absent.symm.trans parsed
    exact ⟨.absent, rfl, ⟨first false, first true⟩, rfl⟩

-----------------------------------------------------------------------------------------
-- Years
-----------------------------------------------------------------------------------------

/-- The year behind its sign, by whether that is minus. -/
theorem parseYear_digits {str : List UInt8} (negative : Prop) [Decidable negative]
    (minus : str.head? = some 0x2D ↔ negative) {digits : List (Fin 10)} {rest : List UInt8}
    (ends : Digitless rest)
    (src : (if str.head? = some 0x2B ∨ str.head? = some 0x2D then str.tail else str)
      = digits.map digitChar ++ rest)
    : parseYear str
      = if digits.length < 4 then none
        else if long (if negative then -(digitsValue digits : Int) else digitsValue digits) = 0
          ∧ negative then none
        else some (long (if negative then -(digitsValue digits : Int) else digitsValue digits),
          rest) := by
  have negated : ∀ n, long (-long n) = long (-n) := by
    intro n
    unfold long
    omega
  simp only [parseYear, src, takeWhile_digits _ ends, dropWhile_digits _ ends, readDigits_digits,
    List.length_map, negated]
  simp only [minus]
  by_cases sign : negative
  · simp only [if_pos sign]
  · simp only [if_neg sign]

/-- A digit is no sign. -/
theorem digitChar_signless (digit : Fin 10)
    : digitChar digit ≠ 0x2B ∧ digitChar digit ≠ 0x2D := by
  revert digit
  decide

/-- What the parser sees of the sign of a year. -/
theorem YearText.sign_text (year : YearText) (many : 4 ≤ year.digits.length) (rest : List UInt8)
    : let str := year.text ++ rest
      (str.head? = some 0x2D ↔ year.sign = some true)
        ∧ (if str.head? = some 0x2B ∨ str.head? = some 0x2D then str.tail else str)
          = year.digits.map digitChar ++ rest := by
  obtain ⟨sign, digits⟩ := year
  cases sign with
  | none =>
      cases digits with
      | nil => exact absurd many (by simp)
      | cons digit digits =>
          obtain ⟨plus, minus⟩ := digitChar_signless digit
          simp [Dates.YearText.text, plus, minus]
  | some negative => cases negative <;> simp [Dates.YearText.text]

/-- A year of four digits or more is read, but for the year -0. -/
theorem parseYear_text (year : YearText) {rest : List UInt8} (digits : 4 ≤ year.digits.length)
    (ends : Digitless rest)
    : parseYear (year.text ++ rest)
      = if long year.value = 0 ∧ year.sign = some true then none
        else some (long year.value, rest) := by
  obtain ⟨minus, src⟩ := YearText.sign_text year digits rest
  rw [parseYear_digits (year.sign = some true) minus ends src, if_neg (Nat.not_lt.mpr digits)]
  rfl

/-- What is read as a year is the text of one. -/
theorem parseYear_sound {str rest : List UInt8} {y : Int} (parsed : parseYear str = some (y, rest))
    : ∃ year : YearText, str = year.text ++ rest ∧ 4 ≤ year.digits.length ∧ Digitless rest
      ∧ ¬(year.sign = some true ∧ long year.value = 0) ∧ y = long year.value := by
  -- the sign is read off, and the digits behind it make a year of that sign
  obtain ⟨sign, tail, is, behind⟩ : ∃ (sign : Option Bool) (tail : List UInt8),
      (∀ digits behind, tail = digits.map digitChar ++ behind →
        str = (YearText.mk sign digits).text ++ behind)
      ∧ (if str.head? = some 0x2B ∨ str.head? = some 0x2D then str.tail else str) = tail
        ∧ (str.head? = some 0x2D ↔ sign = some true) := by
    by_cases plus : str.head? = some 0x2B
    · obtain ⟨tail, rfl⟩ := List.head?_eq_some_iff.mp plus
      refine ⟨some false, tail, ?_, by simp, by simp⟩
      rintro digits behind rfl
      rfl
    · by_cases minus : str.head? = some 0x2D
      · obtain ⟨tail, rfl⟩ := List.head?_eq_some_iff.mp minus
        refine ⟨some true, tail, ?_, by simp, by simp⟩
        rintro digits behind rfl
        rfl
      · refine ⟨none, str, ?_, by simp [plus, minus], by simp [minus]⟩
        rintro digits behind rfl
        rfl
  obtain ⟨src, minus⟩ := behind
  obtain ⟨digits, last, rfl, ends⟩ := digits_split tail
  rw [parseYear_digits (sign = some true) minus ends src] at parsed
  change (if digits.length < 4 then none
    else if long (YearText.mk sign digits).value = 0 ∧ sign = some true then none
    else some (long (YearText.mk sign digits).value, last)) = some (y, rest) at parsed
  generalize meant : (YearText.mk sign digits).value = value at parsed
  by_cases few : digits.length < 4
  · rw [if_pos few] at parsed
    cases parsed
  · rw [if_neg few] at parsed
    by_cases zero : long value = 0 ∧ sign = some true
    · rw [if_pos zero] at parsed
      cases parsed
    · rw [if_neg zero] at parsed
      obtain ⟨rfl, rfl⟩ := Prod.mk.inj (Option.some.inj parsed)
      subst meant
      exact ⟨⟨sign, digits⟩, is digits last rfl, Nat.not_lt.mp few, ends,
        fun both => zero both.symm, rfl⟩

-----------------------------------------------------------------------------------------
-- Designators
-----------------------------------------------------------------------------------------

/-- At most two digits are read. -/
theorem upToTwo_digits {digits : List (Fin 10)} {rest : List UInt8}
    (ends : AtMostTwo digits rest)
    : upToTwo (digits.map digitChar ++ rest) = (long (digitsValue digits), rest) := by
  rw [upToTwo, take_digits ends.1 ends.2, readDigits_digits]
  simp

/-- A text is at most two leading digits and the rest. -/
theorem upToTwo_split (src : List UInt8)
    : ∃ (digits : List (Fin 10)) (rest : List UInt8),
        src = digits.map digitChar ++ rest ∧ AtMostTwo digits rest := by
  obtain ⟨digits, rest, rfl, ends⟩ := digits_split src
  refine ⟨digits.take 2, (digits.drop 2).map digitChar ++ rest, ?_, List.length_take_le 2 digits, ?_⟩
  · rw [← List.append_assoc, ← List.map_append, List.take_append_drop]
  · intro short
    have none : digits.drop 2 = [] := by
      rw [List.length_take] at short
      exact List.drop_eq_nil_of_le (by omega)
    rw [none]
    exact ends

/-- A text starts with one run of at most two digits only. -/
theorem atMostTwo_unique {digits digits' : List (Fin 10)} {rest rest' : List UInt8}
    (same : digits.map digitChar ++ rest = digits'.map digitChar ++ rest')
    (ends : AtMostTwo digits rest) (ends' : AtMostTwo digits' rest')
    : digits = digits' ∧ rest = rest' := by
  have left := take_digits ends.1 ends.2
  rw [same, take_digits ends'.1 ends'.2] at left
  have equal : digits' = digits := (List.map_injective_iff.mpr digitChar_injective) left
  subst equal
  exact ⟨rfl, List.append_cancel_left same⟩

theorem digitsValue_two {digits : List (Fin 10)} (short : digits.length ≤ 2)
    : digitsValue digits ≤ 99 := by
  match digits, short with
  | [], _ => decide
  | [a], _ =>
      have := a.isLt
      simp [digitsValue]
      omega
  | [a, b], _ =>
      have := a.isLt
      have := b.isLt
      simp [digitsValue]
      omega

/-- The colon of an offset is passed over, and nothing else is. -/
theorem skipColon_minute {colon : Bool} {minute : List (Fin 10)} {rest : List UInt8}
    (lacks : colon = false → Lacks 0x3A (minute.map digitChar ++ rest))
    : skipColon (minuteText colon minute ++ rest) = minute.map digitChar ++ rest := by
  cases colon with
  | true => rfl
  | false =>
      change skipColon (minute.map digitChar ++ rest) = _
      unfold skipColon
      split
      · rename_i behind is
        rw [is] at lacks
        exact absurd rfl (lacks rfl)
      · rfl

/-- The minutes of an offset from its hours and minutes, with or without a colon between them. -/
theorem parseOffset_text {negative colon : Bool} {hour minute : List (Fin 10)} {rest : List UInt8}
    (ends : (Designator.offset negative hour colon minute).Ends rest)
    : parseOffset (hour.map digitChar ++ (minuteText colon minute ++ rest))
      = ((digitsValue hour * 60 + digitsValue minute : Nat) : Int) * 60000 := by
  obtain ⟨-, hours, lacks, minutes⟩ := ends
  have hour' := digitsValue_two hours.1
  have minute' := digitsValue_two minutes.1
  simp only [parseOffset, upToTwo_digits hours, skipColon_minute lacks, upToTwo_digits minutes]
  rw [long_small (by omega) (by omega), long_small (by omega) (by omega)]
  omega

end Boomkat.Correctness
