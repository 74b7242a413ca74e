import Mathlib.Algebra.Group.Nat.Defs
import Mathlib.Tactic.Common

/-! Base64 and hex: texts of sextets or of nibbles, their decoding into bytes up to a capacity, and
the encoding of bytes, which decodes to them.
-/

namespace Boomkat.Base64

-----------------------------------------------------------------------------------------
-- Sextets
-----------------------------------------------------------------------------------------

inductive Alphabet where
  | base64
  | base64url
  deriving DecidableEq

/-- What becomes of a last group of fewer than four characters. -/
inductive LastChunk where
  | loose
  | strict
  | stopBeforePartial
  deriving DecidableEq

/-- ASCII white space. -/
def isSpace (c : Nat) : Bool := c ∈ [0x09, 0x0A, 0x0C, 0x0D, 0x20]

/-- The characters of an alphabet, by their values. -/
def letters (alphabet : Alphabet) : List Nat :=
  (List.range 26).map (0x41 + ·) ++ (List.range 26).map (0x61 + ·) ++ (List.range 10).map (0x30 + ·)
    ++ match alphabet with
      | .base64 => [0x2B, 0x2F]
      | .base64url => [0x2D, 0x5F]

/-- The value of a character. -/
def value (alphabet : Alphabet) (c : Nat) : Option Nat := (letters alphabet).idxOf? c

/-- The character of a value. -/
def letter (alphabet : Alphabet) (v : Nat) : Nat := (letters alphabet).getD v 0

/-- A letter stands for its value. -/
theorem value_letter (alphabet : Alphabet) {v : Nat} (small : v < 64)
    : value alphabet (letter alphabet v) = some v := by
  have each : ∀ v < 64, value alphabet (letter alphabet v) = some v := by
    cases alphabet <;> decide
  exact each v small

/-- A character with a value is neither white space nor padding. -/
theorem value_spec {alphabet : Alphabet} {c v : Nat} (valued : value alphabet c = some v)
    : v < 64 ∧ isSpace c = false ∧ c ≠ 0x3D := by
  rw [value, List.idxOf?_eq_some_iff] at valued
  obtain ⟨inside, is, -⟩ := valued
  have count : (letters alphabet).length = 64 := by cases alphabet <;> rfl
  have visible : ∀ c ∈ letters alphabet, isSpace c = false ∧ c ≠ 0x3D := by
    cases alphabet <;> decide
  refine ⟨by omega, visible c ?_⟩
  rw [← is]
  exact List.getElem_mem inside

/-- The number that sextets spell, the first one foremost. -/
def chunkNumber (chunk : List Nat) : Nat := chunk.foldl (fun n v => 64 * n + v) 0

/-- The three bytes of a number of 24 bits. -/
def threeBytes (n : Nat) : List UInt8 :=
  [UInt8.ofNat (n / 65536), UInt8.ofNat (n / 256), UInt8.ofNat n]

/-- The number of a group that is filled up with zeros. -/
def filledNumber (chunk : List Nat) : Nat := chunkNumber chunk * 64 ^ (4 - chunk.length)

/-- The bytes of a group: one fewer than it has characters. -/
def chunkBytes (chunk : List Nat) : List UInt8 :=
  (threeBytes (filledNumber chunk)).take (chunk.length - 1)

/-- A bit of the group is set that is no part of its bytes. -/
def extraBits (chunk : List Nat) : Bool := (threeBytes (filledNumber chunk)).getD (chunk.length - 1) 0 != 0

theorem length_chunkBytes {chunk : List Nat} (short : chunk.length ≤ 4)
    : (chunkBytes chunk).length = chunk.length - 1 := by
  rw [chunkBytes, List.length_take, threeBytes]
  simp only [List.length_cons, List.length_nil]
  omega

theorem chunkBytes_four (v0 v1 v2 v3 : Nat)
    : chunkBytes [v0, v1, v2, v3] = threeBytes (chunkNumber [v0, v1, v2, v3]) := by
  rw [chunkBytes, filledNumber]
  simp only [List.length_cons, List.length_nil]
  rw [Nat.pow_zero, Nat.mul_one]
  rfl

-----------------------------------------------------------------------------------------
-- Decoding
-----------------------------------------------------------------------------------------

/-- What the decoding of a text comes to: how many characters are read, the bytes, and whether the
text is refused.
-/
@[ext]
structure Decoded where
  read : Nat
  bytes : List UInt8
  error : Bool
  deriving DecidableEq

section
variable (total cap : Nat) (alphabet : Alphabet) (last : LastChunk)

/-- Behind the padding of a group. -/
def afterPadding (rest : List Nat) (read : Nat) (chunk : List Nat) (bytes : List UInt8) : Decoded :=
  if rest ≠ [] then ⟨read, bytes, true⟩
  else if last = .strict ∧ extraBits chunk then ⟨read, bytes, true⟩
  else ⟨total, bytes ++ chunkBytes chunk, false⟩

/-- Behind a first padding character. -/
def decodePadding (rest : List Nat) (read : Nat) (chunk : List Nat) (bytes : List UInt8) : Decoded :=
  if chunk.length < 2 then ⟨read, bytes, true⟩
  else if chunk.length = 2 then
    match rest.dropWhile isSpace with
    | [] => ⟨read, bytes, decide (last ≠ .stopBeforePartial)⟩
    | c :: rest =>
        if c = 0x3D then afterPadding total last (rest.dropWhile isSpace) read chunk bytes
        else afterPadding total last (c :: rest) read chunk bytes
  else afterPadding total last (rest.dropWhile isSpace) read chunk bytes

/-- Decode what is left of a text of `total` characters, within a group and behind bytes. Nothing of
a group is taken that does not fit into the capacity as a whole.
-/
def decodeFrom : List Nat → Nat → List Nat → List UInt8 → Decoded
  | [], read, chunk, bytes =>
      if chunk = [] then ⟨total, bytes, false⟩
      else
        match last with
        | .stopBeforePartial => ⟨read, bytes, false⟩
        | .strict => ⟨read, bytes, true⟩
        | .loose =>
            if chunk.length = 1 then ⟨read, bytes, true⟩
            else ⟨total, bytes ++ chunkBytes chunk, false⟩
  | c :: rest, read, chunk, bytes =>
      if isSpace c then decodeFrom rest read chunk bytes
      else if c = 0x3D then decodePadding total last rest read chunk bytes
      else
        match value alphabet c with
        | none => ⟨read, bytes, true⟩
        | some v =>
            if (cap - bytes.length = 1 ∧ chunk.length = 2)
                ∨ (cap - bytes.length = 2 ∧ chunk.length = 3) then
              ⟨read, bytes, false⟩
            else if chunk.length = 3 then
              if (bytes ++ chunkBytes (chunk ++ [v])).length = cap then
                ⟨total - rest.length, bytes ++ chunkBytes (chunk ++ [v]), false⟩
              else decodeFrom rest (total - rest.length) [] (bytes ++ chunkBytes (chunk ++ [v]))
            else decodeFrom rest read (chunk ++ [v]) bytes

end

section
variable {total cap read : Nat} {alphabet : Alphabet} {last : LastChunk} {rest chunk : List Nat}
  {bytes : List UInt8}

/-- White space is skipped. -/
theorem decodeFrom_skip (rest : List Nat)
    : decodeFrom total cap alphabet last (rest.dropWhile isSpace) read chunk bytes
      = decodeFrom total cap alphabet last rest read chunk bytes := by
  induction rest with
  | nil => rfl
  | cons c rest ih =>
      rw [List.dropWhile_cons]
      split
      case isTrue space => rw [ih, decodeFrom, if_pos space]
      case isFalse => rfl

/-- A character of the alphabet joins a group that it does not complete, as long as there is room. -/
theorem decodeFrom_letter {c v : Nat} (valued : value alphabet c = some v) (few : chunk.length < 3)
    (roomy : bytes.length + 2 ≤ cap)
    : decodeFrom total cap alphabet last (c :: rest) read chunk bytes
      = decodeFrom total cap alphabet last rest read (chunk ++ [v]) bytes := by
  obtain ⟨-, visible, other⟩ := value_spec valued
  rw [decodeFrom, visible, if_neg (by decide), if_neg other, valued]
  dsimp only
  rw [if_neg (by omega), if_neg (by omega)]

/-- Four characters of the alphabet are a complete group. -/
theorem decodeFrom_group {c0 c1 c2 c3 v0 v1 v2 v3 : Nat} (first : value alphabet c0 = some v0)
    (second : value alphabet c1 = some v1) (third : value alphabet c2 = some v2)
    (fourth : value alphabet c3 = some v3) (roomy : bytes.length + 3 ≤ cap)
    : decodeFrom total cap alphabet last (c0 :: c1 :: c2 :: c3 :: rest) read [] bytes
      = if bytes.length + 3 = cap then
          ⟨total - rest.length, bytes ++ chunkBytes [v0, v1, v2, v3], false⟩
        else
          decodeFrom total cap alphabet last rest (total - rest.length) []
            (bytes ++ chunkBytes [v0, v1, v2, v3]) := by
  obtain ⟨-, visible, other⟩ := value_spec fourth
  have full : (bytes ++ chunkBytes [v0, v1, v2, v3]).length = bytes.length + 3 := by
    rw [List.length_append, length_chunkBytes (by simp)]
    rfl
  rw [decodeFrom_letter first (by simp) (by omega), decodeFrom_letter second (by simp) (by omega),
    decodeFrom_letter third (by simp) (by omega), decodeFrom, visible, if_neg (by decide),
    if_neg other, fourth]
  dsimp only [List.nil_append, List.cons_append]
  rw [if_neg (by simp only [List.length_cons, List.length_nil]; omega), if_pos (by rfl)]
  exact if_congr (by rw [full]) rfl rfl

end

/-- Decode a text into at most `cap` bytes. -/
def decode (src : List Nat) (cap : Nat) (alphabet : Alphabet) (last : LastChunk) : Decoded :=
  if cap = 0 then ⟨0, [], false⟩ else decodeFrom src.length cap alphabet last src 0 [] []

-----------------------------------------------------------------------------------------
-- The capacity
-----------------------------------------------------------------------------------------

/-- There is room for the bytes of the group that is being read. -/
structure Room (cap : Nat) (chunk : List Nat) (bytes : List UInt8) : Prop where
  short : chunk.length ≤ 3
  room : bytes.length < cap
  three : chunk.length = 3 → bytes.length + 1 < cap

section
variable {total cap cap' read : Nat} {alphabet : Alphabet} {last : LastChunk} {rest chunk : List Nat}
  {bytes : List UInt8}

theorem Room.partial_le (room : Room cap chunk bytes)
    : (bytes ++ chunkBytes chunk).length ≤ cap := by
  obtain ⟨short, some, three⟩ := room
  rw [List.length_append, length_chunkBytes (by omega)]
  omega

theorem afterPadding_le (room : Room cap chunk bytes)
    : (afterPadding total last rest read chunk bytes).bytes.length ≤ cap := by
  have some := room.room
  rw [afterPadding]
  split_ifs
  · exact Nat.le_of_lt some
  · exact Nat.le_of_lt some
  · exact room.partial_le

theorem decodePadding_le (room : Room cap chunk bytes)
    : (decodePadding total last rest read chunk bytes).bytes.length ≤ cap := by
  have some := room.room
  rw [decodePadding]
  split
  · exact Nat.le_of_lt some
  split
  · split
    · exact Nat.le_of_lt some
    · split
      · exact afterPadding_le room
      · exact afterPadding_le room
  · exact afterPadding_le room

/-- What a character of the alphabet does to the room. -/
theorem Room.next (room : Room cap chunk bytes) (v : Nat)
    (goes : ¬((cap - bytes.length = 1 ∧ chunk.length = 2)
      ∨ (cap - bytes.length = 2 ∧ chunk.length = 3)))
    : (chunk.length ≠ 3 → Room cap (chunk ++ [v]) bytes)
      ∧ (chunk.length = 3 → (bytes ++ chunkBytes (chunk ++ [v])).length ≤ cap
        ∧ ((bytes ++ chunkBytes (chunk ++ [v])).length ≠ cap →
          Room cap [] (bytes ++ chunkBytes (chunk ++ [v])))) := by
  obtain ⟨short, some, three⟩ := room
  have length : (chunkBytes (chunk ++ [v])).length = chunk.length := by
    rw [length_chunkBytes (by rw [List.length_append, List.length_singleton]; omega),
      List.length_append, List.length_singleton, Nat.add_sub_cancel]
  refine ⟨fun more => ⟨?_, some, ?_⟩, fun full => ?_⟩
  · rw [List.length_append, List.length_singleton]
    omega
  · rw [List.length_append, List.length_singleton]
    omega
  · rw [List.length_append, length]
    exact ⟨by omega, fun less => ⟨Nat.zero_le _, by rw [List.length_append, length]; omega, nofun⟩⟩

theorem decodeFrom_le (room : Room cap chunk bytes)
    : (decodeFrom total cap alphabet last rest read chunk bytes).bytes.length ≤ cap := by
  have some := Nat.le_of_lt room.room
  induction rest generalizing read chunk bytes with
  | nil =>
      unfold decodeFrom
      split
      · exact some
      cases last with
      | stopBeforePartial => exact some
      | strict => exact some
      | loose =>
          dsimp only
          split
          · exact some
          · exact room.partial_le
  | cons c rest ih =>
      rw [decodeFrom]
      split
      · exact ih room some
      split
      · exact decodePadding_le room
      split
      · exact some
      case h_2 v _ =>
        split
        · exact some
        case isFalse goes =>
          obtain ⟨more, full⟩ := room.next v goes
          split
          case isTrue three =>
            obtain ⟨fits, room'⟩ := full three
            split
            · exact fits
            case isFalse less => exact ih (room' less) fits
          case isFalse three => exact ih (more three) some

/-- No more bytes are decoded than there is room for. -/
theorem decode_le (src : List Nat) : (decode src cap alphabet last).bytes.length ≤ cap := by
  rw [decode]
  split
  · exact Nat.zero_le _
  · exact decodeFrom_le ⟨Nat.zero_le _, by rw [List.length_nil]; omega, nofun⟩

/-- A text that is refused is refused the same with more room. -/
theorem decodeFrom_refused (more : cap ≤ cap') (room : Room cap chunk bytes)
    (refused : (decodeFrom total cap alphabet last rest read chunk bytes).error = true)
    : decodeFrom total cap' alphabet last rest read chunk bytes
      = decodeFrom total cap alphabet last rest read chunk bytes := by
  induction rest generalizing read chunk bytes with
  | nil => rfl
  | cons c rest ih =>
      rw [decodeFrom] at refused ⊢
      rw [decodeFrom]
      by_cases space : isSpace c = true
      · rw [if_pos space] at refused
        rw [if_pos space, if_pos space]
        exact ih room refused
      rw [if_neg space] at refused
      rw [if_neg space, if_neg space]
      by_cases padding : c = 0x3D
      · rw [if_pos padding, if_pos padding]
      rw [if_neg padding] at refused
      rw [if_neg padding, if_neg padding]
      cases valued : value alphabet c with
      | none => rfl
      | some v =>
          rw [valued] at refused
          dsimp only at refused ⊢
          split at refused
          · cases refused
          case isFalse goes =>
            obtain ⟨further, full⟩ := room.next v goes
            obtain ⟨short, some, three⟩ := room
            rw [if_neg goes, if_neg (by omega)]
            split at refused
            case isTrue complete =>
              obtain ⟨fits, room'⟩ := full complete
              rw [if_pos complete, if_pos complete]
              split at refused
              · cases refused
              case isFalse less =>
                rw [if_neg less, if_neg (by omega)]
                exact ih (room' less) refused
            case isFalse incomplete =>
              rw [if_neg incomplete, if_neg incomplete]
              exact ih (further incomplete) refused

theorem decode_refused {src : List Nat} (more : cap ≤ cap')
    (refused : (decode src cap alphabet last).error = true)
    : decode src cap' alphabet last = decode src cap alphabet last := by
  rw [decode] at refused
  split at refused
  · cases refused
  case isFalse some =>
    rw [decode, decode, if_neg (by omega), if_neg some]
    exact decodeFrom_refused more ⟨Nat.zero_le _, by rw [List.length_nil]; omega, nofun⟩ refused

end

-----------------------------------------------------------------------------------------
-- Encoding
-----------------------------------------------------------------------------------------

/-- The letters of the sextets of a number of 24 bits. -/
def fourLetters (alphabet : Alphabet) (n : Nat) : List Nat :=
  [letter alphabet (n / 262144), letter alphabet (n / 4096 % 64), letter alphabet (n / 64 % 64),
    letter alphabet (n % 64)]

/-- Encode three bytes at a time, and what is left in the end with padding or without. -/
def encode (alphabet : Alphabet) (omitPadding : Bool) : List UInt8 → List Nat
  | b0 :: b1 :: b2 :: rest =>
      fourLetters alphabet (b0.toNat * 65536 + b1.toNat * 256 + b2.toNat)
        ++ encode alphabet omitPadding rest
  | [b0, b1] =>
      (fourLetters alphabet (b0.toNat * 65536 + b1.toNat * 256)).take 3
        ++ if omitPadding then [] else [0x3D]
  | [b0] =>
      (fourLetters alphabet (b0.toNat * 65536)).take 2 ++ if omitPadding then [] else [0x3D, 0x3D]
  | [] => []

theorem toNat_small {n : Nat} (small : n < 256) : (UInt8.ofNat n).toNat = n := by
  rw [UInt8.toNat_ofNat', Nat.mod_eq_of_lt small]

theorem threeBytes_bytes (b0 b1 b2 : UInt8)
    : threeBytes (b0.toNat * 65536 + b1.toNat * 256 + b2.toNat) = [b0, b1, b2] := by
  have first := b0.toNat_lt
  have second := b1.toNat_lt
  have third := b2.toNat_lt
  simp only [threeBytes, List.cons.injEq, and_true, ← UInt8.toNat_inj, UInt8.toNat_ofNat']
  omega

/-- The sextets of a number spell it. -/
theorem chunkNumber_sextets {n : Nat} (small : n < 16777216)
    : chunkNumber [n / 262144, n / 4096 % 64, n / 64 % 64, n % 64] = n := by
  simp only [chunkNumber, List.foldl_cons, List.foldl_nil]
  omega

section
variable {total cap read : Nat} {alphabet : Alphabet} {rest chunk : List Nat} {bytes : List UInt8}

/-- The encoding of a number is a complete group. -/
theorem decodeFrom_fourLetters {last : LastChunk} {n : Nat} (small : n < 16777216)
    (roomy : bytes.length + 3 < cap)
    : decodeFrom total cap alphabet last (fourLetters alphabet n ++ rest) read [] bytes
      = decodeFrom total cap alphabet last rest (total - rest.length) [] (bytes ++ threeBytes n) := by
  have spelled : chunkBytes [n / 262144, n / 4096 % 64, n / 64 % 64, n % 64] = threeBytes n := by
    rw [chunkBytes_four, chunkNumber_sextets small]
  have full : (bytes ++ threeBytes n).length = bytes.length + 3 := by
    rw [List.length_append]
    rfl
  rw [fourLetters, List.cons_append, List.cons_append, List.cons_append, List.cons_append,
    List.nil_append, decodeFrom_group (value_letter alphabet (by omega))
      (value_letter alphabet (by omega)) (value_letter alphabet (by omega))
      (value_letter alphabet (by omega)) (by omega), spelled, if_neg (by omega)]

/-- What is left of the letters of a partial group, with padding or without. -/
theorem decodeFrom_partial (omitPadding : Bool) (chunk : List Nat) (two : 2 ≤ chunk.length)
    (few : chunk.length ≤ 3)
    : decodeFrom total cap alphabet .loose
        (if omitPadding then [] else List.replicate (4 - chunk.length) 0x3D) read chunk bytes
      = ⟨total, bytes ++ chunkBytes chunk, false⟩ := by
  cases omitPadding with
  | true =>
      rw [if_pos rfl]
      unfold decodeFrom
      rw [if_neg (fun none => by rw [none] at two; exact absurd two (by decide))]
      dsimp only
      rw [if_neg (by omega)]
  | false =>
      rw [if_neg (by decide)]
      obtain three | two : chunk.length = 3 ∨ chunk.length = 2 := by omega
      · rw [three]
        simp [decodeFrom, isSpace, decodePadding, afterPadding, three]
      · rw [two]
        simp [decodeFrom, isSpace, decodePadding, afterPadding, two, List.replicate]

/-- Three sextets spell a number whose last one is zero. -/
theorem filledNumber_three {n : Nat} (zero : n % 64 = 0)
    : filledNumber [n / 262144, n / 4096 % 64, n / 64 % 64] = n := by
  simp only [filledNumber, chunkNumber, List.foldl_cons, List.foldl_nil, List.length_cons,
    List.length_nil]
  omega

/-- Two sextets spell a number whose last two are zero. -/
theorem filledNumber_two {n : Nat} (zero : n % 4096 = 0)
    : filledNumber [n / 262144, n / 4096 % 64] = n := by
  simp only [filledNumber, chunkNumber, List.foldl_cons, List.foldl_nil, List.length_cons,
    List.length_nil]
  omega

theorem chunkBytes_two (b0 b1 : UInt8)
    : let n := b0.toNat * 65536 + b1.toNat * 256
      chunkBytes [n / 262144, n / 4096 % 64, n / 64 % 64] = [b0, b1] := by
  intro n
  have first := b0.toNat_lt
  have second := b1.toNat_lt
  have bytes := threeBytes_bytes b0 b1 0
  rw [UInt8.toNat_zero, Nat.add_zero] at bytes
  rw [chunkBytes, filledNumber_three (by omega), bytes]
  rfl

theorem chunkBytes_one (b0 : UInt8)
    : let n := b0.toNat * 65536
      chunkBytes [n / 262144, n / 4096 % 64] = [b0] := by
  intro n
  have first := b0.toNat_lt
  have bytes := threeBytes_bytes b0 0 0
  rw [UInt8.toNat_zero, Nat.zero_mul, Nat.add_zero] at bytes
  rw [chunkBytes, filledNumber_two (by omega), bytes]
  rfl

/-- The encoding of bytes decodes to them, where there is room for one more. -/
theorem decodeFrom_encode (omitPadding : Bool) (data : List UInt8) {read : Nat} {bytes : List UInt8}
    (roomy : bytes.length + data.length < cap)
    : decodeFrom total cap alphabet .loose (encode alphabet omitPadding data) read [] bytes
      = ⟨total, bytes ++ data, false⟩ := by
  fun_induction encode alphabet omitPadding data generalizing read bytes with
  | case1 b0 b1 b2 rest ih =>
      have first := b0.toNat_lt
      have second := b1.toNat_lt
      have third := b2.toNat_lt
      simp only [List.length_cons] at roomy
      rw [decodeFrom_fourLetters (by omega) (by omega), threeBytes_bytes, ih, List.append_assoc]
      · rfl
      · simp only [List.length_append, List.length_cons, List.length_nil]
        omega
  | case2 b0 b1 =>
      have first := b0.toNat_lt
      have second := b1.toNat_lt
      simp only [List.length_cons, List.length_nil] at roomy
      simp only [fourLetters, List.take_succ_cons, List.take_zero, List.cons_append, List.nil_append]
      rw [decodeFrom_letter (value_letter alphabet (by omega)) (by simp) (by omega),
        decodeFrom_letter (value_letter alphabet (by omega)) (by simp) (by omega),
        decodeFrom_letter (value_letter alphabet (by omega)) (by simp) (by omega)]
      rw [← chunkBytes_two b0 b1]
      exact decodeFrom_partial omitPadding [_, _, _] (by simp) (by simp)
  | case3 b0 =>
      have first := b0.toNat_lt
      simp only [List.length_cons, List.length_nil] at roomy
      simp only [fourLetters, List.take_succ_cons, List.take_zero, List.cons_append, List.nil_append]
      rw [decodeFrom_letter (value_letter alphabet (by omega)) (by simp) (by omega),
        decodeFrom_letter (value_letter alphabet (by omega)) (by simp) (by omega)]
      rw [← chunkBytes_one b0]
      exact decodeFrom_partial omitPadding [_, _] (by simp) (by simp)
  | case4 =>
      unfold decodeFrom
      rw [if_pos rfl, List.append_nil]

/-- Where there is room, the encoding of bytes decodes to them. -/
theorem decode_encode (omitPadding : Bool) (data : List UInt8) (roomy : data.length < cap)
    : decode (encode alphabet omitPadding data) cap alphabet .loose
      = ⟨(encode alphabet omitPadding data).length, data, false⟩ := by
  rw [decode, if_neg (by omega)]
  exact decodeFrom_encode omitPadding data (by rw [List.length_nil]; omega)

end

/-- Three bytes for each four characters of an encoding are more than it has, with three to spare. -/
theorem length_encode (alphabet : Alphabet) (omitPadding : Bool) (data : List UInt8)
    : data.length < (encode alphabet omitPadding data).length / 4 * 3 + 3 := by
  fun_induction encode alphabet omitPadding data with
  | case1 b0 b1 b2 rest ih =>
      simp only [fourLetters, List.length_append, List.length_cons, List.length_nil]
      omega
  | case2 => simp
  | case3 => simp
  | case4 => simp

-----------------------------------------------------------------------------------------
-- Hex
-----------------------------------------------------------------------------------------

/-- The digits in lower case, by their values. -/
def nibbles : List Nat := (List.range 10).map (0x30 + ·) ++ (List.range 6).map (0x61 + ·)

/-- The value of a digit in either case. -/
def nibble (c : Nat) : Option Nat :=
  nibbles.idxOf? c <|> (((List.range 6).map (0x41 + ·)).idxOf? c).map (10 + ·)

/-- Decode pairs of digits behind bytes. -/
def decodePairs (cap : Nat) : List Nat → Nat → List UInt8 → Decoded
  | c0 :: c1 :: rest, read, bytes =>
      if bytes.length < cap then
        match nibble c0, nibble c1 with
        | some hi, some lo => decodePairs cap rest (read + 2) (bytes ++ [UInt8.ofNat (hi * 16 + lo)])
        | _, _ => ⟨read, bytes, true⟩
      else ⟨read, bytes, false⟩
  | _, read, bytes => ⟨read, bytes, false⟩

/-- Decode a text of pairs of digits into at most `cap` bytes. -/
def decodeHex (src : List Nat) (cap : Nat) : Decoded :=
  if src.length % 2 = 1 then ⟨0, [], true⟩ else decodePairs cap src 0 []

def encodeHex (data : List UInt8) : List Nat :=
  data.flatMap fun b => [nibbles.getD (b.toNat / 16) 0, nibbles.getD (b.toNat % 16) 0]

section
variable {cap cap' : Nat}

/-- A text that is refused is refused the same with more room. -/
theorem decodePairs_refused (more : cap ≤ cap') (rest : List Nat) {read : Nat} {bytes : List UInt8}
    (refused : (decodePairs cap rest read bytes).error = true)
    : decodePairs cap' rest read bytes = decodePairs cap rest read bytes := by
  fun_induction decodePairs cap rest read bytes with
  | case1 c0 c1 rest read bytes room hi lo low high ih =>
      rw [decodePairs, if_pos (by omega), high, low]
      exact ih refused
  | case2 c0 c1 rest read bytes room other =>
      rw [decodePairs, if_pos (by omega)]
      split
      case h_1 hi lo high low => exact absurd low (other hi lo high)
      case h_2 => rfl
  | case3 => cases refused
  | case4 => cases refused

theorem decodeHex_refused {src : List Nat} (more : cap ≤ cap')
    (refused : (decodeHex src cap).error = true)
    : decodeHex src cap' = decodeHex src cap := by
  rw [decodeHex] at refused
  rw [decodeHex, decodeHex]
  split
  · rfl
  case isFalse even =>
    rw [if_neg even] at refused
    exact decodePairs_refused more src refused

theorem nibble_digits : ∀ v < 16, nibble (nibbles.getD v 0) = some v := by
  decide

theorem length_encodeHex (data : List UInt8) : (encodeHex data).length = 2 * data.length := by
  induction data with
  | nil => rfl
  | cons b data ih =>
      rw [encodeHex, List.flatMap_cons, List.length_append, ← encodeHex, ih, List.length_cons]
      simp only [List.length_cons, List.length_nil]
      omega

theorem decodePairs_encode (data : List UInt8) {read : Nat} {bytes : List UInt8}
    (roomy : bytes.length + data.length ≤ cap)
    : decodePairs cap (encodeHex data) read bytes
      = ⟨read + (encodeHex data).length, bytes ++ data, false⟩ := by
  induction data generalizing read bytes with
  | nil => simp [encodeHex, decodePairs]
  | cons b data ih =>
      have bound := b.toNat_lt
      have spelled : encodeHex (b :: data)
          = nibbles.getD (b.toNat / 16) 0 :: nibbles.getD (b.toNat % 16) 0 :: encodeHex data := rfl
      have joined : UInt8.ofNat (b.toNat / 16 * 16 + b.toNat % 16) = b := by
        rw [← UInt8.toNat_inj, UInt8.toNat_ofNat']
        omega
      rw [List.length_cons] at roomy
      rw [spelled, decodePairs, if_pos (by omega), nibble_digits _ (by omega),
        nibble_digits _ (by omega)]
      dsimp only
      rw [joined, ih (by rw [List.length_append, List.length_singleton]; omega), List.append_assoc,
        List.length_cons, List.length_cons]
      congr 1
      omega

/-- Where there is room, the digits of bytes decode to them. -/
theorem decodeHex_encode (data : List UInt8) (roomy : data.length ≤ cap)
    : decodeHex (encodeHex data) cap = ⟨(encodeHex data).length, data, false⟩ := by
  rw [decodeHex, length_encodeHex, if_neg (by omega),
    decodePairs_encode data (by rw [List.length_nil]; omega), length_encodeHex, Nat.zero_add]
  rfl

end

-----------------------------------------------------------------------------------------
-- Texts of different bytes
-----------------------------------------------------------------------------------------

theorem encode_injective (alphabet : Alphabet) (omitPadding : Bool)
    : Function.Injective (encode alphabet omitPadding) := by
  intro data data' same
  have decoded : decode (encode alphabet omitPadding data) (data.length + data'.length + 1) alphabet
      .loose = ⟨_, data, false⟩ := decode_encode omitPadding data (by omega)
  rw [same, decode_encode omitPadding data' (by omega)] at decoded
  exact (congrArg Decoded.bytes decoded).symm

theorem encodeHex_injective : Function.Injective encodeHex := by
  intro data data' same
  have decoded : decodeHex (encodeHex data) (data.length + data'.length) = ⟨_, data, false⟩ :=
    decodeHex_encode data (by omega)
  rw [same, decodeHex_encode data' (by omega)] at decoded
  exact (congrArg Decoded.bytes decoded).symm

end Boomkat.Base64
