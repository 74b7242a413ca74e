import Boomkat.TypedArrays.Base64
import Boomkat.Correctness.ArrayConstruct

/-! The base64 and hex codecs of byte arrays: the decoder is that of the proposal, encodings decode to
what was encoded, and the calls over views keep to the elements where the stored length is current.
-/

namespace Boomkat.Correctness
open Foundation TypedArrays Base64

variable {srcLen maxLen : Nat} {alphabet : Alphabet} {lastChunk : LastChunk}

-----------------------------------------------------------------------------------------
-- Characters
-----------------------------------------------------------------------------------------

/-- A character is decoded to its value, or to what stands for white space or an error. -/
theorem b64DecodeChar_eq (c : Nat) (alphabet : Alphabet)
    : b64DecodeChar c alphabet = if isSpace c then 64 else (value alphabet c).getD 65 := by
  have ascii : ∀ c < 128,
      b64DecodeChar c alphabet = if isSpace c then 64 else (value alphabet c).getD 65 := by
    cases alphabet <;> decide +kernel
  have letters : ∀ c ∈ letters alphabet, c < 128 := by
    cases alphabet <;> decide
  by_cases small : c < 128
  · exact ascii c small
  · have hidden : isSpace c = false := by
      simp only [isSpace, List.mem_cons, List.not_mem_nil, or_false, decide_eq_false_iff_not]
      omega
    have outside : value alphabet c = none := by
      rw [value, List.idxOf?_eq_none_iff]
      exact fun member => small (letters c member)
    rw [b64DecodeChar.eq_def, if_pos (by omega), hidden, outside]
    rfl

/-- A character is legal exactly if it has a value. -/
theorem b64DecodeChar_cases (c : Nat) (alphabet : Alphabet)
    : (isSpace c = true ∧ b64DecodeChar c alphabet = 64)
      ∨ (isSpace c = false ∧ value alphabet c = none ∧ b64DecodeChar c alphabet = 65)
      ∨ ∃ v, value alphabet c = some v ∧ b64DecodeChar c alphabet = v ∧ v < 64 := by
  rw [b64DecodeChar_eq]
  cases space : isSpace c with
  | true => exact .inl ⟨rfl, rfl⟩
  | false =>
      cases valued : value alphabet c with
      | none => exact .inr (.inl ⟨rfl, rfl, rfl⟩)
      | some v => exact .inr (.inr ⟨v, rfl, rfl, (value_spec valued).1⟩)

theorem value_of_small {c : Nat} (small : b64DecodeChar c alphabet < 64)
    : value alphabet c = some (b64DecodeChar c alphabet) := by
  rcases b64DecodeChar_cases c alphabet with ⟨-, ws⟩ | ⟨-, -, er⟩ | ⟨v, valued, is, -⟩
  · omega
  · omega
  · rw [valued, is]

theorem skipAsciiWhitespace_eq (rest : List Nat)
    : skipAsciiWhitespace alphabet rest = rest.dropWhile isSpace := by
  rw [skipAsciiWhitespace]
  congr 1
  funext c
  rw [Bool.eq_iff_iff, beq_iff_eq, b64KWs]
  rcases b64DecodeChar_cases c alphabet with ⟨space, ws⟩ | ⟨space, -, er⟩ | ⟨v, valued, is, small⟩
  · rw [space, ws]
    decide
  · rw [space, er]
    decide
  · rw [(value_spec valued).2.1, is]
    exact ⟨fun same => by omega, nofun⟩

-----------------------------------------------------------------------------------------
-- Numbers of bits
-----------------------------------------------------------------------------------------

theorem shift_or_add {a b k : Nat} (below : b < 2 ^ k) : a <<< k ||| b = a * 2 ^ k + b := by
  rw [← Nat.shiftLeft_add_eq_or_of_lt below, Nat.shiftLeft_eq]

theorem groupBytes_eq (n : Nat) : groupBytes n = threeBytes n := by
  rw [groupBytes, threeBytes, Nat.shiftRight_eq_div_pow, Nat.shiftRight_eq_div_pow]

/-- The four sextets of the fast path as one number. -/
theorem sextets_or {v0 v1 v2 v3 : Nat} (second : v1 < 64) (third : v2 < 64) (fourth : v3 < 64)
    : v0 <<< 18 ||| v1 <<< 12 ||| v2 <<< 6 ||| v3 = chunkNumber [v0, v1, v2, v3] := by
  have high : v0 <<< 18 ||| v1 <<< 12 = (v0 * 64 + v1) <<< 12 := by
    rw [shift_or_add (by rw [Nat.shiftLeft_eq]; omega), Nat.shiftLeft_eq, Nat.shiftLeft_eq]
    omega
  have middle : (v0 * 64 + v1) <<< 12 ||| v2 <<< 6 = ((v0 * 64 + v1) * 64 + v2) <<< 6 := by
    rw [shift_or_add (by rw [Nat.shiftLeft_eq]; omega), Nat.shiftLeft_eq, Nat.shiftLeft_eq]
    omega
  rw [high, middle, shift_or_add fourth]
  simp only [chunkNumber, List.foldl_cons, List.foldl_nil]
  omega

/-- A sextet more is a sextet behind the others. -/
theorem accumulated (chunk : List Nat) {v : Nat} (small : v < 64)
    : chunkNumber chunk <<< 6 ||| v = chunkNumber (chunk ++ [v]) := by
  rw [shift_or_add small, chunkNumber, chunkNumber, List.foldl_append, Nat.mul_comm]
  rfl

theorem or_lt_iff {v0 v1 v2 v3 : Nat}
    : v0 ||| v1 ||| v2 ||| v3 < 64 ↔ v0 < 64 ∧ v1 < 64 ∧ v2 < 64 ∧ v3 < 64 := by
  have two : ∀ a b : Nat, a ||| b < 64 ↔ a < 64 ∧ b < 64 := fun a b =>
    ⟨fun small => ⟨Nat.lt_of_le_of_lt Nat.left_le_or small, Nat.lt_of_le_of_lt Nat.right_le_or small⟩,
      fun small => Nat.or_lt_two_pow (n := 6) small.1 small.2⟩
  rw [two, two, two, and_assoc, and_assoc]

-----------------------------------------------------------------------------------------
-- The decoder
-----------------------------------------------------------------------------------------

/-- The result of the code for a decoding. That of a refused text has no counts. -/
structure DecodesTo (result : B64DecodeResult × List UInt8) (decoded : Decoded) : Prop where
  err : result.1.err = decoded.error
  bytes : result.2 = decoded.bytes
  counts : decoded.error = false → result.1.read = decoded.read
    ∧ result.1.written = decoded.bytes.length
  refused : decoded.error = true → result.1.read = 0 ∧ result.1.written = 0

/-- The variables of a turn stand for a group that is being read. -/
structure Accumulates (maxLen : Nat) (s : DecodeState) (chunk : List Nat) : Prop where
  acc : s.acc = chunkNumber chunk
  seen : s.seen = chunk.length
  sextets : ∀ v ∈ chunk, v < 64
  room : Room maxLen chunk s.dst

section
variable (srcLen maxLen alphabet lastChunk)

/-- The decoding that goes on from the variables of a turn. -/
def decodingOf (s : DecodeState) (chunk : List Nat) : Decoded :=
  decodeFrom srcLen maxLen alphabet lastChunk s.rest s.read chunk s.dst

/-- What a turn comes to when the decoding is given. -/
def TurnDecodes (decoded : Decoded) : DecodeTurn → Prop
  | .goOn s => ∃ chunk, Accumulates maxLen s chunk ∧ (s.seen = 0 → s.read = srcLen - s.rest.length)
      ∧ decodingOf srcLen maxLen alphabet lastChunk s chunk = decoded
  | .returned r dst => DecodesTo (r, dst) decoded
  | .broken s => DecodesTo (s.finish srcLen) decoded

end

theorem fail_decodes (s : DecodeState) (read : Nat)
    : TurnDecodes srcLen maxLen alphabet lastChunk ⟨read, s.dst, true⟩ s.fail :=
  ⟨rfl, rfl, fun no => (by cases no), fun _ => ⟨rfl, rfl⟩⟩

theorem stop_decodes (s : DecodeState)
    : TurnDecodes srcLen maxLen alphabet lastChunk ⟨s.read, s.dst, false⟩ s.stop :=
  ⟨rfl, rfl, fun _ => ⟨rfl, rfl⟩, fun no => by cases no⟩

/-- A group that is not complete, but has bytes. -/
theorem Accumulates.partial_cases {s : DecodeState} {chunk : List Nat} (follows : Accumulates maxLen s chunk)
    (two : 2 ≤ chunk.length)
    : (∃ v0 v1, chunk = [v0, v1]) ∨ ∃ v0 v1 v2, chunk = [v0, v1, v2] := by
  have short := follows.room.short
  rcases chunk with - | ⟨v0, - | ⟨v1, - | ⟨v2, - | ⟨v3, chunk⟩⟩⟩⟩
  · exact absurd two (by decide)
  · exact absurd two (by simp)
  · exact .inl ⟨v0, v1, rfl⟩
  · exact .inr ⟨v0, v1, v2, rfl⟩
  · simp only [List.length_cons] at short
    omega

/-- A group of two characters or three ends with its bytes. -/
theorem finish_returns {s : DecodeState} {chunk : List Nat} (follows : Accumulates maxLen s chunk)
    (two : 2 ≤ chunk.length)
    : DecodesTo (s.finish srcLen) ⟨srcLen, s.dst ++ chunkBytes chunk, false⟩ := by
  suffices bytes : (s.finish srcLen).2 = s.dst ++ chunkBytes chunk from
    ⟨rfl, bytes, fun _ => ⟨rfl, congrArg List.length bytes⟩, nofun⟩
  have acc := follows.acc
  rcases follows.partial_cases two with ⟨v0, v1, rfl⟩ | ⟨v0, v1, v2, rfl⟩
  · have seen : s.seen = 2 := follows.seen
    have byte : s.acc >>> 4 = chunkNumber [v0, v1] * 64 ^ 2 / 65536 := by
      rw [acc, Nat.shiftRight_eq_div_pow]
      omega
    rw [DecodeState.finish, if_pos seen, byte]
    rfl
  · have seen : s.seen = 3 := follows.seen
    have byte : s.acc >>> 10 = chunkNumber [v0, v1, v2] * 64 ^ 1 / 65536 := by
      rw [acc, Nat.shiftRight_eq_div_pow]
      omega
    have byte' : s.acc >>> 2 = chunkNumber [v0, v1, v2] * 64 ^ 1 / 256 := by
      rw [acc, Nat.shiftRight_eq_div_pow]
      omega
    rw [DecodeState.finish, if_neg (by rw [seen]; decide), if_pos seen, byte, byte']
    rfl

theorem ofNat_bne_zero (n : Nat) : (UInt8.ofNat n != 0) = decide (n % 256 ≠ 0) := by
  rw [Bool.eq_iff_iff, bne_iff_ne, decide_eq_true_eq, ne_eq, ← UInt8.toNat_inj, UInt8.toNat_ofNat']
  rfl

/-- The bits that are left of a group. -/
theorem mask_iff {s : DecodeState} {chunk : List Nat} (follows : Accumulates maxLen s chunk)
    (two : 2 ≤ chunk.length)
    : s.acc &&& (if s.seen = 2 then 0xF else 0x3) ≠ 0 ↔ extraBits chunk = true := by
  have acc := follows.acc
  rcases follows.partial_cases two with ⟨v0, v1, rfl⟩ | ⟨v0, v1, v2, rfl⟩
  · have seen : s.seen = 2 := follows.seen
    have extra : extraBits [v0, v1] = decide (chunkNumber [v0, v1] * 64 ^ 2 / 256 % 256 ≠ 0) :=
      ofNat_bne_zero _
    rw [if_pos seen, acc, extra, decide_eq_true_eq,
      show (0xF : Nat) = 2 ^ 4 - 1 from rfl, Nat.and_two_pow_sub_one_eq_mod]
    omega
  · have seen : s.seen = 3 := follows.seen
    have extra : extraBits [v0, v1, v2] = decide (chunkNumber [v0, v1, v2] * 64 ^ 1 % 256 ≠ 0) :=
      ofNat_bne_zero _
    rw [if_neg (by rw [seen]; decide), acc, extra, decide_eq_true_eq,
      show (0x3 : Nat) = 2 ^ 2 - 1 from rfl, Nat.and_two_pow_sub_one_eq_mod]
    omega

theorem padded_decodes {s : DecodeState} {chunk : List Nat} (follows : Accumulates maxLen s chunk)
    (two : 2 ≤ chunk.length) (rest : List Nat)
    : TurnDecodes srcLen maxLen alphabet lastChunk
        (afterPadding srcLen lastChunk rest s.read chunk s.dst) (s.padded lastChunk rest) := by
  rw [afterPadding, DecodeState.padded]
  simp only [mask_iff follows two]
  split
  · exact fail_decodes s s.read
  split
  · exact fail_decodes s s.read
  · exact finish_returns follows two

theorem padding_decodes {s : DecodeState} {chunk : List Nat} (follows : Accumulates maxLen s chunk)
    (rest : List Nat)
    : TurnDecodes srcLen maxLen alphabet lastChunk
        (decodePadding srcLen lastChunk rest s.read chunk s.dst)
        (s.padding alphabet lastChunk rest) := by
  rw [decodePadding, DecodeState.padding, follows.seen, skipAsciiWhitespace_eq]
  split
  · exact fail_decodes s s.read
  case isFalse two =>
    split
    · cases rest.dropWhile isSpace with
      | nil =>
          dsimp only
          split
          case isTrue partial' =>
            rw [partial']
            exact stop_decodes s
          case isFalse other =>
            rw [decide_eq_true other]
            exact fail_decodes s s.read
      | cons c rest =>
          dsimp only
          rw [skipAsciiWhitespace_eq]
          split
          · exact padded_decodes follows (by omega) _
          · rw [afterPadding, if_pos (List.cons_ne_nil _ _)]
            exact fail_decodes s s.read
    · exact padded_decodes follows (by omega) _

theorem Accumulates.next {s : DecodeState} {chunk : List Nat} (follows : Accumulates maxLen s chunk) {v : Nat}
    (small : v < 64) (more : Room maxLen (chunk ++ [v]) s.dst) (rest : List Nat)
    : Accumulates maxLen { s with rest := rest, acc := s.acc <<< 6 ||| v, seen := s.seen + 1 }
        (chunk ++ [v]) where
  acc := by
    rw [← accumulated chunk small, ← follows.acc]
  seen := by
    rw [List.length_append, List.length_singleton, ← follows.seen]
  sextets := by
    intro u member
    rcases List.mem_append.mp member with member | member
    · exact follows.sextets u member
    · rw [List.mem_singleton.mp member]
      exact small
  room := more

/-- A turn of the slow path: white space, and a character or the end. -/
theorem slow_decodes {s : DecodeState} {chunk : List Nat} (follows : Accumulates maxLen s chunk)
    : TurnDecodes srcLen maxLen alphabet lastChunk
        (decodingOf srcLen maxLen alphabet lastChunk s chunk)
        (s.slow srcLen maxLen alphabet lastChunk) := by
  have seen := follows.seen
  rw [decodingOf, ← decodeFrom_skip, DecodeState.slow.eq_def, skipAsciiWhitespace_eq]
  cases skipped : s.rest.dropWhile isSpace with
  | nil =>
      dsimp only
      unfold decodeFrom
      by_cases none : chunk = []
      · have between : ¬0 < s.seen := by
          rw [seen, none]
          decide
        rw [if_pos none, if_neg between]
        exact ⟨rfl, rfl, fun _ => ⟨rfl, rfl⟩, fun no => by cases no⟩
      have within : 0 < s.seen := by
        rw [seen]
        exact List.length_pos_iff.mpr none
      rw [if_neg none, if_pos within]
      cases lastChunk with
      | stopBeforePartial => exact stop_decodes s
      | strict => exact fail_decodes s s.read
      | loose =>
          dsimp only
          rw [seen]
          split
          · exact fail_decodes s s.read
          · exact finish_returns follows (by omega)
  | cons c rest =>
      have visible : ¬isSpace c = true := by
        have head := List.head?_dropWhile_not isSpace s.rest
        rw [skipped] at head
        simpa using head
      dsimp only
      rw [decodeFrom, if_neg visible]
      split
      · exact padding_decodes follows rest
      rcases b64DecodeChar_cases c alphabet with ⟨space, -⟩ | ⟨-, unvalued, er⟩ | ⟨v, valued, is, small⟩
      · exact absurd space visible
      · rw [unvalued, er, if_pos (by decide)]
        exact fail_decodes s s.read
      · rw [valued, is, if_neg (by omega), seen]
        dsimp only
        split
        · exact stop_decodes s
        case isFalse goes =>
          obtain ⟨more, full⟩ := follows.room.next v goes
          split
          case isTrue complete =>
            obtain ⟨fits, room⟩ := full complete
            have bytes : groupBytes (s.acc <<< 6 ||| v) = chunkBytes (chunk ++ [v]) := by
              rw [groupBytes_eq, follows.acc, accumulated chunk small, chunkBytes, filledNumber,
                List.length_append, List.length_singleton, complete]
              simp [threeBytes]
            rw [if_pos (show chunk.length + 1 = 4 by omega), bytes]
            split
            case isTrue filled =>
              rw [if_pos (by omega)]
              exact ⟨rfl, rfl, fun _ => ⟨rfl, rfl⟩, fun no => by cases no⟩
            case isFalse less =>
              rw [if_neg (by omega)]
              exact ⟨[], ⟨rfl, rfl, fun _ member => absurd member List.not_mem_nil,
                room less⟩, fun _ => rfl, rfl⟩
          case isFalse incomplete =>
            rw [if_neg (show ¬chunk.length + 1 = 4 by omega)]
            refine ⟨chunk ++ [v], seen ▸ follows.next small (more incomplete) rest,
              fun no => (by cases no), rfl⟩

/-- The groups of the fast path. -/
theorem decodeGroups_decodes (srcLen : Nat) (alphabet : Alphabet) (lastChunk : LastChunk)
    (rest : List Nat) {dst : List UInt8} (some : dst.length < maxLen)
    : let groups := decodeGroups maxLen alphabet rest dst
      groups.2.length ≤ maxLen
      ∧ decodeFrom srcLen maxLen alphabet lastChunk rest (srcLen - rest.length) [] dst
        = if maxLen ≤ groups.2.length then ⟨srcLen - groups.1.length, groups.2, false⟩
          else
            decodeFrom srcLen maxLen alphabet lastChunk groups.1 (srcLen - groups.1.length) []
              groups.2 := by
  fun_induction decodeGroups maxLen alphabet rest dst with
  | case1 c0 c1 c2 c3 rest dst v0 v1 v2 v3 fits ih =>
      obtain ⟨room, small⟩ := fits
      obtain ⟨small0, small1, small2, small3⟩ := or_lt_iff.mp small
      have bytes : groupBytes (v0 <<< 18 ||| v1 <<< 12 ||| v2 <<< 6 ||| v3)
          = chunkBytes [v0, v1, v2, v3] := by
        rw [groupBytes_eq, sextets_or small1 small2 small3, chunkBytes_four]
      have full : (dst ++ chunkBytes [v0, v1, v2, v3]).length = dst.length + 3 := by
        rw [List.length_append, length_chunkBytes (by simp)]
        rfl
      rw [bytes] at ih ⊢
      rw [decodeFrom_group (value_of_small small0) (value_of_small small1) (value_of_small small2)
        (value_of_small small3) room]
      by_cases filled : dst.length + 3 = maxLen
      · have stuck : decodeGroups maxLen alphabet rest (dst ++ chunkBytes [v0, v1, v2, v3])
            = (rest, dst ++ chunkBytes [v0, v1, v2, v3]) := by
          unfold decodeGroups
          split
          · dsimp only
            rw [if_neg (by omega)]
          · rfl
        rw [stuck]
        dsimp only
        rw [if_pos filled, if_pos (by omega)]
        exact ⟨by omega, rfl⟩
      · rw [if_neg filled]
        exact ih (by omega)
  | case2 => exact ⟨Nat.le_of_lt some, (if_neg (Nat.not_le.mpr some)).symm⟩
  | case3 => exact ⟨Nat.le_of_lt some, (if_neg (Nat.not_le.mpr some)).symm⟩

/-- A turn of the loop. -/
theorem turn_decodes (alphabet : Alphabet) (lastChunk : LastChunk) {s : DecodeState}
    {chunk : List Nat} (follows : Accumulates maxLen s chunk)
    (between : s.seen = 0 → s.read = srcLen - s.rest.length)
    : TurnDecodes srcLen maxLen alphabet lastChunk
        (decodingOf srcLen maxLen alphabet lastChunk s chunk)
        (s.turn srcLen maxLen alphabet lastChunk) := by
  rw [DecodeState.turn]
  split
  case isTrue start =>
    obtain rfl : chunk = [] := List.eq_nil_of_length_eq_zero (follows.seen ▸ start)
    obtain ⟨fits, decoded⟩ := decodeGroups_decodes srcLen alphabet lastChunk s.rest follows.room.room
    rw [decodingOf, between start, decoded]
    dsimp only
    split
    · exact stop_decodes _
    case isFalse less =>
      exact slow_decodes ⟨follows.acc, follows.seen, fun _ member => absurd member List.not_mem_nil,
        Nat.zero_le _, by dsimp only; omega, fun no => by cases no⟩
  · exact slow_decodes follows

/-- The loop from any of its turns on, by induction on what is left of the source. -/
theorem decodeLoop_returns (n : Nat) {s : DecodeState} {chunk : List Nat}
    (follows : Accumulates maxLen s chunk) (between : s.seen = 0 → s.read = srcLen - s.rest.length)
    (left : s.rest.length < n)
    : DecodesTo (decodeLoop srcLen maxLen alphabet lastChunk s)
        (decodingOf srcLen maxLen alphabet lastChunk s chunk) := by
  induction n generalizing s chunk with
  | zero => exact absurd left (Nat.not_lt_zero _)
  | succ n ih =>
      have turn := turn_decodes alphabet lastChunk follows between
      rw [decodeLoop]
      split
      case h_1 s' next =>
        rw [next] at turn
        obtain ⟨chunk', follows', between', same⟩ := turn
        have shorter := turn_shorter srcLen maxLen alphabet lastChunk next
        rw [← same]
        exact ih follows' between' (by omega)
      case h_2 r dst returned =>
        rw [returned] at turn
        exact turn
      case h_3 s' broken =>
        rw [broken] at turn
        exact turn

/-- `from_base64` decodes as the proposal does, and writes no byte beyond its capacity. -/
theorem fromBase64_returns (src : List Nat) (maxLen : Nat) (alphabet : Alphabet)
    (lastChunk : LastChunk)
    : DecodesTo (fromBase64 src maxLen alphabet lastChunk) (decode src maxLen alphabet lastChunk) := by
  rw [fromBase64, decode]
  split
  · exact ⟨rfl, rfl, fun _ => ⟨rfl, rfl⟩, fun no => by cases no⟩
  case isFalse some =>
    have follows : Accumulates maxLen ⟨src, 0, 0, 0, []⟩ [] :=
      ⟨rfl, rfl, fun _ member => absurd member List.not_mem_nil, Nat.zero_le _,
        Nat.pos_of_ne_zero some, fun no => by cases no⟩
    exact decodeLoop_returns (src.length + 1) follows (fun _ => (Nat.sub_self _).symm)
      (Nat.lt_succ_self _)

-----------------------------------------------------------------------------------------
-- Hex and the encoders
-----------------------------------------------------------------------------------------

theorem hexDecodeChar_eq (c : Nat) : hexDecodeChar c = nibble c := by
  have ascii : ∀ c < 128, hexDecodeChar c = nibble c := by decide
  by_cases small : c < 128
  · exact ascii c small
  · have lower : nibbles.idxOf? c = none := by
      rw [List.idxOf?_eq_none_iff]
      have letters : ∀ c ∈ nibbles, c < 128 := by decide
      exact fun member => small (letters c member)
    have upper : ((List.range 6).map (0x41 + ·)).idxOf? c = none := by
      rw [List.idxOf?_eq_none_iff]
      have letters : ∀ c ∈ (List.range 6).map (0x41 + ·), c < 128 := by decide
      exact fun member => small (letters c member)
    rw [hexDecodeChar, if_neg (by omega), if_neg (by omega), if_neg (by omega), nibble, lower, upper]
    rfl

theorem nibble_lt {c v : Nat} (valued : nibble c = some v) : v < 16 := by
  rw [← hexDecodeChar_eq, hexDecodeChar] at valued
  split_ifs at valued <;> cases valued <;> omega

theorem hexLoop_returns (rest : List Nat) {read : Nat} {dst : List UInt8}
    : DecodesTo (hexLoop maxLen read dst rest) (decodePairs maxLen rest read dst) := by
  fun_induction hexLoop maxLen read dst rest with
  | case1 read dst c0 c1 rest room hi lo low high ih =>
      rw [hexDecodeChar_eq] at low high
      have byte : hi <<< 4 ||| lo = hi * 16 + lo := shift_or_add (k := 4) (nibble_lt low)
      rw [byte] at ih ⊢
      rw [decodePairs, if_pos room, high, low]
      exact ih
  | case2 read dst c0 c1 rest room other =>
      rw [decodePairs, if_pos room, ← hexDecodeChar_eq, ← hexDecodeChar_eq]
      split
      case h_1 hi lo high low => exact absurd low (other hi lo high)
      case h_2 => exact ⟨rfl, rfl, fun no => (by cases no), fun _ => ⟨rfl, rfl⟩⟩
  | case3 read dst c0 c1 rest room =>
      rw [decodePairs, if_neg room]
      exact ⟨rfl, rfl, fun _ => ⟨rfl, rfl⟩, fun no => by cases no⟩
  | case4 read dst rest few =>
      unfold decodePairs
      split
      · exact absurd rfl (few _ _ _)
      · exact ⟨rfl, rfl, fun _ => ⟨rfl, rfl⟩, fun no => by cases no⟩

theorem fromHex_returns (src : List Nat) (maxLen : Nat)
    : DecodesTo (fromHex src maxLen) (decodeHex src maxLen) := by
  have parity : src.length &&& 1 = src.length % 2 := Nat.and_two_pow_sub_one_eq_mod _ 1
  rw [fromHex, decodeHex, parity]
  split
  · rw [if_pos (by omega)]
    exact ⟨rfl, rfl, fun no => (by cases no), fun _ => ⟨rfl, rfl⟩⟩
  · rw [if_neg (by omega)]
    exact hexLoop_returns src

theorem toNat_encodeChar (alphabet : Alphabet) (v : Nat)
    : (encodeChar alphabet v).toNat = letter alphabet (v % 64) := by
  have same : b64Enc alphabet = letters alphabet := by cases alphabet <;> rfl
  have small : ∀ v < 64, letter alphabet v < 256 := by cases alphabet <;> decide
  have low : v &&& 63 = v % 64 := Nat.and_two_pow_sub_one_eq_mod _ 6
  rw [encodeChar, same, low]
  exact toNat_small (small _ (by omega))

theorem threeBytes_or (b0 b1 b2 : UInt8)
    : b0.toNat <<< 16 ||| b1.toNat <<< 8 ||| b2.toNat
      = b0.toNat * 65536 + b1.toNat * 256 + b2.toNat := by
  have second := b1.toNat_lt
  have third := b2.toNat_lt
  have high : b0.toNat <<< 16 ||| b1.toNat <<< 8 = (b0.toNat * 256 + b1.toNat) <<< 8 := by
    rw [shift_or_add (by rw [Nat.shiftLeft_eq]; omega), Nat.shiftLeft_eq, Nat.shiftLeft_eq]
    omega
  rw [high, shift_or_add third]
  omega

/-- The encoder writes the encoding of its bytes. -/
theorem encodeBase64_eq (alphabet : Alphabet) (omitPadding : Bool) (data : List UInt8)
    : (encodeBase64 alphabet omitPadding data).map UInt8.toNat = encode alphabet omitPadding data := by
  have by18 : ∀ n, n >>> 18 = n / 262144 := fun n => Nat.shiftRight_eq_div_pow n 18
  have by12 : ∀ n, n >>> 12 = n / 4096 := fun n => Nat.shiftRight_eq_div_pow n 12
  have by6 : ∀ n, n >>> 6 = n / 64 := fun n => Nat.shiftRight_eq_div_pow n 6
  fun_induction encodeBase64 alphabet omitPadding data with
  | case1 b0 b1 b2 rest v ih =>
      have first := b0.toNat_lt
      have second := b1.toNat_lt
      have third := b2.toNat_lt
      have number : v = b0.toNat * 65536 + b1.toNat * 256 + b2.toNat := threeBytes_or b0 b1 b2
      have top : v / 262144 % 64 = v / 262144 := by omega
      rw [List.map_append, ih, encode, ← number, fourLetters]
      simp only [List.map_cons, List.map_nil, toNat_encodeChar, by18, by12, by6, top]
  | case2 b0 b1 v =>
      have first := b0.toNat_lt
      have second := b1.toNat_lt
      have number : v = b0.toNat * 65536 + b1.toNat * 256 := by
        have whole := threeBytes_or b0 b1 0
        rw [UInt8.toNat_zero, Nat.or_zero, Nat.add_zero] at whole
        exact whole
      have top : v / 262144 % 64 = v / 262144 := by omega
      rw [List.map_append, encode, ← number, fourLetters]
      simp only [List.map_cons, List.map_nil, toNat_encodeChar, by18, by12, by6, top,
        List.take_succ_cons, List.take_zero]
      cases omitPadding <;> rfl
  | case3 b0 v =>
      have first := b0.toNat_lt
      have number : v = b0.toNat * 65536 := Nat.shiftLeft_eq _ _
      have top : v / 262144 % 64 = v / 262144 := by omega
      rw [List.map_append, encode, ← number, fourLetters]
      simp only [List.map_cons, List.map_nil, toNat_encodeChar, by18, by12, top,
        List.take_succ_cons, List.take_zero]
      cases omitPadding <;> rfl
  | case4 => rfl

theorem encodeHex_eq (data : List UInt8)
    : (TypedArrays.encodeHex data).map UInt8.toNat = Base64.encodeHex data := by
  have digit : ∀ v < 16, (hexDigit v).toNat = nibbles.getD v 0 := by decide
  have low : ∀ n : Nat, n &&& 0xF = n % 16 := fun n => Nat.and_two_pow_sub_one_eq_mod n 4
  rw [TypedArrays.encodeHex, Base64.encodeHex, List.map_flatMap]
  congr 1
  funext b
  have bound := b.toNat_lt
  rw [List.map_cons, List.map_cons, List.map_nil, low, low, Nat.shiftRight_eq_div_pow,
    digit _ (by omega), digit _ (by omega), Nat.mod_eq_of_lt (by omega)]

-----------------------------------------------------------------------------------------
-- Views
-----------------------------------------------------------------------------------------

section
variable {view : View} {buf : ArrayBuffer} {memory : CodecMemory} {next : Nat}

/-- The bytes of the buffer's block. -/
def blockBytes (buf : ArrayBuffer) : List UInt8 := buf.data.elim [] ByteBlock.bytes

/-- The receiver is a `Uint8Array` that is not out of bounds. -/
def Accepted (view : View) (buf : ArrayBuffer) : Prop :=
  view.cls = .uint8array ∧ viewIsOutOfBounds view buf = false

/-- No element lies beyond the end of the buffer. -/
def ElementsWithin (view : View) (buf : ArrayBuffer) : Prop :=
  viewEffectiveByteLength view buf = 0
  ∨ view.byteOffset + viewEffectiveByteLength view buf ≤ buf.byteLength

/-- The elements of a view over the buffer as it is. -/
def currentElements (view : View) (buf : ArrayBuffer) : List UInt8 :=
  ((blockBytes buf).drop view.byteOffset).take (viewEffectiveByteLength view buf)

/-- The buffer with bytes from an offset on. -/
def withBytes (buf : ArrayBuffer) (off : Nat) (bytes : List UInt8) : ArrayBuffer :=
  { buf with
    data := buf.data.map fun block =>
      { block with bytes := block.bytes.take off ++ bytes ++ block.bytes.drop (off + bytes.length) } }

theorem base_offset : (view.base buf).offset = view.byteOffset := Nat.zero_add _

/-- A view that lies in the buffer is read. -/
theorem viewLoad_eq (fits : BufferFits next buf) (live : buf.byteLength ≠ detachedLength) {n : Nat}
    (within : n = 0 ∨ view.byteOffset + n ≤ buf.byteLength)
    : buf.load (view.base buf) n = some (((blockBytes buf).drop view.byteOffset).take n) := by
  have loaded := ArrayBuffer.load_eq (p := view.base buf) (k := n) fits fun some =>
    ⟨rfl, live, by rw [base_offset]; exact within.resolve_left (Nat.ne_of_gt some)⟩
  rw [base_offset] at loaded
  exact loaded

/-- Nothing else is. -/
theorem viewLoad_within {n : Nat} {bytes : List UInt8} (loaded : buf.load (view.base buf) n = some bytes)
    : n = 0 ∨ view.byteOffset + n ≤ buf.byteLength := by
  rw [ArrayBuffer.load] at loaded
  split at loaded
  case isTrue none => exact .inl none
  case isFalse some =>
    obtain ⟨block, -, loaded⟩ := Option.bind_eq_some_iff.mp loaded
    split at loaded
    · rw [base_offset] at loaded
      exact .inr (ByteBlock.load_within loaded (Nat.pos_of_ne_zero some))
    · cases loaded

theorem viewLoad_length (fits : BufferFits next buf) (live : buf.byteLength ≠ detachedLength) {n : Nat}
    {bytes : List UInt8} (loaded : buf.load (view.base buf) n = some bytes)
    : bytes.length = n := by
  obtain ⟨bytes', loaded', length⟩ := ArrayBuffer.load_isSome (p := view.base buf) (n := n) fits
    fun some => ⟨rfl, live, by
      rw [base_offset]
      exact (viewLoad_within loaded).resolve_left (Nat.ne_of_gt some)⟩
  rw [loaded] at loaded'
  rw [Option.some.inj loaded', length]

theorem withBytes_nil (buf : ArrayBuffer) (off : Nat) : withBytes buf off [] = buf := by
  obtain ⟨data, byteLength, resizable, maxByteLength, isShared⟩ := buf
  cases data with
  | none => rfl
  | some block => simp [withBytes]

/-- Bytes are written to a view that lies in the buffer as far as they go. -/
theorem viewStore_eq (fits : BufferFits next buf) (live : buf.byteLength ≠ detachedLength)
    {bytes : List UInt8} (within : bytes = [] ∨ view.byteOffset + bytes.length ≤ buf.byteLength)
    : buf.store (view.base buf) bytes = some (withBytes buf view.byteOffset bytes) := by
  rw [ArrayBuffer.store]
  split
  case isTrue none => rw [none, withBytes_nil]
  case isFalse some =>
    have within := within.resolve_left some
    have reachable : Reachable buf (view.base buf) bytes.length :=
      ⟨rfl, live, by rw [base_offset]; exact within⟩
    obtain ⟨block, data, at_p, filled⟩ := reachable.data fits (List.length_pos_iff.mpr some)
    rw [data, Option.bind_some, if_pos at_p, base_offset, ByteBlock.store_eq within (by omega),
      withBytes, data]
    rfl

theorem viewStore_within {bytes : List UInt8} {buf' : ArrayBuffer}
    (stored : buf.store (view.base buf) bytes = some buf')
    : bytes = [] ∨ view.byteOffset + bytes.length ≤ buf.byteLength := by
  rw [ArrayBuffer.store] at stored
  split at stored
  case isTrue none => exact .inl none
  case isFalse =>
    obtain ⟨block, -, stored⟩ := Option.bind_eq_some_iff.mp stored
    split at stored
    · obtain ⟨block', stored, -⟩ := Option.map_eq_some_iff.mp stored
      obtain ⟨block'', stored, -⟩ := Option.bind_eq_some_iff.mp stored
      rw [base_offset] at stored
      exact ByteBlock.store_within stored
    · cases stored

/-- Bytes that make the same buffer are the same, if there are as many of them and they lie in it. -/
theorem withBytes_injective (fits : BufferFits next buf) (live : buf.byteLength ≠ detachedLength)
    {off : Nat} {bytes bytes' : List UInt8} (length : bytes.length = bytes'.length)
    (within : bytes = [] ∨ off + bytes.length ≤ buf.byteLength)
    (same : withBytes buf off bytes = withBytes buf off bytes')
    : bytes = bytes' := by
  rcases within with rfl | within
  · exact (List.eq_nil_of_length_eq_zero length.symm).symm
  rcases Nat.eq_zero_or_pos bytes.length with none | some
  · rw [List.eq_nil_of_length_eq_zero none, List.eq_nil_of_length_eq_zero (length.symm.trans none)]
  have reachable : Reachable buf ⟨buf.pointer.block, off⟩ bytes.length := ⟨rfl, live, within⟩
  obtain ⟨block, data, -, filled⟩ := reachable.data fits some
  have blocks := congrArg ArrayBuffer.data same
  rw [withBytes, withBytes, data, Option.map_some, Option.map_some, Option.some.injEq,
    ByteBlock.mk.injEq, length, List.append_left_inj, List.append_right_inj] at blocks
  exact blocks.2

theorem length_currentElements (fits : BufferFits next buf)
    (live : buf.byteLength ≠ detachedLength) (within : ElementsWithin view buf)
    : (currentElements view buf).length = viewEffectiveByteLength view buf := by
  have filled := fits.filled live
  have count : capacity buf = (blockBytes buf).length := by
    rw [capacity, blockBytes]
    cases buf.data <;> rfl
  rw [currentElements, List.length_take, List.length_drop, ← count]
  rcases within with none | within <;> omega

/-- A view that tracks the length of its buffer has its elements in it. -/
theorem within_of_tracking (tracking : view.lengthTracking = true) (bytes : view.cls = .uint8array)
    : ElementsWithin view buf := by
  have avail : (buf.byteLength - view.byteOffset) >>> taElemShift .uint8array
      <<< taElemShift .uint8array = buf.byteLength - view.byteOffset := rfl
  have effective : viewEffectiveByteLength view buf
      = if viewIsOutOfBounds view buf then 0 else buf.byteLength - view.byteOffset := by
    rw [viewEffectiveByteLength, tracking, bytes, avail, if_neg (not_not.mpr rfl)]
  rw [ElementsWithin, effective]
  split
  · exact .inl rfl
  · omega

/-- The stored length is that of the elements if there are as many. -/
theorem stored_of_length (fits : BufferFits next buf) (accepted : Accepted view buf)
    (live : buf.byteLength ≠ detachedLength)
    (length : (currentElements view buf).length = view.byteLength)
    : view.byteLength = viewEffectiveByteLength view buf := by
  cases tracking : view.lengthTracking with
  | true =>
      rw [← length, length_currentElements fits live (within_of_tracking tracking accepted.1)]
  | false =>
      rw [viewEffectiveByteLength, accepted.2, if_neg (by decide), if_pos (by rw [tracking]; decide)]

-----------------------------------------------------------------------------------------
-- Reading a view
-----------------------------------------------------------------------------------------

/-- The call comes to the text of exactly the current elements, which lie in the buffer. -/
def ReadsElements (view : View) (buf : ArrayBuffer) (encode : List UInt8 → List Nat)
    (result : Option CodecOutcome)
    : Prop :=
  (∃ chars, result = some (.text chars)
    ∧ chars.map UInt8.toNat = encode (currentElements view buf))
  ∧ ElementsWithin view buf

/-- The stored length is that of the elements, which lie in the buffer, and there is memory for their
text.
-/
def ViewReadFits (view : View) (buf : ArrayBuffer) (memory : CodecMemory)
    (encode : List UInt8 → List Nat)
    : Prop :=
  view.byteLength = viewEffectiveByteLength view buf
  ∧ ElementsWithin view buf
  ∧ memory.scratch = true ∧ memory.result = true
  ∧ (encode (currentElements view buf)).length ≤ maxStringBytes

/-- A text that a view is encoded to is that of the bytes that are loaded. -/
theorem encodeView_text {encode : List UInt8 → List Nat} {encoder : List UInt8 → List UInt8}
    (encodes : ∀ data, (encoder data).map UInt8.toNat = encode data) {chars : List UInt8}
    (result : encodeView view buf memory encoder = some (.text chars))
    : ∃ data, buf.load (view.base buf) view.byteLength = some data
      ∧ chars.map UInt8.toNat = encode data ∧ memory.scratch = true ∧ memory.result = true
      ∧ (encode data).length ≤ maxStringBytes := by
  rw [encodeView] at result
  split at result
  case isFalse => cases result
  case isTrue scratch =>
    obtain ⟨data, loaded, interned⟩ := Option.map_eq_some_iff.mp result
    rw [internResult] at interned
    split at interned
    case isFalse => cases interned
    case isTrue room =>
      cases interned
      have short := room.2
      rw [← List.length_map (f := UInt8.toNat), encodes] at short
      exact ⟨data, loaded, encodes data, scratch, room.1, short⟩

theorem encodeView_fits (fits : BufferFits next buf) (live : buf.byteLength ≠ detachedLength)
    {encode : List UInt8 → List Nat} {encoder : List UInt8 → List UInt8}
    (encodes : ∀ data, (encoder data).map UInt8.toNat = encode data)
    (read : ViewReadFits view buf memory encode)
    : encodeView view buf memory encoder = some (.text (encoder (currentElements view buf))) := by
  obtain ⟨same, within, scratch, room, short⟩ := read
  rw [← encodes, List.length_map] at short
  have loaded : buf.load (view.base buf) (viewEffectiveByteLength view buf)
      = some (currentElements view buf) := viewLoad_eq fits live within
  rw [encodeView, if_pos scratch, same, loaded, Option.map_some, internResult]
  exact congrArg some (if_pos ⟨room, short⟩)

theorem encodeView_iff (fits : BufferFits next buf) (live : buf.byteLength ≠ detachedLength)
    {encode : List UInt8 → List Nat} {encoder : List UInt8 → List UInt8}
    (encodes : ∀ data, (encoder data).map UInt8.toNat = encode data)
    (injective : Function.Injective encode)
    : ReadsElements view buf encode (encodeView view buf memory encoder)
      ↔ ViewReadFits view buf memory encode := by
  constructor
  · rintro ⟨⟨chars, result, spelled⟩, within⟩
    obtain ⟨data, loaded, spelled', scratch, room, short⟩ := encodeView_text encodes result
    obtain rfl : data = currentElements view buf := injective (by rw [← spelled', spelled])
    have length := viewLoad_length fits live loaded
    rw [length_currentElements fits live within] at length
    exact ⟨length.symm, within, scratch, room, short⟩
  · intro read
    exact ⟨⟨_, encodeView_fits fits live encodes read, encodes _⟩, read.2.1⟩

/-- An encoding that is decoded again yields the elements exactly if they are what is read. -/
theorem roundTrip_iff (fits : BufferFits next buf) (live : buf.byteLength ≠ detachedLength)
    (accepted : Accepted view buf) (decoder : List Nat → Except CodecOutcome CodecOutcome)
    {encode : List UInt8 → List Nat} {encoder : List UInt8 → List UInt8}
    (encodes : ∀ data, (encoder data).map UInt8.toNat = encode data)
    (decodes : ∀ data, memory.scratch = true → memory.result = true →
      decoder (encode data) = .ok (.array data))
    : (∃ chars, encodeView view buf memory encoder = some (.text chars)
        ∧ decoder (chars.map UInt8.toNat) = .ok (.array (currentElements view buf)))
      ↔ ViewReadFits view buf memory encode := by
  constructor
  · rintro ⟨chars, result, decoded⟩
    obtain ⟨data, loaded, spelled, scratch, room, short⟩ := encodeView_text encodes result
    rw [spelled, decodes data scratch room, Except.ok.injEq, CodecOutcome.array.injEq] at decoded
    rw [decoded] at loaded short
    have stored := stored_of_length fits accepted live (viewLoad_length fits live loaded)
    have within := viewLoad_within loaded
    rw [stored] at within
    exact ⟨stored, within, scratch, room, short⟩
  · intro read
    refine ⟨_, encodeView_fits fits live encodes read, ?_⟩
    rw [encodes, decodes _ read.2.2.1 read.2.2.2.1]

-----------------------------------------------------------------------------------------
-- Writing a view
-----------------------------------------------------------------------------------------

/-- What a call comes to for a decoding. -/
def decodedOutcome (refusal : String) (decoded : Decoded) : CodecOutcome :=
  if decoded.error then .syntaxError refusal else .counts decoded.read decoded.bytes.length

/-- The call comes to the decoding with the elements as its capacity, and its bytes are written to the
first of them, within the buffer.
-/
def WritesElements (view : View) (buf : ArrayBuffer) (refusal : String) (decoded : Decoded)
    (result : Option (CodecOutcome × ArrayBuffer))
    : Prop :=
  result = some (decodedOutcome refusal decoded, withBytes buf view.byteOffset decoded.bytes)
  ∧ (decoded.bytes = [] ∨ view.byteOffset + decoded.bytes.length ≤ buf.byteLength)

/-- The text decodes with the stored length as it does with that of the elements, its bytes lie in the
buffer, and there is memory for the counts.
-/
def ViewWriteFits (view : View) (buf : ArrayBuffer) (memory : CodecMemory)
    (decodes : Nat → Decoded)
    : Prop :=
  let decoded := decodes (viewEffectiveByteLength view buf)
  decodes view.byteLength = decoded
  ∧ (decoded.bytes = [] ∨ view.byteOffset + decoded.bytes.length ≤ buf.byteLength)
  ∧ (decoded.error = true ∨ memory.result = true)

theorem decodeIntoView_iff (fits : BufferFits next buf) (live : buf.byteLength ≠ detachedLength)
    {refusal : String} {decodes : Nat → Decoded} {decoder : Nat → B64DecodeResult × List UInt8}
    (returns : ∀ cap, DecodesTo (decoder cap) (decodes cap))
    (refused : ∀ cap cap', cap ≤ cap' → (decodes cap).error = true → decodes cap' = decodes cap)
    : WritesElements view buf refusal (decodes (viewEffectiveByteLength view buf))
        (decodeIntoView view buf memory refusal (decoder view.byteLength))
      ↔ ViewWriteFits view buf memory decodes := by
  obtain ⟨err, bytes, counts, -⟩ := returns view.byteLength
  constructor
  · rintro ⟨result, within⟩
    obtain ⟨buf', stored, same⟩ := Option.map_eq_some_iff.mp result
    obtain ⟨outcome, rfl⟩ := Prod.mk.inj same
    have within' := viewStore_within stored
    rw [viewStore_eq fits live within', Option.some.injEq] at stored
    rw [err] at outcome
    rw [bytes] at stored within'
    rw [decodedOutcome] at outcome
    cases refusedStored : (decodes view.byteLength).error with
    | true =>
        rw [refusedStored, if_pos rfl] at outcome
        split at outcome
        case isFalse => cases outcome
        case isTrue refusedCurrent =>
          refine ⟨?_, within, .inl refusedCurrent⟩
          rcases Nat.le_total view.byteLength (viewEffectiveByteLength view buf) with less | more
          · exact (refused _ _ less refusedStored).symm
          · exact refused _ _ more refusedCurrent
    | false =>
        obtain ⟨read, written⟩ := counts refusedStored
        rw [refusedStored, if_neg (by decide)] at outcome
        split at outcome
        case isFalse =>
          split at outcome <;> cases outcome
        case isTrue room =>
          split at outcome
          case isTrue => cases outcome
          case isFalse accepted =>
            rw [read, written] at outcome
            obtain ⟨sameRead, sameLength⟩ := CodecOutcome.counts.inj outcome
            have sameBytes := withBytes_injective fits live sameLength within' stored
            refine ⟨Decoded.ext sameRead sameBytes ?_, within, .inr room⟩
            exact refusedStored.trans (Bool.eq_false_iff.mpr accepted).symm
  · rintro ⟨same, within, room⟩
    refine ⟨?_, within⟩
    rw [same] at err bytes counts
    rw [decodeIntoView, bytes, viewStore_eq fits live within, Option.map_some, decodedOutcome, err]
    congr 2
    cases accepted : (decodes (viewEffectiveByteLength view buf)).error with
    | true => rfl
    | false =>
        obtain ⟨read, written⟩ := counts accepted
        have available : memory.result = true := room.resolve_left (by rw [accepted]; decide)
        rw [if_neg Bool.false_ne_true, if_pos available, if_neg Bool.false_ne_true, read, written]

end

-----------------------------------------------------------------------------------------
-- All calls
-----------------------------------------------------------------------------------------

/-- A call of the codecs: the decoder on its own, an encoding that is decoded again, and the calls over
a view, whose buffer is the one that reading the options leaves.
-/
inductive CodecCall where
  | decode (src : List Nat) (maxLen : Nat) (alphabet : Alphabet) (lastChunk : LastChunk)
  | roundTrip (view : View) (buf : ArrayBuffer) (alphabet : Alphabet) (omitPadding : Bool)
      (memory : CodecMemory)
  | roundTripHex (view : View) (buf : ArrayBuffer) (memory : CodecMemory)
  | toBase64 (view : View) (buf : ArrayBuffer) (options : OptionsArgument) (memory : CodecMemory)
  | toHex (view : View) (buf : ArrayBuffer) (memory : CodecMemory)
  | setFromBase64 (view : View) (buf : ArrayBuffer) (str : Option (List Nat))
      (options : OptionsArgument) (memory : CodecMemory)
  | setFromHex (view : View) (buf : ArrayBuffer) (str : Option (List Nat)) (memory : CodecMemory)

/-- The buffer of a call has the bytes that it says. -/
def CodecCall.Sound : CodecCall → Prop
  | .decode .. => True
  | .roundTrip _ buf _ _ _ | .roundTripHex _ buf _ | .toBase64 _ buf _ _ | .toHex _ buf _
  | .setFromBase64 _ buf _ _ _ | .setFromHex _ buf _ _ => ∃ next, BufferFits next buf

def alphabetName : Alphabet → String
  | .base64 => "base64"
  | .base64url => "base64url"

/-- What a call is to come to that is not refused for its receiver or its arguments. -/
def CodecHolds : CodecCall → Prop
  | .decode src maxLen alphabet lastChunk =>
      let result := fromBase64 src maxLen alphabet lastChunk
      let decoded := Base64.decode src maxLen alphabet lastChunk
      result.1.err = decoded.error ∧ result.1.read = decoded.read ∧ result.2 = decoded.bytes
        ∧ result.2.length ≤ maxLen
  | .roundTrip view buf alphabet omitPadding memory =>
      let options : OptionsArgument :=
        .object (.string (alphabetName alphabet)) (.string "loose") (some omitPadding)
      Accepted view buf →
      ∃ chars, toBase64 view buf options memory = .ok (some (.text chars))
        ∧ uint8arrayFromBase64 (some (chars.map UInt8.toNat)) options memory
          = .ok (.array (currentElements view buf))
  | .roundTripHex view buf memory =>
      Accepted view buf →
      ∃ chars, toHex view buf memory = .ok (some (.text chars))
        ∧ uint8arrayFromHex (some (chars.map UInt8.toNat)) memory
          = .ok (.array (currentElements view buf))
  | .toBase64 view buf options memory =>
      ∀ alphabet omitPadding, Accepted view buf → options.alphabet = .ok alphabet →
        options.omitPadding = .ok omitPadding →
        ∃ result, toBase64 view buf options memory = .ok result
          ∧ ReadsElements view buf (encode alphabet omitPadding) result
  | .toHex view buf memory =>
      Accepted view buf →
      ∃ result, toHex view buf memory = .ok result ∧ ReadsElements view buf Base64.encodeHex result
  | .setFromBase64 view buf str options memory =>
      ∀ src alphabet lastChunk, Accepted view buf → str = some src →
        options.alphabet = .ok alphabet → options.lastChunk = .ok lastChunk →
        ∃ result, setFromBase64 view buf str options memory = .ok result
          ∧ WritesElements view buf "invalid base64 string"
            (Base64.decode src (viewEffectiveByteLength view buf) alphabet lastChunk) result
  | .setFromHex view buf str memory =>
      ∀ src, Accepted view buf → str = some src →
        ∃ result, setFromHex view buf str memory = .ok result
          ∧ WritesElements view buf "invalid hex string"
            (decodeHex src (viewEffectiveByteLength view buf)) result

/-- When a call comes to that. -/
def CodecFits : CodecCall → Prop
  | .decode src maxLen alphabet lastChunk =>
      let decoded := Base64.decode src maxLen alphabet lastChunk
      decoded.error = true → decoded.read = 0
  | .roundTrip view buf alphabet omitPadding memory =>
      Accepted view buf → ViewReadFits view buf memory (encode alphabet omitPadding)
  | .roundTripHex view buf memory =>
      Accepted view buf → ViewReadFits view buf memory Base64.encodeHex
  | .toBase64 view buf options memory =>
      ∀ alphabet omitPadding, Accepted view buf → options.alphabet = .ok alphabet →
        options.omitPadding = .ok omitPadding →
        ViewReadFits view buf memory (encode alphabet omitPadding)
  | .toHex view buf memory => Accepted view buf → ViewReadFits view buf memory Base64.encodeHex
  | .setFromBase64 view buf str options memory =>
      ∀ src alphabet lastChunk, Accepted view buf → str = some src →
        options.alphabet = .ok alphabet → options.lastChunk = .ok lastChunk →
        ViewWriteFits view buf memory fun cap => Base64.decode src cap alphabet lastChunk
  | .setFromHex view buf str memory =>
      ∀ src, Accepted view buf → str = some src → ViewWriteFits view buf memory (decodeHex src)


theorem decodedArray_eq {memory : CodecMemory} (room : memory.result = true) {refusal : String}
    {result : B64DecodeResult × List UInt8} {total : Nat} {data : List UInt8}
    (returns : DecodesTo result ⟨total, data, false⟩)
    : decodedArray memory refusal result = .array data := by
  obtain ⟨err, bytes, counts, -⟩ := returns
  rw [decodedArray, err, if_neg Bool.false_ne_true, if_pos room, bytes, (counts rfl).2,
    List.take_length]

theorem live_of_accepted {view : View} {buf : ArrayBuffer} (accepted : Accepted view buf)
    : buf.byteLength ≠ detachedLength := by
  intro gone
  have bounds := accepted.2
  rw [viewIsOutOfBounds, if_pos gone] at bounds
  cases bounds

theorem toBase64_accepted {view : View} {buf : ArrayBuffer} (accepted : Accepted view buf)
    {options : OptionsArgument} {omitPadding : Bool} (letters : options.alphabet = .ok alphabet)
    (padding : options.omitPadding = .ok omitPadding) (memory : CodecMemory)
    : toBase64 view buf options memory
      = .ok (encodeView view buf memory (encodeBase64 alphabet omitPadding)) := by
  simp [toBase64, b64ValidateUint8array, checkLive, accepted.1, accepted.2, letters, padding]
  rfl


theorem toHex_accepted {view : View} {buf : ArrayBuffer} (accepted : Accepted view buf)
    (memory : CodecMemory)
    : toHex view buf memory = .ok (encodeView view buf memory TypedArrays.encodeHex) := by
  simp [toHex, b64ValidateUint8array, checkLive, accepted.1, accepted.2]
  rfl

theorem setFromBase64_accepted {view : View} {buf : ArrayBuffer} (accepted : Accepted view buf)
    {options : OptionsArgument} (letters : options.alphabet = .ok alphabet)
    (last : options.lastChunk = .ok lastChunk) (src : List Nat) (memory : CodecMemory)
    : setFromBase64 view buf (some src) options memory
      = .ok (decodeIntoView view buf memory "invalid base64 string"
        (fromBase64 src view.byteLength alphabet lastChunk)) := by
  simp [setFromBase64, b64ValidateUint8array, b64RequireStringArg, checkLive, accepted.1, accepted.2,
    letters, last]
  rfl

theorem setFromHex_accepted {view : View} {buf : ArrayBuffer} (accepted : Accepted view buf)
    (src : List Nat) (memory : CodecMemory)
    : setFromHex view buf (some src) memory
      = .ok (decodeIntoView view buf memory "invalid hex string"
        (fromHex src view.byteLength)) := by
  simp [setFromHex, b64ValidateUint8array, b64RequireStringArg, checkLive, accepted.1, accepted.2]
  rfl

/-- The options that name an alphabet. -/
theorem named_options (alphabet : Alphabet) (omitPadding : Bool)
    : let options : OptionsArgument :=
        .object (.string (alphabetName alphabet)) (.string "loose") (some omitPadding)
      options.alphabet = .ok alphabet ∧ options.lastChunk = .ok .loose
        ∧ options.omitPadding = .ok omitPadding := by
  cases alphabet <;> exact ⟨rfl, rfl, rfl⟩

/-- The decoder reads what it has encoded. -/
theorem uint8arrayFromBase64_encode (alphabet : Alphabet) (omitPadding : Bool) (data : List UInt8)
    {memory : CodecMemory} (scratch : memory.scratch = true) (room : memory.result = true)
    : uint8arrayFromBase64 (some (encode alphabet omitPadding data))
        (.object (.string (alphabetName alphabet)) (.string "loose") (some omitPadding)) memory
      = .ok (.array data) := by
  obtain ⟨letters, last, -⟩ := named_options alphabet omitPadding
  have returns := fromBase64_returns (encode alphabet omitPadding data)
    ((encode alphabet omitPadding data).length / 4 * 3 + 3) alphabet .loose
  rw [decode_encode omitPadding data (length_encode alphabet omitPadding data)] at returns
  simp only [uint8arrayFromBase64, b64RequireStringArg, letters, last, scratch]
  exact congrArg Except.ok (decodedArray_eq room returns)

theorem uint8arrayFromHex_encode (data : List UInt8) {memory : CodecMemory}
    (scratch : memory.scratch = true) (room : memory.result = true)
    : uint8arrayFromHex (some (Base64.encodeHex data)) memory = .ok (.array data) := by
  have returns := fromHex_returns (Base64.encodeHex data)
    ((Base64.encodeHex data).length / 2 + 1)
  have enough : data.length ≤ (Base64.encodeHex data).length / 2 + 1 := by
    rw [length_encodeHex]
    omega
  rw [decodeHex_encode data enough] at returns
  simp only [uint8arrayFromHex, b64RequireStringArg, scratch]
  exact congrArg Except.ok (decodedArray_eq room returns)

/-- `from_base64` is the decoder of the proposal exactly if the text is not refused behind a group of
four characters, for which the proposal counts what is read and the code does not.
-/
theorem fromBase64_iff (src : List Nat) (maxLen : Nat) (alphabet : Alphabet) (lastChunk : LastChunk)
    : CodecHolds (.decode src maxLen alphabet lastChunk)
      ↔ CodecFits (.decode src maxLen alphabet lastChunk) := by
  obtain ⟨err, bytes, counts, refused⟩ := fromBase64_returns src maxLen alphabet lastChunk
  constructor
  · rintro ⟨-, read, -⟩ error
    rw [← read, (refused error).1]
  · intro fits
    refine ⟨err, ?_, bytes, bytes ▸ decode_le src⟩
    cases error : (Base64.decode src maxLen alphabet lastChunk).error with
    | true => rw [(refused error).1, fits error]
    | false => exact (counts error).1

/-- A call of the codecs is exact if and only if the stored length of its view is as good as that
of the elements. Witness: the decoder against that of the proposal, and what is read or written of a
view by its stored length.
-/
theorem codec_iff (call : CodecCall) (sound : call.Sound) : CodecHolds call ↔ CodecFits call := by
  cases call with
  | decode src maxLen alphabet lastChunk => exact fromBase64_iff src maxLen alphabet lastChunk
  | roundTrip view buf alphabet omitPadding memory =>
      obtain ⟨next, fits⟩ := sound
      obtain ⟨letters, -, padding⟩ := named_options alphabet omitPadding
      refine forall_congr' fun accepted => ?_
      rw [toBase64_accepted accepted letters padding]
      simp only [Except.ok.injEq]
      exact roundTrip_iff fits (live_of_accepted accepted) accepted
        (fun text => uint8arrayFromBase64 (some text) _ memory) (encodeBase64_eq alphabet omitPadding)
        fun data => uint8arrayFromBase64_encode alphabet omitPadding data
  | roundTripHex view buf memory =>
      obtain ⟨next, fits⟩ := sound
      refine forall_congr' fun accepted => ?_
      rw [toHex_accepted accepted]
      simp only [Except.ok.injEq]
      exact roundTrip_iff fits (live_of_accepted accepted) accepted
        (fun text => uint8arrayFromHex (some text) memory) encodeHex_eq
        fun data => uint8arrayFromHex_encode data
  | toBase64 view buf options memory =>
      obtain ⟨next, fits⟩ := sound
      refine forall₅_congr fun alphabet omitPadding accepted letters padding => ?_
      rw [toBase64_accepted accepted letters padding]
      simp only [Except.ok.injEq, exists_eq_left']
      exact encodeView_iff fits (live_of_accepted accepted) (encodeBase64_eq alphabet omitPadding)
        (encode_injective alphabet omitPadding)
  | toHex view buf memory =>
      obtain ⟨next, fits⟩ := sound
      refine forall_congr' fun accepted => ?_
      rw [toHex_accepted accepted]
      simp only [Except.ok.injEq, exists_eq_left']
      exact encodeView_iff fits (live_of_accepted accepted) encodeHex_eq encodeHex_injective
  | setFromBase64 view buf str options memory =>
      obtain ⟨next, fits⟩ := sound
      refine forall₃_congr fun src alphabet lastChunk =>
        forall₄_congr fun accepted given letters last => ?_
      rw [given, setFromBase64_accepted accepted letters last]
      simp only [Except.ok.injEq, exists_eq_left']
      exact decodeIntoView_iff fits (live_of_accepted accepted)
        (fun cap => fromBase64_returns src cap alphabet lastChunk)
        fun cap cap' more => decode_refused more
  | setFromHex view buf str memory =>
      obtain ⟨next, fits⟩ := sound
      refine forall₃_congr fun src accepted given => ?_
      rw [given, setFromHex_accepted accepted]
      simp only [Except.ok.injEq, exists_eq_left']
      exact decodeIntoView_iff fits (live_of_accepted accepted) (fromHex_returns src)
        fun cap cap' more => decodeHex_refused more


/-- A buffer of two bytes, which may have had more before. -/
def twoBytes (resizable : Bool) : ArrayBuffer := ⟨some ⟨0, [0xAB, 0xCD]⟩, 2, resizable, 8, false⟩

theorem twoBytes_fits (resizable : Bool) : BufferFits 1 (twoBytes resizable) where
  bounded := by
    change 2 ≤ detachedLength
    decide
  filled := fun _ => Nat.le_refl 2
  detached := fun gone => absurd gone (show (2 : Nat) ≠ detachedLength by decide)
  max := by
    change 8 < detachedLength
    decide
  growable := nofun
  addr := fun block found => by
    cases found
    exact Nat.one_pos

/-- An array over a buffer of its own is read as a whole. -/
theorem codec_iff_toHex
    : CodecHolds (.toHex ⟨.uint8array, 0, 0, 2, false⟩ (twoBytes false) ⟨true, true⟩) :=
  (codec_iff (.toHex ⟨.uint8array, 0, 0, 2, false⟩ (twoBytes false) ⟨true, true⟩)
    ⟨1, twoBytes_fits false⟩).mpr
    fun _ => ⟨rfl, .inr (by decide), rfl, rfl, by decide⟩

/-- A view keeps the length of four bytes that its buffer had when the view was made. Its text is that
of bytes behind the buffer too.
-/
theorem codec_strays
    : let view : View := ⟨.uint8array, 0, 0, 4, true⟩
      (CodecCall.toHex view (twoBytes true) ⟨true, true⟩).Sound
        ∧ toHex view (twoBytes true) ⟨true, true⟩ = .ok none
        ∧ ¬CodecHolds (.toHex view (twoBytes true) ⟨true, true⟩) := by
  intro view
  have strays : toHex view (twoBytes true) ⟨true, true⟩ = .ok none := rfl
  refine ⟨⟨1, twoBytes_fits true⟩, strays, fun holds => ?_⟩
  obtain ⟨result, is, ⟨chars, text, -⟩, -⟩ := holds ⟨rfl, rfl⟩
  rw [strays] at is
  cases is
  cases text

end Boomkat.Correctness
