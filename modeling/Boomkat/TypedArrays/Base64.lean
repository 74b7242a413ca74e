import Boomkat.TypedArrays.Calls
import Boomkat.Foundation.Base64

/-! Base64 and hex of `Uint8Array`: the two decoders with their capacity, the encoders, and the calls
over views. What the options are is given, and the buffer is the one that reading them leaves.
-/

namespace Boomkat.TypedArrays
open Base64 (Alphabet LastChunk)

-----------------------------------------------------------------------------------------
-- Characters
-----------------------------------------------------------------------------------------

/-- White space in place of a sextet. -/
def b64KWs : Nat := 64

/-- An illegal character in place of a sextet. -/
def b64KEr : Nat := 65

def b64DecodeChar (cp : Nat) (alphabet : Alphabet) : Nat :=
  if 128 ≤ cp then b64KEr
  else if cp = 0x09 ∨ cp = 0x0A ∨ cp = 0x0C ∨ cp = 0x0D ∨ cp = 0x20 then b64KWs
  else if 0x41 ≤ cp ∧ cp ≤ 0x5A then cp - 0x41
  else if 0x61 ≤ cp ∧ cp ≤ 0x7A then cp - 0x61 + 26
  else if 0x30 ≤ cp ∧ cp ≤ 0x39 then cp - 0x30 + 52
  else
    match alphabet with
    | .base64url => if cp = 0x2D then 62 else if cp = 0x5F then 63 else b64KEr
    | .base64 => if cp = 0x2B then 62 else if cp = 0x2F then 63 else b64KEr

def hexDecodeChar (cp : Nat) : Option Nat :=
  if 0x30 ≤ cp ∧ cp ≤ 0x39 then some (cp - 0x30)
  else if 0x61 ≤ cp ∧ cp ≤ 0x66 then some (cp - 0x61 + 10)
  else if 0x41 ≤ cp ∧ cp ≤ 0x46 then some (cp - 0x41 + 10)
  else none

/-- The letters and digits that both alphabets start with. -/
def alphanumerics : List Nat :=
  (List.range 26).map (0x41 + ·) ++ (List.range 26).map (0x61 + ·) ++ (List.range 10).map (0x30 + ·)

/-- `B64_ENC` and `B64URL_ENC` -/
def b64Enc : Alphabet → List Nat
  | .base64 => alphanumerics ++ [0x2B, 0x2F]
  | .base64url => alphanumerics ++ [0x2D, 0x5F]

def hexDigits : List Nat := (List.range 10).map (0x30 + ·) ++ (List.range 6).map (0x61 + ·)

-----------------------------------------------------------------------------------------
-- Decoding of base64
-----------------------------------------------------------------------------------------

structure B64DecodeResult where
  read : Nat
  written : Nat
  err : Bool
  deriving DecidableEq

/-- The variables of `from_base64`: what is left of the source from `index` on, and the bytes that
are written, in their order.
-/
structure DecodeState where
  rest : List Nat
  read : Nat
  acc : Nat
  seen : Nat
  dst : List UInt8

/-- What a turn of the loop comes to: the next one, a return, or a break. -/
inductive DecodeTurn where
  | goOn (s : DecodeState)
  | returned (r : B64DecodeResult) (dst : List UInt8)
  | broken (s : DecodeState)

/-- The three bytes of a complete group. -/
def groupBytes (v : Nat) : List UInt8 :=
  [UInt8.ofNat (v >>> 16), UInt8.ofNat (v >>> 8), UInt8.ofNat v]

section
variable (srcLen maxLen : Nat) (alphabet : Alphabet) (lastChunk : LastChunk)

/-- The fast path: complete groups of four characters, as long as there is room for three bytes. -/
def decodeGroups : List Nat → List UInt8 → List Nat × List UInt8
  | c0 :: c1 :: c2 :: c3 :: rest, dst =>
      let v0 := b64DecodeChar c0 alphabet
      let v1 := b64DecodeChar c1 alphabet
      let v2 := b64DecodeChar c2 alphabet
      let v3 := b64DecodeChar c3 alphabet
      if dst.length + 3 ≤ maxLen ∧ v0 ||| v1 ||| v2 ||| v3 < 64 then
        decodeGroups rest (dst ++ groupBytes (v0 <<< 18 ||| v1 <<< 12 ||| v2 <<< 6 ||| v3))
      else (c0 :: c1 :: c2 :: c3 :: rest, dst)
  | rest, dst => (rest, dst)

/-- What is left behind white space. -/
def skipAsciiWhitespace (rest : List Nat) : List Nat :=
  rest.dropWhile fun cp => b64DecodeChar cp alphabet == b64KWs

/-- The return on an error. -/
def DecodeState.fail (s : DecodeState) : DecodeTurn := .returned ⟨0, 0, true⟩ s.dst

/-- The return before the end of the source. -/
def DecodeState.stop (s : DecodeState) : DecodeTurn := .returned ⟨s.read, s.dst.length, false⟩ s.dst

/-- Behind the padding, where only white space is allowed. -/
def DecodeState.padded (s : DecodeState) (rest : List Nat) : DecodeTurn :=
  if rest ≠ [] then s.fail
  else if lastChunk = .strict ∧ s.acc &&& (if s.seen = 2 then 0xF else 0x3) ≠ 0 then s.fail
  else .broken s

/-- Behind the first `=`. -/
def DecodeState.padding (s : DecodeState) (rest : List Nat) : DecodeTurn :=
  if s.seen < 2 then s.fail
  else
    if s.seen = 2 then
      match skipAsciiWhitespace alphabet rest with
      | [] => if lastChunk = .stopBeforePartial then s.stop else s.fail
      | ch :: rest =>
          if ch = 0x3D then s.padded lastChunk (skipAsciiWhitespace alphabet rest) else s.fail
    else s.padded lastChunk (skipAsciiWhitespace alphabet rest)

/-- The slow path: white space, padding, partial groups, and the capacity. -/
def DecodeState.slow (s : DecodeState) : DecodeTurn :=
  match skipAsciiWhitespace alphabet s.rest with
  | [] =>
      if 0 < s.seen then
        match lastChunk with
        | .stopBeforePartial => s.stop
        | .strict => s.fail
        | .loose => if s.seen = 1 then s.fail else .broken s
      else .returned ⟨srcLen, s.dst.length, false⟩ s.dst
  | ch :: rest =>
      if ch = 0x3D then s.padding alphabet lastChunk rest
      else
        let v := b64DecodeChar ch alphabet
        if 64 ≤ v then s.fail
        else
          let remaining := maxLen - s.dst.length
          if (remaining = 1 ∧ s.seen = 2) ∨ (remaining = 2 ∧ s.seen = 3) then s.stop
          else
            let acc := s.acc <<< 6 ||| v
            if s.seen + 1 = 4 then
              let s' : DecodeState := ⟨rest, srcLen - rest.length, 0, 0, s.dst ++ groupBytes acc⟩
              if maxLen ≤ s'.dst.length then s'.stop else .goOn s'
            else .goOn { s with rest := rest, acc := acc, seen := s.seen + 1 }

/-- Between groups, the fast path comes first. -/
def DecodeState.turn (s : DecodeState) : DecodeTurn :=
  if s.seen = 0 then
    let groups := decodeGroups maxLen alphabet s.rest s.dst
    let s := { s with rest := groups.1, read := srcLen - groups.1.length, dst := groups.2 }
    if maxLen ≤ s.dst.length then s.stop else s.slow srcLen maxLen alphabet lastChunk
  else s.slow srcLen maxLen alphabet lastChunk

theorem length_decodeGroups (rest : List Nat) (dst : List UInt8)
    : (decodeGroups maxLen alphabet rest dst).1.length ≤ rest.length := by
  fun_induction decodeGroups maxLen alphabet rest dst with
  | case1 c0 c1 c2 c3 rest dst v0 v1 v2 v3 fits ih =>
      simp only [List.length_cons]
      omega
  | case2 => exact Nat.le_refl _
  | case3 => exact Nat.le_refl _

theorem padded_ends (s s' : DecodeState) (rest : List Nat) : s.padded lastChunk rest ≠ .goOn s' := by
  intro next
  unfold DecodeState.padded DecodeState.fail at next
  split_ifs at next

theorem padding_ends (s s' : DecodeState) (rest : List Nat)
    : s.padding alphabet lastChunk rest ≠ .goOn s' := by
  intro next
  unfold DecodeState.padding DecodeState.fail DecodeState.stop at next
  split at next
  · cases next
  split at next
  · split at next
    · split at next <;> cases next
    split at next
    · exact padded_ends lastChunk s s' _ next
    · cases next
  · exact padded_ends lastChunk s s' _ next

theorem slow_shorter {s s' : DecodeState} (next : s.slow srcLen maxLen alphabet lastChunk = .goOn s')
    : s'.rest.length < s.rest.length := by
  have shorter : (skipAsciiWhitespace alphabet s.rest).length ≤ s.rest.length :=
    (List.dropWhile_suffix _).length_le
  unfold DecodeState.slow DecodeState.fail DecodeState.stop at next
  split at next
  · split at next
    · split at next
      · cases next
      · cases next
      · split at next <;> cases next
    · cases next
  case h_2 ch rest skipped =>
    rw [skipped, List.length_cons] at shorter
    split at next
    · exact absurd next (padding_ends alphabet lastChunk s s' rest)
    dsimp only at next
    split at next
    · cases next
    split at next
    · cases next
    split at next
    · split at next
      · cases next
      · cases next
        exact shorter
    · cases next
      exact shorter

/-- A turn with a next one takes a character at least. -/
theorem turn_shorter {s s' : DecodeState} (next : s.turn srcLen maxLen alphabet lastChunk = .goOn s')
    : s'.rest.length < s.rest.length := by
  rw [DecodeState.turn] at next
  split at next
  · dsimp only at next
    split at next
    · cases next
    · exact Nat.lt_of_lt_of_le (slow_shorter srcLen maxLen alphabet lastChunk next)
        (length_decodeGroups maxLen alphabet s.rest s.dst)
  · exact slow_shorter srcLen maxLen alphabet lastChunk next

/-- Behind the loop, the bytes of a partial group. -/
def DecodeState.finish (s : DecodeState) : B64DecodeResult × List UInt8 :=
  let dst :=
    if s.seen = 2 then s.dst ++ [UInt8.ofNat (s.acc >>> 4)]
    else if s.seen = 3 then s.dst ++ [UInt8.ofNat (s.acc >>> 10), UInt8.ofNat (s.acc >>> 2)]
    else s.dst
  (⟨srcLen, dst.length, false⟩, dst)

def decodeLoop (s : DecodeState) : B64DecodeResult × List UInt8 :=
  match _next : s.turn srcLen maxLen alphabet lastChunk with
  | .goOn s' => decodeLoop s'
  | .returned r dst => (r, dst)
  | .broken s' => s'.finish srcLen
termination_by s.rest.length
decreasing_by exact turn_shorter srcLen maxLen alphabet lastChunk ‹_›

end

/-- `from_base64`, with the bytes that it writes to `dst` from its start on. -/
def fromBase64 (src : List Nat) (maxLen : Nat) (alphabet : Alphabet) (lastChunk : LastChunk)
    : B64DecodeResult × List UInt8 :=
  if maxLen = 0 then (⟨0, 0, false⟩, [])
  else decodeLoop src.length maxLen alphabet lastChunk ⟨src, 0, 0, 0, []⟩

-----------------------------------------------------------------------------------------
-- Hex and the encoders
-----------------------------------------------------------------------------------------

/-- The loop of `from_hex`, and how many characters it has read. A length that is odd is refused
before.
-/
def hexLoop (maxLen read : Nat) (dst : List UInt8) : List Nat → B64DecodeResult × List UInt8
  | c0 :: c1 :: rest =>
      if dst.length < maxLen then
        match hexDecodeChar c0, hexDecodeChar c1 with
        | some hi, some lo => hexLoop maxLen (read + 2) (dst ++ [UInt8.ofNat (hi <<< 4 ||| lo)]) rest
        | _, _ => (⟨0, 0, true⟩, dst)
      else (⟨read, dst.length, false⟩, dst)
  | _ => (⟨read, dst.length, false⟩, dst)

/-- `from_hex`, with the bytes that it writes to `dst` from its start on. -/
def fromHex (src : List Nat) (maxLen : Nat) : B64DecodeResult × List UInt8 :=
  if src.length &&& 1 ≠ 0 then (⟨0, 0, true⟩, []) else hexLoop maxLen 0 [] src

/-- The character of a sextet. -/
def encodeChar (alphabet : Alphabet) (v : Nat) : UInt8 :=
  UInt8.ofNat ((b64Enc alphabet).getD (v &&& 63) 0)

/-- The loop of `to_base64`, and the partial group behind it. -/
def encodeBase64 (alphabet : Alphabet) (omitPadding : Bool) : List UInt8 → List UInt8
  | b0 :: b1 :: b2 :: rest =>
      let v := b0.toNat <<< 16 ||| b1.toNat <<< 8 ||| b2.toNat
      [encodeChar alphabet (v >>> 18), encodeChar alphabet (v >>> 12), encodeChar alphabet (v >>> 6),
        encodeChar alphabet v] ++ encodeBase64 alphabet omitPadding rest
  | [b0, b1] =>
      let v := b0.toNat <<< 16 ||| b1.toNat <<< 8
      [encodeChar alphabet (v >>> 18), encodeChar alphabet (v >>> 12), encodeChar alphabet (v >>> 6)]
        ++ if omitPadding then [] else [0x3D]
  | [b0] =>
      let v := b0.toNat <<< 16
      [encodeChar alphabet (v >>> 18), encodeChar alphabet (v >>> 12)]
        ++ if omitPadding then [] else [0x3D, 0x3D]
  | [] => []

/-- The digit of a nibble. -/
def hexDigit (v : Nat) : UInt8 := UInt8.ofNat (hexDigits.getD v 0)

def encodeHex (data : List UInt8) : List UInt8 :=
  data.flatMap fun b => [hexDigit (b.toNat >>> 4 &&& 0xF), hexDigit (b.toNat &&& 0xF)]

-----------------------------------------------------------------------------------------
-- Options
-----------------------------------------------------------------------------------------

/-- What a call comes to. -/
inductive CodecOutcome where
  | thrown
  | typeError (message : String)
  | syntaxError (message : String)
  | rangeError (message : String)
  | text (chars : List UInt8)
  | array (bytes : List UInt8)
  | counts (read written : Nat)
  deriving DecidableEq

/-- What reading an option comes to. -/
inductive OptionValue where
  | thrown
  | undefined
  | notString
  | string (text : String)

/-- The options argument. Reading `omitPadding` gives a truth value, or throws. -/
inductive OptionsArgument where
  | undefined
  | notObject
  | object (alphabet lastChunk : OptionValue) (omitPadding : Option Bool)

/-- `b64_get_options_object` and `b64_get_alphabet_option` -/
def OptionsArgument.alphabet : OptionsArgument → Except CodecOutcome Alphabet
  | .undefined => .ok .base64
  | .notObject => .error (.typeError "options must be an object or undefined")
  | .object .thrown _ _ => .error .thrown
  | .object .undefined _ _ => .ok .base64
  | .object .notString _ _ => .error (.typeError "alphabet must be a string")
  | .object (.string s) _ _ =>
      if s = "base64" then .ok .base64
      else if s = "base64url" then .ok .base64url
      else .error (.typeError "invalid alphabet")

/-- `b64_get_last_chunk_option` -/
def OptionsArgument.lastChunk : OptionsArgument → Except CodecOutcome LastChunk
  | .undefined | .notObject => .ok .loose
  | .object _ .thrown _ => .error .thrown
  | .object _ .undefined _ => .ok .loose
  | .object _ .notString _ => .error (.typeError "lastChunkHandling must be a string")
  | .object _ (.string s) _ =>
      if s = "loose" then .ok .loose
      else if s = "strict" then .ok .strict
      else if s = "stop-before-partial" then .ok .stopBeforePartial
      else .error (.typeError "invalid lastChunkHandling")

def OptionsArgument.omitPadding : OptionsArgument → Except CodecOutcome Bool
  | .undefined | .notObject => .ok false
  | .object _ _ none => .error .thrown
  | .object _ _ (some omitPadding) => .ok omitPadding

-----------------------------------------------------------------------------------------
-- The calls
-----------------------------------------------------------------------------------------

/-- Whether there is memory for the scratch bytes of a call and for its result. -/
structure CodecMemory where
  scratch : Bool
  result : Bool

def maxStringBytes : Nat := 0x3FFFFFFF

def outOfMemory : CodecOutcome := .rangeError "out of memory"

/-- `b64_require_string_arg`, on a string's code units if the argument is one. -/
def b64RequireStringArg (str : Option (List Nat)) : Except CodecOutcome (List Nat) :=
  match str with
  | some src => .ok src
  | none => .error (.typeError "argument must be a string")

def b64ValidateUint8array (view : View) : Except CodecOutcome Unit :=
  if view.cls = .uint8array then .ok () else .error (.typeError "receiver is not a Uint8Array")

/-- The check when the options are read. -/
def checkLive (view : View) (buf : ArrayBuffer) : Except CodecOutcome Unit :=
  if viewIsOutOfBounds view buf then .error (.typeError "Uint8Array buffer is detached") else .ok ()

/-- The result string. One that is too long is refused as if there was no memory. -/
def internResult (memory : CodecMemory) (chars : List UInt8) : CodecOutcome :=
  if memory.result ∧ chars.length ≤ maxStringBytes then .text chars else outOfMemory

/-- The new array of `Uint8Array.fromBase64` and of `Uint8Array.fromHex`. -/
def decodedArray (memory : CodecMemory) (refusal : String) (decoded : B64DecodeResult × List UInt8)
    : CodecOutcome :=
  if decoded.1.err then .syntaxError refusal
  else if memory.result then .array (decoded.2.take decoded.1.written)
  else .rangeError "TypedArray: out of memory"

/-- `builtin_uint8array_from_base64` -/
def uint8arrayFromBase64 (str : Option (List Nat)) (options : OptionsArgument) (memory : CodecMemory)
    : Except CodecOutcome CodecOutcome := do
  let src ← b64RequireStringArg str
  let alphabet ← options.alphabet
  let lastChunk ← options.lastChunk
  if memory.scratch then
    let outCap := src.length / 4 * 3 + 3
    pure (decodedArray memory "invalid base64 string" (fromBase64 src outCap alphabet lastChunk))
  else throw outOfMemory

/-- `builtin_uint8array_from_hex` -/
def uint8arrayFromHex (str : Option (List Nat)) (memory : CodecMemory)
    : Except CodecOutcome CodecOutcome := do
  let src ← b64RequireStringArg str
  if memory.scratch then
    let outCap := src.length / 2 + 1
    pure (decodedArray memory "invalid hex string" (fromHex src outCap))
  else throw outOfMemory

/-- The text of a view's bytes. There is no result if a byte is read that is not one of the buffer's
data.
-/
def encodeView (view : View) (buf : ArrayBuffer) (memory : CodecMemory)
    (encode : List UInt8 → List UInt8)
    : Option CodecOutcome :=
  if memory.scratch then
    (buf.load (view.base buf) view.byteLength).map fun data => internResult memory (encode data)
  else some outOfMemory

/-- `builtin_uint8array_proto_to_base64` from the checks on -/
def toBase64 (view : View) (buf : ArrayBuffer) (options : OptionsArgument) (memory : CodecMemory)
    : Except CodecOutcome (Option CodecOutcome) := do
  b64ValidateUint8array view
  let alphabet ← options.alphabet
  let omitPadding ← options.omitPadding
  checkLive view buf
  pure (encodeView view buf memory (encodeBase64 alphabet omitPadding))

/-- `builtin_uint8array_proto_to_hex` -/
def toHex (view : View) (buf : ArrayBuffer) (memory : CodecMemory)
    : Except CodecOutcome (Option CodecOutcome) := do
  b64ValidateUint8array view
  checkLive view buf
  pure (encodeView view buf memory encodeHex)

/-- Decode into a view. There is no result if a byte is written that is not one of the buffer's
data.
-/
def decodeIntoView (view : View) (buf : ArrayBuffer) (memory : CodecMemory) (refusal : String)
    (decoded : B64DecodeResult × List UInt8)
    : Option (CodecOutcome × ArrayBuffer) :=
  (buf.store (view.base buf) decoded.2).map fun buf' =>
    (if decoded.1.err then .syntaxError refusal
      else if memory.result then .counts decoded.1.read decoded.1.written
      else outOfMemory, buf')

/-- `builtin_uint8array_proto_set_from_base64` -/
def setFromBase64 (view : View) (buf : ArrayBuffer) (str : Option (List Nat))
    (options : OptionsArgument) (memory : CodecMemory)
    : Except CodecOutcome (Option (CodecOutcome × ArrayBuffer)) := do
  b64ValidateUint8array view
  let src ← b64RequireStringArg str
  let alphabet ← options.alphabet
  let lastChunk ← options.lastChunk
  checkLive view buf
  pure (decodeIntoView view buf memory "invalid base64 string"
    (fromBase64 src view.byteLength alphabet lastChunk))

/-- `builtin_uint8array_proto_set_from_hex` -/
def setFromHex (view : View) (buf : ArrayBuffer) (str : Option (List Nat)) (memory : CodecMemory)
    : Except CodecOutcome (Option (CodecOutcome × ArrayBuffer)) := do
  b64ValidateUint8array view
  let src ← b64RequireStringArg str
  checkLive view buf
  pure (decodeIntoView view buf memory "invalid hex string" (fromHex src view.byteLength))

end Boomkat.TypedArrays
