import Mathlib.Algebra.Group.Nat.Defs
import Mathlib.Tactic.Common

/-! The byte sequences of UTF-8 for all codepoints, surrogates among them, and the code units of
UTF-16. Masks and shifts of the bytes are stated as arithmetic.
-/

namespace Boomkat.Utf8

-----------------------------------------------------------------------------------------
-- Sequences and units
-----------------------------------------------------------------------------------------

/-- The bytes of a codepoint, in up to four bytes. -/
def sequence (n : Nat) : List UInt8 :=
  if n < 0x80 then [UInt8.ofNat n]
  else if n < 0x800 then [UInt8.ofNat (0xC0 + n / 64), UInt8.ofNat (0x80 + n % 64)]
  else if n < 0x10000 then
    [UInt8.ofNat (0xE0 + n / 4096), UInt8.ofNat (0x80 + n / 64 % 64), UInt8.ofNat (0x80 + n % 64)]
  else
    [UInt8.ofNat (0xF0 + n / 262144), UInt8.ofNat (0x80 + n / 4096 % 64),
      UInt8.ofNat (0x80 + n / 64 % 64), UInt8.ofNat (0x80 + n % 64)]

theorem sequence_ne_nil (n : Nat) : sequence n ≠ [] := by
  rw [sequence]
  split
  · exact List.cons_ne_nil _ _
  split
  · exact List.cons_ne_nil _ _
  split <;> exact List.cons_ne_nil _ _

def IsHigh (n : Nat) : Prop := 0xD800 ≤ n ∧ n ≤ 0xDBFF

def IsLow (n : Nat) : Prop := 0xDC00 ≤ n ∧ n ≤ 0xDFFF

instance (n : Nat) : Decidable (IsHigh n) := inferInstanceAs (Decidable (_ ∧ _))

instance (n : Nat) : Decidable (IsLow n) := inferInstanceAs (Decidable (_ ∧ _))

/-- The first half of an astral codepoint. -/
def highOf (n : Nat) : Nat := 0xD800 + (n - 0x10000) / 1024

/-- The second half of an astral codepoint. -/
def lowOf (n : Nat) : Nat := 0xDC00 + (n - 0x10000) % 1024

/-- The codepoint of two halves. -/
def joined (high low : Nat) : Nat := 0x10000 + (high - 0xD800) * 1024 + (low - 0xDC00)

/-- The code units of a codepoint. -/
def units (n : Nat) : List Nat := if n < 0x10000 then [n] else [highOf n, lowOf n]

theorem highOf_isHigh {n : Nat} (bound : n < 0x110000) : IsHigh (highOf n) := by
  unfold IsHigh highOf
  omega

theorem lowOf_isLow (n : Nat) : IsLow (lowOf n) := by
  unfold IsLow lowOf
  omega

theorem joined_halves {n : Nat} (astral : 0x10000 ≤ n) : joined (highOf n) (lowOf n) = n := by
  unfold joined highOf lowOf
  omega

theorem units_lt {n u : Nat} (bound : n < 0x110000) (member : u ∈ units n) : u < 0x10000 := by
  have high := highOf_isHigh bound
  have low := lowOf_isLow n
  unfold IsHigh at high
  unfold IsLow at low
  unfold units at member
  split at member <;> simp only [List.mem_cons, List.not_mem_nil, or_false] at member <;> omega

theorem units_small {n : Nat} (small : n < 0x10000) : units n = [n] := if_pos small

theorem units_astral {n : Nat} (astral : 0x10000 ≤ n) : units n = [highOf n, lowOf n] :=
  if_neg (by omega)

/-- The encoding of a character is its sequence. -/
theorem utf8EncodeChar_eq (c : Char) : String.utf8EncodeChar c = sequence c.toNat := by
  have bound : c.toNat < 0x110000 := by
    have valid := c.valid
    simp only [UInt32.isValidChar, Nat.isValidChar] at valid
    change c.val.toNat < _
    omega
  unfold String.utf8EncodeChar sequence
  change (if c.toNat ≤ 0x7F then _ else _) = _
  by_cases one : c.toNat < 0x80
  · rw [if_pos one, if_pos (by omega)]
    rfl
  rw [if_neg one, if_neg (by omega)]
  change (if c.toNat ≤ 0x7FF then _ else _) = _
  by_cases two : c.toNat < 0x800
  · rw [if_pos two, if_pos (by omega)]
    change [UInt8.ofNat (c.toNat / 64 % 0x20 + 0xC0), UInt8.ofNat (c.toNat % 0x40 + 0x80)] = _
    rw [Nat.mod_eq_of_lt (by omega), Nat.add_comm, Nat.add_comm 0x80]
  rw [if_neg two, if_neg (by omega)]
  change (if c.toNat ≤ 0xFFFF then _ else _) = _
  by_cases three : c.toNat < 0x10000
  · rw [if_pos three, if_pos (by omega)]
    change [UInt8.ofNat (c.toNat / 4096 % 0x10 + 0xE0), UInt8.ofNat (c.toNat / 64 % 0x40 + 0x80),
      UInt8.ofNat (c.toNat % 0x40 + 0x80)] = _
    rw [Nat.mod_eq_of_lt (b := 0x10) (by omega), Nat.add_comm, Nat.add_comm 0x80,
      Nat.add_comm 0x80]
  rw [if_neg three, if_neg (by omega)]
  change [UInt8.ofNat (c.toNat / 262144 % 0x08 + 0xF0), UInt8.ofNat (c.toNat / 4096 % 0x40 + 0x80),
    UInt8.ofNat (c.toNat / 64 % 0x40 + 0x80), UInt8.ofNat (c.toNat % 0x40 + 0x80)] = _
  rw [Nat.mod_eq_of_lt (b := 0x08) (by omega), Nat.add_comm, Nat.add_comm 0x80, Nat.add_comm 0x80,
    Nat.add_comm 0x80]

-----------------------------------------------------------------------------------------
-- Masks of a byte
-----------------------------------------------------------------------------------------

theorem toNat_ofNat {n : Nat} (small : n < 256) : (UInt8.ofNat n).toNat = n := by
  rw [UInt8.toNat_ofNat', Nat.mod_eq_of_lt small]

/-- The test of a byte under a mask, from the test of its number. -/
theorem masked_beq (b mask value : UInt8) {p : Nat → Prop} [DecidablePred p]
    (numbers : ∀ n < 256, n &&& mask.toNat = value.toNat ↔ p n)
    : (b &&& mask == value) = decide (p b.toNat) := by
  rw [Bool.eq_iff_iff, beq_iff_eq, decide_eq_true_eq, ← numbers b.toNat b.toNat_lt,
    ← UInt8.toNat_inj, UInt8.toNat_and]

theorem lead2_iff (b : UInt8) : (b &&& 0xE0 == 0xC0) = decide (b.toNat / 32 = 6) :=
  masked_beq b 0xE0 0xC0 (p := fun n => n / 32 = 6) (by decide +kernel)

theorem lead3_iff (b : UInt8) : (b &&& 0xF0 == 0xE0) = decide (b.toNat / 16 = 14) :=
  masked_beq b 0xF0 0xE0 (p := fun n => n / 16 = 14) (by decide +kernel)

theorem lead4_iff (b : UInt8) : (b &&& 0xF8 == 0xF0) = decide (b.toNat / 8 = 30) :=
  masked_beq b 0xF8 0xF0 (p := fun n => n / 8 = 30) (by decide +kernel)

theorem tail_iff (b : UInt8) : (b &&& 0xC0 == 0x80) = decide (b.toNat / 64 = 2) :=
  masked_beq b 0xC0 0x80 (p := fun n => n / 64 = 2) (by decide +kernel)

-----------------------------------------------------------------------------------------
-- Payload bits
-----------------------------------------------------------------------------------------

/-- Bits above others are a sum. -/
theorem shift_or {a b k : Nat} (below : b < 2 ^ k) : a <<< k ||| b = a * 2 ^ k + b := by
  rw [← Nat.shiftLeft_add_eq_or_of_lt below, Nat.shiftLeft_eq]

/-- The low bits of a byte in a word. -/
theorem low_bits (b : UInt8) (mask : UInt32) {k : Nat} (isMask : mask.toNat = 2 ^ k - 1)
    : (b.toUInt32 &&& mask).toNat = b.toNat % 2 ^ k := by
  rw [UInt32.toNat_and, UInt8.toNat_toUInt32, isMask, Nat.and_two_pow_sub_one_eq_mod]

/-- A shift that stays within a word. -/
theorem toNat_shift {x k : UInt32} (narrow : k.toNat < 32)
    (fits : x.toNat * 2 ^ k.toNat < 2 ^ 32)
    : (x <<< k).toNat = x.toNat <<< k.toNat := by
  rw [UInt32.toNat_shiftLeft, Nat.mod_eq_of_lt narrow, Nat.mod_eq_of_lt]
  rwa [Nat.shiftLeft_eq]

theorem codepoint2 (b0 b1 : UInt8)
    : ((b0.toUInt32 &&& 0x1F) <<< 6 ||| (b1.toUInt32 &&& 0x3F)).toNat
      = b0.toNat % 32 * 64 + b1.toNat % 64 := by
  have high := low_bits b0 0x1F (k := 5) rfl
  have low := low_bits b1 0x3F (k := 6) rfl
  rw [UInt32.toNat_or, toNat_shift (by decide) (by rw [high]; change _ * 2 ^ 6 < _; omega), high,
    low]
  exact shift_or (Nat.mod_lt _ (by decide))

theorem codepoint3 (b0 b1 b2 : UInt8)
    : ((b0.toUInt32 &&& 0x0F) <<< 12 ||| (b1.toUInt32 &&& 0x3F) <<< 6
        ||| (b2.toUInt32 &&& 0x3F)).toNat
      = b0.toNat % 16 * 4096 + b1.toNat % 64 * 64 + b2.toNat % 64 := by
  have first := low_bits b0 0x0F (k := 4) rfl
  have second := low_bits b1 0x3F (k := 6) rfl
  have third := low_bits b2 0x3F (k := 6) rfl
  rw [UInt32.toNat_or, UInt32.toNat_or,
    toNat_shift (by decide) (by rw [first]; change _ * 2 ^ 12 < _; omega),
    toNat_shift (by decide) (by rw [second]; change _ * 2 ^ 6 < _; omega), first, second, third]
  change (b0.toNat % 16) <<< 12 ||| (b1.toNat % 64) <<< 6 ||| b2.toNat % 64 = _
  have inner : (b1.toNat % 64) <<< 6 < 2 ^ 12 := by
    rw [Nat.shiftLeft_eq]
    omega
  have merged : (b0.toNat % 16) <<< 12 ||| (b1.toNat % 64) <<< 6
      = (b0.toNat % 16 * 64 + b1.toNat % 64) <<< 6 := by
    rw [shift_or inner, Nat.shiftLeft_eq, Nat.shiftLeft_eq]
    omega
  have low : b2.toNat % 64 < 2 ^ 6 := Nat.mod_lt _ (by decide)
  rw [merged, shift_or low]
  omega

theorem codepoint4 (b0 b1 b2 b3 : UInt8)
    : ((b0.toUInt32 &&& 0x07) <<< 18 ||| (b1.toUInt32 &&& 0x3F) <<< 12
        ||| (b2.toUInt32 &&& 0x3F) <<< 6 ||| (b3.toUInt32 &&& 0x3F)).toNat
      = b0.toNat % 8 * 262144 + b1.toNat % 64 * 4096 + b2.toNat % 64 * 64 + b3.toNat % 64 := by
  have first := low_bits b0 0x07 (k := 3) rfl
  have second := low_bits b1 0x3F (k := 6) rfl
  have third := low_bits b2 0x3F (k := 6) rfl
  have fourth := low_bits b3 0x3F (k := 6) rfl
  rw [UInt32.toNat_or, UInt32.toNat_or, UInt32.toNat_or,
    toNat_shift (by decide) (by rw [first]; change _ * 2 ^ 18 < _; omega),
    toNat_shift (by decide) (by rw [second]; change _ * 2 ^ 12 < _; omega),
    toNat_shift (by decide) (by rw [third]; change _ * 2 ^ 6 < _; omega), first, second, third,
    fourth]
  change (b0.toNat % 8) <<< 18 ||| (b1.toNat % 64) <<< 12 ||| (b2.toNat % 64) <<< 6
    ||| b3.toNat % 64 = _
  have outer : (b1.toNat % 64) <<< 12 < 2 ^ 18 := by
    rw [Nat.shiftLeft_eq]
    omega
  have inner : (b2.toNat % 64) <<< 6 < 2 ^ 12 := by
    rw [Nat.shiftLeft_eq]
    omega
  have two : (b0.toNat % 8) <<< 18 ||| (b1.toNat % 64) <<< 12
      = (b0.toNat % 8 * 64 + b1.toNat % 64) <<< 12 := by
    rw [shift_or outer, Nat.shiftLeft_eq, Nat.shiftLeft_eq]
    omega
  have three : (b0.toNat % 8 * 64 + b1.toNat % 64) <<< 12 ||| (b2.toNat % 64) <<< 6
      = ((b0.toNat % 8 * 64 + b1.toNat % 64) * 64 + b2.toNat % 64) <<< 6 := by
    rw [shift_or inner, Nat.shiftLeft_eq, Nat.shiftLeft_eq]
    omega
  have low : b3.toNat % 64 < 2 ^ 6 := Nat.mod_lt _ (by decide)
  rw [two, three, shift_or low]
  omega

theorem ascii_iff (b : UInt8) : b < 0x80 ↔ b.toNat < 128 := UInt8.lt_iff_toNat_lt

end Boomkat.Utf8
