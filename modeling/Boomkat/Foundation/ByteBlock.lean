import Mathlib.Tactic.Common

/-! Blocks of bytes with an address, from which is loaded and to which is stored below a bound. -/

namespace Boomkat.Foundation

structure ByteBlock where
  addr : Nat
  bytes : List UInt8

namespace ByteBlock

/-- The bytes from an index on. There is no result if one of them is not below the bound. -/
def load (block : ByteBlock) (bound start : Nat) : Nat → Option (List UInt8)
  | 0 => some []
  | n + 1 =>
      if start < bound then
        (block.bytes[start]?).bind fun byte =>
          (block.load bound (start + 1) n).map fun rest => byte :: rest
      else none

/-- Put bytes from an index on. There is no result if one of them is not below the bound. -/
def store (block : ByteBlock) (bound start : Nat) : List UInt8 → Option ByteBlock
  | [] => some block
  | byte :: bytes =>
      if start < bound ∧ start < block.bytes.length then
        store { block with bytes := block.bytes.set start byte } bound (start + 1) bytes
      else none

variable {block : ByteBlock} {bound start : Nat}

/-- What lies below the bound is loaded, if the block has bytes up to there. -/
theorem load_eq {n : Nat} (within : start + n ≤ bound) (filled : start + n ≤ block.bytes.length)
    : block.load bound start n = some ((block.bytes.drop start).take n) := by
  induction n generalizing start with
  | zero => simp [load]
  | succ n ih =>
      have rest := @ih (start + 1) (by omega) (by omega)
      have inside : start < block.bytes.length := by omega
      rw [load, if_pos (by omega), List.getElem?_eq_getElem inside, Option.bind_some, rest,
        List.drop_eq_getElem_cons inside]
      rfl

/-- What is loaded lies below the bound. -/
theorem load_within {n : Nat} {bytes : List UInt8} (loaded : block.load bound start n = some bytes)
    (some : 0 < n) : start + n ≤ bound := by
  induction n generalizing start bytes with
  | zero => exact absurd some (Nat.lt_irrefl 0)
  | succ n ih =>
      rw [load] at loaded
      split at loaded
      · obtain ⟨byte, -, loaded⟩ := Option.bind_eq_some_iff.mp loaded
        obtain ⟨rest, next, -⟩ := Option.map_eq_some_iff.mp loaded
        rcases Nat.eq_zero_or_pos n with rfl | more
        · omega
        · have := ih next more
          omega
      · cases loaded

/-- What is stored to lies below the bound. -/
theorem store_within {bytes : List UInt8} {stored : ByteBlock}
    (success : block.store bound start bytes = some stored)
    : bytes = [] ∨ start + bytes.length ≤ bound := by
  induction bytes generalizing start block with
  | nil => exact .inl rfl
  | cons byte bytes ih =>
      rw [store] at success
      split at success
      case isTrue inside =>
        rw [List.length_cons]
        rcases ih success with rfl | within
        · exact .inr (Nat.succ_le_of_lt inside.1)
        · exact .inr (by omega)
      case isFalse => cases success

/-- What lies below the bound is stored to, and the rest of the block is as it was. -/
theorem store_eq {bytes : List UInt8} (within : start + bytes.length ≤ bound)
    (filled : start + bytes.length ≤ block.bytes.length)
    : block.store bound start bytes
      = some { block with
          bytes := block.bytes.take start ++ bytes ++ block.bytes.drop (start + bytes.length) } := by
  induction bytes generalizing start block with
  | nil => simp [store]
  | cons byte bytes ih =>
      rw [List.length_cons] at within filled
      have inside : start < block.bytes.length := by omega
      have rest := @ih { block with bytes := block.bytes.set start byte } (start + 1) (by omega)
        (by rw [List.length_set]; omega)
      rw [store, if_pos ⟨by omega, inside⟩, rest]
      have front : (block.bytes.set start byte).take (start + 1) = block.bytes.take start ++ [byte] := by
        rw [List.take_add_one, List.take_set_of_le (Nat.le_refl start), List.getElem?_set_self inside]
        rfl
      have back : (block.bytes.set start byte).drop (start + 1 + bytes.length)
          = block.bytes.drop (start + (bytes.length + 1)) := by
        rw [List.drop_set_of_lt (by omega)]
        congr 1
        omega
      dsimp only
      rw [front, back, List.length_cons, List.append_assoc _ [byte]]
      rfl

/-- What lies below the bound can be loaded, if the block has bytes up to there. -/
theorem load_isSome {n : Nat} (within : start + n ≤ bound) (filled : bound ≤ block.bytes.length)
    : ∃ bytes, block.load bound start n = some bytes ∧ bytes.length = n :=
  ⟨_, load_eq within (Nat.le_trans within filled), by
    rw [List.length_take, List.length_drop]
    omega⟩

/-- What lies below the bound can be stored to, and the block keeps its address and its size. -/
theorem store_isSome {bytes : List UInt8} (within : start + bytes.length ≤ bound)
    (filled : bound ≤ block.bytes.length)
    : ∃ stored, block.store bound start bytes = some stored ∧ stored.addr = block.addr
      ∧ stored.bytes.length = block.bytes.length :=
  ⟨_, store_eq within (Nat.le_trans within filled), rfl, by
    simp only [List.length_append, List.length_take, List.length_drop]
    omega⟩

end ByteBlock

end Boomkat.Foundation
