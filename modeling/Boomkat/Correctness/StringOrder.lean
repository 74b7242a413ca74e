import Boomkat.Correctness.Cesu8
import Boomkat.Foundation.Lexicographic
import Boomkat.Strings.Order

/-! Strings are in the order of their code units, because the sequences of code units are. -/

namespace Boomkat.Correctness

open Foundation Strings Utf8

/-- A string in the canonical encoding of its code units. -/
structure CanonicalString where
  units : List Nat
  small : ∀ u ∈ units, u < 0x10000
  bounded : (cesu8 units).length ≤ maxStringBytes

def CanonicalString.stored (s : CanonicalString) : StoredString := ⟨cesu8 s.units, s.bounded⟩

-----------------------------------------------------------------------------------------
-- Bytes
-----------------------------------------------------------------------------------------

theorem compare_lt_iff (b c : UInt8) : compare b c = .lt ↔ b.toNat < c.toNat := by
  rw [Std.compare_eq_lt]
  exact UInt8.lt_iff_toNat_lt

/-- Where the first byte does not decide, the bytes behind it do. -/
theorem separated_byte {b c : UInt8} {bs cs : List UInt8} (below : b.toNat ≤ c.toNat)
    (rest : b.toNat = c.toNat → Separated bs cs) : Separated (b :: bs) (c :: cs) := by
  rcases Nat.lt_or_eq_of_le below with less | same
  · exact separated_here ((compare_lt_iff b c).mpr less) bs cs
  · rw [UInt8.toNat_inj.mp same]
    exact (rest same).cons c

/-- The sequences of two code units differ at a byte that is in the order of the units. -/
theorem sequence_separated {m n : Nat} (below : m < n) (small : n < 0x10000)
    : Separated (sequence m) (sequence n) := by
  rcases sequence_cases (show m < 0x110000 by omega) with ⟨ascii, b, is, value⟩
    | ⟨low, high, b0, b1, is, first, second⟩ | ⟨low, high, b0, b1, b2, is, first, second, third⟩
    | ⟨astral, -⟩
  all_goals
    rcases sequence_cases (show n < 0x110000 by omega) with ⟨ascii', c, is', value'⟩
      | ⟨low', high', c0, c1, is', first', second'⟩
      | ⟨low', high', c0, c1, c2, is', first', second', third'⟩ | ⟨astral', -⟩
  all_goals try omega
  all_goals rw [is, is']
  -- as many bytes: the first one that differs
  case inl.inl => exact separated_byte (by omega) fun same => by omega
  case inr.inl.inr.inl =>
    exact separated_byte (by omega) fun same => separated_byte (by omega) fun same' => by omega
  case inr.inr.inl.inr.inr.inl =>
    exact separated_byte (by omega) fun same => separated_byte (by omega) fun same' =>
      separated_byte (by omega) fun same'' => by omega
  -- fewer bytes: the first one is below
  all_goals exact separated_byte (by omega) fun same => by omega

theorem compare_cesu8 {us vs : List Nat} (small : ∀ u ∈ us, u < 0x10000)
    (small' : ∀ v ∈ vs, v < 0x10000) : compare (cesu8 us) (cesu8 vs) = compare us vs := by
  refine compare_flatMap sequence_ne_nil fun a _ b member below => ?_
  have bound : b < 0x10000 := by
    rcases List.mem_append.mp member with left | right
    · exact small b left
    · exact small' b right
  exact sequence_separated (Nat.compare_eq_lt.mp below) bound

-----------------------------------------------------------------------------------------
-- The comparison of the source
-----------------------------------------------------------------------------------------

/-- The comparison of the bytes that both have, and of the lengths behind it. -/
theorem byteCompare_sign (as bs : List UInt8)
    : (let n := min as.length bs.length
      let cmp := byteCompare (as.take n) (bs.take n)
      if cmp ≠ 0 then cmp
      else if as.length = bs.length then 0
      else if as.length > bs.length then 1 else -1) = orderSign (compare as bs) := by
  dsimp only
  induction as generalizing bs with
  | nil => cases bs <;> rfl
  | cons a as ih =>
      cases bs with
      | nil => rfl
      | cons b bs =>
          rw [List.length_cons, List.length_cons, Nat.succ_min_succ, List.take_succ_cons,
            List.take_succ_cons, byteCompare, List.compare_cons_cons]
          by_cases same : a = b
          · have rest := ih bs
            rw [if_neg (not_not.mpr same), same, Std.ReflOrd.compare_self]
            simpa using rest
          · rw [if_pos same]
            by_cases below : a < b
            · rw [if_pos below, Std.compare_eq_lt.mpr below]
              rfl
            · have above : compare a b = .gt := by
                rw [Std.compare_eq_gt]
                exact UInt8.lt_of_le_of_ne (UInt8.not_lt.mp below) (Ne.symm same)
              rw [if_neg below, above]
              rfl

theorem lengthThroughInt_eq {n : Nat} (bounded : n ≤ maxStringBytes) : lengthThroughInt n = n := by
  simp only [maxStringBytes] at bounded
  have positive : (BitVec.ofNat 32 n).msb = false := by
    simp only [BitVec.msb_eq_decide, BitVec.toNat_ofNat, decide_eq_false_iff_not]
    omega
  rw [lengthThroughInt, BitVec.toNat_signExtend, positive, BitVec.toNat_setWidth,
    BitVec.toNat_ofNat]
  simp only [Bool.false_eq_true, if_false]
  omega

theorem hstringCompare_bytes (a b : StoredString)
    : hstringCompare a b = orderSign (compare a.data b.data) := by
  have shorter : (if a.blen < b.blen then a.blen else b.blen) = min a.data.length b.data.length := by
    by_cases less : a.blen < b.blen
    · rw [if_pos less]
      exact (Nat.min_eq_left less.le).symm
    · rw [if_neg less]
      exact (Nat.min_eq_right (Nat.le_of_not_lt less)).symm
  have bounded : min a.data.length b.data.length ≤ maxStringBytes :=
    (Nat.min_le_left _ _).trans a.bounded
  rw [← byteCompare_sign, hstringCompare, shorter, lengthThroughInt_eq bounded]
  rfl

/-- A relation of two words by their order. -/
def RelationalOp.ofOrder : RelationalOp → Ordering → Bool
  | .lt, order => order.isLT
  | .le, order => order.isLE
  | .gt, order => order.isGT
  | .ge, order => order.isGE

/-- Strings compare as their code units do, in the order in which a proper prefix is smaller.
Witness: the first byte at which the sequences of two code units differ.
-/
theorem hstringCompare_units (a b : CanonicalString)
    : hstringCompare a.stored b.stored = orderSign (compare a.units b.units)
      ∧ vmRelationalCompare a.stored b.stored = orderSign (compare a.units b.units)
      ∧ ∀ op, relational op a.stored b.stored
        = RelationalOp.ofOrder op (compare a.units b.units) := by
  have bytes : hstringCompare a.stored b.stored = orderSign (compare a.units b.units) := by
    rw [hstringCompare_bytes, ← compare_cesu8 a.small b.small]
    rfl
  have relation : vmRelationalCompare a.stored b.stored
      = orderSign (compare a.units b.units) := by
    rw [vmRelationalCompare, bytes]
    cases compare a.units b.units <;> rfl
  refine ⟨bytes, relation, fun op => ?_⟩
  rw [relational, relation]
  cases op <;> cases compare a.units b.units <;> rfl

end Boomkat.Correctness
