import Boomkat.Strings.Offsets
import Boomkat.Correctness.Cesu8

/-! Scans over the bytes of a canonical string, forward and backward, count its code units. -/

namespace Boomkat.Correctness
open Strings Utf8

-----------------------------------------------------------------------------------------
-- Plain scans
-----------------------------------------------------------------------------------------

/-- The bytes that a string of code units is stored as. -/
def canonical (us : List UInt16) : List UInt8 := us.flatMap fun u => sequence u.toNat

/-- The offset behind the first `n` units, by a forward scan from the start. -/
def forwardScan : List UInt16 → Nat → Nat
  | u :: us, n + 1 => (sequence u.toNat).length + forwardScan us n
  | _, _ => 0

/-- The number of units in front of a byte offset, by a forward scan from the start. -/
def forwardCount : List UInt16 → Nat → Nat
  | u :: us, b => if b = 0 then 0 else forwardCount us (b - (sequence u.toNat).length) + 1
  | [], _ => 0

@[simp] theorem canonical_nil : canonical [] = [] := rfl

@[simp] theorem canonical_cons (u : UInt16) (us : List UInt16)
    : canonical (u :: us) = sequence u.toNat ++ canonical us :=
  rfl

@[simp] theorem canonical_append (us us' : List UInt16)
    : canonical (us ++ us') = canonical us ++ canonical us' :=
  List.flatMap_append

theorem toNat_bound (u : UInt16) : u.toNat < 0x110000 := by
  have small := u.toNat_lt
  omega

theorem forwardScan_zero (us : List UInt16) : forwardScan us 0 = 0 := by
  cases us with
  | nil => rfl
  | cons u us => rfl

theorem forwardScan_take (us : List UInt16) (n : Nat)
    : forwardScan us n = (canonical (us.take n)).length := by
  induction us generalizing n with
  | nil => simp [forwardScan]
  | cons u us ih =>
      cases n with
      | zero => rfl
      | succ n => rw [forwardScan, List.take_succ_cons, canonical_cons, List.length_append, ih]

theorem forwardScan_length (us : List UInt16)
    : forwardScan us us.length = (canonical us).length := by
  rw [forwardScan_take, List.take_length]

theorem forwardScan_beyond {us : List UInt16} {n : Nat} (beyond : us.length ≤ n)
    : forwardScan us n = (canonical us).length := by
  rw [forwardScan_take, List.take_of_length_le beyond]

theorem forwardScan_le (us : List UInt16) (n : Nat)
    : forwardScan us n ≤ (canonical us).length := by
  induction us generalizing n with
  | nil => exact Nat.zero_le _
  | cons u us ih =>
      cases n with
      | zero => exact Nat.zero_le _
      | succ n =>
          rw [forwardScan, canonical_cons, List.length_append]
          exact Nat.add_le_add_left (ih n) _

-----------------------------------------------------------------------------------------
-- One unit
-----------------------------------------------------------------------------------------

/-- A sequence is a first byte and continuation bytes. -/
theorem sequence_lead {n : Nat} (bound : n < 0x110000)
    : ∃ lead tails, sequence n = lead :: tails ∧ isContinuation lead = false
      ∧ (∀ b ∈ tails, isContinuation b = true) ∧ utf8SeqLen lead = tails.length + 1 := by
  have head {b : UInt8} (value : b.toNat / 64 ≠ 2) : isContinuation b = false := by
    rw [isContinuation_iff]
    exact decide_eq_false value
  have tail {b : UInt8} {m : Nat} (value : b.toNat = 0x80 + m % 64) : isContinuation b = true := by
    rw [isContinuation_iff]
    exact decide_eq_true (by omega)
  obtain ⟨lead, tails, is, length⟩ := utf8SeqLen_sequence bound
  refine ⟨lead, tails, is, ?_, ?_, length⟩
  · rcases sequence_cases bound with ⟨small, b, is', value⟩ | ⟨-, -, b0, b1, is', first, -⟩
      | ⟨-, -, b0, b1, b2, is', first, -⟩ | ⟨-, b0, b1, b2, b3, is', first, -⟩
    all_goals
      obtain ⟨rfl, -⟩ := List.cons.inj (is.symm.trans is')
      exact head (by omega)
  · rcases sequence_cases bound with ⟨small, b, is', -⟩ | ⟨-, -, b0, b1, is', -, second⟩
      | ⟨-, -, b0, b1, b2, is', -, second, third⟩
      | ⟨-, b0, b1, b2, b3, is', -, second, third, fourth⟩
    all_goals
      obtain ⟨-, rfl⟩ := List.cons.inj (is.symm.trans is')
      intro b member
      simp only [List.mem_cons, List.not_mem_nil, or_false] at member
    · rcases member with rfl
      exact tail second
    · rcases member with rfl | rfl
      · exact tail second
      · exact tail third
    · rcases member with rfl | rfl | rfl
      · exact tail second
      · exact tail third
      · exact tail fourth

/-- The bytes behind a unit are none, or start with a first byte. -/
theorem canonical_head (us : List UInt16)
    : ∀ b ∈ (canonical us).head?, isContinuation b = false := by
  cases us with
  | nil => nofun
  | cons u us =>
      obtain ⟨lead, tails, is, first, -⟩ := sequence_lead (toNat_bound u)
      rw [canonical_cons, is, List.cons_append, List.head?_cons]
      intro b member
      cases member
      exact first

theorem getD_front (front : List UInt8) (b : UInt8) (back : List UInt8)
    : (front ++ b :: back).getD front.length 0 = b := by
  simp

/-- The forward step ends behind the continuation bytes. -/
theorem skipForwards_tails (front tails back : List UInt8)
    (continued : ∀ b ∈ tails, isContinuation b = true)
    (ends : ∀ b ∈ back.head?, isContinuation b = false)
    : skipForwards (front ++ (tails ++ back)) (front ++ (tails ++ back)).length front.length
      = front.length + tails.length := by
  induction tails generalizing front with
  | nil =>
      rw [List.nil_append, skipForwards, if_neg]
      · rfl
      · rintro ⟨inside, continues⟩
        cases back with
        | nil => simp at inside
        | cons b back =>
            rw [getD_front, ends b rfl] at continues
            cases continues
  | cons b tails ih =>
      have onward := ih (front ++ [b]) fun b member => continued b (List.mem_cons_of_mem _ member)
      simp only [List.append_assoc, List.singleton_append] at onward
      have next : (front ++ [b]).length = front.length + 1 := by simp
      have inside : front.length < (front ++ (b :: tails ++ back)).length := by simp
      have continues : isContinuation ((front ++ (b :: tails ++ back)).getD front.length 0) := by
        rw [List.cons_append, getD_front]
        exact continued b List.mem_cons_self
      rw [next] at onward
      rw [skipForwards, if_pos ⟨inside, continues⟩, List.cons_append, onward, List.length_cons]
      omega

/-- The backward step ends at the first byte. -/
theorem skipBackwards_tails (front : List UInt8) (lead : UInt8) (tails back : List UInt8)
    (first : isContinuation lead = false) (continued : ∀ b ∈ tails, isContinuation b = true)
    {i : Nat} (inside : i ≤ tails.length)
    : skipBackwards (front ++ lead :: (tails ++ back)) (front.length + i) = front.length := by
  induction i with
  | zero =>
      rw [Nat.add_zero]
      cases here : front.length with
      | zero => rfl
      | succ p =>
          have byte := getD_front front lead (tails ++ back)
          rw [here] at byte
          rw [skipBackwards, byte, first, if_neg Bool.false_ne_true]
  | succ i ih =>
      obtain ⟨before, b, after, split, length⟩ : ∃ before b after, tails = before ++ b :: after
          ∧ before.length = i :=
        ⟨tails.take i, tails.get ⟨i, inside⟩, tails.drop (i + 1), by simp, by simp; omega⟩
      have byte := getD_front (front ++ lead :: before) b (after ++ back)
      have whole : front ++ lead :: before ++ b :: (after ++ back)
          = front ++ lead :: (tails ++ back) := by simp [split]
      have position : (front ++ lead :: before).length = front.length + i + 1 := by
        simp [length]
        omega
      rw [whole, position] at byte
      rw [← Nat.add_assoc, skipBackwards, byte, continued b (by simp [split]), if_pos rfl,
        ih (by omega)]

/-- A string around one of its units. -/
theorem exists_unit (us : List UInt16) (k : Nat) (inside : k < us.length)
    : ∃ before u after, us = before ++ u :: after ∧ before.length = k
      ∧ forwardScan us k = (canonical before).length
      ∧ forwardScan us (k + 1) = (canonical before).length + (sequence u.toNat).length := by
  refine ⟨us.take k, us.get ⟨k, inside⟩, us.drop (k + 1), by simp, by simp; omega,
    forwardScan_take us k, ?_⟩
  rw [forwardScan_take, ← List.take_append_getElem inside, canonical_append, List.length_append]
  simp

/-- A forward step goes over one unit. -/
theorem skipForwards_unit {us : List UInt16} {k : Nat} (inside : k < us.length)
    : skipForwards (canonical us) (canonical us).length (forwardScan us k + 1)
      = forwardScan us (k + 1) := by
  obtain ⟨before, u, after, split, -, start, ends⟩ := exists_unit us k inside
  obtain ⟨lead, tails, is, -, continued, -⟩ := sequence_lead (toNat_bound u)
  have skipped := skipForwards_tails (canonical before ++ [lead]) tails (canonical after) continued
    (canonical_head after)
  have whole : canonical before ++ [lead] ++ (tails ++ canonical after) = canonical us := by
    simp [split, is]
  rw [whole, List.length_append, List.length_singleton] at skipped
  rw [start, ends, skipped, is, List.length_cons]
  omega

/-- A backward step goes over one unit. -/
theorem skipBackwards_unit (us : List UInt16) (k : Nat) (inside : k < us.length)
    : ∃ p, forwardScan us (k + 1) = p + 1 ∧ skipBackwards (canonical us) p = forwardScan us k := by
  obtain ⟨before, u, after, split, -, start, ends⟩ := exists_unit us k inside
  obtain ⟨lead, tails, is, first, continued, -⟩ := sequence_lead (toNat_bound u)
  have skipped := skipBackwards_tails (canonical before) lead tails (canonical after) first
    continued (Nat.le_refl tails.length)
  have whole : canonical before ++ lead :: (tails ++ canonical after) = canonical us := by
    simp [split, is]
  refine ⟨(canonical before).length + tails.length, ?_, ?_⟩
  · rw [ends, is, List.length_cons]
    rfl
  · rw [← whole, skipped, start]

theorem forwardScan_strict (us : List UInt16) (k : Nat) (inside : k < us.length)
    : forwardScan us k < forwardScan us (k + 1) := by
  obtain ⟨before, u, after, -, -, start, ends⟩ := exists_unit us k inside
  obtain ⟨lead, tails, is, -⟩ := sequence_lead (toNat_bound u)
  rw [start, ends, is, List.length_cons]
  omega

-----------------------------------------------------------------------------------------
-- Whole scans
-----------------------------------------------------------------------------------------

/-- A forward scan from a unit boundary, by induction on its steps. -/
theorem scanForwardsN_units (us : List UInt16) (k n : Nat) (inside : k + n ≤ us.length)
    : scanForwardsN (canonical us) (canonical us).length n (forwardScan us k)
      = forwardScan us (k + n) := by
  induction n generalizing k with
  | zero => rfl
  | succ n ih =>
      have before : ¬(canonical us).length ≤ forwardScan us k := by
        have later := forwardScan_strict us k (by omega)
        have whole := forwardScan_le us (k + 1)
        omega
      rw [scanForwardsN, if_neg before, skipForwards_unit (by omega), ih (k + 1) (by omega),
        Nat.add_right_comm, Nat.add_assoc]

/-- A backward scan from a unit boundary, by induction on its steps. -/
theorem scanBackwardsN_units (us : List UInt16) (k n : Nat) (inside : k + n ≤ us.length)
    : scanBackwardsN (canonical us) n (forwardScan us (k + n)) = forwardScan us k := by
  induction n with
  | zero => rfl
  | succ n ih =>
      obtain ⟨p, behind, skipped⟩ := skipBackwards_unit us (k + n) (by omega)
      rw [← Nat.add_assoc, behind, scanBackwardsN, skipped, ih (by omega)]

/-- The walk of the fallback ends where the scan does. -/
theorem walkUnits_units (us : List UInt16) (k n : Nat) (inside : k + n ≤ us.length)
    : walkUnits (canonical us) n (forwardScan us k) = forwardScan us (k + n) := by
  induction n generalizing k with
  | zero => rfl
  | succ n ih =>
      obtain ⟨before, u, after, split, -, start, ends⟩ :=
        exists_unit us k (by omega)
      obtain ⟨lead, tails, is, -, -, length⟩ := sequence_lead (toNat_bound u)
      have byte := getD_front (canonical before) lead (tails ++ canonical after)
      have whole : canonical before ++ lead :: (tails ++ canonical after) = canonical us := by
        simp [split, is]
      rw [whole, ← start] at byte
      have here : forwardScan us k < (canonical us).length := by
        have later := forwardScan_strict us k (by omega)
        have whole := forwardScan_le us (k + 1)
        omega
      have next : forwardScan us k + utf8SeqLen lead = forwardScan us (k + 1) := by
        rw [start, ends, is, length, List.length_cons]
      rw [walkUnits, if_pos here, byte, next, ih (k + 1) (by omega), Nat.add_right_comm, Nat.add_assoc]

theorem computeCharlen_canonical (us : List UInt16) : computeCharlen (canonical us) = us.length := by
  induction us with
  | nil => rw [canonical_nil, computeCharlen, List.length_nil]
  | cons u us ih =>
      obtain ⟨b, tail, is, behind, -⟩ := drop_sequence (toNat_bound u) (canonical us)
      rw [canonical_cons, is, computeCharlen, behind, ih, List.length_cons]

/-- The units in front of a boundary. -/
theorem computeCharlen_prefix {us : List UInt16} {k : Nat} (inside : k ≤ us.length)
    : computeCharlen ((canonical us).take (forwardScan us k)) = k := by
  have front : (canonical us).take (forwardScan us k) = canonical (us.take k) := by
    rw [forwardScan_take]
    conv => lhs; rw [← List.take_append_drop k us]
    rw [canonical_append, List.take_append_drop, List.take_left]
  rw [front, computeCharlen_canonical, List.length_take, Nat.min_eq_left inside]

theorem forwardCount_scan {us : List UInt16} {k : Nat} (inside : k ≤ us.length)
    : forwardCount us (forwardScan us k) = k := by
  induction us generalizing k with
  | nil =>
      rw [List.length_nil, Nat.le_zero] at inside
      rw [inside]
      rfl
  | cons u us ih =>
      cases k with
      | zero => rfl
      | succ k =>
          obtain ⟨lead, tails, is, -⟩ := sequence_lead (toNat_bound u)
          have some : (sequence u.toNat).length + forwardScan us k ≠ 0 := by
            rw [is, List.length_cons]
            omega
          rw [forwardScan, forwardCount, if_neg some, Nat.add_sub_cancel_left,
            ih (Nat.le_of_succ_le_succ inside)]

end Boomkat.Correctness
