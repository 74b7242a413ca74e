import Boomkat.Foundation.OpenAddressing
import Mathlib.Algebra.Group.Nat.Defs
import Mathlib.Data.List.Count
import Mathlib.Data.Nat.Find

/-! Linear probing in a table whose size is a power of two: a probe comes to every slot, so loops
without a bound of their own end where a slot is empty.
-/

namespace Boomkat.Foundation

variable {α : Type*} {slots : List (Slot α)} {hash : α → Nat} {key : α}
  {idx target start fuel steps : Nat}

/-- The first slot without an entry. -/
def vacantSlot (slots : List (Slot α)) : Nat → Nat → Option Nat
  | 0, _ => none
  | fuel + 1, idx =>
      match slots[idx]? with
      | some .empty | some .tombstone => some idx
      | _ => vacantSlot slots fuel (nextSlot slots.length idx)

/-- The entry that a search comes to before an empty slot, if any. There is no result where the
search comes to neither.
-/
def probeEntry (slots : List (Slot α)) (wanted : α → Bool) : Nat → Nat → Option (Option α)
  | 0, _ => none
  | fuel + 1, idx =>
      match slots[idx]? with
      | some (.entry key) =>
          if wanted key then some (some key)
          else probeEntry slots wanted fuel (nextSlot slots.length idx)
      | some .tombstone => probeEntry slots wanted fuel (nextSlot slots.length idx)
      | some .empty => some none
      | none => none

-----------------------------------------------------------------------------------------
-- Probes that come around
-----------------------------------------------------------------------------------------

/-- The size of the table is a power of two. -/
def PowerOfTwo (size : Nat) : Prop := ∃ k, size = 2 ^ k

theorem PowerOfTwo.positive {size : Nat} (power : PowerOfTwo size) : 0 < size := by
  obtain ⟨k, rfl⟩ := power
  exact Nat.two_pow_pos k

theorem PowerOfTwo.nextSlot {size : Nat} (power : PowerOfTwo size) (idx : Nat)
    : nextSlot size idx = (idx + 1) % size := by
  obtain ⟨k, rfl⟩ := power
  exact Nat.and_two_pow_sub_one_eq_mod ..

/-- Slots behind the start, around the end of the table. -/
theorem PowerOfTwo.probes (power : PowerOfTwo slots.length)
    (full : ∀ n < steps, Occupied slots ((start + n) % slots.length)) (inside : start < slots.length)
    : Probes slots steps start ((start + steps) % slots.length) := by
  induction steps generalizing start with
  | zero => exact (Nat.mod_eq_of_lt inside).symm
  | succ steps ih =>
      have first := full 0 (Nat.succ_pos _)
      rw [Nat.add_zero, Nat.mod_eq_of_lt inside] at first
      refine ⟨first, ?_⟩
      have around : ∀ n, (Foundation.nextSlot slots.length start + n) % slots.length
          = (start + (n + 1)) % slots.length := by
        intro n
        rw [power.nextSlot, Nat.mod_add_mod, Nat.add_right_comm, Nat.add_assoc]
      have later := ih (fun n small => by
        rw [around]
        exact full (n + 1) (Nat.succ_lt_succ small)) (nextSlot_lt inside)
      rwa [around] at later

/-- A probe comes to a slot of a kind that empty ones are of, if there is one: the first behind its
start.
-/
theorem PowerOfTwo.exists_probe_to {slot : Slot α} (power : PowerOfTwo slots.length)
    (Kind : Slot α → Prop) (inside : start < slots.length) (ends : Kind .empty)
    (at_idx : slots[idx]? = some slot) (isKind : Kind slot)
    : ∃ steps < slots.length, ∃ target slot, Probes slots steps start target
      ∧ slots[target]? = some slot ∧ Kind slot := by
  have within : idx < slots.length := (List.getElem?_eq_some_iff.mp at_idx).1
  have comes : ∃ n, n < slots.length
      ∧ ∃ slot, slots[(start + n) % slots.length]? = some slot ∧ Kind slot := by
    refine ⟨(idx + (slots.length - start)) % slots.length, Nat.mod_lt _ power.positive, slot, ?_,
      isKind⟩
    have around : (start + (idx + (slots.length - start)) % slots.length) % slots.length = idx := by
      rw [Nat.add_mod_mod, show start + (idx + (slots.length - start)) = idx + slots.length by omega,
        Nat.add_mod_right, Nat.mod_eq_of_lt within]
    rw [around, at_idx]
  classical
  obtain ⟨first, target, at_target, found⟩ := Nat.find_spec comes
  refine ⟨Nat.find comes, first, _, target, power.probes (fun n small => ?_) inside, at_target,
    found⟩
  have inRange : (start + n) % slots.length < slots.length := Nat.mod_lt _ power.positive
  refine ⟨_, List.getElem?_eq_getElem inRange, fun isEmpty => ?_⟩
  exact Nat.find_min comes small ⟨Nat.lt_trans small first, .empty,
    by rw [List.getElem?_eq_getElem inRange, isEmpty], ends⟩

/-- A probe comes to an empty slot, if there is one. -/
theorem PowerOfTwo.exists_probe (power : PowerOfTwo slots.length) (inside : start < slots.length)
    (room : slots[idx]? = some .empty)
    : ∃ steps < slots.length, ∃ target, Probes slots steps start target
      ∧ slots[target]? = some .empty := by
  obtain ⟨steps, short, target, _, probes, empty, rfl⟩ :=
    power.exists_probe_to (· = .empty) inside rfl room rfl
  exact ⟨steps, short, target, probes, empty⟩

/-- A loop that goes on over occupied slots at most, and stops at empty ones. -/
theorem emptySlot_ends (probes : Probes slots steps idx target) (enough : steps < fuel)
    (empty : slots[target]? = some .empty)
    : ∃ use, emptySlot slots fuel idx = some use := by
  induction steps generalizing idx fuel with
  | zero =>
      obtain rfl : idx = target := probes
      obtain ⟨fuel, rfl⟩ := Nat.exists_eq_add_of_lt enough
      exact ⟨idx, by simp only [emptySlot, empty]⟩
  | succ steps ih =>
      obtain ⟨fuel, rfl⟩ := Nat.exists_eq_succ_of_ne_zero (Nat.ne_of_gt (Nat.zero_lt_of_lt enough))
      obtain ⟨⟨slot, at_idx, notEmpty⟩, probes⟩ := probes
      obtain ⟨use, later⟩ := ih probes (Nat.lt_of_succ_lt_succ enough)
      cases slot with
      | empty => exact absurd rfl notEmpty
      | tombstone | entry => exact ⟨use, by simpa only [emptySlot, at_idx] using later⟩

theorem vacantSlot_ends (probes : Probes slots steps idx target) (enough : steps < fuel)
    (empty : slots[target]? = some .empty)
    : ∃ use, vacantSlot slots fuel idx = some use := by
  induction steps generalizing idx fuel with
  | zero =>
      obtain rfl : idx = target := probes
      obtain ⟨fuel, rfl⟩ := Nat.exists_eq_add_of_lt enough
      exact ⟨idx, by simp only [vacantSlot, empty]⟩
  | succ steps ih =>
      obtain ⟨fuel, rfl⟩ := Nat.exists_eq_succ_of_ne_zero (Nat.ne_of_gt (Nat.zero_lt_of_lt enough))
      obtain ⟨⟨slot, at_idx, notEmpty⟩, probes⟩ := probes
      obtain ⟨use, later⟩ := ih probes (Nat.lt_of_succ_lt_succ enough)
      cases slot with
      | empty => exact absurd rfl notEmpty
      | tombstone => exact ⟨idx, by simp only [vacantSlot, at_idx]⟩
      | entry => exact ⟨use, by simpa only [vacantSlot, at_idx] using later⟩

theorem probeEntry_ends {wanted : α → Bool} (probes : Probes slots steps idx target)
    (enough : steps < fuel) (empty : slots[target]? = some .empty)
    : ∃ found, probeEntry slots wanted fuel idx = some found := by
  induction steps generalizing idx fuel with
  | zero =>
      obtain rfl : idx = target := probes
      obtain ⟨fuel, rfl⟩ := Nat.exists_eq_add_of_lt enough
      exact ⟨none, by simp only [probeEntry, empty]⟩
  | succ steps ih =>
      obtain ⟨fuel, rfl⟩ := Nat.exists_eq_succ_of_ne_zero (Nat.ne_of_gt (Nat.zero_lt_of_lt enough))
      obtain ⟨⟨slot, at_idx, notEmpty⟩, probes⟩ := probes
      obtain ⟨found, later⟩ := ih probes (Nat.lt_of_succ_lt_succ enough)
      cases slot with
      | empty => exact absurd rfl notEmpty
      | tombstone => exact ⟨found, by simpa only [probeEntry, at_idx] using later⟩
      | entry key =>
          cases isWanted : wanted key with
          | true => exact ⟨some key, by simp only [probeEntry, at_idx, isWanted, if_true]⟩
          | false =>
              refine ⟨found, ?_⟩
              simpa only [probeEntry, at_idx, isWanted, Bool.false_eq_true, if_false] using later

/-- A search that ends is the search with a bound. -/
theorem findEntry_of_probeEntry {wanted : α → Bool} {found : Option α}
    (ends : probeEntry slots wanted fuel idx = some found)
    : findEntry slots wanted fuel idx = found := by
  induction fuel generalizing idx with
  | zero => cases ends
  | succ fuel ih =>
      rw [probeEntry] at ends
      rw [findEntry]
      cases at_idx : slots[idx]? with
      | none => simp only [at_idx, reduceCtorEq] at ends
      | some slot =>
          simp only [at_idx] at ends
          cases slot with
          | empty => exact Option.some.inj ends
          | tombstone => exact ih ends
          | entry key =>
              dsimp only at ends ⊢
              split at ends
              · rename_i isWanted
                cases ends
                rw [if_pos isWanted]
              · rename_i unwanted
                rw [if_neg unwanted]
                exact ih ends

theorem vacantSlot_vacant {size done use : Nat} (came : Probes slots done start idx)
    (total : done + fuel ≤ size) (found : vacantSlot slots fuel idx = some use)
    (inside : idx < slots.length)
    : Vacant slots size start use := by
  induction fuel generalizing idx done with
  | zero => cases found
  | succ fuel ih =>
      simp only [vacantSlot] at found
      split at found
      · rename_i at_idx
        cases found
        exact ⟨.inl at_idx, done, by omega, came⟩
      · rename_i at_idx
        cases found
        exact ⟨.inr at_idx, done, by omega, came⟩
      · rename_i notEmpty _
        have occupied : Occupied slots idx :=
          ⟨slots[idx], List.getElem?_eq_getElem inside, fun isEmpty =>
            notEmpty (by rw [List.getElem?_eq_getElem inside, isEmpty])⟩
        have goOn : Probes slots (done + 1) start (nextSlot slots.length idx) :=
          came.append ⟨occupied, rfl⟩
        exact ih goOn (by omega) found (nextSlot_lt inside)

-----------------------------------------------------------------------------------------
-- Room in a table
-----------------------------------------------------------------------------------------

/-- The slots that are not empty. -/
def filled (slots : List (Slot α)) : Nat :=
  slots.countP fun slot => match slot with | .empty => false | _ => true

theorem exists_empty (room : filled slots < slots.length) : ∃ idx : Nat, slots[idx]? = some .empty := by
  by_contra none
  have all : filled slots = slots.length := by
    refine List.countP_eq_length.mpr fun slot member => ?_
    obtain ⟨idx, at_idx⟩ := List.mem_iff_getElem?.mp member
    cases slot with
    | empty => exact absurd ⟨idx, at_idx⟩ none
    | tombstone | entry => rfl
  omega

theorem filled_set (slots : List (Slot α)) (use : Nat) (slot : Slot α)
    : filled (slots.set use slot) ≤ filled slots + 1 := by
  induction slots generalizing use with
  | nil => simp [filled]
  | cons head slots ih =>
      cases use with
      | zero =>
          simp only [filled, List.set_cons_zero, List.countP_cons]
          split <;> split <;> omega
      | succ use =>
          have tail := ih use
          simp only [filled, List.set_cons_succ, List.countP_cons] at tail ⊢
          omega

theorem filled_replicate (size : Nat) : filled (List.replicate size (Slot.empty (α := α))) = 0 := by
  refine List.countP_eq_zero.mpr fun slot member => ?_
  rw [(List.mem_replicate.mp member).2]
  exact Bool.false_ne_true

/-- A loop that looks for a free slot ends at a vacant one on the way of the probe. -/
def FindsVacant (free : List (Slot α) → Nat → Nat → Option Nat) : Prop :=
  ∀ (slots : List (Slot α)) (start : Nat), PowerOfTwo slots.length → start < slots.length →
    filled slots < slots.length →
    ∃ use, free slots slots.length start = some use ∧ Vacant slots slots.length start use

theorem findsVacant_emptySlot : FindsVacant (α := α) emptySlot := by
  intro slots start power inside room
  obtain ⟨idx, empty⟩ := exists_empty room
  obtain ⟨steps, short, target, probes, empty⟩ := power.exists_probe inside empty
  obtain ⟨use, found⟩ := emptySlot_ends probes short empty
  have here : Probes slots 0 start start := rfl
  exact ⟨use, found, emptySlot_vacant here (by omega) found inside⟩

theorem findsVacant_vacantSlot : FindsVacant (α := α) vacantSlot := by
  intro slots start power inside room
  obtain ⟨idx, empty⟩ := exists_empty room
  obtain ⟨steps, short, target, probes, empty⟩ := power.exists_probe inside empty
  obtain ⟨use, found⟩ := vacantSlot_ends probes short empty
  have here : Probes slots 0 start start := rfl
  exact ⟨use, found, vacantSlot_vacant here (by omega) found inside⟩

/-- Where there is room, a search ends, and with the result of the bounded search. -/
theorem probeEntry_eq {wanted : α → Bool} (power : PowerOfTwo slots.length)
    (inside : start < slots.length) (room : filled slots < slots.length)
    : probeEntry slots wanted slots.length start
      = some (findEntry slots wanted slots.length start) := by
  obtain ⟨idx, empty⟩ := exists_empty room
  obtain ⟨steps, short, target, probes, empty⟩ := power.exists_probe inside empty
  obtain ⟨found, ends⟩ : ∃ found, probeEntry slots wanted slots.length start = some found :=
    probeEntry_ends probes short empty
  rw [ends, findEntry_of_probeEntry ends]

-----------------------------------------------------------------------------------------
-- The number of entries
-----------------------------------------------------------------------------------------

def Slot.isEntry : Slot α → Bool
  | .entry _ => true
  | .empty | .tombstone => false

def entries (slots : List (Slot α)) : Nat := slots.countP Slot.isEntry

@[simp] theorem entries_cons (slot : Slot α) (slots : List (Slot α))
    : entries (slot :: slots) = entries slots + slot.isEntry.toNat := by
  rw [entries, List.countP_cons, entries]
  cases slot.isEntry <;> rfl

/-- A slot that is replaced. -/
theorem entries_set {old slot : Slot α} {use : Nat} (at_use : slots[use]? = some old)
    : entries (slots.set use slot) + old.isEntry.toNat = entries slots + slot.isEntry.toNat := by
  induction slots generalizing use with
  | nil => cases at_use
  | cons head slots ih =>
      cases use with
      | zero =>
          cases at_use
          simp only [List.set_cons_zero, entries_cons]
          omega
      | succ use =>
          have tail := ih at_use
          simp only [List.set_cons_succ, entries_cons]
          omega

theorem entries_set_entry {use : Nat}
    (vacant : slots[use]? = some .empty ∨ slots[use]? = some .tombstone)
    : entries (slots.set use (.entry key)) = entries slots + 1 := by
  rcases vacant with empty | tombstone
  · exact entries_set empty
  · exact entries_set tombstone

theorem entries_set_tombstone {use : Nat} (at_use : slots[use]? = some (.entry key))
    : entries (slots.set use .tombstone) = entries slots - 1 :=
  Nat.eq_sub_of_add_eq (entries_set at_use)

theorem entries_buryDead (dead : α → Bool)
    : entries (buryDead dead slots)
      = entries slots - slots.countP fun
        | .entry key => dead key
        | _ => false := by
  refine Nat.eq_sub_of_add_eq ?_
  induction slots with
  | nil => rfl
  | cons slot slots ih =>
      have head : buryDead dead (slot :: slots)
          = (match slot with
            | .entry key => if dead key then .tombstone else .entry key
            | slot => slot) :: buryDead dead slots := rfl
      rw [head, entries_cons, entries_cons, List.countP_cons, ← ih]
      cases slot with
      | empty | tombstone => rfl
      | entry key =>
          dsimp only
          by_cases isDead : dead key = true
          · rw [if_pos isDead, if_pos isDead]
            exact (Nat.add_assoc ..).symm
          · rw [if_neg isDead, if_neg isDead]
            exact Nat.add_right_comm ..

theorem entries_replicate (size : Nat)
    : entries (List.replicate size (Slot.empty (α := α))) = 0 := by
  refine List.countP_eq_zero.mpr fun slot member => ?_
  rw [(List.mem_replicate.mp member).2]
  exact Bool.false_ne_true

theorem emptySlot_empty {use : Nat} (found : emptySlot slots fuel idx = some use)
    : slots[use]? = some .empty := by
  induction fuel generalizing idx with
  | zero => cases found
  | succ fuel ih =>
      simp only [emptySlot] at found
      split at found
      · rename_i at_idx
        cases found
        exact at_idx
      · exact ih found

theorem rehash_length {table table' : List (Slot α)} (done : rehash hash slots table = some table')
    : table'.length = table.length := by
  induction slots generalizing table with
  | nil =>
      cases done
      rfl
  | cons slot slots ih =>
      cases slot with
      | empty | tombstone => exact ih done
      | entry key =>
          rw [rehash, Option.bind_eq_some_iff] at done
          obtain ⟨use, _, done⟩ := done
          rw [ih done, List.length_set]

theorem entries_rehash {table table' : List (Slot α)} (done : rehash hash slots table = some table')
    : entries table' = entries table + entries slots := by
  induction slots generalizing table with
  | nil =>
      cases done
      rfl
  | cons slot slots ih =>
      cases slot with
      | empty | tombstone => simpa [Slot.isEntry] using ih done
      | entry key =>
          rw [rehash, Option.bind_eq_some_iff] at done
          obtain ⟨use, found, done⟩ := done
          rw [ih done, entries_set_entry (.inl (emptySlot_empty found)), entries_cons]
          exact Nat.add_right_comm ..

/-- A rehash ends where there is room for the entries. -/
theorem rehash_ends {table : List (Slot α)} (power : PowerOfTwo table.length)
    (room : filled table + entries slots ≤ table.length)
    : ∃ table', rehash hash slots table = some table' := by
  induction slots generalizing table with
  | nil => exact ⟨table, rfl⟩
  | cons slot slots ih =>
      cases slot with
      | empty | tombstone => exact ih power (by simpa [Slot.isEntry] using room)
      | entry key =>
          have one : entries (.entry key :: slots) = entries slots + 1 := entries_cons ..
          obtain ⟨use, found, _⟩ := findsVacant_emptySlot table
            (firstSlot table.length (hash key)) power
            (firstSlot_lt (Nat.ne_of_gt power.positive) _) (by omega)
          have more := filled_set table use (.entry key)
          obtain ⟨table', done⟩ : ∃ table', rehash hash slots (table.set use (.entry key))
              = some table' :=
            ih (by rwa [List.length_set]) (by rw [List.length_set]; omega)
          exact ⟨table', by rw [rehash, found, Option.bind_some, done]⟩

theorem insertionSlot_noted (slots : List (Slot α)) (fuel idx first : Nat)
    : ∃ use, insertionSlot slots fuel idx (some first) = some use := by
  induction fuel generalizing idx with
  | zero => exact ⟨first, rfl⟩
  | succ fuel ih =>
      simp only [insertionSlot]
      split
      · exact ⟨first, rfl⟩
      · exact ih _
      · exact ih _
      · exact ⟨first, rfl⟩

/-- A slot for a new entry is found where one is vacant. -/
theorem insertionSlot_ends (power : PowerOfTwo slots.length) (inside : start < slots.length)
    (room : entries slots < slots.length)
    : ∃ use, insertionSlot slots slots.length start none = some use := by
  obtain ⟨slot, member, vacant⟩ := List.countP_lt_length_iff.mp room
  obtain ⟨idx, at_idx⟩ := List.mem_iff_getElem?.mp member
  obtain ⟨steps, short, target, slot, probes, at_target, vacant⟩ :=
    power.exists_probe_to (Slot.isEntry · = false) inside rfl at_idx vacant
  generalize slots.length = fuel at short
  clear inside
  induction steps generalizing start fuel with
  | zero =>
      obtain rfl : start = target := probes
      obtain ⟨fuel, rfl⟩ := Nat.exists_eq_add_of_lt short
      cases slot with
      | empty => exact ⟨start, by simp only [insertionSlot, at_target]; rfl⟩
      | tombstone => simpa only [insertionSlot, at_target, Option.none_or] using insertionSlot_noted slots ..
      | entry => cases vacant
  | succ steps ih =>
      obtain ⟨fuel, rfl⟩ := Nat.exists_eq_succ_of_ne_zero (Nat.ne_of_gt (Nat.zero_lt_of_lt short))
      obtain ⟨⟨passed, at_start, notEmpty⟩, probes⟩ := probes
      cases passed with
      | empty => exact absurd rfl notEmpty
      | tombstone => simpa only [insertionSlot, at_start, Option.none_or] using insertionSlot_noted slots ..
      | entry =>
          obtain ⟨use, later⟩ := ih probes fuel (Nat.lt_of_succ_lt_succ short)
          exact ⟨use, by simpa only [insertionSlot, at_start] using later⟩

end Boomkat.Foundation
