import Mathlib.Data.List.Basic
import Mathlib.Tactic.Common

/-! Open addressing with linear probing and tombstones: what the search, the insertion, the
removal and the rehash of a table come to, and that every entry stays within reach.
-/

namespace Boomkat.Foundation

/-- A slot of the table. A tombstone was an entry once, and a search goes on behind it. -/
inductive Slot (α : Type*) where
  | empty
  | tombstone
  | entry (key : α)
  deriving DecidableEq

variable {α : Type*} {slots : List (Slot α)} {hash hash' : α → Nat} {key other : α}
  {idx target fuel steps use : Nat}

-----------------------------------------------------------------------------------------
-- Probing
-----------------------------------------------------------------------------------------

/-- The slot that a probe starts at, in a table whose size is a power of two. -/
def firstSlot (size hash : Nat) : Nat := hash &&& (size - 1)

def nextSlot (size idx : Nat) : Nat := (idx + 1) &&& (size - 1)

/-- The entry that a search finds before an empty slot ends it. -/
def findEntry (slots : List (Slot α)) (wanted : α → Bool) : Nat → Nat → Option α
  | 0, _ => none
  | fuel + 1, idx =>
      match slots[idx]? with
      | some (.entry key) =>
          if wanted key then some key
          else findEntry slots wanted fuel (nextSlot slots.length idx)
      | some .tombstone => findEntry slots wanted fuel (nextSlot slots.length idx)
      | some .empty | none => none

/-- The slot for a new entry: the first tombstone on the way to an empty slot, or that slot. -/
def insertionSlot (slots : List (Slot α)) : Nat → Nat → Option Nat → Option Nat
  | 0, _, tombstone => tombstone
  | fuel + 1, idx, tombstone =>
      match slots[idx]? with
      | some .empty => some (tombstone.getD idx)
      | some .tombstone =>
          insertionSlot slots fuel (nextSlot slots.length idx) (tombstone.or (some idx))
      | some (.entry _) => insertionSlot slots fuel (nextSlot slots.length idx) tombstone
      | none => tombstone

/-- The slot of an entry. -/
def entrySlot [DecidableEq α] (slots : List (Slot α)) (key : α) : Nat → Nat → Option Nat
  | 0, _ => none
  | fuel + 1, idx =>
      match slots[idx]? with
      | some (.entry other) =>
          if other = key then some idx
          else entrySlot slots key fuel (nextSlot slots.length idx)
      | some .tombstone => entrySlot slots key fuel (nextSlot slots.length idx)
      | some .empty | none => none

/-- The first empty slot. -/
def emptySlot (slots : List (Slot α)) : Nat → Nat → Option Nat
  | 0, _ => none
  | fuel + 1, idx =>
      match slots[idx]? with
      | some .empty => some idx
      | _ => emptySlot slots fuel (nextSlot slots.length idx)

/-- Enter the entries of the slots into a table without tombstones. There is no result where a
probe never comes to an empty slot.
-/
def rehash (hash : α → Nat) : List (Slot α) → List (Slot α) → Option (List (Slot α))
  | [], table => some table
  | .entry key :: slots, table =>
      (emptySlot table table.length (firstSlot table.length (hash key))).bind fun idx =>
        rehash hash slots (table.set idx (.entry key))
  | _ :: slots, table => rehash hash slots table

/-- Turn the entries that are dead into tombstones. -/
def buryDead (dead : α → Bool) (slots : List (Slot α)) : List (Slot α) :=
  slots.map fun slot =>
    match slot with
    | .entry key => if dead key then .tombstone else .entry key
    | slot => slot

-----------------------------------------------------------------------------------------
-- Reach
-----------------------------------------------------------------------------------------

/-- The slot does not end a search. -/
def Occupied (slots : List (Slot α)) (idx : Nat) : Prop :=
  ∃ slot, slots[idx]? = some slot ∧ slot ≠ .empty

theorem nextSlot_lt {size : Nat} (inside : idx < size) : nextSlot size idx < size := by
  have small : nextSlot size idx ≤ size - 1 := Nat.and_le_right
  omega

theorem firstSlot_lt {size : Nat} (nonempty : size ≠ 0) (hash : Nat)
    : firstSlot size hash < size := by
  have small : firstSlot size hash ≤ size - 1 := Nat.and_le_right
  omega

/-- A probe comes to the target in so many steps, by occupied slots only. -/
def Probes (slots : List (Slot α)) : Nat → Nat → Nat → Prop
  | 0, idx, target => idx = target
  | steps + 1, idx, target =>
      Occupied slots idx ∧ Probes slots steps (nextSlot slots.length idx) target

/-- Every entry is in one slot, which the probe from its hash comes to. -/
structure InReach (slots : List (Slot α)) (hash : α → Nat) : Prop where
  reached : ∀ (idx : Nat) (key : α), slots[idx]? = some (.entry key) →
    ∃ steps < slots.length, Probes slots steps (firstSlot slots.length (hash key)) idx
  once : ∀ (idx idx' : Nat) (key : α), slots[idx]? = some (.entry key) →
    slots[idx']? = some (.entry key) → idx = idx'

theorem Probes.append {first second middle : Nat} (before : Probes slots first idx middle)
    (after : Probes slots second middle target)
    : Probes slots (first + second) idx target := by
  induction first generalizing idx with
  | zero =>
      obtain rfl : idx = middle := before
      rwa [Nat.zero_add]
  | succ first ih =>
      rw [Nat.succ_add]
      exact ⟨before.1, ih before.2⟩

/-- Probes go on as before in a table of the same size where no slot has become empty. -/
theorem Probes.mono {slots' : List (Slot α)} (size : slots'.length = slots.length)
    (kept : ∀ idx, Occupied slots idx → Occupied slots' idx)
    (probes : Probes slots steps idx target)
    : Probes slots' steps idx target := by
  induction steps generalizing idx with
  | zero => exact probes
  | succ steps ih =>
      refine ⟨kept idx probes.1, ?_⟩
      rw [size]
      exact ih probes.2

theorem Occupied.set {slot : Slot α} (occupied : Occupied slots idx) (filled : slot ≠ .empty)
    (use : Nat)
    : Occupied (slots.set use slot) idx := by
  obtain ⟨old, at_idx, notEmpty⟩ := occupied
  by_cases same : use = idx
  · subst same
    have inside : use < slots.length := (List.getElem?_eq_some_iff.mp at_idx).1
    exact ⟨slot, by rw [List.getElem?_set_self inside], filled⟩
  · exact ⟨old, by rw [List.getElem?_set_ne same, at_idx], notEmpty⟩

theorem Probes.set {slot : Slot α} (probes : Probes slots steps idx target)
    (filled : slot ≠ .empty) (use : Nat)
    : Probes (slots.set use slot) steps idx target :=
  probes.mono List.length_set fun _ occupied => occupied.set filled use

/-- The hashes of other keys do not matter. -/
theorem InReach.congr (reach : InReach slots hash)
    (same : ∀ key, Slot.entry key ∈ slots → hash key = hash' key)
    : InReach slots hash' where
  reached idx key at_idx := by
    rw [← same key (List.mem_of_getElem? at_idx)]
    exact reach.reached idx key at_idx
  once := reach.once

theorem InReach.empty (size : Nat) (hash : α → Nat)
    : InReach (List.replicate size .empty) hash := by
  have none : ∀ (idx : Nat) (key : α),
      (List.replicate size Slot.empty)[idx]? ≠ some (.entry key) := by
    intro idx key at_idx
    cases (List.mem_replicate.mp (List.mem_of_getElem? at_idx)).2
  exact ⟨fun idx key at_idx => absurd at_idx (none idx key),
    fun idx _ key at_idx => absurd at_idx (none idx key)⟩

-----------------------------------------------------------------------------------------
-- Searching
-----------------------------------------------------------------------------------------

theorem findEntry_sound {wanted : α → Bool} (found : findEntry slots wanted fuel idx = some key)
    : Slot.entry key ∈ slots ∧ wanted key = true := by
  induction fuel generalizing idx with
  | zero => cases found
  | succ fuel ih =>
      simp only [findEntry] at found
      split at found
      · rename_i other at_idx
        split at found
        · rename_i isWanted
          cases found
          exact ⟨List.mem_of_getElem? at_idx, isWanted⟩
        · exact ih found
      · exact ih found
      · cases found
      · cases found

/-- A search finds the only entry that is wanted. -/
theorem findEntry_complete {wanted : α → Bool} (probes : Probes slots steps idx target)
    (enough : steps < fuel) (at_target : slots[target]? = some (.entry key))
    (isWanted : wanted key = true)
    (only : ∀ other, Slot.entry other ∈ slots → wanted other = true → other = key)
    : findEntry slots wanted fuel idx = some key := by
  induction steps generalizing idx fuel with
  | zero =>
      obtain rfl : idx = target := probes
      cases fuel with
      | zero => cases enough
      | succ fuel => simp only [findEntry, at_target, isWanted, if_true]
  | succ steps ih =>
      cases fuel with
      | zero => cases enough
      | succ fuel =>
          obtain ⟨⟨slot, at_idx, notEmpty⟩, probes⟩ := probes
          have later := ih probes (Nat.lt_of_succ_lt_succ enough)
          cases slot with
          | empty => exact absurd rfl notEmpty
          | tombstone => simpa only [findEntry, at_idx] using later
          | entry other =>
              by_cases otherWanted : wanted other = true
              · have same := only other (List.mem_of_getElem? at_idx) otherWanted
                subst same
                simp only [findEntry, at_idx, otherWanted, if_true]
              · simpa only [findEntry, at_idx, if_neg otherWanted] using later

theorem InReach.find {wanted : α → Bool} (reach : InReach slots hash)
    (present : Slot.entry key ∈ slots) (isWanted : wanted key = true)
    (only : ∀ other, Slot.entry other ∈ slots → wanted other = true → other = key)
    : findEntry slots wanted slots.length (firstSlot slots.length (hash key)) = some key := by
  obtain ⟨idx, at_idx⟩ := List.mem_iff_getElem?.mp present
  obtain ⟨steps, short, probes⟩ := reach.reached idx key at_idx
  exact findEntry_complete probes short at_idx isWanted only

-----------------------------------------------------------------------------------------
-- Insertion
-----------------------------------------------------------------------------------------

/-- A slot without an entry that the probe comes to. -/
def Vacant (slots : List (Slot α)) (size start use : Nat) : Prop :=
  (slots[use]? = some .empty ∨ slots[use]? = some .tombstone)
    ∧ ∃ steps < size, Probes slots steps start use

theorem insertionSlot_vacant {size start done : Nat} {tombstone : Option Nat}
    (came : Probes slots done start idx) (total : done + fuel ≤ size)
    (noted : ∀ use, tombstone = some use → Vacant slots size start use)
    (found : insertionSlot slots fuel idx tombstone = some use)
    : Vacant slots size start use := by
  induction fuel generalizing idx done tombstone with
  | zero => exact noted use found
  | succ fuel ih =>
      have within : done < size := by omega
      have goOn (occupied : Occupied slots idx)
          : Probes slots (done + 1) start (nextSlot slots.length idx) :=
        came.append ⟨occupied, rfl⟩
      simp only [insertionSlot] at found
      split at found
      · rename_i at_idx
        cases tombstone with
        | none =>
            obtain rfl : idx = use := by simpa using found
            exact ⟨.inl at_idx, done, within, came⟩
        | some first =>
            obtain rfl : first = use := by simpa using found
            exact noted first rfl
      · rename_i at_idx
        refine ih (goOn ⟨_, at_idx, nofun⟩) (by omega) (fun first isFirst => ?_) found
        cases tombstone with
        | none =>
            obtain rfl : idx = first := by simpa using isFirst
            exact ⟨.inr at_idx, done, within, came⟩
        | some earlier => exact noted first (by simpa using isFirst)
      · rename_i at_idx
        exact ih (goOn ⟨_, at_idx, nofun⟩) (by omega) noted found
      · exact noted use found

/-- What is in a table after an entry went to a slot without one. -/
theorem mem_set_entry (free : ∀ old, slots[use]? ≠ some (.entry old)) (inside : use < slots.length)
    : Slot.entry other ∈ slots.set use (.entry key) ↔ other = key ∨ Slot.entry other ∈ slots := by
  simp only [List.mem_iff_getElem?]
  constructor
  · intro ⟨idx, at_idx⟩
    by_cases same : use = idx
    · subst same
      rw [List.getElem?_set_self inside] at at_idx
      cases at_idx
      exact .inl rfl
    · exact .inr ⟨idx, by rwa [List.getElem?_set_ne same] at at_idx⟩
  · rintro (rfl | ⟨idx, at_idx⟩)
    · exact ⟨use, List.getElem?_set_self inside⟩
    · have different : use ≠ idx := by
        rintro rfl
        exact free other at_idx
      exact ⟨idx, by rwa [List.getElem?_set_ne different]⟩

theorem Vacant.free {size start : Nat} (vacant : Vacant slots size start use)
    : use < slots.length ∧ ∀ old, slots[use]? ≠ some (.entry old) := by
  rcases vacant.1 with empty | tombstone
  · exact ⟨(List.getElem?_eq_some_iff.mp empty).1, fun old at_use => by simp [empty] at at_use⟩
  · exact ⟨(List.getElem?_eq_some_iff.mp tombstone).1,
      fun old at_use => by simp [tombstone] at at_use⟩

/-- A new entry in a vacant slot on its probe. -/
theorem InReach.insert (reach : InReach slots hash) (new : Slot.entry key ∉ slots)
    (vacant : Vacant slots slots.length (firstSlot slots.length (hash key)) use)
    : InReach (slots.set use (.entry key)) hash := by
  obtain ⟨inside, free⟩ := vacant.free
  have elsewhere (idx : Nat) (entry : α) (at_idx : (slots.set use (.entry key))[idx]?
      = some (.entry entry)) : use = idx ∧ entry = key ∨ slots[idx]? = some (.entry entry) := by
    by_cases same : use = idx
    · subst same
      rw [List.getElem?_set_self inside] at at_idx
      cases at_idx
      exact .inl ⟨rfl, rfl⟩
    · exact .inr (by rwa [List.getElem?_set_ne same] at at_idx)
  refine ⟨fun idx entry at_idx => ?_, fun idx idx' entry at_idx at_idx' => ?_⟩
  · rw [List.length_set]
    rcases elsewhere idx entry at_idx with ⟨rfl, rfl⟩ | old
    · obtain ⟨steps, short, probes⟩ := vacant.2
      exact ⟨steps, short, probes.set (by simp) use⟩
    · obtain ⟨steps, short, probes⟩ := reach.reached idx entry old
      exact ⟨steps, short, probes.set (by simp) use⟩
  · rcases elsewhere idx entry at_idx with ⟨rfl, rfl⟩ | old
    · rcases elsewhere idx' entry at_idx' with ⟨rfl, -⟩ | old'
      · rfl
      · exact absurd (List.mem_of_getElem? old') new
    · rcases elsewhere idx' entry at_idx' with ⟨rfl, rfl⟩ | old'
      · exact absurd (List.mem_of_getElem? old) new
      · exact reach.once idx idx' entry old old'

-----------------------------------------------------------------------------------------
-- Removal
-----------------------------------------------------------------------------------------

theorem entrySlot_sound [DecidableEq α] (found : entrySlot slots key fuel idx = some use)
    : slots[use]? = some (.entry key) := by
  induction fuel generalizing idx with
  | zero => cases found
  | succ fuel ih =>
      simp only [entrySlot] at found
      split at found
      · rename_i other at_idx
        split at found
        · rename_i same
          cases found
          rw [at_idx, same]
        · exact ih found
      · exact ih found
      · cases found
      · cases found

theorem entrySlot_complete [DecidableEq α] (probes : Probes slots steps idx target)
    (enough : steps < fuel) (at_target : slots[target]? = some (.entry key))
    : ∃ use, entrySlot slots key fuel idx = some use := by
  induction steps generalizing idx fuel with
  | zero =>
      obtain rfl : idx = target := probes
      cases fuel with
      | zero => cases enough
      | succ fuel => exact ⟨idx, by simp only [entrySlot, at_target, if_true]⟩
  | succ steps ih =>
      cases fuel with
      | zero => cases enough
      | succ fuel =>
          obtain ⟨⟨slot, at_idx, notEmpty⟩, probes⟩ := probes
          obtain ⟨use, later⟩ := ih probes (Nat.lt_of_succ_lt_succ enough)
          cases slot with
          | empty => exact absurd rfl notEmpty
          | tombstone => exact ⟨use, by simpa only [entrySlot, at_idx] using later⟩
          | entry other =>
              by_cases same : other = key
              · exact ⟨idx, by simp only [entrySlot, at_idx, same, if_true]⟩
              · exact ⟨use, by simpa only [entrySlot, at_idx, if_neg same] using later⟩

/-- The slot of an entry is found. -/
theorem InReach.slot [DecidableEq α] (reach : InReach slots hash)
    (present : Slot.entry key ∈ slots)
    : ∃ use, entrySlot slots key slots.length (firstSlot slots.length (hash key)) = some use := by
  obtain ⟨idx, at_idx⟩ := List.mem_iff_getElem?.mp present
  obtain ⟨steps, short, probes⟩ := reach.reached idx key at_idx
  exact entrySlot_complete probes short at_idx

/-- What is in a table after an entry became a tombstone. -/
theorem InReach.mem_remove (reach : InReach slots hash) (at_use : slots[use]? = some (.entry key))
    : Slot.entry other ∈ slots.set use .tombstone ↔ other ≠ key ∧ Slot.entry other ∈ slots := by
  have inside : use < slots.length := (List.getElem?_eq_some_iff.mp at_use).1
  simp only [List.mem_iff_getElem?]
  constructor
  · intro ⟨idx, at_idx⟩
    by_cases same : use = idx
    · subst same
      rw [List.getElem?_set_self inside] at at_idx
      cases at_idx
    · rw [List.getElem?_set_ne same] at at_idx
      refine ⟨?_, idx, at_idx⟩
      rintro rfl
      exact same (reach.once use idx other at_use at_idx)
  · intro ⟨different, idx, at_idx⟩
    have apart : use ≠ idx := by
      rintro rfl
      rw [at_use] at at_idx
      exact different (Slot.entry.inj (Option.some.inj at_idx)).symm
    exact ⟨idx, by rwa [List.getElem?_set_ne apart]⟩

theorem InReach.remove (reach : InReach slots hash) (use : Nat)
    : InReach (slots.set use .tombstone) hash := by
  have before (idx : Nat) (key : α) (at_idx : (slots.set use .tombstone)[idx]?
      = some (.entry key)) : slots[idx]? = some (.entry key) := by
    rw [List.getElem?_set] at at_idx
    split at at_idx
    · split at at_idx <;> cases at_idx
    · exact at_idx
  refine ⟨fun idx key at_idx => ?_, fun idx idx' key at_idx at_idx' => ?_⟩
  · obtain ⟨steps, short, probes⟩ := reach.reached idx key (before idx key at_idx)
    rw [List.length_set]
    exact ⟨steps, short, probes.set (by simp) use⟩
  · exact reach.once idx idx' key (before idx key at_idx) (before idx' key at_idx')

/-- What is in a table after its dead entries became tombstones. -/
theorem mem_buryDead {dead : α → Bool}
    : Slot.entry key ∈ buryDead dead slots ↔ dead key = false ∧ Slot.entry key ∈ slots := by
  simp only [buryDead, List.mem_map]
  constructor
  · rintro ⟨slot, present, becomes⟩
    cases slot with
    | empty => cases becomes
    | tombstone => cases becomes
    | entry other =>
        cases isDead : dead other with
        | true => simp [isDead] at becomes
        | false =>
            obtain rfl : other = key := by simpa [isDead] using becomes
            exact ⟨isDead, present⟩
  · rintro ⟨alive, present⟩
    exact ⟨_, present, by simp [alive]⟩

theorem InReach.buryDead (reach : InReach slots hash) (dead : α → Bool)
    : InReach (buryDead dead slots) hash := by
  have size : (Foundation.buryDead dead slots).length = slots.length := List.length_map ..
  have before (idx : Nat) (key : α) (at_idx : (Foundation.buryDead dead slots)[idx]?
      = some (.entry key)) : slots[idx]? = some (.entry key) := by
    rw [Foundation.buryDead, List.getElem?_map, Option.map_eq_some_iff] at at_idx
    obtain ⟨slot, old, becomes⟩ := at_idx
    cases slot with
    | empty => cases becomes
    | tombstone => cases becomes
    | entry other =>
        cases isDead : dead other with
        | true => simp [isDead] at becomes
        | false =>
            obtain rfl : other = key := by simpa [isDead] using becomes
            exact old
  have kept (idx : Nat) (occupied : Occupied slots idx)
      : Occupied (Foundation.buryDead dead slots) idx := by
    obtain ⟨slot, at_idx, notEmpty⟩ := occupied
    refine ⟨_, by rw [Foundation.buryDead, List.getElem?_map, at_idx]; rfl, ?_⟩
    cases slot with
    | empty => exact absurd rfl notEmpty
    | tombstone => nofun
    | entry other => cases isDead : dead other <;> simp [isDead]
  refine ⟨fun idx key at_idx => ?_, fun idx idx' key at_idx at_idx' => ?_⟩
  · obtain ⟨steps, short, probes⟩ := reach.reached idx key (before idx key at_idx)
    rw [size]
    exact ⟨steps, short, probes.mono size kept⟩
  · exact reach.once idx idx' key (before idx key at_idx) (before idx' key at_idx')

-----------------------------------------------------------------------------------------
-- Rehashing
-----------------------------------------------------------------------------------------

theorem emptySlot_vacant {size start done : Nat} (came : Probes slots done start idx)
    (total : done + fuel ≤ size) (found : emptySlot slots fuel idx = some use)
    (inside : idx < slots.length)
    : Vacant slots size start use := by
  induction fuel generalizing idx done with
  | zero => cases found
  | succ fuel ih =>
      simp only [emptySlot] at found
      split at found
      · rename_i at_idx
        cases found
        exact ⟨.inl at_idx, done, by omega, came⟩
      · rename_i full
        have occupied : Occupied slots idx :=
          ⟨slots[idx], List.getElem?_eq_getElem inside, fun isEmpty =>
            full (by rw [List.getElem?_eq_getElem inside, isEmpty])⟩
        have goOn : Probes slots (done + 1) start (nextSlot slots.length idx) :=
          came.append ⟨occupied, rfl⟩
        exact ih goOn (by omega) found (nextSlot_lt inside)

/-- A rehash keeps the entries, and it keeps them within reach. -/
theorem rehash_spec {table table' : List (Slot α)} (nonempty : table.length ≠ 0)
    (reach : InReach table hash) (done : rehash hash slots table = some table')
    (apart : ∀ (idx : Nat) (key : α), slots[idx]? = some (.entry key) → Slot.entry key ∉ table)
    (once : ∀ (idx idx' : Nat) (key : α), slots[idx]? = some (.entry key) →
      slots[idx']? = some (.entry key) → idx = idx')
    : InReach table' hash ∧ table'.length = table.length
      ∧ ∀ key, Slot.entry key ∈ table' ↔ Slot.entry key ∈ slots ∨ Slot.entry key ∈ table := by
  induction slots generalizing table with
  | nil =>
      cases done
      exact ⟨reach, rfl, by simp⟩
  | cons slot slots ih =>
      have once' : ∀ (idx idx' : Nat) (key : α), slots[idx]? = some (.entry key) →
          slots[idx']? = some (.entry key) → idx = idx' := fun idx idx' key at_idx at_idx' =>
        Nat.succ.inj (once (idx + 1) (idx' + 1) key at_idx at_idx')
      have apart' : ∀ (idx : Nat) (key : α), slots[idx]? = some (.entry key) →
          Slot.entry key ∉ table :=
        fun idx key at_idx => apart (idx + 1) key at_idx
      cases slot with
      | empty =>
          obtain ⟨reach', size, members⟩ := ih nonempty reach done apart' once'
          exact ⟨reach', size, fun key => by simp [members]⟩
      | tombstone =>
          obtain ⟨reach', size, members⟩ := ih nonempty reach done apart' once'
          exact ⟨reach', size, fun key => by simp [members]⟩
      | entry key =>
          rw [rehash, Option.bind_eq_some_iff] at done
          obtain ⟨use, found, done⟩ := done
          let start := firstSlot table.length (hash key)
          have here : Probes table 0 start start := rfl
          have vacant : Vacant table table.length start use :=
            emptySlot_vacant here (by omega) found (firstSlot_lt nonempty (hash key))
          have new : Slot.entry key ∉ table := apart 0 key rfl
          obtain ⟨inside, free⟩ := vacant.free
          have apart'' : ∀ (idx : Nat) (other : α), slots[idx]? = some (.entry other) →
              Slot.entry other ∉ table.set use (.entry key) := by
            intro idx other at_idx present
            rcases (mem_set_entry free inside).mp present with rfl | old
            · exact absurd (once 0 (idx + 1) other rfl at_idx) nofun
            · exact apart' idx other at_idx old
          obtain ⟨reach', size, members⟩ := ih (by rwa [List.length_set]) (reach.insert new vacant)
            done apart'' once'
          refine ⟨reach', size.trans List.length_set, fun other => ?_⟩
          rw [members, mem_set_entry free inside, List.mem_cons]
          constructor
          · rintro (later | rfl | old)
            · exact .inl (.inr later)
            · exact .inl (.inl rfl)
            · exact .inr old
          · rintro ((same | later) | old)
            · exact .inr (.inl (Slot.entry.inj same))
            · exact .inl later
            · exact .inr (.inr old)

/-- A table that is rehashed into an empty one. -/
theorem InReach.rehash {size : Nat} {table : List (Slot α)} (reach : InReach slots hash)
    (nonempty : size ≠ 0)
    (done : Foundation.rehash hash slots (List.replicate size .empty) = some table)
    : InReach table hash ∧ table.length = size
      ∧ ∀ key, Slot.entry key ∈ table ↔ Slot.entry key ∈ slots := by
  have none : ∀ key, Slot.entry key ∉ List.replicate size (Slot.empty (α := α)) := by
    intro key present
    cases (List.mem_replicate.mp present).2
  obtain ⟨reach', size', members⟩ := rehash_spec (by rwa [List.length_replicate])
    (InReach.empty size hash) done (fun _ key _ => none key) reach.once
  refine ⟨reach', size'.trans List.length_replicate, fun key => ?_⟩
  rw [members]
  exact ⟨fun either => either.resolve_right (none key), .inl⟩

end Boomkat.Foundation
