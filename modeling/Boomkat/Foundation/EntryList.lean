import Mathlib.Data.List.Basic
import Mathlib.Tactic.Common

/-! Lists of entries that are walked while they change: an entry keeps its place until the end,
where a removed one leaves an empty cell, and cursors go over the places in order.
-/

namespace Boomkat.Foundation

/-- Where a walk is, with the places it has been at. -/
structure Cursor where
  index : Nat
  done : Bool
  visited : List Nat

/-- The cells in the order of their insertion, empty where the entry is gone. -/
structure EntryList (α : Type*) where
  cells : List (Option α)
  cursors : List Cursor

namespace EntryList

variable {α : Type*}

def empty : EntryList α := ⟨[], []⟩

def append (l : EntryList α) (a : α) : EntryList α := { l with cells := l.cells ++ [some a] }

/-- Put another entry, or none, in the place of one. -/
def assign (l : EntryList α) (i : Nat) (cell : Option α) : EntryList α :=
  { l with cells := l.cells.set i cell }

/-- Remove all entries. Their places stay. -/
def clear (l : EntryList α) : EntryList α := { l with cells := l.cells.map fun _ => none }

def openCursor (l : EntryList α) : EntryList α := { l with cursors := l.cursors ++ [⟨0, false, []⟩] }

/-- The first place from an index on that has an entry. -/
def nextLive (cells : List (Option α)) (start : Nat) : Option Nat :=
  (List.range' start (cells.length - start)).find? fun i => (cells[i]?.join).isSome

/-- The cursor after it went on, and the place it came to. It is done where there is none. -/
def advanceCursor (cells : List (Option α)) (cursor : Cursor) : Cursor × Option Nat :=
  if cursor.done then (cursor, none)
  else
    match nextLive cells cursor.index with
    | some i => (⟨i + 1, false, cursor.visited ++ [i]⟩, some i)
    | none => ({ cursor with index := cells.length, done := true }, none)

/-- Let a cursor go on. There is no result without such a cursor. -/
def advance (l : EntryList α) (c : Nat) : Option (EntryList α × Option Nat) :=
  l.cursors[c]?.map fun cursor =>
    let (cursor, found) := advanceCursor l.cells cursor
    ({ l with cursors := l.cursors.set c cursor }, found)

end EntryList

open EntryList

variable {α : Type*} {l : EntryList α} {cells cells' : List (Option α)} {cursor cursor' : Cursor}
  {i j start : Nat}

-----------------------------------------------------------------------------------------
-- The next entry
-----------------------------------------------------------------------------------------

theorem nextLive_eq_some
    : nextLive cells start = some i ↔ start ≤ i ∧ (∃ a, cells[i]? = some (some a))
      ∧ ∀ j, start ≤ j → j < i → ∀ a, cells[j]? ≠ some (some a) := by
  have live : ∀ j : Nat, (cells[j]?.join).isSome = true ↔ ∃ a, cells[j]? = some (some a) := by
    intro j
    rcases at_j : cells[j]? with - | - | a <;> simp
  rw [nextLive, List.find?_range'_eq_some]
  simp only [live, List.mem_range'_1, Bool.not_eq_true', ← Bool.not_eq_true]
  constructor
  · rintro ⟨found, ⟨behind, -⟩, before⟩
    refine ⟨behind, found, fun j after earlier a at_j => ?_⟩
    exact before j after earlier ⟨a, at_j⟩
  · rintro ⟨behind, found, before⟩
    have within : i < cells.length := by
      obtain ⟨a, at_i⟩ := found
      exact (List.getElem?_eq_some_iff.mp at_i).1
    refine ⟨found, ⟨behind, by omega⟩, ?_⟩
    rintro j after earlier ⟨a, at_j⟩
    exact before j after earlier a at_j

theorem nextLive_eq_none
    : nextLive cells start = none ↔ ∀ j, start ≤ j → ∀ a, cells[j]? ≠ some (some a) := by
  rw [nextLive, List.find?_eq_none]
  constructor
  · intro none j after a at_j
    have within : j < cells.length := (List.getElem?_eq_some_iff.mp at_j).1
    exact none j (List.mem_range'_1.mpr ⟨after, by omega⟩) (by rw [at_j]; rfl)
  · intro none j member live
    rcases at_j : cells[j]? with - | - | a <;> rw [at_j] at live
    · cases live
    · cases live
    · exact none j (List.mem_range'_1.mp member).1 a at_j

-----------------------------------------------------------------------------------------
-- Walks
-----------------------------------------------------------------------------------------

/-- The cursor has been at places in order, each once, and what it passed without a visit has no
entry any more. When it was done it had passed all places there were.
-/
structure CursorFits (cells : List (Option α)) (cursor : Cursor) : Prop where
  ordered : cursor.visited.Pairwise (· < ·)
  passed : ∀ i ∈ cursor.visited, i < cursor.index
  within : cursor.index ≤ cells.length
  covered : ∀ i < cursor.index, i ∈ cursor.visited ∨ cells[i]? = some none

/-- Cells only get empty or are appended. -/
structure Later (cells cells' : List (Option α)) : Prop where
  length : cells.length ≤ cells'.length
  emptied : ∀ i : Nat, cells[i]? = some none → cells'[i]? = some none

theorem CursorFits.later (fits : CursorFits cells cursor) (later : Later cells cells')
    : CursorFits cells' cursor :=
  ⟨fits.ordered, fits.passed, Nat.le_trans fits.within later.length, fun i before =>
    (fits.covered i before).imp_right (later.emptied i)⟩

theorem CursorFits.new (cells : List (Option α)) : CursorFits cells ⟨0, false, []⟩ :=
  ⟨.nil, fun _ member => absurd member List.not_mem_nil, Nat.zero_le _, fun _ before =>
    absurd before (Nat.not_lt_zero _)⟩

/-- A cursor that goes on visits the next entry, and it is done only behind the last one. -/
theorem CursorFits.advance (fits : CursorFits cells cursor)
    : CursorFits cells (advanceCursor cells cursor).1 := by
  rw [advanceCursor]
  split
  · exact fits
  · split
    · rename_i i found
      obtain ⟨behind, ⟨a, at_i⟩, before⟩ := nextLive_eq_some.mp found
      have within : i < cells.length := (List.getElem?_eq_some_iff.mp at_i).1
      refine ⟨?_, ?_, within, ?_⟩
      · refine List.pairwise_append.mpr ⟨fits.ordered, List.pairwise_singleton .., ?_⟩
        intro j member k last
        rw [List.mem_singleton.mp last]
        exact Nat.lt_of_lt_of_le (fits.passed j member) behind
      · intro j member
        rcases List.mem_append.mp member with old | last
        · exact Nat.lt_succ_of_lt (Nat.lt_of_lt_of_le (fits.passed j old) behind)
        · rw [List.mem_singleton.mp last]
          exact Nat.lt_succ_self i
      · intro j short
        rcases Nat.lt_or_ge j cursor.index with old | after
        · exact (fits.covered j old).imp_left fun seen => List.mem_append_left _ seen
        · rcases Nat.lt_or_eq_of_le (Nat.le_of_lt_succ short) with earlier | rfl
          · refine .inr ?_
            rcases at_j : cells[j]? with - | - | b
            · have outside := List.getElem?_eq_none_iff.mp at_j
              omega
            · rfl
            · exact absurd at_j (before j after earlier b)
          · exact .inl (List.mem_append_right _ (List.mem_singleton_self j))
    · rename_i none
      refine ⟨fits.ordered, fun i member => ?_, Nat.le_refl _, fun i (short : i < cells.length) => ?_⟩
      · exact Nat.lt_of_lt_of_le (fits.passed i member) fits.within
      · rcases Nat.lt_or_ge i cursor.index with old | after
        · exact fits.covered i old
        · refine .inr ?_
          rcases at_i : cells[i]? with - | - | b
          · have outside := List.getElem?_eq_none_iff.mp at_i
            omega
          · rfl
          · exact absurd at_i (nextLive_eq_none.mp none i after b)

theorem advance_eq {c : Nat} (at_c : l.cursors[c]? = some cursor)
    : l.advance c = some (⟨l.cells, l.cursors.set c (advanceCursor l.cells cursor).1⟩,
      (advanceCursor l.cells cursor).2) := by
  rw [EntryList.advance, at_c]
  rfl

/-- Every walk over the list is in order and complete. -/
structure WalksFit (l : EntryList α) : Prop where
  cursors : ∀ cursor ∈ l.cursors, CursorFits l.cells cursor

theorem WalksFit.empty : WalksFit (EntryList.empty : EntryList α) :=
  ⟨fun _ member => absurd member List.not_mem_nil⟩

theorem WalksFit.later (fits : WalksFit l) (later : Later l.cells cells)
    : WalksFit { l with cells := cells } :=
  ⟨fun cursor member => (fits.cursors cursor member).later later⟩

theorem WalksFit.append (fits : WalksFit l) (a : α) : WalksFit (l.append a) :=
  fits.later ⟨by simp, fun i empty => by
    rw [List.getElem?_append_left (List.getElem?_eq_some_iff.mp empty).1, empty]⟩

/-- Another entry in the place of an entry. -/
theorem WalksFit.replace (fits : WalksFit l) {old : α} (live : l.cells[i]? = some (some old))
    (cell : Option α)
    : WalksFit (l.assign i cell) := by
  refine fits.later ⟨Nat.le_of_eq List.length_set.symm, fun j empty => ?_⟩
  have apart : i ≠ j := by
    rintro rfl
    simp [live] at empty
  rw [List.getElem?_set_ne apart, empty]

theorem WalksFit.clear (fits : WalksFit l) : WalksFit l.clear :=
  fits.later ⟨Nat.le_of_eq (List.length_map _).symm, fun i empty => by
    rw [List.getElem?_map, empty]
    rfl⟩

theorem WalksFit.openCursor (fits : WalksFit l) : WalksFit l.openCursor := by
  refine ⟨fun cursor member => ?_⟩
  rcases List.mem_append.mp member with old | new
  · exact fits.cursors cursor old
  · rw [List.mem_singleton.mp new]
    exact .new _

theorem WalksFit.advance (fits : WalksFit l) {c : Nat} {l' : EntryList α} {found : Option Nat}
    (advanced : l.advance c = some (l', found))
    : WalksFit l' := by
  obtain ⟨cursor, at_c, goesOn⟩ := Option.map_eq_some_iff.mp advanced
  cases goesOn
  refine ⟨fun other member => ?_⟩
  rcases List.mem_or_eq_of_mem_set member with old | rfl
  · exact fits.cursors other old
  · exact (fits.cursors cursor (List.mem_of_getElem? at_c)).advance

end Boomkat.Foundation
