import Boomkat.Collections.Iterator

/-! The methods that combine two sets. The other set is one with the methods of `Set.prototype`, so
that its record has its count, its lookup and its iterator.
-/

namespace Boomkat.Collections

/-- What the allocator has memory for in the turn of a value: an index at each of two lookups, and
the dense part at a write.
-/
structure TurnMemory where
  first : Bool
  second : Bool
  write : Bool

/-- How a turn of a loop ends: the loop goes on, or the method returns a boolean. -/
inductive Turn (σ : Type)
  | onward (state : σ)
  | answer (b : Bool)

inductive SetAnswer
  | set (result : Coll)
  | boolean (b : Bool)

-----------------------------------------------------------------------------------------
-- Shared helpers
-----------------------------------------------------------------------------------------

def setLiveCount (set : Coll) : Nat :=
  (List.range set.arrayUsed).countP fun i => set.slot i != .deleted

/-- The zero with the sign becomes the other one. -/
def setNormalizeNegZero (v : TVal) : TVal :=
  match v with
  | .number d => if isZero d && d.isNegative then .fastint 0 else v
  | _ => v

def setResultAppend (result : Coll) (value : TVal) (write : Bool) : Coll :=
  let idx := result.arrayUsed
  let result := result.setArrayIdx idx value write
  if result.arrayUsed ≤ idx then { result with arrayUsed := idx + 1 } else result

def setCopyLiveEntries (set : Coll) (memory : TVal → TurnMemory) : Coll :=
  (List.range set.arrayUsed).foldl
    (fun result i =>
      if set.slot i = .deleted then result
      else setResultAppend result (set.slot i) (memory (set.slot i)).write)
    (.new .set)

/-- `set_record_has` of a set: the lookup, with what it does to the index. -/
def setRecordHas (heap : HeapData) (other : Coll) (value : TVal) (allocates : Bool)
    : Option (Coll × Bool) :=
  (collFind heap other value allocates).map fun (other, found) => (other, found.isSome)

-----------------------------------------------------------------------------------------
-- Walks
-----------------------------------------------------------------------------------------

/-- A walk over the raw slots of a set. -/
structure SetLiveWalk where
  index : Nat
  thisSize : Nat

def setLiveWalkStart (set : Coll) : SetLiveWalk := ⟨0, setLiveCount set⟩

def setLiveWalkNext (set : Coll) (w : SetLiveWalk) : Option (TVal × SetLiveWalk) :=
  if w.index < w.thisSize then
    if set.arrayPart = [] ∨ w.index ≥ set.arrayUsed then none
    else
      let e := set.slot w.index
      let w' : SetLiveWalk := { w with index := w.index + 1 }
      if e ≠ .deleted then some (e, w') else setLiveWalkNext set w'
  else none
termination_by w.thisSize - w.index

def setLiveWalkResample (set : Coll) (w : SetLiveWalk) : SetLiveWalk :=
  { w with thisSize := setLiveCount set }

theorem setLiveWalkNext_onward {set : Coll} {w : SetLiveWalk} {found : TVal × SetLiveWalk}
    (next : setLiveWalkNext set w = some found)
    : w.index < found.2.index ∧ found.2.index ≤ set.arrayUsed := by
  induction w using setLiveWalkNext.induct set with
  | case1 w small ends =>
      rw [setLiveWalkNext, if_pos small, if_pos ends] at next
      cases next
  | case2 w small inside e live =>
      rw [setLiveWalkNext, if_pos small, if_neg inside] at next
      simp only at next
      rw [if_pos live] at next
      cases next
      have within : w.index < set.arrayUsed := by omega
      exact ⟨Nat.lt_succ_self _, within⟩
  | case3 w small inside e w' gone ih =>
      rw [setLiveWalkNext, if_pos small, if_neg inside] at next
      simp only at next
      rw [if_neg gone] at next
      have later := ih next
      exact ⟨Nat.lt_of_succ_lt later.1, later.2⟩
  | case4 w large =>
      rw [setLiveWalkNext, if_neg large] at next
      cases next

/-- The loop over the elements of a set that calls the lookup of the other one in each turn. No
lookup changes the entries, so that the set is the same throughout, also where it is the other one.
-/
def liveLoop {σ : Type} (set : Coll) (turn : σ → TVal → Option (Turn σ)) (w : SetLiveWalk)
    (state : σ) : Option (Turn σ) :=
  match next : setLiveWalkNext set w with
  | none => some (.onward state)
  | some (elem, w') =>
      have _onward := setLiveWalkNext_onward next
      match turn state elem with
      | none => none
      | some (.answer b) => some (.answer b)
      | some (.onward state) => liveLoop set turn (setLiveWalkResample set w') state
termination_by set.arrayUsed - w.index
decreasing_by
  have inside : w.index < w'.index ∧ w'.index ≤ set.arrayUsed := _onward
  change set.arrayUsed - w'.index < set.arrayUsed - w.index
  omega

/-- `skipDeleted` does not go back. -/
theorem skipDeleted_le (coll : Coll) (bound fuel slot : Nat)
    : slot ≤ coll.skipDeleted bound fuel slot := by
  induction fuel generalizing slot with
  | zero => exact Nat.le_refl _
  | succ fuel ih =>
      rw [Coll.skipDeleted]
      split
      · exact Nat.le_trans (Nat.le_add_right _ _) (ih _)
      · exact Nat.le_refl _

theorem iteratorNext_onward {other : Coll} {index index' slot : Nat} {target : Bool}
    (next : other.iteratorNext true index = (.iterator target index', some slot))
    : index < index' ∧ index' ≤ other.arrayUsed := by
  have later := skipDeleted_le other other.arrayUsed (other.arrayUsed + 1)
    (index * other.cls.stride)
  have positive : 0 < other.cls.stride := by cases other.cls <;> decide
  unfold Coll.iteratorNext at next
  dsimp only at next
  generalize other.skipDeleted other.arrayUsed (other.arrayUsed + 1) (index * other.cls.stride)
    = slotIdx at later next
  simp only [not_true_eq_false, if_false] at next
  split at next
  · rename_i inside
    simp only [Prod.mk.injEq, Walker.iterator.injEq] at next
    have index_le : index ≤ slotIdx / other.cls.stride := (Nat.le_div_iff_mul_le positive).mpr later
    have within : slotIdx / other.cls.stride ≤ slotIdx := Nat.div_le_self _ _
    omega
  · cases next

/-- The loop over what the iterator of the other set yields. -/
def keysLoop {σ : Type} (other : Coll) (turn : σ → TVal → Option (Turn σ)) (index : Nat)
    (state : σ) : Option (Turn σ) :=
  match next : other.iteratorNext true index with
  | (.iterator _ index', some slot) =>
      have _onward := iteratorNext_onward next
      match turn state (setNormalizeNegZero (other.entryAt slot).1) with
      | none => none
      | some (.answer b) => some (.answer b)
      | some (.onward state) => keysLoop other turn index' state
  | _ => some (.onward state)
termination_by other.arrayUsed - index

-----------------------------------------------------------------------------------------
-- Methods
-----------------------------------------------------------------------------------------

/-- A loop that did not return leaves the result. -/
def Turn.toAnswer {σ : Type} (result : σ → SetAnswer) : Turn σ → SetAnswer
  | .onward state => result state
  | .answer b => .boolean b

/-- Append a value to the result, unless it is there. -/
def appendNew (heap : HeapData) (memory : TVal → TurnMemory) (result : Coll) (v : TVal)
    : Option Coll :=
  (collFind heap result v (memory v).second).map fun (result, found) =>
    match found with
    | some _ => result
    | none => setResultAppend result v (memory v).write

/-- Mark a value of the result as deleted, if it is there. -/
def dropFound (heap : HeapData) (memory : TVal → TurnMemory) (result : Coll) (v : TVal)
    : Option Coll :=
  (collFind heap result v (memory v).second).map fun (result, found) =>
    match found with
    | some found => result.bury found
    | none => result

def builtinSetProtoUnion (heap : HeapData) (memory : TVal → TurnMemory) (set other : Coll)
    : Option SetAnswer :=
  (keysLoop other (fun result v => (appendNew heap memory result v).map .onward) 0
    (setCopyLiveEntries set memory)).map (Turn.toAnswer .set)

def builtinSetProtoIntersection (heap : HeapData) (memory : TVal → TurnMemory) (set other : Coll)
    : Option SetAnswer :=
  if setLiveCount set ≤ setLiveCount other then
    (liveLoop set
      (fun (state : Coll × Coll) elem => do
        let (other, has) ← setRecordHas heap state.1 elem (memory elem).first
        if has then
          let result ← appendNew heap memory state.2 elem
          some (.onward (other, result))
        else some (.onward (other, state.2)))
      (setLiveWalkStart set) (other, .new .set)).map (Turn.toAnswer fun state => .set state.2)
  else
    (keysLoop other
      (fun (state : Coll × Coll) v => do
        let (set, found) ← collFind heap state.1 v (memory v).first
        if found.isSome then
          let result ← appendNew heap memory state.2 v
          some (.onward (set, result))
        else some (.onward (set, state.2)))
      0 (set, .new .set)).map (Turn.toAnswer fun state => .set state.2)

/-- The walk over the copy, whose size is taken once. -/
def differenceLoop (heap : HeapData) (memory : TVal → TurnMemory) (thisSize : Nat)
    (index : Nat) (other result : Coll) : Option Coll :=
  if index < thisSize ∧ index < result.arrayUsed then
    let e := result.slot index
    if e ≠ .deleted then
      match setRecordHas heap other e (memory e).first with
      | none => none
      | some (other, has) =>
          differenceLoop heap memory thisSize (index + 1) other
            (if has then result.bury index else result)
    else differenceLoop heap memory thisSize (index + 1) other result
  else some result
termination_by thisSize - index

def builtinSetProtoDifference (heap : HeapData) (memory : TVal → TurnMemory) (set other : Coll)
    : Option SetAnswer :=
  let result := setCopyLiveEntries set memory
  if setLiveCount set ≤ setLiveCount other then
    (differenceLoop heap memory (setLiveCount set) 0 other result).map .set
  else
    (keysLoop other (fun result v => (dropFound heap memory result v).map .onward) 0 result).map
      (Turn.toAnswer .set)

def builtinSetProtoSymmetricDifference (heap : HeapData) (memory : TVal → TurnMemory)
    (set other : Coll) : Option SetAnswer :=
  (keysLoop other
    (fun (state : Coll × Coll) v => do
      let (result, found) ← collFind heap state.2 v (memory v).second
      let (set, present) ← collFind heap state.1 v (memory v).first
      match present, found with
      | some _, some found => some (.onward (set, result.bury found))
      | some _, none => some (.onward (set, result))
      | none, some _ => some (.onward (set, result))
      | none, none => some (.onward (set, setResultAppend result v (memory v).write)))
    0 (set, setCopyLiveEntries set memory)).map (Turn.toAnswer fun state => .set state.2)

def builtinSetProtoIsSubsetOf (heap : HeapData) (memory : TVal → TurnMemory) (set other : Coll)
    : Option SetAnswer :=
  if setLiveCount set > setLiveCount other then some (.boolean false)
  else
    (liveLoop set
      (fun other elem => do
        let (other, has) ← setRecordHas heap other elem (memory elem).first
        some (if !has then .answer false else .onward other))
      (setLiveWalkStart set) other).map (Turn.toAnswer fun _ => .boolean true)

def builtinSetProtoIsSupersetOf (heap : HeapData) (memory : TVal → TurnMemory) (set other : Coll)
    : Option SetAnswer :=
  if setLiveCount set < setLiveCount other then some (.boolean false)
  else
    (keysLoop other
      (fun set v => do
        let (set, found) ← collFind heap set v (memory v).first
        some (if found.isNone then .answer false else .onward set))
      0 set).map (Turn.toAnswer fun _ => .boolean true)

def builtinSetProtoIsDisjointFrom (heap : HeapData) (memory : TVal → TurnMemory)
    (set other : Coll) : Option SetAnswer :=
  if setLiveCount set ≤ setLiveCount other then
    (liveLoop set
      (fun other elem => do
        let (other, has) ← setRecordHas heap other elem (memory elem).first
        some (if has then .answer false else .onward other))
      (setLiveWalkStart set) other).map (Turn.toAnswer fun _ => .boolean true)
  else
    (keysLoop other
      (fun set v => do
        let (set, found) ← collFind heap set v (memory v).first
        some (if found.isSome then .answer false else .onward set))
      0 set).map (Turn.toAnswer fun _ => .boolean true)

end Boomkat.Collections
