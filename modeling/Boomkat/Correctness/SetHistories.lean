import Boomkat.Correctness.SetAlgebra

/-! The methods that combine two sets are those of mathematics unless the walk over raw slots misses
an element that matters.
-/

namespace Boomkat.Correctness

open Foundation Strings Collections

variable {heap : HeapData} {memory : TVal → TurnMemory} {set other next : Coll} {l : List TVal}

-----------------------------------------------------------------------------------------
-- Histories
-----------------------------------------------------------------------------------------

/-- A call of `add` with room for the element, or a call of `delete`. -/
def Adding (set : Coll) : CollOp × Memory → Prop
  | (.add _, memory) => HasRoom set memory
  | (.delete _, _) => True
  | _ => False

instance : ∀ event, Decidable (Adding set event)
  | (.add _, memory) => inferInstanceAs (Decidable (HasRoom set memory))
  | (.delete _, _) => isTrue trivial
  | (.set .., _) | (.getOrInsert .., _) | (.getOrInsertComputed _, _) | (.computed .., _)
  | (.clear, _) | (.lookup _, _) => isFalse id

/-- What a call comes to on the elements. -/
def recorded (heap : HeapData) (l : List TVal) : CollOp × Memory → List TVal
  | (.add value, _) =>
      insertNew (sameValueZero heap) l (canonicalizeKeyedCollectionKey value).val
  | (.delete key, _) => without (sameValueZero heap) l key.val
  | _ => l

theorem SetSound.lookedUp (sound : SetSound heap set) (looked : LookedUp heap set other)
    : SetSound heap other ∧ elements other = elements set :=
  ⟨⟨looked.sound sound.sound.fits, looked.same.cls.trans sound.cls⟩, looked.same.elements⟩

/-- Appending a value to a set is what the methods for results do. -/
theorem SetSound.appendValue (sound : SetSound heap set) {memory : Memory}
    (first : memory.firstWrite = true) (bounded : set.arrayUsed + 1 < 2 ^ 31) (v : TVal)
    : appendValue v memory set = setResultAppend set v true := by
  have strong : (set.setArrayIdx set.arrayUsed v true).cls.isWeak = false := by
    rw [(setArrayIdx_stored set v (by omega)).cls, sound.cls]
    rfl
  rw [Correctness.appendValue, first]
  simp only [strong, Bool.false_eq_true, not_false_eq_true, true_and]
  rfl

theorem SetSound.step_add (fit : KeysFit heap) (sound : SetSound heap set) (value : ScriptVal)
    {memory : Memory} (room : HasRoom set memory)
    (taken : collAddValue heap set value memory = some next)
    : SetSound heap next ∧ elements next = recorded heap (elements set) (.add value, memory) := by
  obtain ⟨next', taken', outcome, -⟩ := collAddValue_spec fit sound.sound value memory
  obtain rfl := Option.some.inj (taken.symm.trans taken')
  have known := sound.found_iff fit (canonicalizeKeyedCollectionKey value).val
  cases outcome with
  | refused weak _ =>
      rw [sound.cls] at weak
      cases weak
  | hit looked found result =>
      rw [found, Option.isSome_some, isElement] at known
      rw [result, recorded, insertNew, ← known, if_pos rfl]
      exact sound.lookedUp looked
  | miss looked absent result =>
      obtain ⟨first, -, bounded⟩ := room
      rw [sound.cls] at bounded
      rw [absent, Option.isSome_none] at known
      have bounded' : (_ : Coll).arrayUsed + 1 < 2 ^ 31 := looked.same.used ▸ bounded
      obtain ⟨sound', same, -⟩ := sound.append fit looked known.symm
        (canonicalizeKeyedCollectionKey value).property bounded
      rw [isElement] at known
      rw [result, recorded, insertNew, ← known, if_neg Bool.false_ne_true,
        (sound.lookedUp looked).1.appendValue first bounded']
      exact ⟨sound', same⟩

theorem SetSound.step_delete (fit : KeysFit heap) (sound : SetSound heap set) (key : ScriptVal)
    {memory : Memory} (taken : collDelete heap set key memory = some next)
    : SetSound heap next ∧ elements next = recorded heap (elements set) (.delete key, memory) := by
  obtain ⟨next', taken', outcome⟩ := collDelete_spec fit sound.sound key memory
  obtain rfl := Option.some.inj (taken.symm.trans taken')
  cases outcome with
  | refused weak _ =>
      rw [sound.cls] at weak
      cases weak
  | @hit looked i lookedUp found result =>
      have sound' := (sound.lookedUp lookedUp).1
      obtain ⟨sound'', same, -⟩ := sound.bury fit sound' lookedUp.same found
      have strong : looked.cls.isWeak = false := by
        rw [sound'.cls]
        rfl
      rw [result, if_neg (by rw [strong]; exact Bool.false_ne_true)]
      exact ⟨sound'', same⟩
  | miss looked absent result =>
      have known := sound.found_iff fit key.val
      rw [absent, Option.isSome_none, isElement] at known
      rw [result, recorded, without_absent known.symm]
      exact sound.lookedUp looked

theorem SetSound.step (fit : KeysFit heap) (sound : SetSound heap set) {event : CollOp × Memory}
    (adding : Adding set event) (taken : set.step heap event = some next)
    : SetSound heap next ∧ elements next = recorded heap (elements set) event := by
  obtain ⟨op, memory⟩ := event
  cases op with
  | add value =>
      have fits : (CollOp.add value).fits set.cls = true := by
        rw [sound.cls]
        rfl
      rw [Coll.step, fits] at taken
      exact sound.step_add fit value adding taken
  | delete key =>
      rw [Coll.step] at taken
      exact sound.step_delete fit key taken
  | _ => exact adding.elim

/-- A set holds the elements that its history added and did not delete. -/
theorem elements_of_history (fit : KeysFit heap) {events : List (CollOp × Memory)}
    (history : Along (Coll.step heap) Adding (Coll.new .set) events)
    (run : replay (Coll.step heap) (Coll.new .set) events = some set)
    : SetSound heap set ∧ elements set = events.foldl (recorded heap) [] := by
  suffices onward : ∀ start, SetSound heap start →
      Along (Coll.step heap) Adding start events →
      replay (Coll.step heap) start events = some set →
      SetSound heap set ∧ elements set = events.foldl (recorded heap) (elements start) from
    onward (Coll.new .set) ⟨CollSound.new .set, rfl⟩ history run
  clear history run
  induction events with
  | nil =>
      intro start sound _ run
      cases run
      exact ⟨sound, rfl⟩
  | cons event events ih =>
      intro start sound history run
      obtain ⟨next, taken, rest⟩ := replay_cons.mp run
      obtain ⟨sound', same⟩ := sound.step fit history.1 taken
      rw [List.foldl_cons, ← same]
      exact ih next sound' (history.2 next taken) rest

-----------------------------------------------------------------------------------------
-- All methods
-----------------------------------------------------------------------------------------

/-- The methods give what mathematics gives for the elements. The elements of a result are in the
order of the first set, followed by those that only the other one has, in its order; where an
intersection looks up the elements of the other set, they are in the order of that one.
-/
structure SetAlgebraHolds (heap : HeapData) (memory : TVal → TurnMemory) (set other : Coll)
    : Prop where
  union : GivesSet heap (builtinSetProtoUnion heap memory set other)
    (elements set ++ (keys other).filter fun v => !isElement heap set v)
  intersection : GivesSet heap (builtinSetProtoIntersection heap memory set other)
    (if (elements set).length ≤ (elements other).length then
      (elements set).filter (isElement heap other)
    else (keys other).filter (isElement heap set))
  difference : GivesSet heap (builtinSetProtoDifference heap memory set other)
    ((elements set).filter fun v => !isElement heap other v)
  symmetricDifference : GivesSet heap (builtinSetProtoSymmetricDifference heap memory set other)
    (((elements set).filter fun v => !isElement heap other v)
      ++ (keys other).filter fun v => !isElement heap set v)
  isSubsetOf : builtinSetProtoIsSubsetOf heap memory set other
    = some (.boolean ((elements set).all (isElement heap other)))
  isSupersetOf : builtinSetProtoIsSupersetOf heap memory set other
    = some (.boolean ((elements other).all (isElement heap set)))
  isDisjointFrom : builtinSetProtoIsDisjointFrom heap memory set other
    = some (.boolean ((elements set).all fun v => !isElement heap other v))

/-- The first set is the larger one, or no element in a slot beyond the number of its elements is in
the other set, and an early element is not there either if there is such a slot.
-/
def MissedHarmless (heap : HeapData) (set other : Coll) : Prop :=
  (elements set).length ≤ (elements other).length →
    (∀ v ∈ missed set, isElement heap other v = false)
      ∧ (missed set = [] ∨ ∃ v ∈ early set, isElement heap other v = false)

theorem GivesSet.unique {answer : Option SetAnswer} {l m : List TVal}
    (gives : GivesSet heap answer l) (gives' : GivesSet heap answer m) : l = m := by
  obtain ⟨result, is, rfl, -⟩ := gives
  obtain ⟨result', is', rfl, -⟩ := gives'
  cases is.symm.trans is'
  rfl

theorem MissedHarmless.intersection (fit : KeysFit heap)
    (writes : ∀ v, (memory v).write = true) (pair : SetPair heap set other)
    (harmless : MissedHarmless heap set other)
    : GivesSet heap (builtinSetProtoIntersection heap memory set other)
        (if (elements set).length ≤ (elements other).length then
          (elements set).filter (isElement heap other)
        else (keys other).filter (isElement heap set)) := by
  split
  · rename_i smaller
    have none : (missed set).filter (isElement heap other) = [] := by
      rw [List.filter_eq_nil_iff]
      intro v member
      rw [(harmless smaller).1 v member]
      exact Bool.false_ne_true
    rw [elements_split, List.filter_append, none, List.append_nil]
    exact intersection_early fit writes pair smaller
  · rename_i larger
    exact intersection_keys fit writes pair larger

theorem MissedHarmless.isSubsetOf (fit : KeysFit heap) (pair : SetPair heap set other)
    (harmless : MissedHarmless heap set other)
    : builtinSetProtoIsSubsetOf heap memory set other
      = some (.boolean ((elements set).all (isElement heap other))) := by
  by_cases smaller : (elements set).length ≤ (elements other).length
  · rw [isSubsetOf_early fit pair smaller, elements_split, List.all_append]
    rcases (harmless smaller).2 with none | ⟨v, member, absent⟩
    · rw [none, List.all_nil, Bool.and_true]
    · have some : (early set).all (isElement heap other) = false :=
        List.all_eq_false.mpr ⟨v, member, by rw [absent]; exact Bool.false_ne_true⟩
      rw [some, Bool.false_and]
  · have some : (elements set).all (isElement heap other) = false := by
      rw [← Bool.not_eq_true]
      intro all
      exact smaller (length_le_of_all fit pair.first (List.all_eq_true.mp all))
    rw [isSubsetOf_larger smaller, some]

theorem MissedHarmless.isDisjointFrom (fit : KeysFit heap) (pair : SetPair heap set other)
    (harmless : MissedHarmless heap set other)
    : builtinSetProtoIsDisjointFrom heap memory set other
      = some (.boolean ((elements set).all fun v => !isElement heap other v)) := by
  by_cases smaller : (elements set).length ≤ (elements other).length
  · have all : ((missed set).all fun v => !isElement heap other v) = true := by
      rw [List.all_eq_true]
      intro v member
      rw [(harmless smaller).1 v member]
      rfl
    rw [isDisjointFrom_early fit pair smaller, elements_split, List.all_append, all, Bool.and_true]
  · exact isDisjointFrom_keys fit pair smaller

/-- A missed element of the other set is missing from the intersection; and without an early element
that is not in the other set, a missed one makes the answer about subsets wrong.
-/
theorem SetAlgebraHolds.missedHarmless (fit : KeysFit heap)
    (writes : ∀ v, (memory v).write = true) (pair : SetPair heap set other)
    (holds : SetAlgebraHolds heap memory set other)
    : MissedHarmless heap set other := by
  intro smaller
  have none : ∀ v ∈ missed set, isElement heap other v = false := by
    have wanted := holds.intersection
    rw [if_pos smaller, elements_split, List.filter_append] at wanted
    have empty := (intersection_early fit writes pair smaller).unique wanted
    rw [List.self_eq_append_right, List.filter_eq_nil_iff] at empty
    exact fun v member => by simpa using empty v member
  refine ⟨none, ?_⟩
  rcases List.eq_nil_or_concat (missed set) with empty | ⟨vs, v, some⟩
  · exact .inl empty
  · refine .inr ?_
    have absent := none v (by rw [some]; simp)
    have wanted := holds.isSubsetOf
    rw [isSubsetOf_early fit pair smaller, elements_split, List.all_append, some,
      List.concat_eq_append, List.all_append, List.all_cons, absent, Bool.false_and,
      Bool.and_false, Bool.and_false] at wanted
    simp only [Option.some.injEq, SetAnswer.boolean.injEq] at wanted
    obtain ⟨a, member, missing⟩ := List.all_eq_false.mp wanted
    exact ⟨a, member, by simpa using missing⟩

theorem setAlgebraHolds_iff (fit : KeysFit heap) (writes : ∀ v, (memory v).write = true)
    (pair : SetPair heap set other)
    : SetAlgebraHolds heap memory set other ↔ MissedHarmless heap set other := by
  constructor
  · exact fun holds => holds.missedHarmless fit writes pair
  · intro harmless
    exact {
      union := union_gives fit writes pair
      intersection := harmless.intersection fit writes pair
      difference := difference_gives fit writes pair
      symmetricDifference := symmetricDifference_gives fit writes pair
      isSubsetOf := harmless.isSubsetOf fit pair
      isSupersetOf := isSupersetOf_gives fit pair
      isDisjointFrom := harmless.isDisjointFrom fit pair }

-----------------------------------------------------------------------------------------
-- Sets with histories
-----------------------------------------------------------------------------------------

/-- For sets with any histories, the methods are those of mathematics exactly where the first set is
the larger one, or what the walk over its raw slots misses does not matter.
-/
theorem setAlgebra_of_histories {strings : StringHeap} {stringEvents : List StringEvent}
    (reached : replay StringHeap.step StringHeap.new stringEvents = some strings)
    (hashed : ∀ s str, strings.strings s = some str → str.isSymbol = true → str.hash ≠ hashDeferred)
    (bigints : Addr → BitVec 128) (registered : Addr → Bool)
    {events otherEvents : List (CollOp × Memory)}
    (history : Along (Coll.step (.of strings bigints registered)) Adding (Coll.new .set) events)
    (run : replay (Coll.step (.of strings bigints registered)) (Coll.new .set) events = some set)
    (otherHistory : Along (Coll.step (.of strings bigints registered)) Adding (Coll.new .set)
      otherEvents)
    (otherRun : replay (Coll.step (.of strings bigints registered)) (Coll.new .set) otherEvents
      = some other)
    (writes : ∀ v, (memory v).write = true)
    (room : (elements set).length + (elements other).length < 2 ^ 31)
    : SetAlgebraHolds (.of strings bigints registered) memory set other
      ↔ MissedHarmless (.of strings bigints registered) set other := by
  have fit := keysFit_of_replay reached hashed bigints registered
  exact setAlgebraHolds_iff fit writes ⟨(elements_of_history fit history run).1,
    (elements_of_history fit otherHistory otherRun).1, room⟩

/-- Memory for every turn of a loop. -/
def everyTurn : TVal → TurnMemory := fun _ => ⟨true, true, true⟩

/-- A set that has four objects and loses the first of them. -/
def lostFirstOfFour : List (CollOp × Memory) :=
  [(.add (objectKey 16), plenty), (.add (objectKey 32), plenty), (.add (objectKey 48), plenty),
    (.add (objectKey 64), plenty), (.delete (objectKey 16), plenty)]

/-- A set that shares one object with it, and has lost one too. -/
def sharesThird : List (CollOp × Memory) :=
  [(.add (objectKey 48), plenty), (.add (objectKey 80), plenty), (.add (objectKey 96), plenty),
    (.delete (objectKey 80), plenty), (.add (objectKey 112), plenty)]

/-- The last object of the first set is not looked up, which the other one does not have. -/
theorem setAlgebra_of_histories_deleted
    : ∃ set other,
        replay (Coll.step (.of .new (fun _ => 0) (fun _ => false))) (.new .set) lostFirstOfFour
          = some set
        ∧ replay (Coll.step (.of .new (fun _ => 0) (fun _ => false))) (.new .set) sharesThird
          = some other
        ∧ elements set = [.object 32, .object 48, .object 64] ∧ missed set = [.object 64]
        ∧ elements other = [.object 48, .object 96, .object 112]
        ∧ SetAlgebraHolds (.of .new (fun _ => 0) (fun _ => false)) everyTurn set other := by
  have started : replay StringHeap.step StringHeap.new [] = some StringHeap.new := rfl
  have history : Along (Coll.step (.of .new (fun _ => 0) (fun _ => false))) Adding (Coll.new .set)
      lostFirstOfFour := by decide +kernel
  have otherHistory : Along (Coll.step (.of .new (fun _ => 0) (fun _ => false))) Adding
      (Coll.new .set) sharesThird := by decide +kernel
  refine ⟨_, _, rfl, rfl, by decide, by decide, by decide, ?_⟩
  refine (setAlgebra_of_histories started (fun _ _ here => by cases here) (fun _ => 0)
    (fun _ => false) history rfl otherHistory rfl (fun _ => rfl) (by decide)).mpr ?_
  exact fun _ => by decide

/-- A set of one object. -/
def oneObject (addr : Nat) : List (CollOp × Memory) := [(.add (objectKey addr), plenty)]

theorem oneObject_adding (heap : HeapData) (addr : Nat)
    : Along (Coll.step heap) Adding (Coll.new .set) (oneObject addr) :=
  ⟨⟨rfl, rfl, by decide⟩, fun _ _ => trivial⟩

/-- A set that has two objects and loses the first of them. -/
def lostFirst : List (CollOp × Memory) :=
  [(.add (objectKey 16), plenty), (.add (objectKey 32), plenty), (.delete (objectKey 16), plenty)]

theorem lostFirst_adding
    : Along (Coll.step (.of .new (fun _ => 0) (fun _ => false))) Adding (Coll.new .set)
        lostFirst := by
  decide +kernel

/-- The remaining object is not looked up: the set is taken for a part of one without it, and the
intersection with a set that has it is empty.
-/
theorem lostFirst_missed
    : ∃ set other same,
        replay (Coll.step (.of .new (fun _ => 0) (fun _ => false))) (.new .set) lostFirst
          = some set
        ∧ replay (Coll.step (.of .new (fun _ => 0) (fun _ => false))) (.new .set) (oneObject 48)
          = some other
        ∧ replay (Coll.step (.of .new (fun _ => 0) (fun _ => false))) (.new .set) (oneObject 32)
          = some same
        ∧ elements set = [.object 32] ∧ elements other = [.object 48]
        ∧ elements same = [.object 32]
        ∧ builtinSetProtoIsSubsetOf (.of .new (fun _ => 0) (fun _ => false)) everyTurn set other
          = some (.boolean true)
        ∧ GivesSet (.of .new (fun _ => 0) (fun _ => false))
          (builtinSetProtoIntersection (.of .new (fun _ => 0) (fun _ => false)) everyTurn set same)
          [] := by
  have fit : KeysFit (.of .new (fun _ => 0) (fun _ => false)) :=
    keysFit_of_replay (rfl : replay StringHeap.step StringHeap.new [] = some _) nofun _ _
  have sound : ∀ {events set}, Along (Coll.step _) Adding (Coll.new .set) events →
      replay (Coll.step _) (Coll.new .set) events = some set → SetSound _ set :=
    fun history run => (elements_of_history fit history run).1
  refine ⟨_, _, _, rfl, rfl, rfl, by decide, by decide, by decide, ?_, ?_⟩
  · rw [isSubsetOf_early fit ⟨sound lostFirst_adding rfl, sound (oneObject_adding _ 48) rfl,
      by decide⟩ (by decide)]
    rfl
  · exact intersection_early fit (fun _ => rfl) ⟨sound lostFirst_adding rfl,
      sound (oneObject_adding _ 32) rfl, by decide⟩ (by decide)

end Boomkat.Correctness
