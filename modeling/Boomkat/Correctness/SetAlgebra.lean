import Boomkat.Correctness.SetLoops
import Mathlib.Data.List.Perm.Subperm

/-! The methods that combine two sets against the sets of their elements, for sets that any calls of
`add` and `delete` left.
-/

namespace Boomkat.Correctness

open Foundation Strings Collections

variable {heap : HeapData} {memory : TVal → TurnMemory} {set other result : Coll} {v : TVal}
  {l : List TVal} {k : Nat}

-----------------------------------------------------------------------------------------
-- Results
-----------------------------------------------------------------------------------------

/-- The set has these elements and slots for more. -/
structure SetHolds (heap : HeapData) (room : Nat) (set : Coll) (l : List TVal) : Prop where
  sound : SetSound heap set
  elements : elements set = l
  bounded : set.arrayUsed + room < 2 ^ 31

theorem SetHolds.isElement (holds : SetHolds heap k set l) (v : TVal)
    : isElement heap set v = Among (sameValueZero heap) l v := by
  rw [Correctness.isElement, holds.elements]

/-- A lookup leaves the set as it is, and finds the elements. -/
theorem SetHolds.find (fit : KeysFit heap) (holds : SetHolds heap k set l) (v : TVal)
    (allocates : Bool)
    : ∃ set' found, collFind heap set v allocates = some (set', found)
      ∧ found.isSome = Among (sameValueZero heap) l v ∧ SetHolds heap k set' l
      ∧ LookedUp heap set set' ∧ found = findInArrayPart heap set v := by
  obtain ⟨set', finds, looked, sound', same⟩ := holds.sound.find fit v allocates
  refine ⟨set', _, finds, ?_, ⟨sound', same.trans holds.elements, ?_⟩, looked, rfl⟩
  · rw [holds.sound.found_iff fit, holds.isElement]
  · rw [looked.same.used]
    exact holds.bounded

theorem SetHolds.fewer (holds : SetHolds heap (k + 1) set l) : SetHolds heap k set l :=
  ⟨holds.sound, holds.elements, by have := holds.bounded; omega⟩

/-- A value that the lookup did not find is appended. -/
theorem SetHolds.append (fit : KeysFit heap) (holds : SetHolds heap (k + 1) set l)
    (looked : LookedUp heap set other) (absent : Among (sameValueZero heap) l v = false)
    (live : v ≠ .deleted)
    : SetHolds heap k (setResultAppend other v true) (l ++ [v]) := by
  have bounded := holds.bounded
  obtain ⟨sound, elements, used⟩ := holds.sound.append fit looked
    ((holds.isElement v).trans absent) live (by omega)
  exact ⟨sound, by rw [elements, holds.elements], by omega⟩

/-- A value that the lookup found is taken out. -/
theorem SetHolds.bury {i : Nat} (fit : KeysFit heap) (holds : SetHolds heap k set l)
    (sound' : SetSound heap other) (entries : SameEntries set other)
    (found : findInArrayPart heap set v = some i)
    : SetHolds heap k (other.bury i) (without (sameValueZero heap) l v) := by
  obtain ⟨sound, elements, used⟩ := holds.sound.bury fit sound' entries found
  exact ⟨sound, by rw [elements, holds.elements], by rw [used]; exact holds.bounded⟩

theorem without_absent (absent : Among (sameValueZero heap) l v = false)
    : without (sameValueZero heap) l v = l := by
  rw [Among, List.any_eq_false] at absent
  exact List.filter_eq_self.mpr fun a member => by simpa using absent a member

theorem appendNew_spec (fit : KeysFit heap) (writes : ∀ v, (memory v).write = true)
    (holds : SetHolds heap (k + 1) result l) (live : v ≠ .deleted)
    : ∃ result', appendNew heap memory result v = some result'
      ∧ SetHolds heap k result' (insertNew (sameValueZero heap) l v) := by
  obtain ⟨looked, found, finds, known, holds', lookedUp, -⟩ :=
    holds.find fit v (memory v).second
  rw [appendNew, finds, Option.map_some, insertNew, ← known, writes]
  cases found with
  | some i => exact ⟨_, rfl, holds'.fewer⟩
  | none => exact ⟨_, rfl, holds.append fit lookedUp known.symm live⟩

theorem dropFound_spec (fit : KeysFit heap) (holds : SetHolds heap k result l)
    : ∃ result', dropFound heap memory result v = some result'
      ∧ SetHolds heap k result' (without (sameValueZero heap) l v) := by
  obtain ⟨looked, found, finds, known, holds', lookedUp, is⟩ :=
    holds.find fit v (memory v).second
  rw [dropFound, finds, Option.map_some]
  cases found with
  | some i => exact ⟨_, rfl, holds.bury fit holds'.sound lookedUp.same is.symm⟩
  | none =>
      rw [without_absent known.symm]
      exact ⟨_, rfl, holds'⟩

/-- The copy has the elements in slots without marks. -/
theorem setCopyLiveEntries_spec (fit : KeysFit heap) (writes : ∀ v, (memory v).write = true)
    (sound : SetSound heap set)
    : SetSound heap (setCopyLiveEntries set memory)
      ∧ elements (setCopyLiveEntries set memory) = elements set
      ∧ (setCopyLiveEntries set memory).arrayUsed = (elements set).length := by
  have bounded := sound.sound.fits.bounded
  suffices copied : ∀ n ≤ set.arrayUsed, ∃ result,
      (List.range n).foldl
        (fun result i =>
          if set.slot i = .deleted then result
          else setResultAppend result (set.slot i) (memory (set.slot i)).write)
        (.new .set) = result
      ∧ SetSound heap result ∧ elements result = slotsFrom set 0 n
      ∧ result.arrayUsed = (slotsFrom set 0 n).length ∧ result.arrayUsed ≤ n
      ∧ result.collHash = none by
    obtain ⟨result, is, sound', same, used, -⟩ := copied set.arrayUsed (Nat.le_refl _)
    rw [setCopyLiveEntries, is]
    exact ⟨sound', same, used⟩
  intro n within
  induction n with
  | zero => exact ⟨_, rfl, ⟨CollSound.new .set, rfl⟩, rfl, rfl, Nat.le_refl _, rfl⟩
  | succ n ih =>
      obtain ⟨result, is, sound', same, used, few, none⟩ := ih (by omega)
      rw [List.range_succ, List.foldl_append, is, List.foldl_cons, List.foldl_nil, writes,
        slotsFrom_split set (Nat.zero_le n) (Nat.le_succ n)]
      by_cases gone : set.slot n = .deleted
      · rw [if_pos gone, slotsFrom_gone (Nat.lt_succ_self n) gone,
          slotsFrom_empty set (Nat.le_refl _), List.append_nil]
        exact ⟨result, rfl, sound', same, used, by omega, none⟩
      · have whole : elements set = slotsFrom set 0 n
            ++ set.slot n :: slotsFrom set (n + 1) set.arrayUsed := by
          rw [elements, slotsFrom_split set (Nat.zero_le n) (by omega : n ≤ set.arrayUsed),
            slotsFrom_live (by omega) gone]
        have absent : isElement heap result (set.slot n) = false := by
          rw [isElement, same]
          exact (whole ▸ sound.distinct fit).not_among
        have looked : LookedUp heap result result :=
          ⟨⟨rfl, rfl, rfl⟩, fun ci found => (by cases none.symm.trans found)⟩
        have room : result.arrayUsed + 1 < 2 ^ 31 := by omega
        obtain ⟨sound'', more, one⟩ := sound'.append fit looked absent gone room
        have hash := (setResultAppend_appended sound' room (set.slot n)).hash
        rw [if_neg gone, slotsFrom_live (Nat.lt_succ_self n) gone,
          slotsFrom_empty set (Nat.le_refl _)]
        refine ⟨_, rfl, sound'', by rw [more, same], ?_, by omega, hash.trans none⟩
        rw [one, used, List.length_append]
        rfl

-----------------------------------------------------------------------------------------
-- Sets as results
-----------------------------------------------------------------------------------------

/-- The answer is a set of these elements, none of them twice. -/
def GivesSet (heap : HeapData) (answer : Option SetAnswer) (l : List TVal) : Prop :=
  ∃ result, answer = some (.set result) ∧ elements result = l
    ∧ Distinct (sameValueZero heap) (elements result)

theorem SetHolds.gives (fit : KeysFit heap) (holds : SetHolds heap k result l)
    : GivesSet heap (some (.set result)) l :=
  ⟨result, rfl, holds.elements, holds.sound.distinct fit⟩

/-- Two sets, and room for the elements of both in a third one. -/
structure SetPair (heap : HeapData) (set other : Coll) : Prop where
  first : SetSound heap set
  second : SetSound heap other
  room : (elements set).length + (elements other).length < 2 ^ 31

theorem live_of_elements (member : v ∈ elements set) : v ≠ .deleted := by
  obtain ⟨-, -, -, live⟩ := mem_elements.mp member
  exact live

theorem live_of_keys (member : v ∈ keys set) : v ≠ .deleted := by
  obtain ⟨a, inside, rfl⟩ := List.mem_map.mp member
  have live := live_of_elements inside
  unfold setNormalizeNegZero
  split
  · split
    · intro no
      cases no
    · intro no
      cases no
  · exact live

theorem length_keys (set : Coll) : (keys set).length = (elements set).length := List.length_map _

theorem copy_holds (fit : KeysFit heap) (writes : ∀ v, (memory v).write = true)
    (pair : SetPair heap set other)
    : SetHolds heap (keys other).length (setCopyLiveEntries set memory) (elements set) := by
  obtain ⟨sound, same, used⟩ := setCopyLiveEntries_spec fit writes pair.first
  have room := pair.room
  exact ⟨sound, same, by rw [used, length_keys]; exact room⟩

theorem new_holds (pair : SetPair heap set other) {n : Nat}
    (few : n ≤ (elements set).length + (elements other).length)
    : SetHolds heap n (.new .set) [] := by
  have room := pair.room
  exact ⟨⟨CollSound.new .set, rfl⟩, rfl, by change 0 + n < _; omega⟩

theorem self_holds (sound : SetSound heap set) : SetHolds heap 0 set (elements set) :=
  ⟨sound, rfl, sound.sound.fits.bounded⟩

theorem union_gives (fit : KeysFit heap) (writes : ∀ v, (memory v).write = true)
    (pair : SetPair heap set other)
    : GivesSet heap (builtinSetProtoUnion heap memory set other)
        (elements set ++ (keys other).filter fun v => !isElement heap set v) := by
  have turns : ∀ k result l v, v ∈ keys other → SetHolds heap (k + 1) result l →
      ∃ result', (appendNew heap memory result v).map Turn.onward = some (.onward result')
        ∧ SetHolds heap k result' (insertNew (sameValueZero heap) l v) := by
    intro k result l v member holds
    obtain ⟨result', appends, holds'⟩ := appendNew_spec fit writes holds (live_of_keys member)
    exact ⟨result', by rw [appends]; rfl, holds'⟩
  obtain ⟨result, ends, holds⟩ := foldTurns_foldl (fun k => SetHolds heap k) _ _ (keys other) turns
    (setCopyLiveEntries set memory) (copy_holds fit writes pair)
  rw [foldl_insertNew (pair.second.distinct_keys fit)] at holds
  rw [builtinSetProtoUnion, keysLoop_keys pair.second, ends]
  exact holds.gives fit

/-- A turn of an intersection: a lookup in one set, and an append for a value that is found. -/
theorem intersect_turn (fit : KeysFit heap) (writes : ∀ v, (memory v).write = true)
    {looked : Coll} (lookedHolds : SetHolds heap 0 looked (elements set))
    (holds : SetHolds heap (k + 1) result l) (live : v ≠ .deleted)
    : ∃ looked' found result', collFind heap looked v (memory v).first = some (looked', found)
      ∧ (if found.isSome then appendNew heap memory result v else some result) = some result'
      ∧ SetHolds heap 0 looked' (elements set)
      ∧ SetHolds heap k result'
        (if isElement heap set v then insertNew (sameValueZero heap) l v else l) := by
  obtain ⟨looked', found, finds, known, lookedHolds', -, -⟩ :=
    lookedHolds.find fit v (memory v).first
  obtain ⟨result', appends, holds'⟩ := appendNew_spec fit writes holds live
  cases found with
  | some i =>
      refine ⟨looked', _, result', finds, appends, lookedHolds', ?_⟩
      rw [isElement, ← known]
      exact holds'
  | none =>
      refine ⟨looked', _, result, finds, rfl, lookedHolds', ?_⟩
      rw [isElement, ← known]
      exact holds.fewer

theorem distinct_early (fit : KeysFit heap) (sound : SetSound heap set)
    : Distinct (sameValueZero heap) (early set) := by
  have whole := sound.distinct fit
  rw [elements_split] at whole
  exact (List.pairwise_append.mp whole).1

/-- A turn of the intersection that looks an element of the first set up in the other one. -/
def intersectionTurn (heap : HeapData) (memory : TVal → TurnMemory) (state : Coll × Coll)
    (elem : TVal) : Option (Turn (Coll × Coll)) := do
  let (other, has) ← setRecordHas heap state.1 elem (memory elem).first
  if has then
    let result ← appendNew heap memory state.2 elem
    some (.onward (other, result))
  else some (.onward (other, state.2))

/-- Where the first set is not the larger one, only the early elements are looked up. -/
theorem intersection_early (fit : KeysFit heap) (writes : ∀ v, (memory v).write = true)
    (pair : SetPair heap set other) (smaller : (elements set).length ≤ (elements other).length)
    : GivesSet heap (builtinSetProtoIntersection heap memory set other)
        ((early set).filter (isElement heap other)) := by
  let turn := intersectionTurn heap memory
  have turns : ∀ k state l v, v ∈ early set →
      (SetHolds heap 0 state.1 (elements other) ∧ SetHolds heap (k + 1) state.2 l) →
      ∃ state', turn state v = some (.onward state')
        ∧ SetHolds heap 0 state'.1 (elements other) ∧ SetHolds heap k state'.2
          (if isElement heap other v then insertNew (sameValueZero heap) l v else l) := by
    intro k state l v member holds
    have inside : v ∈ elements set := by
      rw [elements_split]
      exact List.mem_append_left _ member
    obtain ⟨looked', found, result', finds, appends, first, second⟩ :=
      intersect_turn fit writes holds.1 holds.2 (live_of_elements inside)
    refine ⟨(looked', result'), ?_, first, second⟩
    simp only [turn, intersectionTurn, setRecordHas, finds, Option.map_some, Option.bind_eq_bind,
      Option.bind_some]
    cases found with
    | some i =>
        rw [Option.isSome_some, if_pos rfl] at appends ⊢
        rw [appends]
        rfl
    | none =>
        cases appends
        rfl
  have few : (early set).length ≤ (elements set).length + (elements other).length := by
    rw [elements_split, List.length_append]
    omega
  obtain ⟨state, ends, -, holds⟩ := foldTurns_foldl
    (fun k (state : Coll × Coll) l =>
      SetHolds heap 0 state.1 (elements other) ∧ SetHolds heap k state.2 l)
    _ turn (early set) turns (other, .new .set)
    ⟨self_holds pair.second, new_holds pair few⟩
  rw [foldl_insertNew_if (distinct_early fit pair.first)] at holds
  rw [builtinSetProtoIntersection, setLiveCount_eq, setLiveCount_eq, if_pos smaller,
    liveLoop_early pair.first]
  change GivesSet heap ((foldTurns turn (early set) (other, .new .set)).map
    (Turn.toAnswer fun state => .set state.2)) _
  rw [ends]
  exact holds.gives fit

/-- A turn of the intersection that looks a key of the other set up in the first one. -/
def intersectionKeyTurn (heap : HeapData) (memory : TVal → TurnMemory) (state : Coll × Coll)
    (v : TVal) : Option (Turn (Coll × Coll)) := do
  let (set, found) ← collFind heap state.1 v (memory v).first
  if found.isSome then
    let result ← appendNew heap memory state.2 v
    some (.onward (set, result))
  else some (.onward (set, state.2))

/-- Where the first set is the larger one, all elements of the other one are looked up. -/
theorem intersection_keys (fit : KeysFit heap) (writes : ∀ v, (memory v).write = true)
    (pair : SetPair heap set other) (larger : ¬(elements set).length ≤ (elements other).length)
    : GivesSet heap (builtinSetProtoIntersection heap memory set other)
        ((keys other).filter (isElement heap set)) := by
  let turn := intersectionKeyTurn heap memory
  have turns : ∀ k state l v, v ∈ keys other →
      (SetHolds heap 0 state.1 (elements set) ∧ SetHolds heap (k + 1) state.2 l) →
      ∃ state', turn state v = some (.onward state')
        ∧ SetHolds heap 0 state'.1 (elements set) ∧ SetHolds heap k state'.2
          (if isElement heap set v then insertNew (sameValueZero heap) l v else l) := by
    intro k state l v member holds
    obtain ⟨looked', found, result', finds, appends, first, second⟩ :=
      intersect_turn fit writes holds.1 holds.2 (live_of_keys member)
    refine ⟨(looked', result'), ?_, first, second⟩
    simp only [turn, intersectionKeyTurn, finds, Option.bind_eq_bind, Option.bind_some]
    cases found with
    | some i =>
        rw [Option.isSome_some, if_pos rfl] at appends ⊢
        rw [appends]
        rfl
    | none =>
        cases appends
        rfl
  have few : (keys other).length ≤ (elements set).length + (elements other).length := by
    rw [length_keys]
    omega
  obtain ⟨state, ends, -, holds⟩ := foldTurns_foldl
    (fun k (state : Coll × Coll) l =>
      SetHolds heap 0 state.1 (elements set) ∧ SetHolds heap k state.2 l)
    _ turn (keys other) turns (set, .new .set)
    ⟨self_holds pair.first, new_holds pair few⟩
  rw [foldl_insertNew_if (pair.second.distinct_keys fit)] at holds
  rw [builtinSetProtoIntersection, setLiveCount_eq, setLiveCount_eq, if_neg larger,
    keysLoop_keys pair.second]
  change GivesSet heap ((foldTurns turn (keys other) (set, .new .set)).map
    (Turn.toAnswer fun state => .set state.2)) _
  rw [ends]
  exact holds.gives fit

/-- An element of the first set that is the same as one of the other set is found there. -/
theorem isElement_same (fit : KeysFit heap) (set : Coll) {a b : TVal}
    (same : sameValueZero heap a b = true)
    : isElement heap set a = isElement heap set b := by
  obtain ⟨m, meansA, meansB⟩ := (sameValueZero_iff fit).mp same
  simp only [isElement, Among]
  congr 1
  funext c
  rw [Bool.eq_iff_iff, sameValueZero_iff fit, sameValueZero_iff fit, meansA, meansB]

theorem isElement_of_same {a : TVal} (inside : a ∈ elements set)
    (same : sameValueZero heap a v = true)
    : isElement heap set v = true :=
  List.any_eq_true.mpr ⟨a, inside, same⟩

theorem same_self (fit : KeysFit heap) (present : isElement heap set v = true)
    : sameValueZero heap v v = true := by
  obtain ⟨b, -, same⟩ := List.any_eq_true.mp present
  obtain ⟨m, -, means⟩ := (sameValueZero_iff fit).mp same
  exact (sameValueZero_iff fit).mpr ⟨m, means, means⟩

/-- The loop over the copy takes out the elements of the other set. -/
theorem differenceLoop_spec (memory : TVal → TurnMemory) (fit : KeysFit heap) {n i m : Nat}
    {looked : Coll} (left : n - i = m) (lookedHolds : SetHolds heap 0 looked (elements other))
    (holds : SetHolds heap 0 result l) (used : result.arrayUsed = n)
    (live : ∀ k, i ≤ k → k < n → result.slot k ≠ .deleted)
    : ∃ result', differenceLoop heap memory n i looked result = some result'
      ∧ SetHolds heap 0 result' ((slotsFrom result i n).foldl
        (fun l v => if isElement heap other v then without (sameValueZero heap) l v else l) l) := by
  induction m generalizing i looked result l with
  | zero =>
      refine ⟨result, ?_, ?_⟩
      · rw [differenceLoop, if_neg (by omega)]
      · rw [slotsFrom_empty result (by omega)]
        exact holds
  | succ m ih =>
      have here := live i (Nat.le_refl i) (by omega)
      obtain ⟨looked', found, finds, known, lookedHolds', -, -⟩ :=
        lookedHolds.find fit (result.slot i) (memory (result.slot i)).first
      rw [differenceLoop, if_pos ⟨by omega, by omega⟩]
      simp only [setRecordHas, finds, Option.map_some]
      rw [if_pos here, slotsFrom_live (by omega) here, List.foldl_cons, known]
      cases present : isElement heap other (result.slot i) with
      | false =>
          rw [isElement] at present
          rw [present]
          exact ih (by omega) lookedHolds' holds used fun k above => live k (by omega)
      | true =>
          obtain ⟨b, -, same⟩ := List.any_eq_true.mp present
          obtain ⟨means, -, meansHere⟩ := (sameValueZero_iff fit).mp same
          have entry : IsEntry result i := holds.sound.isEntry.mpr (by omega)
          have at_i : findInArrayPart heap result (result.slot i) = some i :=
            (findInArrayPart_eq_some fit holds.sound.sound.fits).mpr
              ⟨entry, (sameValueZero_iff fit).mpr ⟨means, meansHere, meansHere⟩⟩
          have buried := holds.bury fit holds.sound ⟨rfl, rfl, rfl⟩ at_i
          have fewer := bury_fewer holds.sound.sound.fits
            (by rw [holds.sound.cls]; rfl) entry
          have slot : ∀ k, i < k → (result.bury i).slot k = result.slot k := by
            intro k above
            rw [Coll.slot, Coll.bury, (getD_fill ..).1, holds.sound.cls]
            have one : CollClass.set.stride = 1 := rfl
            rw [one, if_neg (by omega)]
            rfl
          have later : slotsFrom (result.bury i) (i + 1) n = slotsFrom result (i + 1) n := by
            have positions : liveFrom (result.bury i) (i + 1) n = liveFrom result (i + 1) n := by
              refine List.filter_congr fun k member => ?_
              rw [slot k (by have := List.mem_range'_1.mp member; omega)]
            rw [slotsFrom, slotsFrom, positions]
            refine List.map_congr_left fun k member => ?_
            exact slot k (mem_liveFrom.mp member).1
          have onward := ih (i := i + 1) (by omega) lookedHolds' buried (fewer.used.trans used)
            fun k above below => by
              rw [slot k (by omega)]
              exact live k (by omega) below
          rw [later] at onward
          rw [isElement] at present
          rw [present, if_pos rfl, if_pos rfl]
          exact onward

/-- Taking out what the other set has, one after the other. -/
theorem foldl_without_if (m : List TVal)
    : m.foldl (fun l v => if isElement heap other v then without (sameValueZero heap) l v else l) l
      = l.filter fun a => !m.any fun v => isElement heap other v && sameValueZero heap a v := by
  induction m generalizing l with
  | nil => simp
  | cons v m ih =>
      rw [List.foldl_cons, ih]
      cases present : isElement heap other v with
      | true =>
          rw [if_pos rfl, without, List.filter_filter]
          congr 1
          funext a
          rw [List.any_cons, present, Bool.true_and, Bool.not_or, Bool.and_comm]
      | false =>
          rw [if_neg Bool.false_ne_true]
          congr 1
          funext a
          rw [List.any_cons, present, Bool.false_and, Bool.false_or]

theorem difference_gives (fit : KeysFit heap) (writes : ∀ v, (memory v).write = true)
    (pair : SetPair heap set other)
    : GivesSet heap (builtinSetProtoDifference heap memory set other)
        ((elements set).filter fun v => !isElement heap other v) := by
  have copied := copy_holds fit writes pair
  rw [builtinSetProtoDifference, setLiveCount_eq, setLiveCount_eq]
  split
  · obtain ⟨sound, same, used⟩ := setCopyLiveEntries_spec fit writes pair.first
    have full : (liveFrom (setCopyLiveEntries set memory) 0
        (setCopyLiveEntries set memory).arrayUsed).length
        = (setCopyLiveEntries set memory).arrayUsed := by
      have length := congrArg List.length same
      rw [elements, slotsFrom, List.length_map] at length
      exact length.trans used.symm
    have live : ∀ k, 0 ≤ k → k < (elements set).length →
        (setCopyLiveEntries set memory).slot k ≠ .deleted := by
      intro k _ below
      rw [liveFrom, Nat.sub_zero] at full
      have all := List.length_filter_eq_length_iff.mp (full.trans List.length_range'.symm)
      have here := all k (List.mem_range'_1.mpr ⟨Nat.zero_le k, by omega⟩)
      simpa using here
    have narrow : SetHolds heap 0 (setCopyLiveEntries set memory) (elements set) :=
      ⟨copied.sound, copied.elements, by have := copied.bounded; omega⟩
    obtain ⟨result, ends, holds⟩ := differenceLoop_spec (i := 0) memory fit rfl
      (self_holds pair.second) narrow used live
    have whole : slotsFrom (setCopyLiveEntries set memory) 0 (elements set).length
        = elements set := by
      rw [← used, ← elements, same]
    rw [whole, foldl_without_if] at holds
    have kept : ((elements set).filter fun a => !(elements set).any fun v =>
        isElement heap other v && sameValueZero heap a v)
        = (elements set).filter fun v => !isElement heap other v := by
      refine List.filter_congr fun a member => ?_
      congr 1
      rw [Bool.eq_iff_iff, List.any_eq_true]
      constructor
      · rintro ⟨v, -, both⟩
        obtain ⟨present, same⟩ := Bool.and_eq_true_iff.mp both
        rwa [isElement_same fit other same]
      · intro present
        exact ⟨a, member, by rw [present, same_self fit present]; rfl⟩
    rw [kept] at holds
    rw [ends]
    exact holds.gives fit
  · have turns : ∀ k result l v, v ∈ keys other → SetHolds heap (k + 1) result l →
        ∃ result', (dropFound heap memory result v).map Turn.onward = some (.onward result')
          ∧ SetHolds heap k result' (without (sameValueZero heap) l v) := by
      intro k result l v _ holds
      obtain ⟨result', drops, holds'⟩ := dropFound_spec fit holds
      exact ⟨result', by rw [drops]; rfl, holds'.fewer⟩
    obtain ⟨result, ends, holds⟩ := foldTurns_foldl (fun k => SetHolds heap k) _ _ (keys other)
      turns (setCopyLiveEntries set memory) copied
    rw [foldl_without] at holds
    simp only [any_keys fit] at holds
    rw [keysLoop_keys pair.second, ends]
    exact holds.gives fit

/-- A turn of the symmetric difference, for a key of the other set. -/
def symmetricDifferenceTurn (heap : HeapData) (memory : TVal → TurnMemory) (state : Coll × Coll)
    (v : TVal) : Option (Turn (Coll × Coll)) := do
  let (result, found) ← collFind heap state.2 v (memory v).second
  let (set, present) ← collFind heap state.1 v (memory v).first
  match present, found with
  | some _, some found => some (.onward (set, result.bury found))
  | some _, none => some (.onward (set, result))
  | none, some _ => some (.onward (set, result))
  | none, none => some (.onward (set, setResultAppend result v (memory v).write))

theorem symmetricDifference_gives (fit : KeysFit heap) (writes : ∀ v, (memory v).write = true)
    (pair : SetPair heap set other)
    : GivesSet heap (builtinSetProtoSymmetricDifference heap memory set other)
        (((elements set).filter fun v => !isElement heap other v)
          ++ (keys other).filter fun v => !isElement heap set v) := by
  let turn := symmetricDifferenceTurn heap memory
  have turns : ∀ k state l v, v ∈ keys other →
      (SetHolds heap 0 state.1 (elements set) ∧ SetHolds heap (k + 1) state.2 l) →
      ∃ state', turn state v = some (.onward state')
        ∧ SetHolds heap 0 state'.1 (elements set) ∧ SetHolds heap k state'.2
          (if Among (sameValueZero heap) (elements set) v then without (sameValueZero heap) l v
            else insertNew (sameValueZero heap) l v) := by
    rintro k state l v member ⟨setHolds, holds⟩
    obtain ⟨result', found, finds, known, holds', lookedUp, is⟩ :=
      holds.find fit v (memory v).second
    obtain ⟨set', present, finds', known', setHolds', -, -⟩ :=
      setHolds.find fit v (memory v).first
    simp only [turn, symmetricDifferenceTurn, finds, finds', Option.bind_eq_bind,
      Option.bind_some, ← known', insertNew, ← known]
    cases present with
    | some j =>
        cases found with
        | some i =>
            exact ⟨_, rfl, setHolds', (holds.bury fit holds'.sound lookedUp.same is.symm).fewer⟩
        | none =>
            refine ⟨_, rfl, setHolds', ?_⟩
            rw [Option.isSome_some, if_pos rfl, without_absent known.symm]
            exact holds'.fewer
    | none =>
        cases found with
        | some i => exact ⟨_, rfl, setHolds', holds'.fewer⟩
        | none =>
            rw [writes]
            exact ⟨_, rfl, setHolds', holds.append fit lookedUp known.symm (live_of_keys member)⟩
  obtain ⟨state, ends, -, holds⟩ := foldTurns_foldl
    (fun k (state : Coll × Coll) l =>
      SetHolds heap 0 state.1 (elements set) ∧ SetHolds heap k state.2 l)
    _ turn (keys other) turns (set, setCopyLiveEntries set memory)
    ⟨self_holds pair.first, copy_holds fit writes pair⟩
  rw [foldl_toggle (pair.second.distinct_keys fit)] at holds
  simp only [any_keys fit] at holds
  rw [builtinSetProtoSymmetricDifference, keysLoop_keys pair.second]
  change GivesSet heap ((foldTurns turn (keys other) (set, setCopyLiveEntries set memory)).map
    (Turn.toAnswer fun state => .set state.2)) _
  rw [ends]
  exact holds.gives fit

-----------------------------------------------------------------------------------------
-- Booleans as results
-----------------------------------------------------------------------------------------

/-- A loop that looks the values up in a set, and returns at the first one with the wrong outcome. -/
theorem lookup_loop (memory : TVal → TurnMemory) (fit : KeysFit heap) (sound : SetSound heap set)
    (wanted : Bool) (vs : List TVal) {turn : Coll → TVal → Option (Turn Coll)}
    (turns : ∀ looked v, turn looked v
      = (collFind heap looked v (memory v).first).bind fun (looked, found) =>
        some (if found.isSome = wanted then .onward looked else .answer false))
    : (foldTurns turn vs set).map (Turn.toAnswer fun _ => .boolean true)
      = some (.boolean (vs.all fun v => isElement heap set v == wanted)) := by
  have step : ∀ looked v, SetHolds heap 0 looked (elements set) →
      ∃ looked', turn looked v
          = some (if isElement heap set v == wanted then .onward looked' else .answer false)
        ∧ SetHolds heap 0 looked' (elements set) := by
    intro looked v holds
    obtain ⟨looked', found, finds, known, holds', -, -⟩ := holds.find fit v (memory v).first
    refine ⟨looked', ?_, holds'⟩
    rw [turns, finds, Option.bind_some]
    simp only [known, isElement, beq_iff_eq]
  obtain ⟨looked, ends⟩ := foldTurns_all (fun looked => SetHolds heap 0 looked (elements set)) _
    turn vs step set (self_holds sound)
  rw [ends]
  cases vs.all fun v => isElement heap set v == wanted <;> rfl

/-- A set whose elements are all in another one is not larger. -/
theorem length_le_of_all (fit : KeysFit heap) (sound : SetSound heap set)
    (all : ∀ v ∈ elements set, isElement heap other v = true)
    : (elements set).length ≤ (elements other).length := by
  have nodup : ((elements set).map (meaning heap)).Nodup := by
    rw [List.Nodup, List.pairwise_map]
    refine List.Pairwise.imp_of_mem ?_ (sound.distinct fit)
    intro a b inside _ apart same
    obtain ⟨c, -, found⟩ := List.any_eq_true.mp (all a inside)
    obtain ⟨m, -, means⟩ := (sameValueZero_iff fit).mp found
    have equal := (sameValueZero_iff fit).mpr ⟨m, means, same ▸ means⟩
    rw [apart] at equal
    cases equal
  have within : (elements set).map (meaning heap) ⊆ (elements other).map (meaning heap) := by
    intro m member
    obtain ⟨a, inside, rfl⟩ := List.mem_map.mp member
    obtain ⟨c, there, found⟩ := List.any_eq_true.mp (all a inside)
    obtain ⟨m, meansC, meansA⟩ := (sameValueZero_iff fit).mp found
    exact List.mem_map.mpr ⟨c, there, meansC.trans meansA.symm⟩
  have length := (List.subperm_of_subset nodup within).length_le
  rwa [List.length_map, List.length_map] at length

/-- Where the first set is not the larger one, only the early elements count. -/
theorem isSubsetOf_early (fit : KeysFit heap) (pair : SetPair heap set other)
    (smaller : (elements set).length ≤ (elements other).length)
    : builtinSetProtoIsSubsetOf heap memory set other
      = some (.boolean ((early set).all (isElement heap other))) := by
  rw [builtinSetProtoIsSubsetOf, setLiveCount_eq, setLiveCount_eq, if_neg (Nat.not_lt.mpr smaller),
    liveLoop_early pair.first, lookup_loop memory fit pair.second true (early set)]
  · simp only [beq_true]
  · intro looked v
    rw [setRecordHas]
    cases collFind heap looked v (memory v).first with
    | none => rfl
    | some found =>
        obtain ⟨looked', found⟩ := found
        cases found <;> rfl

theorem isSubsetOf_larger (larger : ¬(elements set).length ≤ (elements other).length)
    : builtinSetProtoIsSubsetOf heap memory set other = some (.boolean false) := by
  rw [builtinSetProtoIsSubsetOf, setLiveCount_eq, setLiveCount_eq, if_pos (Nat.not_le.mp larger)]

theorem isSupersetOf_gives (fit : KeysFit heap) (pair : SetPair heap set other)
    : builtinSetProtoIsSupersetOf heap memory set other
      = some (.boolean ((elements other).all (isElement heap set))) := by
  rw [builtinSetProtoIsSupersetOf, setLiveCount_eq, setLiveCount_eq]
  split
  · rename_i smaller
    have some : (elements other).all (isElement heap set) = false := by
      rw [← Bool.not_eq_true]
      intro all
      have length := length_le_of_all fit pair.second (List.all_eq_true.mp all)
      omega
    rw [some]
  · rw [keysLoop_keys pair.second,
      lookup_loop memory fit pair.first true (keys other)]
    · simp only [beq_true, keys, List.all_map]
      congr 3
      funext v
      exact isElement_normalize fit set v
    · intro looked v
      cases collFind heap looked v (memory v).first with
      | none => rfl
      | some found =>
          obtain ⟨looked', found⟩ := found
          cases found <;> rfl

theorem isDisjointFrom_early (fit : KeysFit heap) (pair : SetPair heap set other)
    (smaller : (elements set).length ≤ (elements other).length)
    : builtinSetProtoIsDisjointFrom heap memory set other
      = some (.boolean ((early set).all fun v => !isElement heap other v)) := by
  rw [builtinSetProtoIsDisjointFrom, setLiveCount_eq, setLiveCount_eq, if_pos smaller,
    liveLoop_early pair.first, lookup_loop memory fit pair.second false (early set)]
  · simp only [beq_false]
  · intro looked v
    rw [setRecordHas]
    cases collFind heap looked v (memory v).first with
    | none => rfl
    | some found =>
        obtain ⟨looked', found⟩ := found
        cases found <;> rfl

theorem disjoint_keys (fit : KeysFit heap)
    : ((keys other).all fun v => !isElement heap set v)
      = (elements set).all fun v => !isElement heap other v := by
  rw [keys, List.all_map, Bool.eq_iff_iff, List.all_eq_true, List.all_eq_true]
  constructor
  · intro none v inside
    rw [Bool.not_eq_true', ← Bool.not_eq_true]
    intro present
    obtain ⟨b, there, same⟩ := List.any_eq_true.mp present
    have absent := none b there
    rw [Function.comp_apply, isElement_normalize fit, isElement_same fit set same,
      isElement_of_same inside (same_self fit present)] at absent
    cases absent
  · intro none b there
    rw [Function.comp_apply, isElement_normalize fit, Bool.not_eq_true', ← Bool.not_eq_true]
    intro present
    obtain ⟨v, inside, same⟩ := List.any_eq_true.mp present
    have absent := none v inside
    rw [isElement_same fit other same,
      isElement_of_same there (same_self fit present)] at absent
    cases absent

/-- Where the first set is the larger one, the elements of the other one are looked up in it. -/
theorem isDisjointFrom_keys (fit : KeysFit heap) (pair : SetPair heap set other)
    (larger : ¬(elements set).length ≤ (elements other).length)
    : builtinSetProtoIsDisjointFrom heap memory set other
      = some (.boolean ((elements set).all fun v => !isElement heap other v)) := by
  rw [builtinSetProtoIsDisjointFrom, setLiveCount_eq, setLiveCount_eq, if_neg larger,
    keysLoop_keys pair.second, lookup_loop memory fit pair.first false (keys other)]
  · simp only [beq_false]
    rw [disjoint_keys fit]
  · intro looked v
    cases collFind heap looked v (memory v).first with
    | none => rfl
    | some found =>
        obtain ⟨looked', found⟩ := found
        cases found <;> rfl

end Boomkat.Correctness
