import Boomkat.Promise.Combinator

/-! A combinator settles its outer capability as promised when no input of `allSettled` calls both
functions handed to it, no input of `all` is fulfilled with `undefined`, and memory suffices.
-/

namespace Boomkat.Correctness
open Boomkat.Foundation Boomkat.Promise

variable {V : Type} {combinator next : Combinator V} {expected : Expected V}

-----------------------------------------------------------------------------------------
-- The condition and the property
-----------------------------------------------------------------------------------------

/-- The functions handed to an input have counted it. -/
def counted (combinator : Combinator V) (idx : Nat) : Bool :=
  match combinator.kind with
  | .all => combinator.resolveCalled idx
  | .allSettled => combinator.resolveCalled idx || combinator.rejectCalled idx

/-- The allocator delivers, and the dense part of the array has room for the index. -/
def ElementFits (idx : Nat) (memory : ElementMemory) : Prop :=
  memory.marks = true ∧ memory.record = true ∧ memory.grows = true ∧ idx < 2 ^ 31

/-- The first call of a function finds memory, fulfils no input of `all` with `undefined`, and
comes from no input of `allSettled` that has called its other function.
-/
def CountsOnce (observed : Combinator V × Expected V) : CombinatorEvent V → Prop
  | .fulfil idx val memory =>
      observed.1.resolveCalled idx = false →
        ElementFits idx memory ∧ (observed.1.kind = .all → val ≠ none)
        ∧ (observed.1.kind = .allSettled → observed.1.rejectCalled idx = false)
  | .reject idx _ memory =>
      observed.1.kind = .allSettled → observed.1.rejectCalled idx = false →
        ElementFits idx memory ∧ observed.1.resolveCalled idx = false
  | _ => True

/-- The array has an own element for each outcome. -/
def Carries (kind : CombinatorKind) (outcomes : List (Outcome V)) (arrLen : Nat)
    (arr : Nat → Stored V) : Prop :=
  arrLen = outcomes.length ∧ ∀ idx outcome, outcomes[idx]? = some outcome →
    arr idx = outcome.entry kind ∧ arr idx ≠ .undefined

/-- The first call of the outer capability is the settlement, if there is one. -/
def SettlesAs (combinator : Combinator V) : Option (Settlement V) → Prop
  | none => combinator.calls = []
  | some (.rejected reason) => combinator.calls.head? = some (.reject reason)
  | some (.fulfilled outcomes) =>
      (∃ arrLen arr, combinator.calls.head? = some (.resolve arrLen arr)
        ∧ Carries combinator.kind outcomes arrLen arr)
      ∧ Carries combinator.kind outcomes combinator.arrLen combinator.arr

def isResolve : CapabilityCall V → Bool
  | .resolve _ _ => true
  | .reject _ => false

/-- The outer capability is settled as promised, with an array that stays as it was, and is
resolved at most once.
-/
structure SettlesOnce (observed : Combinator V × Expected V) : Prop where
  settled : SettlesAs observed.1 observed.2.settlement
  once : observed.1.calls.countP isResolve ≤ 1

-----------------------------------------------------------------------------------------
-- Counting
-----------------------------------------------------------------------------------------

/-- Of the numbers below a bound, one less satisfies what one of them has ceased to. -/
theorem countP_range_drop {before after : Nat → Bool} {bound idx : Nat} (inside : idx < bound)
    (others : ∀ other, other ≠ idx → after other = before other) (was : before idx = true)
    (ceased : after idx = false)
    : (List.range bound).countP before = (List.range bound).countP after + 1 := by
  induction bound with
  | zero => exact absurd inside (Nat.not_lt_zero idx)
  | succ bound ih =>
      simp only [List.range_succ, List.countP_append, List.countP_singleton]
      by_cases last : idx = bound
      · have same : (List.range bound).countP before = (List.range bound).countP after := by
          apply List.countP_congr
          intro other member
          have different : other ≠ idx := by
            have := List.mem_range.mp member
            omega
          rw [others other different]
        rw [same, ← last, was, ceased]
        rfl
      · rw [ih (by omega), others bound (Ne.symm last)]
        omega

/-- The inputs that are yet to be counted. -/
def uncounted (combinator : Combinator V) : Nat :=
  (List.range combinator.idx).countP fun idx => !counted combinator idx

/-- The counter is one more than the inputs yet to be counted until the loop is over, and the
outer capability is resolved when it comes to zero.
-/
structure Counting (combinator : Combinator V) (expected : Expected V) : Prop where
  count : expected.count = combinator.idx
  looping : combinator.looping = true → expected.finished = false
  inside : ∀ idx, counted combinator idx = true → idx < combinator.idx
  unrejected : combinator.rejected = false
  remaining : combinator.remaining
    = (uncounted combinator : Int) + if expected.finished then 0 else 1
  resolves : combinator.calls.countP isResolve
    = if expected.finished ∧ uncounted combinator = 0 then 1 else 0
  fits : combinator.arrLen ≤ combinator.idx

/-- Until the settlement the first calls are those counted, and the array has their entries. -/
structure Unsettled (combinator : Combinator V) (expected : Expected V) : Prop where
  uncalled : combinator.calls = []
  first : ∀ idx, (expected.first idx).isSome = counted combinator idx
  stored : ∀ idx outcome, expected.first idx = some outcome →
    combinator.arr idx = outcome.entry combinator.kind ∧ combinator.arr idx ≠ .undefined
    ∧ idx < combinator.arrLen
  incomplete : expected.complete = false

/-- The combinator keeps its promise so far. -/
structure Faithful (observed : Combinator V × Expected V) : Prop where
  counting : Counting observed.1 observed.2
  unsettled : observed.2.settlement = none → Unsettled observed.1 observed.2
  settled : SettlesAs observed.1 observed.2.settlement
  done : ∀ outcomes, observed.2.settlement = some (.fulfilled outcomes) →
    observed.2.finished = true ∧ uncounted observed.1 = 0

theorem Counting.once (counting : Counting combinator expected)
    : combinator.calls.countP isResolve ≤ 1 := by
  rw [counting.resolves]
  split <;> omega

theorem Faithful.settlesOnce {observed : Combinator V × Expected V} (faithful : Faithful observed)
    : SettlesOnce observed :=
  ⟨faithful.settled, faithful.counting.once⟩

theorem uncounted_eq_zero
    : uncounted combinator = 0 ↔ ∀ idx < combinator.idx, counted combinator idx = true := by
  simp [uncounted, List.countP_eq_zero]

/-- The promise is complete when the loop is over and no input is left to be counted. -/
theorem complete_iff (count : expected.count = combinator.idx)
    (first : ∀ idx, (expected.first idx).isSome = counted combinator idx)
    : expected.complete = true ↔ expected.finished = true ∧ uncounted combinator = 0 := by
  simp [Expected.complete, uncounted_eq_zero, count, first]

/-- With every first call in, the array that has their entries carries the outcomes. -/
theorem carries_of_complete (count : expected.count = combinator.idx)
    (first : ∀ idx < combinator.idx, (expected.first idx).isSome = true)
    (stored : ∀ idx outcome, expected.first idx = some outcome →
      combinator.arr idx = outcome.entry combinator.kind ∧ combinator.arr idx ≠ .undefined
      ∧ idx < combinator.arrLen)
    (fits : combinator.arrLen ≤ combinator.idx)
    : Carries combinator.kind ((List.range expected.count).filterMap expected.first)
        combinator.arrLen combinator.arr := by
  have outcomes : ∀ bound ≤ combinator.idx,
      ((List.range bound).filterMap expected.first).length = bound
      ∧ ∀ idx outcome, ((List.range bound).filterMap expected.first)[idx]? = some outcome →
          expected.first idx = some outcome := by
    intro bound
    induction bound with
    | zero => simp
    | succ bound ih =>
        intro within
        obtain ⟨length, entries⟩ := ih (by omega)
        obtain ⟨last, here⟩ := Option.isSome_iff_exists.mp (first bound (by omega))
        rw [List.range_succ, List.filterMap_append]
        simp only [List.filterMap_cons, here, List.filterMap_nil, List.length_append, length,
          List.length_singleton, true_and]
        intro idx outcome found
        by_cases before : idx < bound
        · rw [List.getElem?_append_left (by omega)] at found
          exact entries idx outcome found
        · rw [List.getElem?_append_right (by omega), length] at found
          obtain ⟨inside, _⟩ := List.getElem?_eq_some_iff.mp found
          rw [List.length_singleton] at inside
          have same : idx = bound := by omega
          simp only [same, Nat.sub_self, List.getElem?_cons_zero] at found
          rw [same, here, found]
  rw [count]
  obtain ⟨length, entries⟩ := outcomes combinator.idx (Nat.le_refl _)
  refine ⟨?_, ?_⟩
  · rw [length]
    cases last : combinator.idx with
    | zero => omega
    | succ bound =>
        obtain ⟨outcome, here⟩ := Option.isSome_iff_exists.mp (first bound (by omega))
        have := (stored bound outcome here).2.2
        omega
  · intro idx outcome found
    obtain ⟨entry, own, _⟩ := stored idx outcome (entries idx outcome found)
    exact ⟨entry, own⟩

-----------------------------------------------------------------------------------------
-- One event
-----------------------------------------------------------------------------------------

/-- Further calls leave a rejection as it is. -/
theorem SettlesAs.more {reason : Option V} {calls : List (CapabilityCall V)}
    (settled : SettlesAs combinator (some (.rejected reason)))
    (later : next.calls = combinator.calls ++ calls)
    : SettlesAs next (some (.rejected reason)) := by
  have first : combinator.calls.head? = some (.reject reason) := settled
  simp only [SettlesAs, later, List.head?_append, first, Option.some_or]

/-- A count down resolves the outer capability from one. -/
theorem countDown_eq (combinator : Combinator V)
    : combinator.countDown false
      = {
          combinator with
          remaining := combinator.remaining - 1
          calls :=
            combinator.calls
              ++ if combinator.remaining = 1 then
                [.resolve combinator.arrLen combinator.arr]
              else []
        } := by
  by_cases last : combinator.remaining = 1
  · simp [Combinator.countDown, last]
  · have more : combinator.remaining - 1 ≠ 0 := by omega
    simp [Combinator.countDown, last, more]

@[simp] theorem settle_count (expected : Expected V) : expected.settle.count = expected.count := by
  unfold Expected.settle
  split <;> rfl

@[simp] theorem settle_finished (expected : Expected V)
    : expected.settle.finished = expected.finished := by
  unfold Expected.settle
  split <;> rfl

theorem settle_settled (expected : Expected V) {settlement : Settlement V}
    (settled : expected.settlement = some settlement)
    : expected.settle = expected := by
  simp [Expected.settle, settled]

/-- The state shared by all inputs is as it was, the array apart. -/
structure SharedState (called combinator : Combinator V) : Prop where
  kind : called.kind = combinator.kind
  idx : called.idx = combinator.idx
  looping : called.looping = combinator.looping
  rejected : called.rejected = combinator.rejected
  remaining : called.remaining = combinator.remaining
  calls : called.calls = combinator.calls

/-- The first call of an input to be counted. -/
theorem Counting.element (counting : Counting combinator expected) {idx : Nat}
    (inside : idx < combinator.idx) (fresh : counted combinator idx = false)
    {called : Combinator V} (shared : SharedState called combinator)
    (flags : ∀ other, counted called other = (counted combinator other || decide (other = idx)))
    (fits : called.arrLen ≤ combinator.idx) (outcome : Outcome V)
    : uncounted combinator = uncounted called + 1
      ∧ (called.remaining = 1 ↔ expected.finished = true ∧ uncounted called = 0)
      ∧ Counting (called.countDown false) (expected.note idx outcome).settle := by
  obtain ⟨_, same, looping, unrejected, remaining, calls⟩ := shared
  have one : uncounted combinator = uncounted called + 1 := by
    unfold uncounted
    rw [same]
    apply countP_range_drop inside
    · intro other different
      simp [flags, different]
    · simp [fresh]
    · simp [flags]
  have last : called.remaining = 1 ↔ expected.finished = true ∧ uncounted called = 0 := by
    rw [remaining, counting.remaining, one]
    cases expected.finished with
    | false =>
        simp only [Bool.false_eq_true, false_and, iff_false, if_false]
        omega
    | true =>
        simp only [true_and, if_true]
        omega
  refine ⟨one, last, ?_⟩
  have drop : uncounted (called.countDown false) = uncounted called := by
    rw [countDown_eq]
    rfl
  refine ⟨?_, ?_, ?_, ?_, ?_, ?_, ?_⟩
  · rw [countDown_eq, settle_count, same]
    exact counting.count
  · rw [countDown_eq, settle_finished, looping]
    exact counting.looping
  · intro other isCounted
    have before : counted called other = true := by
      rw [countDown_eq] at isCounted
      exact isCounted
    rw [countDown_eq, same]
    rw [flags, Bool.or_eq_true, decide_eq_true_eq] at before
    rcases before with before | rfl
    · exact counting.inside other before
    · exact inside
  · rw [countDown_eq, unrejected]
    exact counting.unrejected
  · rw [drop, settle_finished, countDown_eq, remaining, counting.remaining, one]
    cases finished : expected.finished
    · simp [Expected.note, finished]
    · simp [Expected.note, finished]
  · have none : combinator.calls.countP isResolve = 0 := by
      rw [counting.resolves, if_neg]
      rintro ⟨_, zero⟩
      omega
    rw [drop, settle_finished, countDown_eq, calls, List.countP_append, none]
    by_cases zero : expected.finished = true ∧ uncounted called = 0
    · simp [last, Expected.note, zero, isResolve]
    · simp [last, Expected.note, zero]
  · rw [countDown_eq, same]
    exact fits

/-- After a rejection nothing more is settled. -/
theorem Faithful.rejected {observed : Combinator V × Expected V} {reason : Option V}
    (counting : Counting observed.1 observed.2)
    (settlement : observed.2.settlement = some (.rejected reason))
    (settled : SettlesAs observed.1 (some (.rejected reason)))
    : Faithful observed := by
  refine ⟨counting, ?_, ?_, ?_⟩
  · intro unsettled
    cases settlement.symm.trans unsettled
  · rw [settlement]
    exact settled
  · intro outcomes done
    cases settlement.symm.trans done

/-- A count down settles what is unsettled when nothing remains. -/
theorem Faithful.settles (counting : Counting (combinator.countDown false) expected.settle)
    (unsettled : expected.settlement = none) (uncalled : combinator.calls = [])
    (last : combinator.remaining = 1 ↔ expected.finished = true ∧ uncounted combinator = 0)
    (count : expected.count = combinator.idx)
    (first : ∀ idx, (expected.first idx).isSome = counted combinator idx)
    (stored : ∀ idx outcome, expected.first idx = some outcome →
      combinator.arr idx = outcome.entry combinator.kind ∧ combinator.arr idx ≠ .undefined
      ∧ idx < combinator.arrLen)
    (fits : combinator.arrLen ≤ combinator.idx)
    : Faithful (combinator.countDown false, expected.settle) := by
  have complete := complete_iff count first
  by_cases done : expected.finished = true ∧ uncounted combinator = 0
  · have settlement : expected.settle.settlement
        = some (.fulfilled ((List.range expected.count).filterMap expected.first)) := by
      simp [Expected.settle, unsettled, complete.mpr done]
    have carries := carries_of_complete count
      (fun idx inside => (first idx).trans (uncounted_eq_zero.mp done.2 idx inside)) stored fits
    refine ⟨counting, ?_, ?_, ?_⟩
    · intro none
      cases settlement.symm.trans none
    · rw [settlement]
      simp only [countDown_eq, uncalled, last.mpr done, if_true]
      exact ⟨⟨_, _, rfl, carries⟩, carries⟩
    · intro outcomes _
      rw [countDown_eq, settle_finished]
      exact done
  · have same : expected.settle = expected := by
      rw [← complete, Bool.not_eq_true] at done
      simp [Expected.settle, done]
    have more : combinator.remaining ≠ 1 := fun one => done (last.mp one)
    rw [same] at counting ⊢
    refine ⟨counting, ?_, ?_, ?_⟩
    · intro _
      rw [← complete, Bool.not_eq_true] at done
      rw [countDown_eq]
      exact ⟨by simp [uncalled, more], first, stored, done⟩
    · rw [unsettled, countDown_eq]
      simp [SettlesAs, uncalled, more]
    · intro outcomes settled
      cases unsettled.symm.trans settled

/-- The first call of an input to be counted keeps the promise. -/
theorem Faithful.element (faithful : Faithful (combinator, expected)) {idx : Nat}
    (inside : idx < combinator.idx) (fresh : counted combinator idx = false)
    {called : Combinator V} (shared : SharedState called combinator)
    (flags : ∀ other, counted called other = (counted combinator other || decide (other = idx)))
    {outcome : Outcome V} (own : outcome.entry combinator.kind ≠ .undefined)
    (arr : called.arr = Function.update combinator.arr idx (outcome.entry combinator.kind))
    (arrLen : called.arrLen = max combinator.arrLen (idx + 1))
    : Faithful (called.countDown false, (expected.note idx outcome).settle) := by
  have counting : Counting combinator expected := faithful.counting
  have fits : called.arrLen ≤ combinator.idx := by
    have := counting.fits
    omega
  obtain ⟨one, last, next⟩ :=
    counting.element inside fresh shared flags fits outcome
  obtain ⟨kind, same, _, _, _, calls⟩ := shared
  cases earlier : expected.settlement with
  | some settlement =>
      have stays : (expected.note idx outcome).settle.settlement = some settlement := by
        rw [settle_settled (expected.note idx outcome) earlier]
        exact earlier
      have settled : SettlesAs combinator (some settlement) := earlier ▸ faithful.settled
      cases settlement with
      | fulfilled outcomes =>
          have none : uncounted combinator = 0 := (faithful.done outcomes earlier).2
          omega
      | rejected reason =>
          refine .rejected next stays ?_
          have later : (called.countDown false).calls = combinator.calls
              ++ if called.remaining = 1 then [.resolve called.arrLen called.arr] else [] := by
            rw [countDown_eq, calls]
          exact settled.more later
  | none =>
      have unsettled : Unsettled combinator expected := faithful.unsettled earlier
      have first : ∀ other, ((expected.note idx outcome).first other).isSome
          = counted called other := by
        intro other
        rw [flags, ← unsettled.first]
        by_cases here : other = idx
        · subst here
          simp [Expected.note]
        · simp [Expected.note, here]
      refine .settles next earlier (calls.trans unsettled.uncalled) last
        (counting.count.trans same.symm) first ?_ (same ▸ fits)
      intro other answer noted
      by_cases here : other = idx
      · subst here
        have none : expected.first other = none := by
          rw [← Option.not_isSome_iff_eq_none, unsettled.first, fresh]
          exact Bool.false_ne_true
        have same : answer = outcome := by simpa [Expected.note, none] using noted.symm
        rw [arr, kind, same]
        refine ⟨by simp, by simpa using own, by omega⟩
      · have noted : expected.first other = some answer := by
          simpa [Expected.note, here] using noted
        obtain ⟨entry, present, inArray⟩ := unsettled.stored other answer noted
        rw [arr, kind]
        refine ⟨by simpa [here] using entry, by simpa [here] using present, by omega⟩

/-- A call of a function that has counted its input changes nothing. -/
theorem Faithful.again (faithful : Faithful (combinator, expected)) {idx : Nat}
    (called : counted combinator idx = true) (outcome : Outcome V)
    : Faithful (combinator, (expected.note idx outcome).settle) := by
  cases earlier : expected.settlement with
  | some settlement =>
      have stays : (expected.note idx outcome).settle = expected.note idx outcome :=
        settle_settled (expected.note idx outcome) earlier
      rw [stays]
      refine ⟨?_, ?_, faithful.settled, faithful.done⟩
      · have counting := faithful.counting
        exact ⟨counting.count, counting.looping, counting.inside, counting.unrejected,
          counting.remaining, counting.resolves, counting.fits⟩
      · intro unsettled
        cases earlier.symm.trans unsettled
  | none =>
      have unsettled : Unsettled combinator expected := faithful.unsettled earlier
      have known : expected.note idx outcome = expected := by
        obtain ⟨first, same⟩ := Option.isSome_iff_exists.mp ((unsettled.first idx).trans called)
        have stays : (expected.first idx <|> some outcome) = expected.first idx := by
          rw [same]
          rfl
        rw [Expected.note, stays, Function.update_eq_self]
      have stays : expected.settle = expected := by
        simp [Expected.settle, unsettled.incomplete]
      rw [known, stays]
      exact faithful

/-- The end of the loop keeps the promise. -/
theorem Faithful.finish (faithful : Faithful (combinator, expected))
    (looping : combinator.looping = true)
    : Faithful
        ({ combinator with looping := false }.countDown false,
          { expected with finished := true }.settle) := by
  have counting : Counting combinator expected := faithful.counting
  have open_ := counting.looping looping
  have remaining := counting.remaining
  simp only [open_, Bool.false_eq_true, if_false] at remaining
  have last : combinator.remaining = 1 ↔ uncounted combinator = 0 := by omega
  have drop : uncounted ({ combinator with looping := false }.countDown false)
      = uncounted combinator := by
    rw [countDown_eq]
    rfl
  have next : Counting ({ combinator with looping := false }.countDown false)
      { expected with finished := true }.settle := by
    refine ⟨?_, ?_, ?_, ?_, ?_, ?_, ?_⟩
    · rw [countDown_eq, settle_count]
      exact counting.count
    · intro still
      rw [countDown_eq] at still
      cases still
    · rw [countDown_eq]
      exact counting.inside
    · rw [countDown_eq]
      exact counting.unrejected
    · rw [drop, settle_finished, countDown_eq]
      simp only [if_true]
      omega
    · have none : combinator.calls.countP isResolve = 0 := by
        rw [counting.resolves, open_]
        simp
      rw [drop, settle_finished, countDown_eq, List.countP_append]
      by_cases zero : uncounted combinator = 0
      · simp [none, last, zero, isResolve]
      · simp [none, last, zero]
    · rw [countDown_eq]
      exact counting.fits
  rcases Option.eq_none_or_eq_some expected.settlement with earlier | ⟨settlement, earlier⟩
  · have unsettled : Unsettled combinator expected := faithful.unsettled earlier
    have ends : combinator.remaining = 1 ↔ true = true ∧ uncounted combinator = 0 := by
      simpa using last
    exact .settles next earlier unsettled.uncalled ends counting.count unsettled.first
      unsettled.stored counting.fits
  · have stays : ({ expected with finished := true } : Expected V).settle.settlement
        = some settlement := by
      rw [settle_settled { expected with finished := true } earlier]
      exact earlier
    have settled : SettlesAs combinator (some settlement) := earlier ▸ faithful.settled
    cases settlement with
    | fulfilled outcomes =>
        have finished : expected.finished = true := (faithful.done outcomes earlier).1
        simp [open_] at finished
    | rejected reason =>
        have later : ({ combinator with looping := false }.countDown false).calls
            = combinator.calls
              ++ if combinator.remaining = 1 then
                [.resolve combinator.arrLen combinator.arr]
              else [] := by
          rw [countDown_eq]
        exact .rejected next stays (settled.more later)

/-- The next input is yet to be counted. -/
theorem Faithful.take (faithful : Faithful (combinator, expected))
    (looping : combinator.looping = true)
    : Faithful
        ({
            combinator with
            idx := combinator.idx + 1
            remaining := combinator.remaining + 1
          },
          { expected with count := expected.count + 1 }) := by
  have counting : Counting combinator expected := faithful.counting
  have open_ := counting.looping looping
  have fresh : counted combinator combinator.idx = false := by
    by_contra called
    rw [Bool.not_eq_false] at called
    exact Nat.lt_irrefl _ (counting.inside _ called)
  have more : uncounted
      { combinator with idx := combinator.idx + 1, remaining := combinator.remaining + 1 }
      = uncounted combinator + 1 := by
    have same : ∀ idx, counted
        { combinator with idx := combinator.idx + 1, remaining := combinator.remaining + 1 } idx
        = counted combinator idx := fun _ => rfl
    simp [uncounted, same, List.range_succ, fresh]
  refine ⟨⟨?_, ?_, ?_, counting.unrejected, ?_, ?_, ?_⟩, ?_, faithful.settled, ?_⟩
  · exact congrArg (· + 1) counting.count
  · exact counting.looping
  · intro idx called
    exact Nat.lt_succ_of_lt (counting.inside idx called)
  · rw [more]
    simp only [counting.remaining]
    omega
  · simp only [counting.resolves, open_, Bool.false_eq_true, false_and, if_false]
  · exact Nat.le_succ_of_le counting.fits
  · intro unsettled
    have unsettled : Unsettled combinator expected := faithful.unsettled unsettled
    refine ⟨unsettled.uncalled, unsettled.first, unsettled.stored, ?_⟩
    simp [Expected.complete, open_]
  · intro outcomes done
    have finished : expected.finished = true := (faithful.done outcomes done).1
    simp [open_] at finished

/-- Rejections count no input. -/
theorem Counting.rejecting (counting : Counting combinator expected) {noted : Expected V}
    (looping : Bool) (stays : looping = true → combinator.looping = true)
    {calls : List (CapabilityCall V)} (rejections : calls.countP isResolve = 0)
    (count : noted.count = expected.count) (finished : noted.finished = expected.finished)
    : Counting { combinator with looping := looping, calls := combinator.calls ++ calls }
        noted := by
  refine ⟨count.trans counting.count, ?_, counting.inside, counting.unrejected, ?_, ?_,
    counting.fits⟩
  · intro still
    exact finished.trans (counting.looping (stays still))
  · rw [finished]
    exact counting.remaining
  · simp only [List.countP_append, rejections, Nat.add_zero, finished]
    exact counting.resolves

/-- A call of the reject function of the outer capability keeps the promise. -/
theorem Faithful.rejecting (faithful : Faithful (combinator, expected)) {next : Combinator V}
    {noted : Expected V} {reason : Option V} (counting : Counting next (noted.rejectWith reason))
    (same : noted.settlement = expected.settlement) (finished : noted.finished = expected.finished)
    (kind : next.kind = combinator.kind)
    (array : next.arrLen = combinator.arrLen ∧ next.arr = combinator.arr)
    (left : uncounted next = uncounted combinator)
    (calls : next.calls = combinator.calls ++ [.reject reason])
    : Faithful (next, noted.rejectWith reason) := by
  cases earlier : expected.settlement with
  | none =>
      have unsettled : Unsettled combinator expected := faithful.unsettled earlier
      have settlement : (noted.rejectWith reason).settlement = some (.rejected reason) := by
        simp [Expected.rejectWith, same, earlier]
      refine .rejected counting settlement ?_
      simp [SettlesAs, calls, unsettled.uncalled]
  | some settlement =>
      have stays : (noted.rejectWith reason).settlement = some settlement := by
        simp [Expected.rejectWith, same, earlier]
      have settled : SettlesAs combinator (some settlement) := earlier ▸ faithful.settled
      cases settlement with
      | rejected => exact .rejected counting stays (settled.more calls)
      | fulfilled outcomes =>
          have done := faithful.done outcomes earlier
          obtain ⟨⟨arrLen, arr, first, then_⟩, now⟩ := settled
          refine ⟨counting, ?_, ?_, ?_⟩
          · intro none
            cases stays.symm.trans none
          · rw [stays]
            refine ⟨⟨arrLen, arr, ?_, kind ▸ then_⟩, ?_⟩
            · simp only [calls, List.head?_append, first, Option.some_or]
            · rw [kind, array.1, array.2]
              exact now
          · intro _ _
            rw [left]
            exact ⟨finished.trans done.1, done.2⟩

/-- The array of an element function that finds memory. -/
theorem setArrayIdx_fits (combinator : Combinator V) {idx : Nat} {memory : ElementMemory}
    (fits : ElementFits idx memory) (val : Stored V)
    : combinator.setArrayIdx idx val memory.grows
      = {
          combinator with
          arr := Function.update combinator.arr idx val
          arrLen := max combinator.arrLen (idx + 1)
        } := by
  obtain ⟨_, _, grows, bound⟩ := fits
  have slot : idx % 2 ^ 32 = idx := Nat.mod_eq_of_lt (by omega)
  have length : (idx + 1) % 2 ^ 32 = idx + 1 := Nat.mod_eq_of_lt (by omega)
  have longer : (if combinator.arrLen < idx + 1 then idx + 1 else combinator.arrLen)
      = max combinator.arrLen (idx + 1) := by
    split <;> omega
  simp only [Combinator.setArrayIdx, slot, length, grows, bound, longer, Bool.true_and,
    decide_true, if_true]

section Elements

variable {idx : Nat} {memory : ElementMemory}

/-- `Promise.all` counts an input by its first fulfilment. -/
theorem Faithful.allResolveElement (faithful : Faithful (combinator, expected))
    (kind : combinator.kind = .all) (inside : idx < combinator.idx) (val : Option V)
    (once : combinator.resolveCalled idx = false → ElementFits idx memory ∧ val ≠ none)
    : Faithful (combinator.allResolveElement idx val memory,
        (expected.note idx (.fulfilled val)).settle) := by
  have flag : counted combinator idx = combinator.resolveCalled idx := by
    simp [counted, kind]
  unfold Combinator.allResolveElement
  split
  · rename_i called
    exact faithful.again (flag.trans called) _
  · rename_i fresh
    rw [Bool.not_eq_true] at fresh
    obtain ⟨fits, defined⟩ := once fresh
    obtain ⟨val, rfl⟩ := Option.ne_none_iff_exists'.mp defined
    have unrejected := faithful.counting.unrejected
    simp only at unrejected
    simp only [setArrayIdx_fits _ fits, unrejected, fits.1]
    refine faithful.element inside (flag.trans fresh) ?_ ?_ ?_ ?_ ?_
    · exact ⟨rfl, rfl, rfl, unrejected.symm, rfl, rfl⟩
    · intro other
      by_cases here : other = idx
      · simp [counted, kind, here]
      · simp [counted, kind, here]
    · simp [Outcome.entry, kind]
    · simp [Outcome.entry, kind]
    · rfl

/-- `Promise.allSettled` counts an input by its fulfilment, if that is its first call. -/
theorem Faithful.allsettledResolveElement (faithful : Faithful (combinator, expected))
    (kind : combinator.kind = .allSettled) (inside : idx < combinator.idx) (val : Option V)
    (once : combinator.resolveCalled idx = false →
      ElementFits idx memory ∧ combinator.rejectCalled idx = false)
    : Faithful (combinator.allsettledResolveElement idx val memory,
        (expected.note idx (.fulfilled val)).settle) := by
  have flag : counted combinator idx
      = (combinator.resolveCalled idx || combinator.rejectCalled idx) := by
    simp [counted, kind]
  unfold Combinator.allsettledResolveElement
  split
  · rename_i called
    exact faithful.again (by simp [flag, called]) _
  · rename_i fresh
    rw [Bool.not_eq_true] at fresh
    obtain ⟨fits, only⟩ := once fresh
    simp only [setArrayIdx_fits _ fits, fits.1, fits.2.1, if_true]
    have new : counted combinator idx = false := by simp [flag, fresh, only]
    refine faithful.element inside new ?_ ?_ ?_ ?_ ?_
    · exact ⟨rfl, rfl, rfl, rfl, rfl, rfl⟩
    · intro other
      by_cases here : other = idx
      · simp [counted, kind, here]
      · simp [counted, kind, here]
    · simp [Outcome.entry, kind]
    · simp [Outcome.entry, kind]
    · rfl

/-- `Promise.allSettled` counts an input by its rejection, if that is its first call. -/
theorem Faithful.allsettledRejectElement (faithful : Faithful (combinator, expected))
    (kind : combinator.kind = .allSettled) (inside : idx < combinator.idx) (reason : Option V)
    (once : combinator.rejectCalled idx = false →
      ElementFits idx memory ∧ combinator.resolveCalled idx = false)
    : Faithful (combinator.allsettledRejectElement idx reason memory,
        (expected.note idx (.rejected reason)).settle) := by
  have flag : counted combinator idx
      = (combinator.resolveCalled idx || combinator.rejectCalled idx) := by
    simp [counted, kind]
  unfold Combinator.allsettledRejectElement
  split
  · rename_i called
    exact faithful.again (by simp [flag, called]) _
  · rename_i fresh
    rw [Bool.not_eq_true] at fresh
    obtain ⟨fits, only⟩ := once fresh
    simp only [setArrayIdx_fits _ fits, fits.1, fits.2.1, if_true]
    have new : counted combinator idx = false := by simp [flag, fresh, only]
    refine faithful.element inside new ?_ ?_ ?_ ?_ ?_
    · exact ⟨rfl, rfl, rfl, rfl, rfl, rfl⟩
    · intro other
      by_cases here : other = idx
      · simp [counted, kind, here]
      · simp [counted, kind, here]
    · simp [Outcome.entry]
    · simp [Outcome.entry]
    · rfl

end Elements

/-- Every event that counts each input once keeps the promise. -/
theorem Faithful.step {observed following : Combinator V × Expected V}
    (faithful : Faithful observed) {event : CombinatorEvent V}
    (once : CountsOnce observed event) (taken : observedStep observed event = some following)
    : Faithful following := by
  obtain ⟨combinator, expected⟩ := observed
  simp only [observedStep, Option.map_eq_some_iff] at taken
  obtain ⟨next, taken, rfl⟩ := taken
  have counting : Counting combinator expected := faithful.counting
  cases event with
  | next =>
      simp only [Combinator.step, Option.ite_none_right_eq_some, Option.some.injEq] at taken
      obtain ⟨looping, rfl⟩ := taken
      exact faithful.take looping
  | finish =>
      simp only [Combinator.step, Option.ite_none_right_eq_some, Option.some.injEq] at taken
      obtain ⟨looping, rfl⟩ := taken
      exact faithful.finish looping
  | abrupt reason =>
      simp only [Combinator.step, Option.ite_none_right_eq_some, Option.some.injEq] at taken
      obtain ⟨_, rfl⟩ := taken
      cases reason with
      | some reason =>
          have next : Counting
              {
                combinator with
                looping := false
                calls := combinator.calls ++ [.reject reason]
              }
              (expected.rejectWith reason) :=
            counting.rejecting false Bool.noConfusion rfl rfl rfl
          exact faithful.rejecting next rfl rfl rfl ⟨rfl, rfl⟩ rfl rfl
      | none =>
          simp only [Option.map_none, Option.toList_none, List.append_nil]
          refine ⟨⟨counting.count, Bool.noConfusion, counting.inside, counting.unrejected,
            counting.remaining, counting.resolves, counting.fits⟩, ?_, faithful.settled,
            faithful.done⟩
          intro none
          have unsettled : Unsettled combinator expected := faithful.unsettled none
          exact ⟨unsettled.uncalled, unsettled.first, unsettled.stored, unsettled.incomplete⟩
  | fulfil idx val memory =>
      simp only [Combinator.step, Option.ite_none_right_eq_some] at taken
      obtain ⟨inside, taken⟩ := taken
      cases kind : combinator.kind with
      | all =>
          simp only [kind, Option.some.injEq] at taken
          subst taken
          refine faithful.allResolveElement kind inside val ?_
          intro fresh
          obtain ⟨fits, defined, _⟩ := once fresh
          exact ⟨fits, defined kind⟩
      | allSettled =>
          simp only [kind, Option.some.injEq] at taken
          subst taken
          refine faithful.allsettledResolveElement kind inside val ?_
          intro fresh
          obtain ⟨fits, _, only⟩ := once fresh
          exact ⟨fits, only kind⟩
  | reject idx reason memory =>
      simp only [Combinator.step, Option.ite_none_right_eq_some] at taken
      obtain ⟨inside, taken⟩ := taken
      cases kind : combinator.kind with
      | all =>
          simp only [kind, Option.some.injEq] at taken
          subst taken
          simp only [Expected.step]
          have next : Counting { combinator with calls := combinator.calls ++ [.reject reason] }
              ((expected.note idx (.rejected reason)).rejectWith reason) :=
            counting.rejecting combinator.looping id rfl rfl rfl
          have kept := faithful.rejecting next rfl rfl rfl ⟨rfl, rfl⟩ rfl rfl
          simp only [kind] at kept
          exact kept
      | allSettled =>
          simp only [kind, Option.some.injEq] at taken
          subst taken
          simp only [Expected.step]
          exact faithful.allsettledRejectElement kind inside reason (once kind)

-----------------------------------------------------------------------------------------
-- Whole calls
-----------------------------------------------------------------------------------------

/-- A combinator begins faithful. -/
theorem Faithful.init (kind : CombinatorKind)
    : Faithful ((.init kind, .init) : Combinator V × Expected V) := by
  refine ⟨⟨rfl, fun _ => rfl, ?_, rfl, rfl, rfl, Nat.le_refl 0⟩, ?_, rfl, ?_⟩
  · intro idx called
    cases kind <;> cases called
  · intro _
    refine ⟨rfl, ?_, ?_, rfl⟩
    · intro idx
      cases kind <;> rfl
    · intro idx outcome called
      cases called
  · intro outcomes done
    cases done

/-- In every state that a call of `Promise.all` or `Promise.allSettled` comes to, whatever its
inputs are and in whatever order they call, the outer capability is settled exactly as the
first calls of the inputs say, with an array of their outcomes, and resolved at most once,
provided that along the way each input counts once.
-/
theorem combinator_run {kind : CombinatorKind} {events : List (CombinatorEvent V)}
    {observed : Combinator V × Expected V}
    (run : replay observedStep (.init kind, .init) events = some observed)
    (once : Along observedStep CountsOnce (.init kind, .init) events)
    : SettlesOnce observed := by
  have faithful : Faithful observed :=
    once.preserves (fun faithful once taken => faithful.step once taken) (.init kind) run
  exact faithful.settlesOnce

/-- Memory that never fails. -/
def ampleMemory : ElementMemory := { marks := true, record := true, grows := true }

/-- The first of two inputs of `allSettled` calls both functions at once: the outer capability is
resolved with one outcome, before the second input is even taken.
-/
theorem allSettled_counts_twice
    : ∃ observed : Combinator Nat × Expected Nat,
        replay observedStep (.init .allSettled, .init)
          [.next, .fulfil 0 (some 1) ampleMemory, .reject 0 none ampleMemory] = some observed
        ∧ ¬SettlesOnce observed := by
  refine ⟨_, rfl, ?_⟩
  intro settles
  cases settles.settled

/-- Two inputs of `all` are fulfilled, the second one at once. -/
theorem combinator_run_two
    : ∃ observed : Combinator Nat × Expected Nat,
        replay observedStep (.init .all, .init)
          [.next, .next, .fulfil 1 (some 5) ampleMemory, .finish,
            .fulfil 0 (some 4) ampleMemory] = some observed
        ∧ SettlesOnce observed := by
  have once : Along observedStep CountsOnce ((.init .all, .init) : Combinator Nat × Expected Nat)
      [.next, .next, .fulfil 1 (some 5) ampleMemory, .finish,
        .fulfil 0 (some 4) ampleMemory] := by
    simp [Along, CountsOnce, ElementFits, ampleMemory, observedStep, Combinator.init, Combinator.step,
      Combinator.allResolveElement, Combinator.setArrayIdx, Combinator.countDown]
  exact ⟨_, rfl, combinator_run (by rfl) once⟩

end Boomkat.Correctness
