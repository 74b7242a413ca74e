import Mathlib.Tactic.Common

/-! Runs of a system that takes the events of a list one after the other, and the two
inductions over them: what every step preserves, and where a condition first fails.
-/

namespace Boomkat.Foundation

variable {σ ε : Type*}

/-- The state after the events, if each of them can happen. -/
def replay (step : σ → ε → Option σ) : σ → List ε → Option σ
  | state, [] => some state
  | state, event :: events => (step state event).bind fun next => replay step next events

/-- The condition holds of each event in the state it happens in. -/
def Along (step : σ → ε → Option σ) (Holds : σ → ε → Prop) : σ → List ε → Prop
  | _, [] => True
  | state, event :: events =>
      Holds state event ∧ ∀ next, step state event = some next → Along step Holds next events

/-- What holds of a value if there is one can be decided. -/
instance decidableForallSome {α : Type*} {value : Option α} {P : α → Prop} [DecidablePred P]
    : Decidable (∀ a, value = some a → P a) :=
  inferInstanceAs (Decidable (∀ a ∈ value, P a))

instance Along.decidable {step : σ → ε → Option σ} {Holds : σ → ε → Prop}
    [∀ state event, Decidable (Holds state event)]
    : ∀ state events, Decidable (Along step Holds state events)
  | _, [] => isTrue trivial
  | state, event :: events =>
      have : ∀ next, Decidable (Along step Holds next events) := fun next =>
        Along.decidable next events
      inferInstanceAs (Decidable (Holds state event ∧ ∀ next, step state event = some next → _))

variable {step : σ → ε → Option σ} {Holds : σ → ε → Prop} {Inv : σ → Prop} {state last : σ}

@[simp] theorem replay_nil (step : σ → ε → Option σ) (state : σ)
    : replay step state [] = some state := rfl

theorem replay_cons {event : ε} {events : List ε}
    : replay step state (event :: events) = some last
      ↔ ∃ next, step state event = some next ∧ replay step next events = some last := by
  simp only [replay, Option.bind_eq_some_iff]

theorem Along.of_forall {events : List ε} (holds : ∀ event ∈ events, ∀ state, Holds state event)
    : Along step Holds state events := by
  induction events generalizing state with
  | nil => trivial
  | cons event events ih =>
      exact ⟨holds event List.mem_cons_self state, fun _ _ =>
        ih fun event member => holds event (List.mem_cons_of_mem _ member)⟩

/-- What each step preserves where the condition holds is preserved by a run along which it
holds.
-/
theorem Along.preserves
    (kept : ∀ {s e s'}, Inv s → Holds s e → step s e = some s' → Inv s')
    {events : List ε} (along : Along step Holds state events) (start : Inv state)
    (run : replay step state events = some last)
    : Inv last := by
  induction events generalizing state with
  | nil =>
      cases run
      exact start
  | cons event events ih =>
      obtain ⟨next, taken, rest⟩ := replay_cons.mp run
      exact ih (along.2 next taken) (kept start along.1 taken) rest

/-- What each step preserves is preserved by a run. -/
theorem replay_preserves (kept : ∀ {s e s'}, Inv s → step s e = some s' → Inv s')
    {events : List ε} (start : Inv state) (run : replay step state events = some last)
    : Inv last := by
  induction events generalizing state with
  | nil =>
      cases run
      exact start
  | cons event events ih =>
      obtain ⟨next, taken, rest⟩ := replay_cons.mp run
      exact ih (kept start taken) rest

/-- Where each step is one of another system, a run is one of it. -/
theorem Along.simulates {τ : Type*} {other : τ → ε → Option τ} {Rel : σ → τ → Prop}
    (simulated : ∀ {s t e s'}, Rel s t → Holds s e → step s e = some s' →
      ∃ t', other t e = some t' ∧ Rel s' t')
    {events : List ε} {twin : τ} (along : Along step Holds state events) (start : Rel state twin)
    (run : replay step state events = some last)
    : ∃ twin', replay other twin events = some twin' ∧ Rel last twin' := by
  induction events generalizing state twin with
  | nil =>
      cases run
      exact ⟨twin, rfl, start⟩
  | cons event events ih =>
      obtain ⟨next, taken, rest⟩ := replay_cons.mp run
      obtain ⟨twin', taken', related⟩ := simulated start along.1 taken
      obtain ⟨ended, rest', related⟩ := ih (along.2 next taken) related rest
      exact ⟨ended, replay_cons.mpr ⟨twin', taken', rest'⟩, related⟩

/-- Conditions that are the same wherever an invariant holds are the same along a run. -/
theorem along_iff {Holds' : σ → ε → Prop} (kept : ∀ {s e s'}, Inv s → step s e = some s' → Inv s')
    (same : ∀ {s e}, Inv s → (Holds s e ↔ Holds' s e)) (events : List ε) (start : Inv state)
    : Along step Holds state events ↔ Along step Holds' state events := by
  induction events generalizing state with
  | nil => exact Iff.rfl
  | cons event events ih =>
      exact and_congr (same start)
        (forall_congr' fun next => forall_congr' fun taken => ih (kept start taken))

/-- The same of conditions on the steps of a run, where the invariant needs the first of them. -/
theorem along_iff_of_run (Inv : σ → Prop) {Holds' : σ → ε → Prop}
    (kept : ∀ {s e s'}, Inv s → Holds s e → step s e = some s' → Inv s')
    (same : ∀ {s e s'}, Inv s → step s e = some s' → (Holds s e ↔ Holds' s e))
    {events : List ε} (start : Inv state) (run : replay step state events = some last)
    : Along step Holds state events ↔ Along step Holds' state events := by
  induction events generalizing state with
  | nil => exact Iff.rfl
  | cons event events ih =>
      obtain ⟨next, taken, rest⟩ := replay_cons.mp run
      simp only [Along, taken, Option.some.injEq, forall_eq']
      constructor
      · rintro ⟨holds, along⟩
        exact ⟨(same start taken).mp holds, (ih (kept start holds taken) rest).mp along⟩
      · rintro ⟨holds', along⟩
        have holds := (same start taken).mpr holds'
        exact ⟨holds, (ih (kept start holds taken) rest).mpr along⟩

/-- A condition that fails along a run fails for a first time. -/
theorem Along.first_failure {events : List ε} (run : replay step state events = some last)
    (fails : ¬Along step Holds state events)
    : ∃ before event after here next, events = before ++ event :: after
      ∧ replay step state before = some here ∧ Along step Holds state before
      ∧ ¬Holds here event ∧ step here event = some next
      ∧ replay step next after = some last := by
  induction events generalizing state with
  | nil => exact absurd trivial fails
  | cons event events ih =>
      obtain ⟨next, taken, rest⟩ := replay_cons.mp run
      by_cases holds : Holds state event
      · have later : ¬Along step Holds next events := by
          intro along
          refine fails ⟨holds, fun other takenOther => ?_⟩
          obtain rfl : next = other := Option.some.inj (taken.symm.trans takenOther)
          exact along
        obtain ⟨before, failing, after, here, following, rfl, reached, along, broken, takenThere,
          ends⟩ := ih rest later
        refine ⟨event :: before, failing, after, here, following, rfl,
          replay_cons.mpr ⟨next, taken, reached⟩, ⟨holds, ?_⟩, broken, takenThere, ends⟩
        intro other takenOther
        obtain rfl : next = other := Option.some.inj (taken.symm.trans takenOther)
        exact along
      · exact ⟨[], event, events, state, next, rfl, rfl, trivial, holds, taken, rest⟩

end Boomkat.Foundation
