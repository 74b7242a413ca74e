import Mathlib.Logic.Function.Iterate
import Mathlib.Tactic.Common

/-! Runs of deterministic machines, and simulations that relate the runs of two of them. -/

namespace Boomkat.Foundation

variable {σ τ ρ : Type*}

/-- A deterministic machine. A state with a result has ended: it steps to itself. -/
structure Execution (σ ρ : Type*) where
  step : σ → σ
  result : σ → Option ρ
  step_ended : ∀ state r, result state = some r → step state = state

/-- The state after `n` steps. -/
def Execution.run (machine : Execution σ ρ) (n : Nat) (state : σ) : σ :=
  machine.step^[n] state

@[simp] theorem Execution.run_zero (machine : Execution σ ρ) (state : σ)
    : machine.run 0 state = state := rfl

theorem Execution.run_add (machine : Execution σ ρ) (n k : Nat) (state : σ)
    : machine.run (n + k) state = machine.run n (machine.run k state) :=
  Function.iterate_add_apply machine.step n k state

theorem Execution.run_succ (machine : Execution σ ρ) (n : Nat) (state : σ)
    : machine.run (n + 1) state = machine.step (machine.run n state) :=
  Function.iterate_succ_apply' machine.step n state

/-- An ended state stays as it is. -/
theorem Execution.run_ended (machine : Execution σ ρ) {state : σ} {r : ρ}
    (ended : machine.result state = some r) (n : Nat)
    : machine.run n state = state :=
  Function.iterate_fixed (machine.step_ended state r ended) n

/-- A result does not change once it is reached. -/
theorem Execution.result_mono (machine : Execution σ ρ) {state : σ} {r : ρ} {n k : Nat}
    (ended : machine.result (machine.run n state) = some r) (later : n ≤ k)
    : machine.result (machine.run k state) = some r := by
  obtain ⟨d, rfl⟩ := Nat.exists_eq_add_of_le' later
  rw [machine.run_add, machine.run_ended ended]
  exact ended

/-- What holds of the states up to an ended one holds of the whole run. -/
theorem Execution.forall_run (machine : Execution σ ρ) (last : Nat) {state : σ} {r : ρ}
    {Holds : σ → Prop} (ended : machine.result (machine.run last state) = some r)
    (upTo : ∀ n ≤ last, Holds (machine.run n state)) (n : Nat)
    : Holds (machine.run n state) := by
  rcases Nat.le_total n last with early | late
  · exact upTo n early
  · obtain ⟨d, rfl⟩ := Nat.exists_eq_add_of_le' late
    rw [machine.run_add, machine.run_ended ended]
    exact upTo last (Nat.le_refl last)

/-- A run ends with `r`. -/
def Execution.EndsWith (machine : Execution σ ρ) (state : σ) (r : ρ) : Prop :=
  ∃ n, machine.result (machine.run n state) = some r

/-- A run ends in one way only. -/
theorem Execution.EndsWith.unique {machine : Execution σ ρ} {state : σ} {r r' : ρ}
    (ends : machine.EndsWith state r) (ends' : machine.EndsWith state r')
    : r = r' := by
  obtain ⟨n, ended⟩ := ends
  obtain ⟨n', ended'⟩ := ends'
  have later := machine.result_mono ended (Nat.le_max_left n n')
  rw [machine.result_mono ended' (Nat.le_max_right n n')] at later
  exact (Option.some.inj later).symm

/-- Two related states have both ended with one result, or neither has ended and both reach
related states again, in at least one step and at most `slack` more.
-/
def Advances (source : Execution σ ρ) (target : Execution τ ρ) (slack : Nat)
    (Related : σ → τ → Prop) : Prop :=
  ∀ state image, Related state image →
    (∃ r, source.result state = some r ∧ target.result image = some r)
      ∨ source.result state = none ∧ target.result image = none
        ∧ ∃ a b, a ≤ slack ∧ b ≤ slack
          ∧ Related (source.run (a + 1) state) (target.run (b + 1) image)

/-- The same simulation seen from the target. -/
theorem Advances.symm {source : Execution σ ρ} {target : Execution τ ρ} {slack : Nat}
    {Related : σ → τ → Prop} (advances : Advances source target slack Related)
    : Advances target source slack (fun image state => Related state image) := by
  intro image state related
  rcases advances state image related with
    ⟨r, ended, endedImage⟩ | ⟨runs, runsImage, a, b, near, near', again⟩
  · exact .inl ⟨r, endedImage, ended⟩
  · exact .inr ⟨runsImage, runs, b, a, near', near, again⟩

/-- From any time on, related states recur within the slack, unless both runs end alike.
Witness: strong induction on the distance, advancing by at least one step each time.
-/
theorem Advances.recur {source : Execution σ ρ} {target : Execution τ ρ} {slack : Nat}
    {Related : σ → τ → Prop} (advances : Advances source target slack Related) {state : σ}
    {image : τ} (related : Related state image) (n : Nat)
    : ∃ a b, n ≤ a ∧ a ≤ n + slack
        ∧ (Related (source.run a state) (target.run b image)
          ∨ ∃ r, source.result (source.run a state) = some r
            ∧ target.result (target.run b image) = some r) := by
  induction n using Nat.strongRecOn generalizing state image with
  | _ n ih =>
      rcases advances state image related with
        ⟨r, ended, endedImage⟩ | ⟨_, _, a, b, near, _, again⟩
      · refine ⟨n, 0, Nat.le_refl n, Nat.le_add_right n slack, .inr ⟨r, ?_, endedImage⟩⟩
        rw [source.run_ended ended]
        exact ended
      · rcases Nat.lt_or_ge a n with before | reached
        · obtain ⟨a', b', far, close, later⟩ := ih (n - (a + 1)) (by omega) again
          refine ⟨a' + (a + 1), b' + (b + 1), by omega, by omega, ?_⟩
          rw [source.run_add, target.run_add]
          exact later
        · rcases Nat.eq_zero_or_pos n with rfl | positive
          · exact ⟨0, 0, Nat.le_refl 0, Nat.zero_le _, .inl related⟩
          · exact ⟨a + 1, b + 1, by omega, by omega, .inl again⟩

/-- A simulation carries a result from the source to the target.
Witness: a related pair recurs after the source has ended, and there both have.
-/
theorem Advances.endsWith {source : Execution σ ρ} {target : Execution τ ρ} {slack : Nat}
    {Related : σ → τ → Prop} (advances : Advances source target slack Related) {state : σ}
    {image : τ} (related : Related state image) {r : ρ} (ends : source.EndsWith state r)
    : target.EndsWith image r := by
  obtain ⟨n, ended⟩ := ends
  obtain ⟨a, b, far, _, recurs⟩ := advances.recur related n
  have reached : source.result (source.run a state) = some r :=
    source.result_mono ended far
  have both : ∃ r', source.result (source.run a state) = some r'
      ∧ target.result (target.run b image) = some r' := by
    rcases recurs with again | both
    · rcases advances _ _ again with both | ⟨runs, _⟩
      · exact both
      · simp [reached] at runs
    · exact both
  obtain ⟨r', sourceEnd, targetEnd⟩ := both
  have same : r = r' := by simpa [reached] using sourceEnd
  exact ⟨b, same ▸ targetEnd⟩

/-- Related states end with the same results. -/
theorem Advances.endsWith_iff {source : Execution σ ρ} {target : Execution τ ρ} {slack : Nat}
    {Related : σ → τ → Prop} (advances : Advances source target slack Related) {state : σ}
    {image : τ} (related : Related state image) (r : ρ)
    : source.EndsWith state r ↔ target.EndsWith image r :=
  ⟨advances.endsWith related, advances.symm.endsWith related⟩

end Boomkat.Foundation
