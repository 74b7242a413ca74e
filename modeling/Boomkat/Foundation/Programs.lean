import Mathlib.Tactic.Common

/-! Programs that change a state and may throw: what holds where they end, and pairs of programs
that run alike.
-/

namespace Boomkat.Programs

variable {ε σ α β γ δ : Type}

-----------------------------------------------------------------------------------------
-- Where a program ends
-----------------------------------------------------------------------------------------

/-- From a state with `P` the program ends with `Q` of its value, or throws with `X`. -/
def Triple (P : σ → Prop) (program : EStateM ε σ α) (Q : α → σ → Prop) (X : ε → σ → Prop)
    : Prop :=
  ∀ s, P s → match program s with
    | .ok a s' => Q a s'
    | .error e s' => X e s'

variable {P P' : σ → Prop} {x : EStateM ε σ α} {f : α → EStateM ε σ β} {M Q Q' : α → σ → Prop}
  {R : β → σ → Prop} {X X' : ε → σ → Prop}

theorem Triple.pure {a : α} (holds : ∀ s, P s → Q a s)
    : Triple P (Pure.pure a : EStateM ε σ α) Q X :=
  holds

/-- The first program ends where the second one may start. -/
theorem Triple.bind (first : Triple P x M X) (next : ∀ a, Triple (M a) (f a) R X)
    : Triple P (x >>= f) R X := by
  intro s holds
  have mid := first s holds
  change match EStateM.bind x f s with
    | .ok a s' => R a s'
    | .error e s' => X e s'
  rw [EStateM.bind]
  cases result : x s with
  | ok a s' =>
      rw [result] at mid
      exact next a s' mid
  | error e s' =>
      rw [result] at mid
      exact mid

theorem Triple.mono (triple : Triple P x Q X) (before : ∀ s, P' s → P s)
    (ends : ∀ a s, Q a s → Q' a s) (throws : ∀ e s, X e s → X' e s)
    : Triple P' x Q' X' := by
  intro s holds
  have mid := triple s (before s holds)
  cases result : x s with
  | ok a s' =>
      rw [result] at mid
      exact ends a s' mid
  | error e s' =>
      rw [result] at mid
      exact throws e s' mid

theorem Triple.before (triple : Triple P x Q X) (before : ∀ s, P' s → P s) : Triple P' x Q X :=
  triple.mono before (fun _ _ ends => ends) (fun _ _ throws => throws)

theorem Triple.throws (triple : Triple P x Q X) (throws : ∀ e s, X e s → X' e s)
    : Triple P x Q X' :=
  triple.mono (fun _ before => before) (fun _ _ ends => ends) throws

/-- Both hold where the program ends, and the first where it throws. -/
theorem Triple.and (left : Triple P x Q X) (right : Triple P x Q' X')
    : Triple P x (fun a s => Q a s ∧ Q' a s) X := by
  intro s holds
  have first := left s holds
  have second := right s holds
  cases result : x s with
  | ok a s' =>
      rw [result] at first second
      exact ⟨first, second⟩
  | error e s' =>
      rw [result] at first
      exact first

/-- A program that does not throw returns. -/
theorem Triple.returns (triple : Triple P x Q (fun _ _ => False)) {s : σ} (holds : P s)
    : ∃ a s', x s = .ok a s' ∧ Q a s' := by
  have ends := triple s holds
  cases result : x s with
  | ok a s' =>
      rw [result] at ends
      exact ⟨a, s', rfl, ends⟩
  | error e s' =>
      rw [result] at ends
      exact ends.elim

-----------------------------------------------------------------------------------------
-- Programs that run alike
-----------------------------------------------------------------------------------------

/-- The programs go through the same states, throw the same and end with related values. -/
def Alike (R : α → β → Prop) (x : EStateM ε σ α) (y : EStateM ε σ β) : Prop :=
  ∀ s, match x s, y s with
    | .ok a s₁, .ok b s₂ => R a b ∧ s₁ = s₂
    | .error e₁ s₁, .error e₂ s₂ => e₁ = e₂ ∧ s₁ = s₂
    | _, _ => False

variable {S : α → β → Prop} {T : γ → δ → Prop} {y : EStateM ε σ β}

theorem Alike.pure {a : α} {b : β} (related : S a b)
    : Alike S (Pure.pure a : EStateM ε σ α) (Pure.pure b) :=
  fun _ => ⟨related, rfl⟩

theorem Alike.refl (x : EStateM ε σ α) : Alike Eq x x := by
  intro s
  cases x s with
  | ok a s' => exact ⟨rfl, rfl⟩
  | error e s' => exact ⟨rfl, rfl⟩

/-- Both programs return in one state, or both throw the same there. -/
theorem Alike.ends (alike : Alike S x y) (s : σ)
    : (∃ a b s', x s = .ok a s' ∧ y s = .ok b s' ∧ S a b)
      ∨ ∃ e s', x s = .error e s' ∧ y s = .error e s' := by
  have same := alike s
  cases left : x s with
  | ok a s₁ =>
      cases right : y s with
      | ok b s₂ =>
          rw [left, right] at same
          obtain ⟨related, rfl⟩ := same
          exact .inl ⟨a, b, s₁, rfl, rfl, related⟩
      | error e₂ s₂ =>
          rw [left, right] at same
          exact same.elim
  | error e₁ s₁ =>
      cases right : y s with
      | ok b s₂ =>
          rw [left, right] at same
          exact same.elim
      | error e₂ s₂ =>
          rw [left, right] at same
          obtain ⟨rfl, rfl⟩ := same
          exact .inr ⟨e₁, s₁, rfl, rfl⟩

theorem Alike.bind {f : α → EStateM ε σ γ} {g : β → EStateM ε σ δ} (first : Alike S x y)
    (next : ∀ a b, S a b → Alike T (f a) (g b))
    : Alike T (x >>= f) (y >>= g) := by
  intro s
  change match EStateM.bind x f s, EStateM.bind y g s with
    | .ok a s₁, .ok b s₂ => T a b ∧ s₁ = s₂
    | .error e₁ s₁, .error e₂ s₂ => e₁ = e₂ ∧ s₁ = s₂
    | _, _ => False
  rw [EStateM.bind, EStateM.bind]
  rcases first.ends s with ⟨a, b, s', left, right, related⟩ | ⟨e, s', left, right⟩
  · rw [left, right]
    exact next a b related s'
  · rw [left, right]
    exact ⟨rfl, rfl⟩

theorem Alike.map_left {f : α → γ} {T : γ → β → Prop} (first : Alike S x y)
    (ends : ∀ a b, S a b → T (f a) b)
    : Alike T (x >>= fun a => Pure.pure (f a)) y := by
  have mapped := first.bind (T := T) (g := Pure.pure) fun a b related =>
    Alike.pure (a := f a) (ends a b related)
  rwa [bind_pure] at mapped

theorem Alike.map_right {f : β → γ} {T : α → γ → Prop} (first : Alike S x y)
    (ends : ∀ a b, S a b → T a (f b))
    : Alike T x (y >>= fun b => Pure.pure (f b)) := by
  have mapped := first.bind (T := T) (f := Pure.pure) fun a b related =>
    Alike.pure (b := f b) (ends a b related)
  rwa [bind_pure] at mapped

theorem Alike.mono {S' : α → β → Prop} (alike : Alike S x y) (related : ∀ a b, S a b → S' a b)
    : Alike S' x y := by
  intro s
  rcases alike.ends s with ⟨a, b, s', left, right, same⟩ | ⟨e, s', left, right⟩
  · rw [left, right]
    exact ⟨related a b same, rfl⟩
  · rw [left, right]
    exact ⟨rfl, rfl⟩

/-- Programs that end alike with the same values are one program. -/
theorem Alike.eq {x y : EStateM ε σ α} (alike : Alike Eq x y) : x = y := by
  funext s
  rcases alike.ends s with ⟨a, b, s', left, right, same⟩ | ⟨e, s', left, right⟩
  · rw [left, right, same]
  · rw [left, right]

end Boomkat.Programs
