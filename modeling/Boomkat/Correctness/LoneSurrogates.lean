import Boomkat.Correctness.Cesu8

/-! Strings of code units as characters, and the surrogates that have no other half. -/

namespace Boomkat.Correctness
open Utf8

theorem char_scalar (c : Char)
    : c.toNat < 0x110000 ∧ ¬(0xD800 ≤ c.toNat ∧ c.toNat ≤ 0xDFFF) := by
  have valid := c.valid
  simp only [UInt32.isValidChar, Nat.isValidChar] at valid
  change c.val.toNat < _ ∧ ¬(_ ≤ c.val.toNat ∧ c.val.toNat ≤ _)
  omega

theorem exists_char {n : Nat} (bound : n < 0x110000) (scalar : ¬(0xD800 ≤ n ∧ n ≤ 0xDFFF))
    : ∃ c : Char, c.toNat = n := by
  have valid : n.isValidChar := by
    unfold Nat.isValidChar
    omega
  exact ⟨Char.ofNatAux n valid, rfl⟩

/-- The code units of characters. -/
def charUnits (chars : List Char) : List Nat := chars.flatMap fun c => units c.toNat

@[simp] theorem charUnits_cons (c : Char) (chars : List Char)
    : charUnits (c :: chars) = units c.toNat ++ charUnits chars :=
  rfl

/-- A surrogate that has no other half next to it. -/
def LoneAt (before : List Nat) (u : Nat) (after : List Nat) : Prop :=
  (IsHigh u ∧ ∀ low ∈ after.head?, ¬IsLow low)
  ∨ (IsLow u ∧ ∀ high ∈ before.getLast?, ¬IsHigh high)

def LoneSurrogate (us : List Nat) : Prop :=
  ∃ before u after, us = before ++ u :: after ∧ LoneAt before u after

def StartsLone (us : List Nat) : Prop := ∃ u after, us = u :: after ∧ LoneAt [] u after

theorem LoneAt.tail {u v : Nat} {before after : List Nat} (lone : LoneAt (v :: before) u after)
    : LoneAt before u after := by
  rcases lone with high | ⟨low, last⟩
  · exact .inl high
  · refine .inr ⟨low, fun high member => last high ?_⟩
    rw [Option.mem_def] at member ⊢
    rw [List.getLast?_cons, member]
    rfl

/-- Two halves are those of the codepoint that they join. -/
theorem units_joined {high low : Nat} (isHigh : IsHigh high) (isLow : IsLow low)
    : joined high low < 0x110000 ∧ ¬(0xD800 ≤ joined high low ∧ joined high low ≤ 0xDFFF)
      ∧ units (joined high low) = [high, low] := by
  unfold IsHigh at isHigh
  unfold IsLow at isLow
  have first : highOf (joined high low) = high := by
    unfold highOf joined
    omega
  have second : lowOf (joined high low) = low := by
    unfold lowOf joined
    omega
  have astral : 0x10000 ≤ joined high low ∧ joined high low < 0x110000 := by
    unfold joined
    omega
  exact ⟨astral.2, by omega, by rw [units_astral astral.1, first, second]⟩

theorem not_high_of_low {u : Nat} (low : IsLow u) : ¬IsHigh u := by
  unfold IsHigh
  unfold IsLow at low
  omega

theorem not_surrogate_iff {u : Nat}
    : ¬(0xD800 ≤ u ∧ u ≤ 0xDFFF) ↔ ¬IsHigh u ∧ ¬IsLow u := by
  unfold IsHigh IsLow
  omega

/-- Characters have no lone surrogate. -/
theorem not_lone_charUnits (chars : List Char) : ¬LoneSurrogate (charUnits chars) := by
  rintro ⟨before, u, after, split, lone⟩
  induction chars generalizing before with
  | nil => exact List.append_ne_nil_of_right_ne_nil before (List.cons_ne_nil u after) split.symm
  | cons c chars ih =>
      obtain ⟨bound, scalar⟩ := char_scalar c
      rw [charUnits_cons] at split
      rcases Nat.lt_or_ge c.toNat 0x10000 with small | astral
      · rw [units_small small] at split
        cases before with
        | nil =>
            obtain ⟨rfl, -⟩ := List.cons.inj split
            obtain ⟨notHigh, notLow⟩ := not_surrogate_iff.mp scalar
            exact lone.elim (fun high => notHigh high.1) fun low => notLow low.1
        | cons v before => exact ih before (List.cons.inj split).2 lone.tail
      · rw [units_astral astral] at split
        have high := highOf_isHigh bound
        have low := lowOf_isLow c.toNat
        match before with
        | [] =>
            obtain ⟨rfl, rfl⟩ := List.cons.inj split
            rcases lone with ⟨-, alone⟩ | ⟨isLow, -⟩
            · exact alone _ rfl low
            · exact not_high_of_low isLow high
        | [v] =>
            obtain ⟨rfl, rest⟩ := List.cons.inj split
            obtain ⟨rfl, -⟩ := List.cons.inj rest
            rcases lone with ⟨isHigh, -⟩ | ⟨-, alone⟩
            · exact not_high_of_low low isHigh
            · exact alone _ rfl high
        | v :: w :: before =>
            exact ih before (List.cons.inj (List.cons.inj split).2).2 lone.tail.tail

/-- Characters do not end with a high surrogate. -/
theorem charUnits_last (chars : List Char) : ∀ u ∈ (charUnits chars).getLast?, ¬IsHigh u := by
  intro u last high
  obtain ⟨before, split⟩ := List.getLast?_eq_some_iff.mp last
  exact not_lone_charUnits chars ⟨before, u, [], split, .inl ⟨high, fun _ none => by cases none⟩⟩

/-- Code units are characters up to the first lone surrogate. -/
theorem exists_chars {us : List Nat} (small : ∀ u ∈ us, u < 0x10000)
    : ∃ chars tail, us = charUnits chars ++ tail ∧ (tail = [] ∨ StartsLone tail) := by
  induction length : us.length using Nat.strongRecOn generalizing us with
  | ind n ih =>
      subst length
      match us with
      | [] => exact ⟨[], [], rfl, .inl rfl⟩
      | u :: rest =>
          have bound := small u List.mem_cons_self
          by_cases low : IsLow u
          · exact ⟨[], u :: rest, rfl, .inr ⟨u, rest, rfl, .inr ⟨low, fun _ none => by cases none⟩⟩⟩
          by_cases high : IsHigh u
          · match rest with
            | [] =>
                exact ⟨[], [u], rfl, .inr ⟨u, [], rfl, .inl ⟨high, fun _ none => by cases none⟩⟩⟩
            | v :: rest =>
                by_cases pair : IsLow v
                · obtain ⟨chars, tail, rfl, ends⟩ := ih rest.length
                    (by simp only [List.length_cons]; omega) (fun w member => small w (by simp [member])) rfl
                  obtain ⟨inside, scalar, halves⟩ := units_joined high pair
                  obtain ⟨c, value⟩ := exists_char inside scalar
                  refine ⟨c :: chars, tail, ?_, ends⟩
                  rw [charUnits_cons, value, halves]
                  rfl
                · refine ⟨[], u :: v :: rest, rfl, .inr ⟨u, v :: rest, rfl, .inl ⟨high, ?_⟩⟩⟩
                  intro w member
                  cases member
                  exact pair
          · obtain ⟨chars, tail, rfl, ends⟩ := ih rest.length (Nat.lt_succ_self _)
              (fun w member => small w (List.mem_cons_of_mem u member)) rfl
            obtain ⟨c, value⟩ :=
              exists_char (by omega) (not_surrogate_iff.mpr ⟨high, low⟩)
            refine ⟨c :: chars, tail, ?_, ends⟩
            rw [charUnits_cons, value, units_small bound]
            rfl

/-- A lone surrogate behind characters is one of the string. -/
theorem StartsLone.behind {tail : List Nat} (starts : StartsLone tail) (chars : List Char)
    : LoneSurrogate (charUnits chars ++ tail) := by
  obtain ⟨u, after, rfl, lone⟩ := starts
  refine ⟨charUnits chars, u, after, rfl, ?_⟩
  rcases lone with high | ⟨low, -⟩
  · exact .inl high
  · exact .inr ⟨low, charUnits_last chars⟩

theorem loneSurrogate_iff {us : List Nat} (small : ∀ u ∈ us, u < 0x10000)
    : LoneSurrogate us ↔ ∃ chars tail, us = charUnits chars ++ tail ∧ StartsLone tail := by
  constructor
  · intro lone
    obtain ⟨chars, tail, rfl, rfl | starts⟩ := exists_chars small
    · rw [List.append_nil] at lone
      exact absurd lone (not_lone_charUnits chars)
    · exact ⟨chars, tail, rfl, starts⟩
  · rintro ⟨chars, tail, rfl, starts⟩
    exact starts.behind chars

theorem not_lone_iff {us : List Nat} (small : ∀ u ∈ us, u < 0x10000)
    : ¬LoneSurrogate us ↔ ∃ chars, us = charUnits chars := by
  constructor
  · intro sound
    obtain ⟨chars, tail, rfl, rfl | starts⟩ := exists_chars small
    · exact ⟨chars, List.append_nil _⟩
    · exact absurd (starts.behind chars) sound
  · rintro ⟨chars, rfl⟩
    exact not_lone_charUnits chars

theorem cesu8_charUnits (chars : List Char)
    : cesu8 (charUnits chars) = chars.flatMap fun c => cesu8 (units c.toNat) := by
  induction chars with
  | nil => rfl
  | cons c chars ih => rw [charUnits_cons, cesu8_append, ih, List.flatMap_cons]

end Boomkat.Correctness
