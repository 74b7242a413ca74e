import Mathlib.Tactic.Common

/-! Loops that translate a source into a buffer, whose guard also stops them where the buffer
is nearly full.
-/

namespace Boomkat.GuardedLoop

variable {α β ι : Type*}

-----------------------------------------------------------------------------------------
-- The loop
-----------------------------------------------------------------------------------------

/-- The body of a loop on what is left of a source: what it emits and what it leaves, which is
less, or nothing where it fails.
-/
structure Body (α β : Type*) where
  step : List α → Option (List β × List α)
  shorter : ∀ {src emitted rest}, step src = some (emitted, rest) → rest.length < src.length

/-- The loop while something is left and less than the limit is in the buffer. -/
def Body.run (body : Body α β) (limit : Nat) (out : List β) (src : List α) : Option (List β) :=
  if src.isEmpty = false ∧ out.length < limit then
    match turn : body.step src with
    | none => none
    | some (emitted, rest) =>
        have := body.shorter turn
        body.run limit (out ++ emitted) rest
  else some out
termination_by src.length

/-- What the turns of a loop without the limit have emitted when something is left. -/
inductive Body.Reaches (body : Body α β) : List α → List β → List α → Prop
  | start (src : List α) : Body.Reaches body src [] src
  | next {src mid rest : List α} {emitted out : List β}
      (turn : body.step src = some (emitted, mid)) (others : Body.Reaches body mid out rest)
      : Body.Reaches body src (emitted ++ out) rest

/-- The limit stops no turn of the loop. -/
def Body.Unstopped (body : Body α β) (limit offset : Nat) (src : List α) : Prop :=
  ∀ out rest, body.Reaches src out rest → rest ≠ [] → offset + out.length < limit

variable {body : Body α β} {limit offset : Nat} {src mid rest : List α} {out emitted : List β}

theorem Body.step_nil (body : Body α β) : body.step [] = none := by
  cases turn : body.step [] with
  | none => rfl
  | some left => exact absurd (body.shorter turn) (Nat.not_lt_zero _)

theorem Body.reaches_one (body : Body α β) (turn : body.step src = some (emitted, rest))
    : body.Reaches src emitted rest := by
  have reached := Body.Reaches.next turn (.start rest)
  rwa [List.append_nil] at reached

theorem Body.Reaches.trans (first : body.Reaches src out mid) {more : List β}
    (second : body.Reaches mid more rest)
    : body.Reaches src (out ++ more) rest := by
  induction first with
  | start => exact second
  | next turn _ ih =>
      rw [List.append_assoc]
      exact .next turn (ih second)

/-- There is one way to go on. -/
theorem Body.Reaches.ahead (first : body.Reaches src out rest) {full : List β}
    (whole : body.Reaches src full [])
    : ∃ more, full = out ++ more ∧ body.Reaches rest more [] := by
  induction first generalizing full with
  | start => exact ⟨full, rfl, whole⟩
  | next turn _ ih =>
      cases whole with
      | start =>
          rw [body.step_nil] at turn
          cases turn
      | next turn' others =>
          obtain ⟨rfl, rfl⟩ := Prod.mk.inj (Option.some.inj (turn.symm.trans turn'))
          obtain ⟨more, rfl, left⟩ := ih others
          exact ⟨more, (List.append_assoc _ _ _).symm, left⟩

-----------------------------------------------------------------------------------------
-- What the limit does
-----------------------------------------------------------------------------------------

theorem Body.run_end (body : Body α β) (limit : Nat) (out : List β)
    : body.run limit out [] = some out := by
  rw [Body.run, if_neg (by simp)]

theorem Body.run_full (body : Body α β) (full : limit ≤ out.length) (src : List α)
    : body.run limit out src = some out := by
  rw [Body.run, if_neg (by omega)]

theorem Body.run_fails (room : out.length < limit) (some : src ≠ [])
    (turn : body.step src = none)
    : body.run limit out src = none := by
  rw [Body.run, if_pos ⟨by simpa using some, room⟩]
  split
  · rfl
  · simp_all

theorem Body.run_next (room : out.length < limit) (turn : body.step src = some (emitted, rest))
    : body.run limit out src = body.run limit (out ++ emitted) rest := by
  have some : src ≠ [] := by
    rintro rfl
    rw [body.step_nil] at turn
    cases turn
  rw [Body.run, if_pos ⟨by simpa using some, room⟩]
  split
  · simp_all
  · rename_i turn'
    obtain ⟨rfl, rfl⟩ := Prod.mk.inj (Option.some.inj (turn.symm.trans turn'))
    rfl

theorem Body.Unstopped.next (unstopped : body.Unstopped limit offset src)
    (turn : body.step src = some (emitted, rest))
    : body.Unstopped limit (offset + emitted.length) rest := by
  intro out left reached some
  have room := unstopped _ left (.next turn reached) some
  rw [List.length_append] at room
  omega

/-- Without a stop the loop is where its turns come to. -/
theorem Body.Unstopped.run_reaches {front : List β}
    (unstopped : body.Unstopped limit front.length src) (reached : body.Reaches src out rest)
    : body.run limit front src = body.run limit (front ++ out) rest := by
  induction reached generalizing front with
  | start => rw [List.append_nil]
  | @next src mid rest emitted out turn _ ih =>
      have some : src ≠ [] := by
        rintro rfl
        rw [body.step_nil] at turn
        cases turn
      have room : front.length < limit := unstopped [] src (.start src) some
      rw [Body.run_next room turn, ← List.append_assoc]
      apply ih
      rw [List.length_append]
      exact unstopped.next turn

theorem Body.Unstopped.run_ends (unstopped : body.Unstopped limit 0 src)
    (ends : body.Reaches src out [])
    : body.run limit [] src = some out := by
  rw [Body.Unstopped.run_reaches unstopped ends, Body.run_end, List.nil_append]

theorem Body.Unstopped.run_none (unstopped : body.Unstopped limit 0 src)
    (fails : body.Reaches src out rest) (some : rest ≠ []) (turn : body.step rest = none)
    : body.run limit [] src = none := by
  rw [Body.Unstopped.run_reaches unstopped fails]
  apply Body.run_fails _ some turn
  have room := unstopped out rest fails some
  rwa [Nat.zero_add] at room

/-- A loop that the limit stops returns what it has emitted. -/
theorem Body.run_stopped (front : List β) (stopped : ¬body.Unstopped limit front.length src)
    : ∃ out rest, body.Reaches src out rest ∧ rest ≠ [] ∧ limit ≤ front.length + out.length
      ∧ body.run limit front src = some (front ++ out) := by
  induction length : src.length using Nat.strongRecOn generalizing src front with
  | ind n ih =>
      have some : src ≠ [] := by
        rintro rfl
        apply stopped
        intro out rest reached left
        cases reached with
        | start => exact absurd rfl left
        | next turn => rw [body.step_nil] at turn; cases turn
      by_cases room : front.length < limit
      · cases turn : body.step src with
        | none =>
            refine absurd (fun out rest reached left => ?_) stopped
            cases reached with
            | start => exact room
            | next turn' => rw [turn] at turn'; cases turn'
        | some left =>
            obtain ⟨emitted, rest⟩ := left
            have later : ¬body.Unstopped limit (front ++ emitted).length rest := by
              intro unstopped
              apply stopped
              intro out left reached some
              cases reached with
              | start => exact room
              | next turn' others =>
                  obtain ⟨rfl, rfl⟩ := Prod.mk.inj (Option.some.inj (turn.symm.trans turn'))
                  have more := unstopped _ left others some
                  rw [List.length_append] at more ⊢
                  omega
            obtain ⟨out, last, reached, left, full, run⟩ :=
              ih _ (length ▸ body.shorter turn) _ later rfl
            refine ⟨emitted ++ out, last, .next turn reached, left, ?_, ?_⟩
            · rw [List.length_append] at full ⊢
              omega
            · rw [Body.run_next room turn, run, List.append_assoc]
      · refine ⟨[], src, .start src, some, by simpa using room, ?_⟩
        rw [Body.run_full body (by omega), List.append_nil]

/-- The result of a loop is its full text when every turn emits something and the limit stops
none of them, and only then.
-/
theorem Body.run_iff (emits : ∀ {src e rest}, body.step src = some (e, rest) → e ≠ [])
    (ends : body.Reaches src out [])
    : body.run limit [] src = some out ↔ body.Unstopped limit 0 src := by
  refine ⟨fun whole => ?_, fun unstopped => unstopped.run_ends ends⟩
  by_contra stopped
  obtain ⟨kept, rest, reached, some, -, run⟩ := Body.run_stopped [] stopped
  obtain ⟨more, same, left⟩ := reached.ahead ends
  rw [whole, List.nil_append] at run
  cases left with
  | start => exact some rfl
  | next turn =>
      have lengths := congrArg List.length (Option.some.inj run)
      have positive := List.length_pos_iff.mpr (emits turn)
      rw [same, List.length_append, List.length_append] at lengths
      omega

/-- A loop fails when it comes to a failing turn and the limit stops none before it, and only
then.
-/
theorem Body.run_none_iff (fails : body.Reaches src out rest) (some : rest ≠ [])
    (turn : body.step rest = none)
    : body.run limit [] src = none ↔ body.Unstopped limit 0 src := by
  refine ⟨fun none => ?_, fun unstopped => unstopped.run_none fails some turn⟩
  by_contra stopped
  obtain ⟨kept, last, -, -, -, run⟩ := Body.run_stopped [] stopped
  rw [none] at run
  cases run

-----------------------------------------------------------------------------------------
-- Sources of items
-----------------------------------------------------------------------------------------

/-- The texts of the items before the last one stay below the limit. -/
def Fits (limit : Nat) (emit : ι → List β) (items : List ι) : Prop :=
  ∀ before after, items = before ++ after → after ≠ [] → (before.flatMap emit).length < limit

theorem length_flatMap_le {emit : ι → List β} {emit' : ι → List α} {items : List ι}
    (less : ∀ i ∈ items, (emit' i).length ≤ (emit i).length)
    : (items.flatMap emit').length ≤ (items.flatMap emit).length := by
  induction items with
  | nil => exact Nat.le_refl _
  | cons i items ih =>
      have first := less i List.mem_cons_self
      have others := ih fun j member => less j (List.mem_cons_of_mem i member)
      rw [List.flatMap_cons, List.flatMap_cons, List.length_append, List.length_append]
      omega

theorem Fits.mono {emit : ι → List β} {emit' : ι → List α} {items : List ι}
    (fits : Fits limit emit items)
    (less : ∀ i ∈ items, (emit' i).length ≤ (emit i).length)
    : Fits limit emit' items := by
  intro before after split some
  refine Nat.lt_of_le_of_lt (length_flatMap_le fun i member => ?_) (fits before after split some)
  exact less i (by rw [split]; exact List.mem_append_left after member)

variable {read : ι → List α} {emit : ι → List β} {items : List ι} {tail : List α}

/-- The body reads one item a turn, whatever comes behind it. -/
def Body.ReadsItems (body : Body α β) (read : ι → List α) (emit : ι → List β)
    (items : List ι)
    : Prop :=
  ∀ i ∈ items, ∀ rest, body.step (read i ++ rest) = some (emit i, rest)

theorem Body.ReadsItems.of_cons {i : ι} (reads : body.ReadsItems read emit (i :: items))
    : body.ReadsItems read emit items :=
  fun j member => reads j (List.mem_cons_of_mem i member)

theorem Body.ReadsItems.of_append {before after : List ι}
    (reads : body.ReadsItems read emit (before ++ after))
    : body.ReadsItems read emit before :=
  fun i member => reads i (List.mem_append_left after member)

/-- An item is not empty. -/
theorem Body.ReadsItems.read_ne_nil (reads : body.ReadsItems read emit items) {i : ι}
    (member : i ∈ items)
    : read i ≠ [] := by
  intro empty
  have shorter := body.shorter (reads i member [])
  rw [empty] at shorter
  exact Nat.lt_irrefl _ shorter

theorem Body.ReadsItems.flatMap_ne_nil (reads : body.ReadsItems read emit items)
    (some : items ≠ [])
    : items.flatMap read ≠ [] := by
  cases items with
  | nil => exact absurd rfl some
  | cons i items =>
      rw [List.flatMap_cons]
      exact List.append_ne_nil_of_left_ne_nil (reads.read_ne_nil List.mem_cons_self) _

theorem Body.ReadsItems.reaches (reads : body.ReadsItems read emit items) (rest : List α)
    : body.Reaches (items.flatMap read ++ rest) (items.flatMap emit) rest := by
  induction items with
  | nil => exact .start rest
  | cons i items ih =>
      rw [List.flatMap_cons, List.flatMap_cons, List.append_assoc]
      exact .next (reads i List.mem_cons_self _) (ih reads.of_cons)

/-- The loop is before one of the items, or behind them all. -/
theorem Body.ReadsItems.reaches_cases (reads : body.ReadsItems read emit items)
    (reached : body.Reaches (items.flatMap read ++ tail) out rest)
    : (∃ before after, items = before ++ after ∧ after ≠ [] ∧ out = before.flatMap emit
        ∧ rest = after.flatMap read ++ tail)
      ∨ ∃ more, out = items.flatMap emit ++ more ∧ body.Reaches tail more rest := by
  induction items generalizing out with
  | nil => exact .inr ⟨out, rfl, reached⟩
  | cons i items ih =>
      cases reached with
      | start => exact .inl ⟨[], i :: items, rfl, List.cons_ne_nil i items, rfl, rfl⟩
      | next turn others =>
          rw [List.flatMap_cons, List.append_assoc, reads i List.mem_cons_self] at turn
          obtain ⟨rfl, rfl⟩ := Prod.mk.inj (Option.some.inj turn)
          rcases ih reads.of_cons others with ⟨before, after, rfl, some, rfl, left⟩
            | ⟨more, rfl, beyond⟩
          · exact .inl ⟨i :: before, after, rfl, some, rfl, left⟩
          · exact .inr ⟨more, by rw [List.flatMap_cons, List.append_assoc], beyond⟩

/-- The loop is between two items when none of its turns is behind them. -/
theorem Body.ReadsItems.reaches_iff (reads : body.ReadsItems read emit items)
    (last : body.step tail = none)
    : body.Reaches (items.flatMap read ++ tail) out rest
      ↔ ∃ before after, items = before ++ after ∧ out = before.flatMap emit
        ∧ rest = after.flatMap read ++ tail := by
  constructor
  · intro reached
    rcases reads.reaches_cases reached with ⟨before, after, split, -, emits, left⟩
      | ⟨more, rfl, beyond⟩
    · exact ⟨before, after, split, emits, left⟩
    · cases beyond with
      | start =>
          exact ⟨items, [], (List.append_nil items).symm, List.append_nil _, rfl⟩
      | next turn =>
          rw [last] at turn
          cases turn
  · rintro ⟨before, after, rfl, rfl, rfl⟩
    rw [List.flatMap_append, List.append_assoc]
    exact reads.of_append.reaches _

theorem Body.ReadsItems.unstopped_iff (reads : body.ReadsItems read emit items)
    : body.Unstopped limit 0 (items.flatMap read) ↔ Fits limit emit items := by
  have positions {out : List β} {rest : List α}
      : body.Reaches (items.flatMap read) out rest
        ↔ ∃ before after, items = before ++ after ∧ out = before.flatMap emit
          ∧ rest = after.flatMap read := by
    have between : body.Reaches (items.flatMap read ++ []) out rest ↔ _ :=
      reads.reaches_iff body.step_nil
    simpa only [List.append_nil] using between
  constructor
  · intro unstopped before after split some
    have left : after.flatMap read ≠ [] :=
      Body.ReadsItems.flatMap_ne_nil
        (fun i member => reads i (by rw [split]; exact List.mem_append_right before member)) some
    have room := unstopped _ _ (positions.mpr ⟨before, after, split, rfl, rfl⟩) left
    rwa [Nat.zero_add] at room
  · intro fits out rest reached some
    obtain ⟨before, after, split, rfl, rfl⟩ := positions.mp reached
    rw [Nat.zero_add]
    refine fits before after split ?_
    rintro rfl
    exact some rfl

/-- The loop on items emits items until the guard stops it. -/
theorem Body.ReadsItems.run_from (reads : body.ReadsItems read emit items) (limit : Nat)
    (front : List β)
    : ∃ before after, items = before ++ after
      ∧ (∀ b a, before = b ++ a → a ≠ [] → front.length + (b.flatMap emit).length < limit)
      ∧ (after ≠ [] → limit ≤ front.length + (before.flatMap emit).length)
      ∧ body.run limit front (items.flatMap read) = some (front ++ before.flatMap emit) := by
  induction items generalizing front with
  | nil =>
      refine ⟨[], [], rfl, fun b a split some => ?_, fun some => absurd rfl some, ?_⟩
      · exact absurd (List.append_eq_nil_iff.mp split.symm).2 some
      · rw [List.flatMap_nil, Body.run_end, List.flatMap_nil, List.append_nil]
  | cons i items ih =>
      by_cases room : front.length < limit
      · obtain ⟨before, after, rfl, inside, full, run⟩ := ih reads.of_cons (front ++ emit i)
        rw [List.length_append] at inside full
        refine ⟨i :: before, after, rfl, fun b a split some => ?_, fun some => ?_, ?_⟩
        · cases b with
          | nil => exact room
          | cons j b =>
              obtain ⟨rfl, rest⟩ := List.cons.inj split
              have below := inside b a rest some
              rw [List.flatMap_cons, List.length_append]
              omega
        · have above := full some
          rw [List.flatMap_cons, List.length_append]
          omega
        · rw [List.flatMap_cons, Body.run_next room (reads i List.mem_cons_self _), run,
            List.flatMap_cons, List.append_assoc]
      · refine ⟨[], i :: items, rfl, fun b a split some => ?_, fun _ => ?_, ?_⟩
        · exact absurd (List.append_eq_nil_iff.mp split.symm).2 some
        · exact Nat.le_add_right_of_le (Nat.not_lt.mp room)
        · rw [Body.run_full body (Nat.not_lt.mp room), List.flatMap_nil, List.append_nil]

/-- The loop on items returns the text of the first ones, of all where they fit. -/
theorem Body.ReadsItems.run_eq (reads : body.ReadsItems read emit items) (limit : Nat)
    : ∃ before after, items = before ++ after ∧ Fits limit emit before
      ∧ (after = [] ↔ Fits limit emit items)
      ∧ body.run limit [] (items.flatMap read) = some (before.flatMap emit) := by
  obtain ⟨before, after, rfl, inside, full, run⟩ := reads.run_from limit []
  simp only [List.length_nil, Nat.zero_add] at inside full
  refine ⟨before, after, rfl, inside, ⟨?_, fun fits => ?_⟩, run⟩
  · rintro rfl
    rwa [List.append_nil]
  · by_contra some
    exact Nat.not_lt.mpr (full some) (fits before after rfl some)

/-- The loop on items before a tail that fails comes to it when their text is below the limit. -/
theorem Body.ReadsItems.run_none_iff (reads : body.ReadsItems read emit items) (some : tail ≠ [])
    (last : body.step tail = none)
    : body.run limit [] (items.flatMap read ++ tail) = none
      ↔ (items.flatMap emit).length < limit := by
  rw [Body.run_none_iff (reads.reaches tail) some last]
  constructor
  · intro unstopped
    have room := unstopped _ _ (reads.reaches tail) some
    rwa [Nat.zero_add] at room
  · intro room out rest reached _
    obtain ⟨before, after, rfl, rfl, -⟩ := (reads.reaches_iff last).mp reached
    rw [List.flatMap_append, List.length_append] at room
    omega

/-- A loop and one that reads what it emits give back the source when the items fit, and only
then.
-/
theorem roundTrip_iff {back : Body β α} (reads : body.ReadsItems read emit items)
    (readsBack : back.ReadsItems emit read items)
    (shorter : ∀ i ∈ items, (read i).length ≤ (emit i).length)
    : (body.run limit [] (items.flatMap read)).bind (back.run limit [])
        = some (items.flatMap read)
      ↔ Fits limit emit items := by
  obtain ⟨before, after, rfl, inside, all, run⟩ := reads.run_eq limit
  have readsBefore := readsBack.of_append
  have fits : Fits limit read before :=
    inside.mono fun i member => shorter i (List.mem_append_left after member)
  have ends := readsBefore.reaches []
  rw [List.append_nil] at ends
  rw [run, Option.bind_some, (readsBefore.unstopped_iff.mpr fits).run_ends ends, ← all,
    List.flatMap_append, Option.some.injEq]
  constructor
  · intro same
    by_contra some
    have readsAfter : body.ReadsItems read emit after := fun i member =>
      reads i (List.mem_append_right before member)
    exact readsAfter.flatMap_ne_nil some (List.self_eq_append_right.mp same)
  · rintro rfl
    rw [List.flatMap_nil, List.append_nil]

end Boomkat.GuardedLoop
