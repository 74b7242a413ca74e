import Boomkat.Correctness.NamespaceItems

/-! The specification's GetExportedNames: the names that a module exports itself or over any number of
star exports.
-/

namespace Boomkat.Correctness

open Foundation Modules

variable {M : Type*} [DecidableEq M] {graph : M → ModuleDef M} {mod : M} {n : String}
  {set set' : List M} {names names' : List String}

/-- The names of one star export, without `default` and those that are there. -/
theorem mem_mergeNames {starNames : List String}
    : n ∈ starNames.foldl
        (fun names n => if n ≠ "default" ∧ n ∉ names then names ++ [n] else names) names
      ↔ n ∈ names ∨ n ∈ starNames ∧ n ≠ "default" := by
  induction starNames generalizing names with
  | nil => simp
  | cons head starNames ih =>
      rw [List.foldl_cons, ih, List.mem_cons]
      split
      · rename_i new
        rw [List.mem_append, List.mem_singleton, or_assoc, or_and_right]
        refine or_congr_right (or_congr_left ⟨?_, And.left⟩)
        rintro rfl
        exact ⟨rfl, new.1⟩
      · rename_i old
        rw [or_and_right, ← or_assoc]
        refine or_congr_left ⟨.inl, fun member => member.elim id ?_⟩
        rintro ⟨rfl, other⟩
        exact Decidable.not_not.mp fun absent => old ⟨other, absent⟩

/-- What the call for a module has gathered, beside what was visited before. -/
structure Gathered (graph : M → ModuleDef M) (mod : M) (set set' : List M) (names : List String)
    : Prop where
  subset : set ⊆ set'
  member : mod ∈ set'
  closed : ∀ b ∈ set', b ∉ set → ∀ target, StarTarget graph b target → target ∈ set'
  own : mod ∉ set → ∀ n, Owns graph mod n → n ∈ names
  owned : ∀ b ∈ set', b ∉ set → ∀ n, n ≠ "default" → Owns graph b n → n ∈ names
  sound : ∀ n ∈ names, ∃ k, WithinStars graph k mod n

/-- The same in the course of its loop over star exports, of which some are left. -/
structure Gathering (graph : M → ModuleDef M) (mod : M) (stars : List Nat) (set set' : List M)
    (names : List String)
    : Prop where
  subset : set ⊆ set'
  closed : ∀ b ∈ set', b ∉ set → ∀ target, StarTarget graph b target → target ∈ set'
  own : ∀ n, Owns graph mod n → n ∈ names
  owned : ∀ b ∈ set', b ∉ set → ∀ n, n ≠ "default" → Owns graph b n → n ∈ names
  sound : ∀ n ∈ names, ∃ k, WithinStars graph k mod n
  past : ∀ star ∈ (graph mod).starExports, star ∉ stars → ∀ target,
    (graph mod).resolved star = some target → target ∈ set'

/-- What GetExportedNames does with a star export. -/
def starTurn (graph : M → ModuleDef M) (fuel : Nat) (mod : M) (gathered : List String × List M)
    (reqModuleIdx : Nat) : Option (List String × List M) :=
  match (graph mod).resolved reqModuleIdx with
  | none => some gathered
  | some requested =>
      (specGetExportedNames graph fuel requested gathered.2).map fun star =>
        (star.1.foldl (fun names n =>
          if n ≠ "default" ∧ n ∉ names then names ++ [n] else names) gathered.1, star.2)

theorem starTurn_none {fuel star : Nat} {gathered : List String × List M}
    (resolved : (graph mod).resolved star = none)
    : starTurn graph fuel mod gathered star = some gathered := by
  rw [starTurn, resolved]

theorem starTurn_some {fuel star : Nat} {gathered found : List String × List M} {target : M}
    (resolved : (graph mod).resolved star = some target)
    (called : specGetExportedNames graph fuel target gathered.2 = some found)
    : starTurn graph fuel mod gathered star
      = some (found.1.foldl (fun names n =>
          if n ≠ "default" ∧ n ∉ names then names ++ [n] else names) gathered.1, found.2) := by
  rw [starTurn, resolved]
  simp only [called, Option.map_some]

/-- GetExportedNames returns, by induction over the modules that are not visited. -/
theorem specGetExportedNames_gathers {known : List M} (all : ∀ m, m ∈ known) {fuel : Nat} (mod : M)
    (enough : (unvisited known set).length < fuel)
    : ∃ names set', specGetExportedNames graph fuel mod set = some (names, set')
      ∧ Gathered graph mod set set' names := by
  induction fuel generalizing mod set with
  | zero => exact absurd enough (Nat.not_lt_zero _)
  | succ fuel ih =>
      rw [specGetExportedNames]
      by_cases visited : mod ∈ set
      · rw [if_pos visited]
        exact ⟨[], set, rfl, List.Subset.refl set, visited, fun b member fresh => absurd member fresh,
          fun fresh => absurd visited fresh, fun b member fresh => absurd member fresh,
          fun n member => absurd member List.not_mem_nil⟩
      · rw [if_neg visited]
        have fewer : (unvisited known (set ++ [mod])).length < fuel :=
          Nat.lt_of_lt_of_le (unvisited_length_lt (all mod) visited) (Nat.le_of_lt_succ enough)
        have loop (stars : List Nat) (among : ∀ star ∈ stars, star ∈ (graph mod).starExports)
            {set₁ : List M} {names₁ : List String}
            (gathering : Gathering graph mod stars (set ++ [mod]) set₁ names₁)
            : ∃ names' set', stars.foldlM (starTurn graph fuel mod) (names₁, set₁)
                = some (names', set')
              ∧ Gathering graph mod [] (set ++ [mod]) set' names' := by
          induction stars generalizing set₁ names₁ with
          | nil => exact ⟨names₁, set₁, rfl, gathering⟩
          | cons star stars ihStars =>
              have rest := fun other inRest => among other (List.mem_cons_of_mem _ inRest)
              rw [List.foldlM_cons]
              cases resolved : (graph mod).resolved star with
              | none =>
                  rw [starTurn_none resolved]
                  refine ihStars rest ⟨gathering.subset, gathering.closed, gathering.own,
                    gathering.owned, gathering.sound, fun other member past target found => ?_⟩
                  by_cases same : other = star
                  · rw [same, resolved] at found
                    cases found
                  · refine gathering.past other member (fun inStars => ?_) target found
                    exact (List.mem_cons.mp inStars).elim same past
              | some target =>
                  have starred : StarTarget graph mod target :=
                    ⟨star, among star List.mem_cons_self, resolved⟩
                  obtain ⟨starNames, set₂, called, gathered⟩ := ih target
                    (Nat.lt_of_le_of_lt (unvisited_length_le gathering.subset) fewer)
                  rw [starTurn_some resolved called]
                  refine ihStars rest ⟨List.Subset.trans gathering.subset gathered.subset, ?_, ?_, ?_,
                    ?_, ?_⟩
                  · intro b member fresh target' starred'
                    by_cases old : b ∈ set₁
                    · exact gathered.subset (gathering.closed b old fresh target' starred')
                    · exact gathered.closed b member old target' starred'
                  · exact fun n owns => mem_mergeNames.mpr (.inl (gathering.own n owns))
                  · intro b member fresh n other owns
                    by_cases old : b ∈ set₁
                    · exact mem_mergeNames.mpr (.inl (gathering.owned b old fresh n other owns))
                    · exact mem_mergeNames.mpr (.inr ⟨gathered.owned b member old n other owns, other⟩)
                  · intro n member
                    rcases mem_mergeNames.mp member with before | ⟨new, other⟩
                    · exact gathering.sound n before
                    · obtain ⟨k, within⟩ := gathered.sound n new
                      exact ⟨k + 1, .inr ⟨other, target, starred, within⟩⟩
                  · intro other member past target' found
                    by_cases same : other = star
                    · rw [same, resolved] at found
                      exact Option.some.inj found ▸ gathered.member
                    · refine gathered.subset (gathering.past other member (fun inStars => ?_) target'
                        found)
                      exact (List.mem_cons.mp inStars).elim same past
        have fresh (b : M) (member : b ∈ set ++ [mod]) (new : b ∉ set) : b = mod :=
          List.mem_singleton.mp ((List.mem_append.mp member).resolve_left new)
        obtain ⟨names, set', looped, gathering⟩ := loop (graph mod).starExports
          (fun _ member => member)
          ⟨List.Subset.refl _, fun b member out => absurd member out,
            fun n owns => List.mem_map.mpr owns,
            fun b member out => absurd member out,
            fun n member => ⟨0, List.mem_map.mp member⟩,
            fun star member out => absurd member out⟩
        have inSet : mod ∈ set' :=
          gathering.subset (List.mem_append_right _ (List.mem_singleton.mpr rfl))
        refine ⟨names, set', looped, fun b member => gathering.subset (List.mem_append_left _ member),
          inSet, ?_, fun _ => gathering.own, ?_, gathering.sound⟩
        · intro b member new target starred
          by_cases known : b ∈ set ++ [mod]
          · obtain rfl := fresh b known new
            obtain ⟨star, inStars, resolved⟩ := starred
            exact gathering.past star inStars List.not_mem_nil target resolved
          · exact gathering.closed b member known target starred
        · intro b member new n other owns
          by_cases known : b ∈ set ++ [mod]
          · obtain rfl := fresh b known new
            exact gathering.own n owns
          · exact gathering.owned b member known n other owns

/-- GetExportedNames of the specification has the names that are exported over star exports. -/
theorem specGetExportedNames_iff [Fintype M] (graph : M → ModuleDef M) (mod : M)
    : ∃ fuel names set, specGetExportedNames graph fuel mod [] = some (names, set)
      ∧ ∀ n, n ∈ names ↔ ∃ k, WithinStars graph k mod n := by
  have all (m : M) : m ∈ Finset.univ.toList := Finset.mem_toList.mpr (Finset.mem_univ m)
  obtain ⟨names, set, returned, gathered⟩ :=
    specGetExportedNames_gathers all mod (Nat.lt_succ_self _)
  refine ⟨_, names, set, returned, fun n => ⟨gathered.sound n, ?_⟩⟩
  have named {k : Nat} {m : M} (member : m ∈ set) (other : n ≠ "default")
      (within : WithinStars graph k m n)
      : n ∈ names := by
    induction k generalizing m with
    | zero => exact gathered.owned m member List.not_mem_nil n other within
    | succ k ih =>
        rcases within with owns | ⟨-, target, star, within⟩
        · exact gathered.owned m member List.not_mem_nil n other owns
        · exact ih (gathered.closed m member List.not_mem_nil target star) within
  rintro ⟨k, within⟩
  by_cases owns : Owns graph mod n
  · exact gathered.own List.not_mem_nil n owns
  · cases k with
    | zero => exact absurd within owns
    | succ k => exact named gathered.member (within.resolve_left owns).1 within

end Boomkat.Correctness
