import Boomkat.Foundation.Replay
import Boomkat.Correctness.ModuleRunning

/-! Runs of the module loader: what the calls report of modules that have failed and of those that
require them, and how often environments are created.
-/

namespace Boomkat.Correctness

open Foundation Modules

variable {N S E : Type*} {host : Host N S E} {l l' : Loader N S E} {loops rest : List Frame}
  {frame : Frame} {m d : Nat} {good once : Prop}

theorem upholds_new : Upholds host (Loader.new : Loader N S E) := by
  have empty {α : Type} {P : α → Prop} : ∀ a ∈ ([] : List α), P a :=
    fun _ member => absurd member List.not_mem_nil
  refine ⟨[], [], rfl, ⟨empty, empty, ?_, ?_, ?_⟩, LoopsFit.nil, empty, empty, ?_⟩
  · rintro m d ⟨mod, here, -⟩
    cases here
  · exact fun m mod here => by cases here
  · exact fun m mod here => by cases here
  · exact fun m d member => absurd member List.not_mem_nil

/-- A frame of an evaluation is no loop. -/
theorem LoaderFits.topRuns (fits : LoaderFits host l loops rest) (run : frame.isRun)
    {frames : List Frame} (top : frame :: frames = loops ++ rest)
    : loops = [] := by
  cases loops with
  | nil => rfl
  | cons other loops =>
      obtain ⟨rfl, -⟩ := List.cons_eq_cons.mp top
      have held := fits.loops.held frame List.mem_cons_self
      cases frame with
      | resolve k i => cases run
      | link k i => cases run
      | execute k i asyncDep => exact held.elim
      | body k deferred => exact held.elim

/-- A loop is above the evaluations. -/
theorem LoaderFits.topLoops (fits : LoaderFits host l loops rest) (loop : frame.isRun = false)
    {frames : List Frame} (top : frame :: frames = loops ++ rest)
    : ∃ loops', loops = frame :: loops' ∧ frames = loops' ++ rest := by
  cases loops with
  | nil =>
      have member : frame ∈ rest := by
        rw [← List.nil_append rest, ← top]
        exact List.mem_cons_self
      have run := (fits.runs.frames frame member).1
      rw [loop] at run
      cases run
  | cons other loops =>
      obtain ⟨rfl, rfl⟩ := List.cons_eq_cons.mp top
      exact ⟨loops, rfl, rfl⟩

/-- No loop is in progress where code of scripts runs. -/
theorem LoaderFits.noLoop (fits : LoaderFits host l loops rest) (frames : l.frames = loops ++ rest)
    (atCode : l.atCode)
    : loops = [] := by
  rw [Loader.atCode] at atCode
  split at atCode
  · rename_i none
    rw [none] at frames
    exact (List.append_eq_nil_iff.mp frames.symm).1
  · rename_i top
    exact fits.topRuns rfl (top ▸ frames)
  · cases atCode

/-- Where code of scripts runs, a call is an outermost one. -/
theorem outermost_atCode (kind : Frame → Bool) (atCode : l.atCode)
    (other : ∀ m deferred, kind (.body m deferred) = false)
    : Outermost kind l.frames := by
  rw [Loader.atCode] at atCode
  intro frame top
  split at atCode
  · rename_i none
    rw [none] at top
    cases top
  · rename_i m deferred below here
    rw [here] at top
    obtain rfl := Option.some.inj top
    exact other m deferred
  · cases atCode

theorem Goes.holds_iff (goes : Goes host l l' good once) (distinct : l.created.Nodup)
    : Reports host l l' ∧ l'.created.Nodup ↔ good ∧ once :=
  and_congr goes.reports (goes.created distinct)

-----------------------------------------------------------------------------------------
-- Steps
-----------------------------------------------------------------------------------------

variable [DecidableEq N]

/-- Where the loop of an outermost call is over, its module has not failed and requires none that has.
The loop of `link_module` links no module again whose evaluation threw.
-/
def NextSound (host : Host N S E) (l : Loader N S E) (memory : Memory) (depth : Nat)
    : List Frame → Prop
  | .resolve m i :: rest => ∀ mod, l.cache[m]? = some mod → mod.reqModules[i]? = none →
      Outermost Frame.isResolve rest → Unfailed l m
  | .link m i :: rest =>
      (∀ mod, l.cache[m]? = some mod → mod.reqModules[i]? = none →
        Outermost Frame.isLink rest → Validates host l depth m mod → Upright l m)
      ∧ ∀ mod, l.cache[m]? = some mod → ∀ d, mod.pointers[i]? = some (some d) →
        LinksOnce l memory d
  | .execute m i asyncDep :: rest => ∀ mod, l.cache[m]? = some mod → mod.reqModules[i]? = none →
      Outermost Frame.isExecute rest → asyncDep.isSome ∨ mod.func = false → Unfailed l m
  | .body _ _ :: _ | [] => True

/-- The same where the body of its module ends without an error. -/
def EndsSound (l : Loader N S E) (bodyEnd : BodyEnd E) : List Frame → Prop
  | .body m deferred :: rest => deferred = false → Outermost Frame.isExecute rest →
      (∀ e, bodyEnd ≠ .thrown e) → Unfailed l m
  | .resolve _ _ :: _ | .link _ _ :: _ | .execute _ _ _ :: _ | [] => True

/-- The step does not take a module for good that has failed or requires one that has. An outermost
call does so where it answers at once, since the module is in the cache or by its status, and where its
loop or its body is over. Nor is a module linked again whose evaluation threw.
-/
def Untroubled (host : Host N S E) (l : Loader N S E) : LoadEvent N S E → Prop
  | .resolve base specifier wantsJson memory => ResolvesSound host l base specifier wantsJson memory
  | .link m memory => LinksSound l m ∧ LinksOnce l memory m
  | .execute m _ => ExecutesSound l m
  | .next memory depth => NextSound host l memory depth l.frames
  | .endBody bodyEnd => EndsSound l bodyEnd l.frames
  | .pendingFinish _ _ | .deferredContinue _ _ => True

variable [Inhabited E]

/-- A step reports only what is so, and no environment has been created twice after it. -/
def StepHolds (host : Host N S E) (l : Loader N S E) (event : LoadEvent N S E) : Prop :=
  ∀ l', l.step host event = some l' → Reports host l l' ∧ l'.created.Nodup

/-- What each step comes to. -/
theorem Upholds.step {event : LoadEvent N S E} (upholds : Upholds host l)
    (taken : l.step host event = some l')
    : ∃ good once, Goes host l l' good once ∧ (good ∧ once ↔ Untroubled host l event) := by
  obtain ⟨loops, rest, frames, fits⟩ := upholds
  cases event with
  | resolve base specifier wantsJson memory =>
      obtain ⟨atCode, taken⟩ := Option.ite_none_right_eq_some.mp taken
      obtain rfl := fits.noLoop frames atCode
      obtain rfl := Option.some.inj taken
      have outer := outermost_atCode Frame.isResolve atCode fun _ _ => rfl
      have ready : LoaderFits host { l with error := none } [] rest :=
        ⟨fits.cache, fits.loops, fits.runs⟩
      refine ⟨_, _, ready.callResolve (fun _ member => absurd member List.not_mem_nil) frames rfl rfl, ?_⟩
      rw [and_true]
      exact imp_iff_right outer
  | link m memory =>
      obtain ⟨atCode, taken⟩ := Option.ite_none_right_eq_some.mp taken
      obtain rfl := fits.noLoop frames atCode
      have outer := outermost_atCode Frame.isLink atCode fun _ _ => rfl
      have ready : LoaderFits host { l with error := none } [] rest :=
        ⟨fits.cache, fits.loops, fits.runs⟩
      refine ⟨_, _, ready.callLink (fun _ member => absurd member List.not_mem_nil) frames
        (fun _ _ _ _ member => absurd member List.not_mem_nil) rfl rfl taken, ?_⟩
      exact and_congr_left fun _ => imp_iff_right outer
  | execute m memory =>
      obtain ⟨atCode, taken⟩ := Option.ite_none_right_eq_some.mp taken
      obtain rfl := fits.noLoop frames atCode
      have outer := outermost_atCode Frame.isExecute atCode fun _ _ => rfl
      have below : rest = l.frames := frames.symm
      subst below
      refine ⟨_, _, Drifts.callExecute ((Drifts.refl fits).park none) taken, ?_⟩
      rw [and_true]
      exact imp_iff_right outer
  | next memory depth =>
      cases top : l.frames with
      | nil => simp [Loader.step, top] at taken
      | cons frame below =>
          rw [top] at frames
          cases frame with
          | resolve m i =>
              obtain ⟨loops, rfl, rfl⟩ := fits.topLoops rfl frames
              simp only [Loader.step, top] at taken
              refine ⟨_, _, fits.nextResolve top taken, ?_⟩
              simp only [Untroubled, top, NextSound, and_true]
          | link m i =>
              obtain ⟨loops, rfl, rfl⟩ := fits.topLoops rfl frames
              simp only [Loader.step, top] at taken
              refine ⟨_, _, fits.nextLink top taken, ?_⟩
              simp only [Untroubled, top, NextSound]
          | execute m i asyncDep =>
              obtain rfl := fits.topRuns rfl frames
              obtain rfl := frames
              simp only [Loader.step, top] at taken
              refine ⟨_, _, Drifts.nextExecute fits top taken, ?_⟩
              simp only [Untroubled, top, NextSound, and_true]
          | body m deferred => simp [Loader.step, top] at taken
  | endBody bodyEnd =>
      cases top : l.frames with
      | nil => simp [Loader.step, top] at taken
      | cons frame below =>
          rw [top] at frames
          cases frame with
          | body m deferred =>
              obtain rfl := fits.topRuns rfl frames
              obtain rfl := frames
              simp only [Loader.step, top] at taken
              obtain rfl := Option.some.inj taken
              refine ⟨_, _, Drifts.endBody fits, ?_⟩
              simp only [Untroubled, top, EndsSound, and_true]
          | resolve m i => simp [Loader.step, top] at taken
          | link m i => simp [Loader.step, top] at taken
          | execute m i asyncDep => simp [Loader.step, top] at taken
  | pendingFinish m reason =>
      obtain ⟨⟨atCode, member⟩, taken⟩ := Option.ite_none_right_eq_some.mp taken
      obtain rfl := fits.noLoop frames atCode
      have drifts := (Drifts.refl fits).react l.error (l.pendingFinish.erase m) l.deferredContinue
        (fun _ => .inl ∘ List.mem_of_mem_erase) fun _ _ => .inl
      have below : rest = l.frames := frames.symm
      subst below
      exact ⟨_, _, Drifts.pendingFinishRun drifts (fits.runs.finishing m member) taken,
        iff_of_true ⟨trivial, trivial⟩ trivial⟩
  | deferredContinue m d =>
      obtain ⟨⟨atCode, member⟩, taken⟩ := Option.ite_none_right_eq_some.mp taken
      obtain rfl := fits.noLoop frames atCode
      have drifts := (Drifts.refl fits).react l.error l.pendingFinish
        (l.deferredContinue.erase (m, d)) (fun _ => .inl) fun _ _ => .inl ∘ List.mem_of_mem_erase
      have below : rest = l.frames := frames.symm
      subst below
      exact ⟨_, _, Drifts.deferredContinueRun drifts (fits.runs.continuing m d member) taken,
        iff_of_true ⟨trivial, trivial⟩ trivial⟩

/-- A step keeps what holds of the loader, and its report and the environments are as they should be
exactly if it takes no module for good that is not.
-/
theorem Upholds.stepHolds_iff {event : LoadEvent N S E} (upholds : Upholds host l)
    (distinct : l.created.Nodup) (taken : l.step host event = some l')
    : Upholds host l' ∧ (StepHolds host l event ↔ Untroubled host l event) := by
  obtain ⟨good, once, goes, same⟩ := upholds.step taken
  refine ⟨goes.upholds, ?_⟩
  rw [← same, ← goes.holds_iff distinct]
  simp [StepHolds, taken]

section Decisions

variable {N S E : Type} {host : Host N S E} {l : Loader N S E} {m : Nat} {memory : Memory}

/-- The modules that a module requires. -/
def requiredBy (cache : List (ModuleRecord N S E)) (m : Nat) : List Nat :=
  ((cache[m]?).elim [] ModuleRecord.pointers).filterMap id

theorem requires_iff_mem {cache : List (ModuleRecord N S E)} {d : Nat}
    : Requires cache m d ↔ d ∈ requiredBy cache m := by
  simp only [Requires, requiredBy, List.mem_filterMap, id_eq, exists_eq_right]
  cases cache[m]? <;> simp

/-- Only modules are reached that are required. -/
def throughoutRequires {P : Nat → Prop} [DecidablePred P] (cache : List (ModuleRecord N S E)) (m : Nat)
    : Decidable (Throughout (Requires cache) P m) :=
  Throughout.decidable (m :: (List.range cache.length).flatMap (requiredBy cache))
    (fun _ _ => requires_iff_mem) List.mem_cons_self fun b c required => by
      have inside : b < cache.length := by
        obtain ⟨mod, here, -⟩ := required
        exact (List.getElem?_eq_some_iff.mp here).1
      exact List.mem_cons_of_mem _ (List.mem_flatMap.mpr
        ⟨b, List.mem_range.mpr inside, requires_iff_mem.mp required⟩)

variable [DecidableEq N]

instance : Decidable (Marred l m) :=
  inferInstanceAs (Decidable (m ∈ l.failed ∨ ∃ mod ∈ l.cache[m]?, mod.moduleName ∈ l.refused))

instance : Decidable (Unfailed l m) := throughoutRequires l.cache m

instance : Decidable (Upright l m) := throughoutRequires l.cache m

instance {kind : Frame → Bool} {frames : List Frame} : Decidable (Outermost kind frames) :=
  inferInstanceAs (Decidable (∀ frame, frames.head? = some frame → kind frame = false))

instance {depth : Nat} {mod : ModuleRecord N S E} : Decidable (Validates host l depth m mod) :=
  inferInstanceAs (Decidable (_ ∧ _))

instance {name : N} : Decidable (LoadsJson host memory name) :=
  inferInstanceAs (Decidable (_ ∧ _))

instance {base : Option N} {specifier : S} {wantsJson : Bool}
    : Decidable (ResolvesSound host l base specifier wantsJson memory) :=
  inferInstanceAs (Decidable (∀ name, host.resolveName base specifier = some name → _))

instance : Decidable (LinksSound l m) :=
  inferInstanceAs (Decidable (∀ mod, l.cache[m]? = some mod → _))

instance : Decidable (LinksOnce l memory m) :=
  inferInstanceAs (Decidable (∀ mod, l.cache[m]? = some mod → _))

instance : Decidable (ExecutesSound l m) :=
  inferInstanceAs (Decidable (∀ mod, l.cache[m]? = some mod → _))

instance {i : Nat} {mod : ModuleRecord N S E}
    : Decidable (∀ d, mod.pointers[i]? = some (some d) → LinksOnce l memory d) :=
  decidable_of_iff (∀ d, (mod.pointers[i]?).join = some d → LinksOnce l memory d)
    (by simp only [Option.join_eq_some_iff])

instance {depth : Nat} : ∀ frames, Decidable (NextSound host l memory depth frames)
  | .resolve m _ :: _ => inferInstanceAs (Decidable (∀ mod, l.cache[m]? = some mod → _))
  | .link _ _ :: _ => inferInstanceAs (Decidable (_ ∧ _))
  | .execute m _ _ :: _ => inferInstanceAs (Decidable (∀ mod, l.cache[m]? = some mod → _))
  | .body _ _ :: _ | [] => isTrue trivial

instance : ∀ bodyEnd frames, Decidable (EndsSound l bodyEnd frames)
  | .thrown e, .body _ _ :: _ => isTrue fun _ _ ends => absurd rfl (ends e)
  | .done, .body m deferred :: rest | .suspended, .body m deferred :: rest =>
      decidable_of_iff (deferred = false → Outermost Frame.isExecute rest → Unfailed l m)
        (by simp [EndsSound])
  | _, .resolve _ _ :: _ | _, .link _ _ :: _ | _, .execute _ _ _ :: _ | _, [] => isTrue trivial

instance : ∀ event, Decidable (Untroubled host l event)
  | .resolve base specifier wantsJson memory =>
      inferInstanceAs (Decidable (ResolvesSound host l base specifier wantsJson memory))
  | .link _ _ => inferInstanceAs (Decidable (_ ∧ _))
  | .execute m _ => inferInstanceAs (Decidable (ExecutesSound l m))
  | .next memory depth => inferInstanceAs (Decidable (NextSound host l memory depth l.frames))
  | .endBody bodyEnd => inferInstanceAs (Decidable (EndsSound l bodyEnd l.frames))
  | .pendingFinish _ _ | .deferredContinue _ _ => isTrue trivial

end Decisions

/-- A host with a module of each name but 4. That of name 0 does not compile, that of name 1 exports a
name from a module that it does not require, and that of name 3 imports it.
-/
def smallHost : Host Nat Nat Unit where
  resolveName _ specifier := some specifier
  readSource name := name != 4
  parsesJson _ := true
  compile name := (name != 0, match name with
    | 1 => ⟨[], [⟨"x", "x", true, 0⟩], [], []⟩
    | 3 => ⟨[⟨"x", 0, false⟩], [], [], [(1, false)]⟩
    | _ => ⟨[], [], [], []⟩)
  isTs _ := false
  syntaxError _ := ()

def enough : Memory := ⟨true, true⟩

/-- A module cannot be read, also the second time. Of two that are resolved, the one that is required is
linked, which fails, then the one that requires it, which are both evaluated, and again when the body
has thrown. One that is not linked is evaluated too.
-/
def failingRun : List (LoadEvent Nat Nat Unit) :=
  [.resolve none 4 false enough, .resolve none 4 false enough,
    .resolve none 3 false enough, .next enough 9, .next enough 9, .next enough 9,
    .link 1 enough, .next enough 9, .link 0 enough, .next enough 9, .next enough 9,
    .execute 0 enough, .next enough 9, .next enough 9, .endBody (.thrown ()),
    .execute 0 enough, .execute 1 enough,
    .resolve none 2 false enough, .next enough 9, .execute 2 enough, .next enough 9, .endBody .done]

end Boomkat.Correctness
