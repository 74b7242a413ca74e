import Boomkat.Correctness.ModuleLinking

/-! The steps of evaluation: what they keep, and of which modules they report that they are evaluated.
-/

namespace Boomkat.Correctness

open Foundation Modules

variable {N S E : Type*} {host : Host N S E} {l₀ l l' : Loader N S E} {frames rest : List Frame}
  {frame : Frame} {m d i : Nat} {mod mod' : ModuleRecord N S E}
  {change : ModuleRecord N S E → ModuleRecord N S E} {memory : Memory}

-----------------------------------------------------------------------------------------
-- Records
-----------------------------------------------------------------------------------------

/-- What an evaluation may make of a record. -/
structure Evolves (mod mod' : ModuleRecord N S E) : Prop where
  outline : outline mod' = outline mod
  env : mod'.hasEnv = mod.hasEnv
  json : mod'.isJson = mod.isJson
  validated : mod'.validated = mod.validated
  status : mod'.status = mod.status ∨ mod'.status.isPast
  errored : mod'.status = .errored → mod.status = .errored ∨ mod.hasEnv

theorem Evolves.refl (mod : ModuleRecord N S E) : Evolves mod mod := ⟨rfl, rfl, rfl, rfl, .inl rfl, .inl⟩

/-- A status that is not past was there before. -/
theorem Evolves.unchanged {status : ModuleStatus} (evolves : Evolves mod mod')
    (early : status.isPast = false) (here : mod'.status = status)
    : mod.status = status := by
  rcases evolves.status with same | past
  · rw [← same, here]
  · rw [here, early] at past
    cases past

theorem Evolves.turns (evolves : Evolves mod mod') (cache : List (ModuleRecord N S E))
    : Turns cache mod mod' := by
  refine ⟨fun d member => .inl ?_, fun entered => ?_, fun env => by rw [evolves.env, env]⟩
  · rwa [show mod'.pointers = mod.pointers from (Prod.mk.inj evolves.outline).2] at member
  · rcases evolves.status with same | past
    · rwa [same]
    · exact .inr past

theorem RecordFits.evolves {created : List Nat} (fits : RecordFits created m mod)
    (evolves : Evolves mod mod')
    : RecordFits created m mod' := by
  refine ⟨fun unloaded => fits.status (evolves.unchanged rfl unloaded), fun loading => ?_,
    fun early => ?_, fun errored => ?_, ?_⟩
  · rw [evolves.validated]
    exact fits.loading (evolves.unchanged rfl loading)
  · rw [evolves.json, evolves.env]
    exact fits.early (early.imp (evolves.unchanged rfl) (evolves.unchanged rfl))
  · rw [evolves.env]
    exact (evolves.errored errored).elim fits.errored id
  · rw [evolves.env]
    exact fits.env

/-- What has not failed is loaded where no call is in progress. -/
theorem SoundFits.evolves {cache cache' : List (ModuleRecord N S E)}
    (fits : SoundFits host cache [] m mod) (evolves : Evolves mod mod') (onward : Onward cache cache')
    : SoundFits host cache' [] m mod' := by
  have loaded : mod.status ≠ .loading := fun loading =>
    absurd (fits.busy (.inl loading)) List.not_mem_nil
  obtain ⟨name, pointers⟩ := Prod.mk.inj evolves.outline
  refine ⟨fun here => ?_, fun _ => ?_, fun _ => ?_, fun json => ?_, fun validated => ?_⟩
  · exact fits.busy (here.imp (evolves.unchanged rfl) (evolves.unchanged rfl))
  · rw [Compiles, evolves.json, name]
    exact fits.compiles loaded
  · rw [show mod'.pointers = mod.pointers from pointers]
    exact fits.resolved loaded
  · rw [evolves.validated]
    exact fits.json (evolves.json ▸ json)
  · obtain ⟨env, below⟩ := fits.validated (evolves.validated ▸ validated)
    rw [evolves.env, show mod'.pointers = mod.pointers from pointers]
    exact ⟨env, fun d member => onward.entered d (below d member)⟩

-----------------------------------------------------------------------------------------
-- Evaluations
-----------------------------------------------------------------------------------------

/-- An evaluation has come from one state of the loader to another without a report, and goes on with
the frames.
-/
structure Drifts (host : Host N S E) (l₀ l : Loader N S E) (frames : List Frame) : Prop where
  fits : LoaderFits host l [] frames
  outlines : SameOutlines l₀ l
  results : l.results = l₀.results
  created : l₀.created.Nodup → l.created.Nodup

theorem Drifts.refl (fits : LoaderFits host l [] frames) : Drifts host l l frames :=
  ⟨fits, SameOutlines.refl l, rfl, id⟩

theorem Drifts.update (drifts : Drifts host l₀ l frames)
    (evolves : ∀ mod, l.cache[m]? = some mod → Evolves mod (change mod))
    : Drifts host l₀ (l.update m change) frames := by
  refine ⟨?_, drifts.outlines.trans (SameOutlines.update fun mod here => (evolves mod here).outline),
    drifts.results, drifts.created⟩
  cases here : l.cache[m]? with
  | none =>
      have same : l.cache.modify m change = l.cache := by
        rw [List.modify_eq_set_getElem?, here]
        rfl
      rw [Loader.update, same]
      exact drifts.fits
  | some mod =>
      have evolves := evolves mod here
      have turns := evolves.turns l.cache
      have fits := drifts.fits
      have cache := fits.cache.modify [] here turns [] (fun _ member => absurd member List.not_mem_nil)
        (by rw [List.append_nil]; exact (fits.cache.records m mod here).evolves evolves)
        (fun sound => (fits.cache.sound m mod here sound).evolves evolves (turns.onward here))
        fun _ member _ => member
      rw [List.append_nil] at cache
      exact ⟨cache, LoopsFit.nil, fits.runs.onward (turns.onward here)⟩

/-- A module that is evaluated without an environment gets one. -/
theorem Drifts.createEnv (drifts : Drifts host l₀ l frames) (here : l.cache[m]? = some mod)
    (past : mod.status.isPast) (bare : mod.hasEnv = false)
    : Drifts host l₀ (l.createEnv m) frames := by
  let change (mod : ModuleRecord N S E) : ModuleRecord N S E := { mod with hasEnv := true }
  have turns : Turns l.cache mod (change mod) := ⟨fun _ => .inl, id, fun _ => rfl⟩
  have onward := turns.onward here
  have fits := drifts.fits
  have record := fits.cache.records m mod here
  have early {status : ModuleStatus} (notPast : status.isPast = false) : mod.status ≠ status := by
    intro same
    rw [same, notPast] at past
    cases past
  have cache := fits.cache.modify [] here turns [m] (fun _ => List.mem_singleton.mp)
    ⟨record.status, fun loading => absurd loading (early rfl),
      fun either => either.elim (fun loading => absurd loading (early rfl))
        fun loaded => absurd loaded (early rfl),
      fun _ => rfl, by simp [change]⟩
    (fun sound => by
      have old := fits.cache.sound m mod here sound
      exact ⟨old.busy, old.compiles, old.resolved, old.json, fun validated =>
        ⟨rfl, fun d member => onward.entered d ((old.validated validated).2 d member)⟩⟩)
    fun _ member _ => member
  have outlined : SameOutlines l (l.update m change) := SameOutlines.update fun _ _ => rfl
  refine ⟨⟨cache, LoopsFit.nil, fits.runs.onward onward⟩,
    drifts.outlines.trans ⟨outlined.failed, outlined.refused, outlined.outlines⟩, drifts.results,
    fun distinct => ?_⟩
  have new : m ∉ l.created := by
    rw [record.env, bare]
    exact Bool.false_ne_true
  show (l.created ++ [m]).Nodup
  rw [← List.concat_eq_append, List.nodup_concat]
  exact ⟨new, drifts.created distinct⟩

theorem Drifts.setStatus {status : ModuleStatus} (drifts : Drifts host l₀ l frames)
    (past : status.isPast) (other : status ≠ .errored)
    : Drifts host l₀ (l.setStatus m status) frames :=
  drifts.update fun _ _ => ⟨rfl, rfl, rfl, rfl, .inr past, fun errored => absurd errored other⟩

/-- The promise of a module's evaluation is settled. -/
theorem settleEvalPromise_evolves {state : PromiseState E} (evolves : Evolves mod mod')
    : Evolves mod (settleEvalPromise mod' state) := by
  rw [settleEvalPromise]
  split
  · exact ⟨evolves.outline, evolves.env, evolves.json, evolves.validated, evolves.status,
      evolves.errored⟩
  · exact evolves

theorem Drifts.evaluated (drifts : Drifts host l₀ l frames) : Drifts host l₀ (l.evaluated m) frames :=
  drifts.update fun _ _ => settleEvalPromise_evolves
    ⟨rfl, rfl, rfl, rfl, .inr rfl, fun errored => by cases errored⟩

theorem Drifts.ensureEvalPromise (drifts : Drifts host l₀ l frames)
    : Drifts host l₀ (l.ensureEvalPromise m) frames :=
  drifts.update fun _ _ => ⟨rfl, rfl, rfl, rfl, .inl rfl, .inl⟩

theorem Drifts.recordEvalError [Inhabited E] (drifts : Drifts host l₀ l frames)
    (env : HasEnv l.cache m)
    : Drifts host l₀ (l.recordEvalError m) frames := by
  obtain ⟨mod, here, env⟩ := env
  refine drifts.update fun other found => settleEvalPromise_evolves
    ⟨rfl, rfl, rfl, rfl, .inr rfl, fun _ => .inr ?_⟩
  obtain rfl : mod = other := Option.some.inj (here.symm.trans found)
  exact env

/-- The frames change. -/
theorem Drifts.goOn (drifts : Drifts host l₀ l rest)
    (runs : ∀ frame ∈ frames, frame.isRun ∧ HasEnv l.cache frame.mod)
    : Drifts host l₀ l frames :=
  ⟨⟨drifts.fits.cache, drifts.fits.loops, runs, drifts.fits.runs.finishing,
    drifts.fits.runs.continuing⟩, drifts.outlines, drifts.results, drifts.created⟩

theorem Drifts.tail (drifts : Drifts host l₀ l (frame :: frames)) : Drifts host l₀ l frames :=
  drifts.goOn fun other member => drifts.fits.runs.frames other (List.mem_cons_of_mem _ member)

theorem Drifts.push (drifts : Drifts host l₀ l frames) (frame : Frame) (run : frame.isRun)
    (env : HasEnv l.cache frame.mod)
    : Drifts host l₀ l (frame :: frames) := by
  refine drifts.goOn fun other member => ?_
  rcases List.mem_cons.mp member with rfl | member
  · exact ⟨run, env⟩
  · exact drifts.fits.runs.frames other member

/-- Reactions are attached for modules with environments. The error channel does not matter. -/
theorem Drifts.react (drifts : Drifts host l₀ l frames) (error : Option E)
    (pendingFinish : List Nat) (deferredContinue : List (Nat × Nat))
    (finishing : ∀ k ∈ pendingFinish, k ∈ l.pendingFinish ∨ HasEnv l.cache k)
    (continuing : ∀ k d, (k, d) ∈ deferredContinue → (k, d) ∈ l.deferredContinue ∨ HasEnv l.cache k)
    : Drifts host l₀ { l with
        error := error, pendingFinish := pendingFinish, deferredContinue := deferredContinue }
        frames := by
  have runs := drifts.fits.runs
  refine ⟨⟨drifts.fits.cache, drifts.fits.loops, runs.frames, fun k member => ?_, fun k d member => ?_⟩,
    ⟨drifts.outlines.failed, drifts.outlines.refused, drifts.outlines.outlines⟩, drifts.results,
    drifts.created⟩
  · exact (finishing k member).elim (runs.finishing k) id
  · exact (continuing k d member).elim (runs.continuing k d) id

theorem Drifts.park (drifts : Drifts host l₀ l frames) (error : Option E)
    : Drifts host l₀ { l with error := error } frames :=
  drifts.react error _ _ (fun _ => .inl) fun _ _ => .inl

/-- A step that reports nothing. -/
theorem Drifts.goes {bodies : List Nat} (drifts : Drifts host l₀ l frames)
    : Goes host l₀ { l with frames := frames, bodies := bodies } True True :=
  ⟨⟨[], frames, rfl, drifts.fits.cache, drifts.fits.loops, drifts.fits.runs⟩,
    Reports.silent drifts.results, fun distinct => iff_of_true (drifts.created distinct) trivial⟩

/-- A step that reports the end of an evaluation. -/
theorem Drifts.logged {ok : Bool} (drifts : Drifts host l₀ l frames)
    : Goes host l₀ ({ l with frames := frames }.log (.executed m ok)) (ok → Unfailed l₀ m) True := by
  refine ⟨⟨[], frames, rfl, drifts.fits.cache, drifts.fits.loops, drifts.fits.runs⟩, ?_,
    fun distinct => iff_of_true (drifts.created distinct) trivial⟩
  rw [Reports.logged (congrArg (· ++ _) drifts.results)]
  cases ok with
  | true =>
      rw [imp_iff_right rfl, drifts.outlines.unfailed_iff]
      rfl
  | false => exact iff_of_true trivial fun ok => by cases ok

/-- What an outermost call takes for evaluated, or is JSON, has not failed and requires none that
has.
-/
def ExecutesSound (l : Loader N S E) (m : Nat) : Prop :=
  ∀ mod, l.cache[m]? = some mod →
    mod.status = .evaluated ∨ mod.status = .evaluating ∨ mod.isJson ∧ mod.status ≠ .errored →
    Unfailed l m

/-- The record's status answers an outermost call, or its kind does. -/
def Answered (mod : ModuleRecord N S E) : Prop :=
  mod.status = .evaluated ∨ mod.status = .evaluating ∨ mod.isJson ∧ mod.status ≠ .errored

theorem executesSound_iff (here : l.cache[m]? = some mod)
    : ExecutesSound l m ↔ (Answered mod → Unfailed l m) := by
  simp [ExecutesSound, Answered, here]

variable [Inhabited E]

/-- The evaluation of a module fails with all the loops that wait for it, by induction over them. -/
theorem Drifts.returnFailed (drifts : Drifts host l₀ l frames)
    : Goes host l₀ (Loader.returnExecuted m false frames l) True True := by
  have ended : Goes host l₀ ({ l with frames := frames }.log (.executed m false)) True True :=
    drifts.logged.congr (iff_of_true (fun ok => by cases ok) trivial) Iff.rfl
  induction frames generalizing l m with
  | nil => exact ended
  | cons frame frames ih =>
      cases frame with
      | execute parent i asyncDep =>
          have failed := drifts.tail.recordEvalError (drifts.fits.runs.frames _ List.mem_cons_self).2
          exact ih failed (failed.logged.congr (iff_of_true (fun ok => by cases ok) trivial) Iff.rfl)
      | resolve parent i => exact ended
      | link parent i => exact ended
      | body parent deferred => exact ended

/-- A module is evaluated, or waits, which is returned to the loop that waits for it or to the
outermost call.
-/
theorem Drifts.returnExecuted (drifts : Drifts host l₀ l frames)
    : Goes host l₀ (Loader.returnExecuted m true frames l)
        (Outermost Frame.isExecute frames → Unfailed l₀ m) True := by
  have ended (outer : Outermost Frame.isExecute frames)
      : Goes host l₀ ({ l with frames := frames }.log (.executed m true))
        (Outermost Frame.isExecute frames → Unfailed l₀ m) True :=
    drifts.logged.congr (by rw [imp_iff_right rfl, imp_iff_right outer]) Iff.rfl
  cases frames with
  | nil => exact ended fun frame top => by cases top
  | cons frame frames =>
      cases frame with
      | execute parent i asyncDep =>
          have below := (drifts.fits.runs.frames _ List.mem_cons_self).2
          refine Goes.always ?_ (fun outer => by cases outer _ rfl) trivial
          exact (drifts.tail.push (.execute parent (i + 1) _) rfl below).goes
      | resolve parent i => exact ended fun frame top => by cases top; rfl
      | link parent i => exact ended fun frame top => by cases top; rfl
      | body parent deferred => exact ended fun frame top => by cases top; rfl

/-- The evaluation of a module that was not begun: a JSON module is done at once, any other one gets
an environment, if it has none, and a loop over what it requires.
-/
theorem Drifts.startExecute (drifts : Drifts host l₀ l l.frames) (here : l.cache[m]? = some mod)
    (memory : Memory) (status : mod.status ≠ .evaluated) (status' : mod.status ≠ .evaluating)
    (status'' : mod.status ≠ .errored)
    : Goes host l₀
        (if mod.isJson then Loader.returnExecuted m true l.frames (l.setStatus m .evaluated)
        else
          let l := l.setStatus m .evaluating
          if mod.hasEnv then l.push (.execute m 0 none)
          else if ¬memory.env then Loader.returnExecuted m false l.frames l
          else (l.createEnv m).push (.execute m 0 none))
        (Outermost Frame.isExecute l.frames → Answered mod → Unfailed l₀ m) True := by
  split
  · rename_i json
    have done : Drifts host l₀ (l.setStatus m .evaluated) l.frames :=
      drifts.setStatus rfl (by decide)
    refine done.returnExecuted.congr ?_ Iff.rfl
    rw [imp_iff_right (show Answered mod from .inr (.inr ⟨json, status''⟩))]
  · rename_i json
    have vacuous : Outermost Frame.isExecute l.frames → Answered mod → Unfailed l₀ m := by
      rintro - (evaluated | evaluating | ⟨isJson, -⟩)
      · exact absurd evaluated status
      · exact absurd evaluating status'
      · exact absurd isJson json
    have begun : Drifts host l₀ (l.setStatus m .evaluating) l.frames :=
      drifts.setStatus rfl (by decide)
    have there : (l.setStatus m .evaluating).cache[m]? = some { mod with status := .evaluating } :=
      modify_here here
    refine Goes.always ?_ vacuous trivial
    simp only
    split
    · rename_i env
      exact (begun.push (.execute m 0 none) rfl ⟨_, there, env⟩).goes
    · rename_i bare
      split
      · exact begun.returnFailed
      · have made := begun.createEnv there rfl (Bool.eq_false_iff.mpr bare)
        exact (made.push (.execute m 0 none) rfl ⟨_, modify_here there, rfl⟩).goes

/-- `execute_module` up to its loop. -/
theorem Drifts.callExecute (drifts : Drifts host l₀ l l.frames) (taken : l.callExecute memory m = some l')
    : Goes host l₀ l' (Outermost Frame.isExecute l.frames → ExecutesSound l m) True := by
  obtain ⟨mod, here, rfl⟩ := Option.map_eq_some_iff.mp taken
  rw [executesSound_iff here, ← drifts.outlines.unfailed_iff]
  have answered (answers : Answered mod)
      : Goes host l₀ (Loader.returnExecuted m true l.frames l)
        (Outermost Frame.isExecute l.frames → Answered mod → Unfailed l₀ m) True :=
    drifts.returnExecuted.congr (by rw [imp_iff_right answers]) Iff.rfl
  have starts := drifts.startExecute here memory
  cases status : mod.status with
  | evaluated => exact answered (.inl status)
  | evaluating => exact answered (.inr (.inl status))
  | errored =>
      refine (drifts.park mod.evalError).returnFailed.always (fun _ answers => ?_) trivial
      rcases answers with evaluated | evaluating | ⟨-, other⟩
      · rw [status] at evaluated
        cases evaluated
      · rw [status] at evaluating
        cases evaluating
      · exact absurd status other
  | linked | unloaded | loading | loaded | linking =>
      rw [status] at starts
      exact starts (by decide) (by decide) (by decide)

/-- `module_execute_continue` up to the body. -/
theorem Drifts.continueExecute {deferred : Bool} (drifts : Drifts host l₀ l frames)
    (env : HasEnv l.cache m) (taken : l.continueExecute m deferred frames = some l')
    : Goes host l₀ l' (deferred = false → Outermost Frame.isExecute frames →
        ∀ mod, l.cache[m]? = some mod → mod.func = false → Unfailed l₀ m) True := by
  obtain ⟨mod, here, rfl⟩ := Option.map_eq_some_iff.mp taken
  have only : (∀ mod, l.cache[m]? = some mod → mod.func = false → Unfailed l₀ m)
      ↔ (mod.func = false → Unfailed l₀ m) := by
    simp [here]
  rw [only]
  split
  · rename_i func
    refine Goes.always ?_ (fun _ _ absent => ?_) trivial
    · exact (drifts.push (.body m deferred) rfl env).goes
    · rw [func] at absent
      cases absent
  · rename_i func
    split
    · rename_i later
      refine Goes.always ?_ (fun now => ?_) trivial
      · have settled : Drifts host l₀ (Loader.evaluated { l with frames := frames } m) frames :=
          Drifts.evaluated ⟨⟨drifts.fits.cache, drifts.fits.loops, drifts.fits.runs⟩,
            ⟨drifts.outlines.failed, drifts.outlines.refused, drifts.outlines.outlines⟩,
            drifts.results, drifts.created⟩
        exact settled.goes
      · rw [later] at now
        cases now
    · rename_i now
      refine drifts.evaluated.returnExecuted.congr ?_ Iff.rfl
      rw [imp_iff_right (Bool.eq_false_iff.mpr now), imp_iff_right (Bool.eq_false_iff.mpr func)]

/-- The loop of `execute_module` goes on. -/
theorem Drifts.nextExecute {asyncDep : Option Nat}
    (fits : LoaderFits host l [] (.execute m i asyncDep :: rest))
    (frames : l.frames = .execute m i asyncDep :: rest)
    (taken : l.nextExecute memory m i asyncDep rest = some l')
    : Goes host l l'
        (∀ mod, l.cache[m]? = some mod → mod.reqModules[i]? = none →
          Outermost Frame.isExecute rest → asyncDep.isSome ∨ mod.func = false → Unfailed l m) True := by
  have drifts := Drifts.refl fits
  have env := (fits.runs.frames _ List.mem_cons_self).2
  obtain ⟨mod, here, taken⟩ := Option.bind_eq_some_iff.mp taken
  have only {P : ModuleRecord N S E → Prop} : (∀ other, l.cache[m]? = some other → P other) ↔ P mod := by
    simp [here]
  rw [only]
  cases next : mod.reqModules[i]? with
  | some req =>
      simp only [next] at taken
      have noEnd : some req = none → Outermost Frame.isExecute rest →
          asyncDep.isSome ∨ mod.func = false → Unfailed l m := fun absent => by cases absent
      have passes {l' : Loader N S E} {asyncDep : Option Nat} (drifts : Drifts host l l' rest)
          (env : HasEnv l'.cache m)
          : Goes host l { l' with frames := .execute m (i + 1) asyncDep :: rest } True True :=
        (drifts.push (.execute m (i + 1) asyncDep) rfl env).goes
      cases resolved : req.resolved with
      | none =>
          simp only [resolved] at taken
          obtain rfl := Option.some.inj taken
          exact (passes drifts.tail env).always noEnd trivial
      | some d =>
          simp only [resolved] at taken
          split at taken
          · obtain rfl := Option.some.inj taken
            exact (passes drifts.tail env).always noEnd trivial
          · obtain ⟨dep, found, taken⟩ := Option.bind_eq_some_iff.mp taken
            split at taken
            · obtain rfl := Option.some.inj taken
              exact (passes drifts.tail env).always noEnd trivial
            · have rooted : Drifts host l (l.update m fun mod => { mod with cycleRoot := some d })
                  (l.update m fun mod => { mod with cycleRoot := some d }).frames :=
                (frames ▸ drifts).update fun _ _ => ⟨rfl, rfl, rfl, rfl, .inl rfl, .inl⟩
              have called {l'' : Loader N S E} (drifts : Drifts host l l'' l''.frames)
                  (same : l''.frames = l.frames) (taken : l''.callExecute memory d = some l')
                  : Goes host l l' (some req = none → Outermost Frame.isExecute rest →
                    asyncDep.isSome ∨ mod.func = false → Unfailed l m) True := by
                refine (drifts.callExecute taken).congr (iff_of_true (fun outer => ?_) noEnd) Iff.rfl
                rw [same, frames] at outer
                cases outer _ rfl
              split at taken
              · exact called rooted rfl taken
              · exact called (frames ▸ drifts) rfl taken
  | none =>
      simp only [next] at taken
      cases asyncDep with
      | some d =>
          obtain rfl := Option.some.inj taken
          have waits := drifts.tail.react l.error l.pendingFinish (l.deferredContinue ++ [(m, d)])
            (fun _ => .inl) fun k c member => by
              rcases List.mem_append.mp member with old | new
              · exact .inl old
              · cases List.mem_singleton.mp new
                exact .inr env
          have deferred := (waits.ensureEvalPromise (m := d)).ensureEvalPromise (m := m)
          refine deferred.returnExecuted.congr ?_ Iff.rfl
          rw [imp_iff_right rfl]
          exact imp_congr_right fun _ => (imp_iff_right (.inl rfl)).symm
      | none =>
          obtain ⟨upholds, reports, created⟩ := drifts.tail.continueExecute env taken
          refine ⟨upholds, reports.trans ?_, created⟩
          rw [imp_iff_right rfl, imp_iff_right rfl]
          refine imp_congr_right fun _ => ⟨fun sound ends => ?_, fun sound => ?_⟩
          · exact sound mod here (ends.resolve_left (by simp))
          · exact only.mpr fun absent => sound (.inr absent)

/-- The end of the body of a module. -/
theorem Drifts.endBody {deferred : Bool} {bodyEnd : BodyEnd E}
    (fits : LoaderFits host l [] (.body m deferred :: rest))
    : Goes host l (l.endBody m deferred rest bodyEnd)
        (deferred = false → Outermost Frame.isExecute rest → (∀ e, bodyEnd ≠ .thrown e) →
          Unfailed l m) True := by
  have drifts := (Drifts.refl fits).tail
  have env := (fits.runs.frames _ List.mem_cons_self).2
  have returns {l' : Loader N S E} (drifts : Drifts host l l' rest) (ok : Bool)
      (same : ok = true ↔ ∀ e, bodyEnd ≠ .thrown e)
      : Goes host l (if deferred then { l' with frames := rest }
          else Loader.returnExecuted m ok rest l')
        (deferred = false → Outermost Frame.isExecute rest → (∀ e, bodyEnd ≠ .thrown e) →
          Unfailed l m) True := by
    rw [← same]
    cases deferred with
    | true => exact drifts.goes.always (fun now => by cases now) trivial
    | false =>
        cases ok with
        | true =>
            refine drifts.returnExecuted.congr ?_ Iff.rfl
            rw [imp_iff_right rfl, imp_iff_right rfl]
        | false => exact drifts.returnFailed.always (fun _ _ ok => by cases ok) trivial
  cases bodyEnd with
  | done => exact returns drifts.evaluated true (by simp)
  | thrown e => exact returns ((drifts.park (some e)).recordEvalError env) false (by simp)
  | suspended =>
      have waits := drifts.react l.error (l.pendingFinish ++ [m]) l.deferredContinue
        (fun k member => by
          rcases List.mem_append.mp member with old | new
          · exact .inl old
          · rw [List.mem_singleton.mp new]
            exact .inr env) fun _ _ => .inl
      exact returns (waits.ensureEvalPromise (m := m)) true (by simp)

-----------------------------------------------------------------------------------------
-- Reactions
-----------------------------------------------------------------------------------------

/-- The error of a module is recorded by a reaction, which clears the error channel. -/
theorem Drifts.reject {e : E} (drifts : Drifts host l₀ l frames) (env : HasEnv l.cache m)
    : Drifts host l₀ { { l with error := some e }.recordEvalError m with error := none } frames :=
  ((drifts.park (some e)).recordEvalError env).park none

/-- `module_pending_finish_run` -/
theorem Drifts.pendingFinishRun {reason : Option E} (drifts : Drifts host l₀ l l.frames)
    (env : HasEnv l.cache m) (taken : l.pendingFinishRun m reason = some l')
    : Goes host l₀ l' True True := by
  obtain ⟨mod, here, rfl⟩ := Option.map_eq_some_iff.mp taken
  split
  · exact drifts.goes
  · cases reason with
    | none => exact drifts.evaluated.goes
    | some e => exact (drifts.reject env).goes

/-- `module_deferred_continue_run` -/
theorem Drifts.deferredContinueRun (drifts : Drifts host l₀ l l.frames) (env : HasEnv l.cache m)
    (taken : l.deferredContinueRun m d = some l')
    : Goes host l₀ l' True True := by
  obtain ⟨mod, here, taken⟩ := Option.bind_eq_some_iff.mp taken
  cases promise : (l.cache[d]?).bind ModuleRecord.evalPromise with
  | none => simp [promise] at taken
  | some state =>
      rw [promise] at taken
      cases state with
      | pending => cases taken
      | fulfilled =>
          simp only at taken
          split at taken
          · exact (drifts.continueExecute env taken).congr
              (iff_of_true (fun now => by cases now) trivial) Iff.rfl
          · obtain rfl := Option.some.inj taken
            exact drifts.goes
      | rejected e =>
          simp only at taken
          split at taken
          · obtain rfl := Option.some.inj taken
            exact (drifts.reject env).goes
          · obtain rfl := Option.some.inj taken
            exact drifts.goes

end Boomkat.Correctness
