import Mathlib.Data.List.Nodup
import Boomkat.Correctness.ModuleFits

/-! The steps of resolution: what they keep, and of which modules they report that they are loaded. -/

namespace Boomkat.Correctness

open Foundation Modules

variable {N S E : Type*} {host : Host N S E} {l before : Loader N S E} {loops rest : List Frame}
  {cache : List (ModuleRecord N S E)} {failed created busy more : List Nat} {m d i : Nat}
  {mod mod' : ModuleRecord N S E}

-----------------------------------------------------------------------------------------
-- Calls that return
-----------------------------------------------------------------------------------------

theorem RunsFit.notResolve {frames : List Frame} {pendingFinish : List Nat}
    {deferredContinue : List (Nat × Nat)} (fits : RunsFit cache frames pendingFinish deferredContinue)
    : ∀ frame ∈ frames, frame.isResolve = false :=
  fun frame member => (isRun_cases (fits.frames frame member).1).1

/-- Where no loop takes a module that was resolved, the call was the outermost one. -/
theorem returnResolved_rest (below : ∀ frame ∈ rest, frame.isResolve = false) (result : Option Nat)
    : Loader.returnResolved result rest l = { l with frames := rest }.log (.resolved result) := by
  cases rest with
  | nil => rfl
  | cons frame rest =>
      have other := below frame List.mem_cons_self
      cases frame with
      | resolve k i => cases other
      | link k i => rfl
      | execute k i asyncDep => rfl
      | body k deferred => rfl

/-- All the loops fail, by induction over them. -/
theorem returnResolved_none (all : ∀ frame ∈ loops, frame.isResolve)
    (below : ∀ frame ∈ rest, frame.isResolve = false)
    : Loader.returnResolved none (loops ++ rest) l
      = { l with
          failed := l.failed ++ loops.map Frame.mod
          frames := rest
          results := l.results ++ [.resolved none] } := by
  induction loops generalizing l with
  | nil =>
      rw [List.nil_append, returnResolved_rest below, List.map_nil, List.append_nil]
      rfl
  | cons frame loops ih =>
      obtain ⟨k, i, rfl⟩ := isResolve_cases (all frame List.mem_cons_self)
      rw [List.cons_append, Loader.returnResolved,
        ih fun frame member => all frame (List.mem_cons_of_mem _ member)]
      simp only [Loader.fail, List.append_assoc, List.map_cons, Frame.mod, List.singleton_append]

/-- A call fails with all the loops that wait for it. -/
theorem LoaderFits.returnNone (fits : LoaderFits host l loops rest)
    (all : ∀ frame ∈ loops, frame.isResolve) (same : l.results = before.results)
    (made : before.created.Nodup → l.created.Nodup)
    : Goes host before (Loader.returnResolved none (loops ++ rest) l) True True := by
  rw [returnResolved_none all fits.runs.notResolve]
  refine ⟨⟨[], rest, rfl, ?_, LoopsFit.nil, fits.runs⟩, ?_, fun distinct =>
    iff_of_true (made distinct) trivial⟩
  · refine fits.cache.fail _ (fun _ => id) fun k member => ?_
    obtain ⟨frame, inLoops, rfl⟩ := List.mem_map.mp member
    exact (fits.loops.held frame inLoops).inside
  · exact iff_of_true (.inr ⟨_, congrArg (· ++ _) same, trivial⟩) trivial

/-- The place of a module is written into the record of the loop. -/
theorem pointers_modify {reqModules : List (ReqModuleEntry S)}
    : (reqModules.modify i fun req => { req with resolved := some d }).map ReqModuleEntry.resolved
      = (reqModules.map ReqModuleEntry.resolved).set i (some d) := by
  induction reqModules generalizing i with
  | nil => simp
  | cons req reqModules ih =>
      cases i with
      | zero => rfl
      | succ i => rw [List.modify_succ_cons, List.map_cons, ih, List.map_cons, List.set_cons_succ]

theorem none_not_mem_set {pointers : List (Option Nat)} (found : none ∉ pointers.take i)
    : none ∉ (pointers.set i (some d)).take (i + 1) := by
  intro member
  obtain ⟨k, at_⟩ := List.mem_iff_getElem?.mp member
  rw [List.getElem?_take] at at_
  split at at_
  · rename_i below
    by_cases same : k = i
    · subst same
      rw [List.getElem?_set_self'] at at_
      cases here : pointers[k]? <;> simp [here] at at_
    · rw [List.getElem?_set_ne (Ne.symm same)] at at_
      refine found (List.mem_iff_getElem?.mpr ⟨k, ?_⟩)
      rw [List.getElem?_take_of_lt (by omega), at_]
  · cases at_

/-- A module is returned to the loop that waits for it. -/
theorem LoaderFits.takeResolved {k : Nat} (fits : LoaderFits host l (.resolve k i :: loops) rest)
    (inside : d < l.cache.length) (same : l.results = before.results)
    (made : before.created.Nodup → l.created.Nodup)
    : Goes host before (Loader.returnResolved (some d) (.resolve k i :: (loops ++ rest)) l) True
        True := by
  have all := fits.loops.resolves
  obtain ⟨mod, here, loading, compiles, found⟩ := fits.loops.held _ List.mem_cons_self
  let change (mod : ModuleRecord N S E) : ModuleRecord N S E :=
    { mod with reqModules := mod.reqModules.modify i fun req => { req with resolved := some d } }
  have pointers : (change mod).pointers = mod.pointers.set i (some d) := pointers_modify
  have turns : Turns l.cache mod (change mod) := by
    refine ⟨fun c member => ?_, id, id⟩
    rw [pointers] at member
    rcases List.mem_or_eq_of_mem_set member with old | new
    · exact .inl old
    · obtain rfl := Option.some.inj new
      exact .inr inside
  have record := fits.cache.records k mod here
  have cache := fits.cache.modify (k :: loops.map Frame.mod) here turns []
    (fun _ member => absurd member List.not_mem_nil) (by
      rw [List.append_nil]
      exact ⟨record.status, record.loading, record.early, record.errored, record.env⟩)
    (fun sound => by
      have old := fits.cache.sound k mod here sound
      refine ⟨old.busy, old.compiles, fun other => absurd loading other, old.json, fun validated => ?_⟩
      exact absurd (record.loading loading) (by simpa [change] using validated))
    fun k member _ => member
  have moved := (fits.loops.tail.modify here turns fits.loops.apart).push
    (.resolve k (i + 1))
    ⟨change mod, modify_here here, loading, compiles, by rw [pointers]; exact none_not_mem_set found⟩
    (.inl fun frame member => by
      rcases List.mem_cons.mp member with rfl | member
      · rfl
      · exact all frame (List.mem_cons_of_mem _ member))
    fits.loops.apart
    (waits_of_resolve fun frame member => all frame (List.mem_cons_of_mem _ member))
  rw [List.append_nil] at cache
  exact ⟨⟨.resolve k (i + 1) :: loops, rest, rfl, cache, moved, fits.runs.onward (turns.onward here)⟩,
    Reports.silent same, fun distinct => iff_of_true (made distinct) trivial⟩

/-- A module is returned, to the loop that waits for it or to the outermost call. -/
theorem LoaderFits.returnSome (fits : LoaderFits host l loops rest)
    (all : ∀ frame ∈ loops, frame.isResolve) (inside : d < l.cache.length)
    (same : l.results = before.results) (made : before.created.Nodup → l.created.Nodup)
    : Goes host before (Loader.returnResolved (some d) (loops ++ rest) l)
        (Outermost Frame.isResolve (loops ++ rest) → Unfailed l d) True := by
  have outermost := outermost_iff all fits.runs.notResolve
  cases loops with
  | nil =>
      have outer : Outermost Frame.isResolve rest := outermost.mpr rfl
      rw [List.nil_append, returnResolved_rest fits.runs.notResolve]
      have idle : LoaderFits host ({ l with frames := rest }.log (.resolved (some d))) [] rest :=
        ⟨fits.cache, fits.loops, fits.runs⟩
      refine ⟨⟨[], rest, rfl, idle⟩, ?_, fun distinct => iff_of_true (made distinct) trivial⟩
      rw [Reports.logged (congrArg (· ++ _) same), idle.resolved_iff inside, imp_iff_right outer]
      rfl
  | cons frame loops =>
      obtain ⟨k, i, rfl⟩ := isResolve_cases (all frame List.mem_cons_self)
      obtain ⟨upholds, reports, created⟩ := fits.takeResolved inside same made
      exact ⟨upholds, reports.trans (iff_of_true trivial fun outer =>
        absurd (outermost.mp outer) (List.cons_ne_nil _ _)), created⟩

-----------------------------------------------------------------------------------------
-- A new record
-----------------------------------------------------------------------------------------

theorem append_here (here : cache[m]? = some mod) : (cache ++ [mod'])[m]? = some mod := by
  rw [List.getElem?_append_left (List.getElem?_eq_some_iff.mp here).1, here]

/-- A record that is found after one was added. -/
theorem append_cases (found : (cache ++ [mod'])[m]? = some mod)
    : cache[m]? = some mod ∨ m = cache.length ∧ mod = mod' := by
  rcases Nat.lt_trichotomy m cache.length with below | same | above
  · exact .inl ((List.getElem?_append_left below).symm.trans found)
  · subst same
    rw [List.getElem?_concat_length] at found
    exact .inr ⟨rfl, (Option.some.inj found).symm⟩
  · rw [List.getElem?_eq_none (by simp; omega)] at found
    cases found

theorem onward_append : Onward cache (cache ++ [mod']) := by
  constructor
  · intro m entered
    obtain ⟨mod, here, status⟩ := entered
    exact ⟨mod, append_here here, status⟩
  · intro m env
    obtain ⟨mod, here, env⟩ := env
    exact ⟨mod, append_here here, env⟩

/-- A record is added that requires no module yet. -/
theorem CacheFits.append (fits : CacheFits host cache failed created busy)
    (mod' : ModuleRecord N S E) (busy' : List Nat) (fresh : ∀ d, some d ∉ mod'.pointers)
    (more : List Nat) (made : ∀ k ∈ more, k = cache.length)
    (lost : List Nat) (onlyNew : ∀ k ∈ lost, k = cache.length)
    (record : RecordFits (created ++ more) cache.length mod')
    (sound : cache.length ∉ lost → SoundFits host cache busy' cache.length mod')
    (kept : ∀ k ∈ busy, k ∈ busy')
    : CacheFits host (cache ++ [mod']) (failed ++ lost) (created ++ more) busy' := by
  have onward : Onward cache (cache ++ [mod']) := onward_append
  have longer : (cache ++ [mod']).length = cache.length + 1 := List.length_append
  refine ⟨?_, ?_, ?_, ?_, ?_⟩
  · intro k member
    rw [longer]
    rcases List.mem_append.mp member with old | new
    · exact Nat.lt_add_right _ (fits.made k old)
    · exact made k new ▸ Nat.lt_succ_self _
  · intro k member
    rw [longer]
    rcases List.mem_append.mp member with old | new
    · exact Nat.lt_add_right _ (fits.lost k old)
    · exact onlyNew k new ▸ Nat.lt_succ_self _
  · rintro b c ⟨mod, found, member⟩
    rw [longer]
    rcases append_cases found with old | ⟨-, rfl⟩
    · exact Nat.lt_add_right _ (fits.required b c ⟨mod, old, member⟩)
    · exact absurd member (fresh c)
  · intro k mod found
    rcases append_cases found with old | ⟨rfl, rfl⟩
    · obtain ⟨status, loading, early, errored, env⟩ := fits.records k mod old
      refine ⟨status, loading, early, errored, ?_⟩
      have apart : k ≠ cache.length := Nat.ne_of_lt (List.getElem?_eq_some_iff.mp old).1
      rw [List.mem_append, or_iff_left fun new => apart (made k new)]
      exact env
    · exact record
  · intro k mod found notFailed
    rw [List.mem_append, not_or] at notFailed
    rcases append_cases found with old | ⟨rfl, rfl⟩
    · exact (fits.sound k mod old notFailed.1).onward onward (kept k)
    · exact (sound notFailed.2).onward onward id

theorem LoopsFit.append (fits : LoopsFit host cache loops) (mod' : ModuleRecord N S E)
    : LoopsFit host (cache ++ [mod']) loops := by
  refine ⟨fits.uniform, fits.distinct, fun frame member => ?_, ?_⟩
  · exact (fits.held frame member).onward onward_append fun _ => append_here
  · refine fits.waiting.onward onward_append fun frame member other found => ?_
    have inside := (fits.held frame (List.mem_of_mem_tail member)).inside
    exact (List.getElem?_append_left inside).symm.trans found

theorem update_added {extra : ModuleRecord N S E} {change : ModuleRecord N S E → ModuleRecord N S E}
    (added : l.cache = cache ++ [extra])
    : l.update cache.length change = { l with cache := cache ++ [change extra] } := by
  have at_last : (cache ++ [extra]).modify cache.length change = cache ++ [change extra] := by
    rw [List.modify_eq_set_getElem?, List.getElem?_concat_length]
    simp
  rw [Loader.update, added, at_last]

theorem createEnv_added {extra : ModuleRecord N S E} (added : l.cache = cache ++ [extra])
    : l.createEnv cache.length
      = { l with
          cache := cache ++ [{ extra with hasEnv := true }]
          created := l.created ++ [cache.length] } := by
  rw [Loader.createEnv, update_added added]

theorem CacheFits.notMade (fits : CacheFits host cache failed created busy) : cache.length ∉ created :=
  fun member => Nat.lt_irrefl _ (fits.made _ member)

theorem CacheFits.notFailed (fits : CacheFits host cache failed created busy) : cache.length ∉ failed :=
  fun member => Nat.lt_irrefl _ (fits.lost _ member)

/-- A module is added that fails to load. -/
theorem LoaderFits.addFailed (fits : LoaderFits host l loops rest)
    (all : ∀ frame ∈ loops, frame.isResolve) (frames : l.frames = loops ++ rest)
    {extra : ModuleRecord N S E} {error : Option E} (fresh : ∀ d, some d ∉ extra.pointers)
    (loading : extra.status = .loading) (bare : extra.hasEnv = false)
    (unvalidated : extra.validated = false) (same : l.results = before.results)
    (made : before.created.Nodup → l.created.Nodup)
    : Goes host before
        (Loader.failLoad { l with cache := l.cache ++ [extra], error := error } l.cache.length) True
        True := by
  have cache := fits.cache.append extra (loops.map Frame.mod) fresh []
    (fun _ member => absurd member List.not_mem_nil) [l.cache.length] (fun _ => List.mem_singleton.mp)
    ⟨by simp [loading], fun _ => unvalidated, fun _ _ => bare, by simp [loading],
      by simp [bare, fits.cache.notMade]⟩
    (fun sound => absurd (List.mem_singleton.mpr rfl) sound) fun _ => id
  rw [List.append_nil] at cache
  rw [Loader.failLoad]
  simp only [frames]
  exact LoaderFits.returnNone ⟨cache, fits.loops.append extra, fits.runs.onward onward_append⟩ all same made

/-- A module is added that is loaded, with its environment. -/
theorem LoaderFits.addJson (fits : LoaderFits host l loops rest)
    (all : ∀ frame ∈ loops, frame.isResolve) (frames : l.frames = loops ++ rest)
    (extra : ModuleRecord N S E) (compiles : Compiles host extra) (loaded : extra.status = .loaded)
    (env : extra.hasEnv) (json : extra.isJson) (validated : extra.validated)
    (alone : extra.reqModules = []) (same : l.results = before.results)
    (created : before.created = l.created)
    : Goes host before
        (Loader.returnResolved (some l.cache.length) l.frames
          { l with cache := l.cache ++ [extra], created := l.created ++ [l.cache.length] })
        (Outermost Frame.isResolve l.frames → extra.moduleName ∉ l.refused) True := by
  have empty : extra.pointers = [] := by rw [ModuleRecord.pointers, alone, List.map_nil]
  have fresh : ∀ d, some d ∉ extra.pointers := by simp [empty]
  have cache := fits.cache.append extra (loops.map Frame.mod) fresh [l.cache.length]
    (fun _ => List.mem_singleton.mp) [] (fun _ member => absurd member List.not_mem_nil)
    ⟨by simp [loaded], by simp [loaded], by simp [json], by simp [loaded], by simp [env]⟩
    (fun _ => ⟨by simp [loaded], fun _ => compiles, by simp [empty], fun _ => validated,
      fun _ => ⟨env, by simp [empty]⟩⟩) fun _ => id
  rw [List.append_nil] at cache
  have added : LoaderFits host
      { l with cache := l.cache ++ [extra], created := l.created ++ [l.cache.length] } loops rest :=
    ⟨cache, fits.loops.append extra, fits.runs.onward onward_append⟩
  have once : before.created.Nodup → (l.created ++ [l.cache.length]).Nodup := by
    intro distinct
    rw [← List.concat_eq_append, List.nodup_concat, ← created]
    exact ⟨created ▸ fits.cache.notMade, distinct⟩
  have last : (l.cache ++ [extra])[l.cache.length]? = some extra := List.getElem?_concat_length
  have goes := added.returnSome all (d := l.cache.length)
    (by rw [List.length_append]; exact Nat.lt_succ_self _) same once
  rw [← frames] at goes
  obtain ⟨upholds, reports, distinct⟩ := goes
  refine ⟨upholds, reports.trans (imp_congr_right fun _ => ?_), distinct⟩
  constructor
  · exact fun sound refused => sound.self (.inr ⟨extra, last, refused⟩)
  · intro unrefused
    refine Throughout.of_closed (Q := (· = l.cache.length)) ?_ rfl
    rintro b rfl
    refine ⟨?_, fun c required => absurd ((requires_iff last).mp required) (fresh c)⟩
    rintro (failed | ⟨other, found, refused⟩)
    · exact fits.cache.notFailed failed
    · obtain rfl : extra = other := Option.some.inj (last.symm.trans found)
      exact unrefused refused

/-- A module is added that is resolved next. -/
theorem LoaderFits.addLoop (fits : LoaderFits host l loops rest)
    (all : ∀ frame ∈ loops, frame.isResolve) (frames : l.frames = loops ++ rest)
    {extra : ModuleRecord N S E} (compiles : Compiles host extra) (loading : extra.status = .loading)
    (bare : extra.hasEnv = false) (json : extra.isJson = false) (unvalidated : extra.validated = false)
    (fresh : ∀ d, some d ∉ extra.pointers) (same : l.results = before.results)
    (made : before.created.Nodup → l.created.Nodup)
    : Goes host before
        (Loader.push { l with cache := l.cache ++ [extra] } (.resolve l.cache.length 0)) True True := by
  have cache := fits.cache.append extra (l.cache.length :: loops.map Frame.mod) fresh []
    (fun _ member => absurd member List.not_mem_nil) []
    (fun _ member => absurd member List.not_mem_nil)
    ⟨by simp [loading], fun _ => unvalidated, fun _ _ => bare, by simp [loading],
      by simp [bare, fits.cache.notMade]⟩
    (fun _ => ⟨fun _ => List.mem_cons_self, fun _ => compiles, fun other => absurd loading other,
      by simp [json], by simp [unvalidated]⟩)
    fun _ => List.mem_cons_of_mem _
  rw [List.append_nil, List.append_nil] at cache
  have loops' := (fits.loops.append extra).push (.resolve l.cache.length 0)
    ⟨extra, List.getElem?_concat_length, loading, compiles, by simp⟩
    (.inl fun frame member => by
      rcases List.mem_cons.mp member with rfl | member
      · rfl
      · exact all frame member)
    (fun frame member => Nat.ne_of_lt (fits.loops.held frame member).inside) (waits_of_resolve all)
  refine ⟨⟨.resolve l.cache.length 0 :: loops, rest, ?_, cache, loops',
    fits.runs.onward onward_append⟩, Reports.silent same, fun distinct =>
      iff_of_true (made distinct) trivial⟩
  rw [Loader.push, frames, List.cons_append]

theorem withMetadata_fresh {compiled : Bool} {metadata : Metadata S} (d : Nat)
    : some d ∉ (mod.withMetadata compiled metadata).pointers := by
  intro member
  obtain ⟨req, inReqs, resolved⟩ := List.mem_map.mp member
  obtain ⟨entry, -, rfl⟩ := List.mem_map.mp inReqs
  cases resolved

-----------------------------------------------------------------------------------------
-- The steps
-----------------------------------------------------------------------------------------

/-- What is made of a source that was read is a module that is loaded at once. -/
def LoadsJson (host : Host N S E) (memory : Memory) (name : N) : Prop :=
  host.readSource name ∧ memory.record ∧ host.parsesJson name ∧ memory.env

variable [DecidableEq N]

/-- What an outermost call of `resolve_module` returns at once has not failed and requires none that
has.
-/
def ResolvesSound (host : Host N S E) (l : Loader N S E) (base : Option N) (specifier : S)
    (wantsJson : Bool) (memory : Memory)
    : Prop :=
  ∀ name, host.resolveName base specifier = some name →
    (∀ d, l.find name = some d → Unfailed l d)
    ∧ (l.find name = none → wantsJson → LoadsJson host memory name → name ∉ l.refused)

/-- A call of `resolve_module`, from the outside or from a loop. -/
theorem LoaderFits.callResolve (fits : LoaderFits host l loops rest)
    (all : ∀ frame ∈ loops, frame.isResolve) (frames : l.frames = loops ++ rest) {memory : Memory}
    {base : Option N} {specifier : S} {wantsJson : Bool} (same : l.results = before.results)
    (created : before.created = l.created)
    : Goes host before (l.callResolve host memory base specifier wantsJson)
        (Outermost Frame.isResolve l.frames → ResolvesSound host l base specifier wantsJson memory)
        True := by
  have made : before.created.Nodup → l.created.Nodup := fun distinct => created ▸ distinct
  rw [Loader.callResolve]
  cases named : host.resolveName base specifier with
  | none =>
      simp only
      rw [frames]
      refine (fits.returnNone all same made).always (fun _ name found => ?_) trivial
      rw [named] at found
      cases found
  | some name =>
      simp only
      cases found : l.find name with
      | some d =>
          simp only
          obtain ⟨upholds, reports, distinct⟩ := fits.returnSome all (d := d)
            (List.findIdx?_eq_some_iff_findIdx_eq.mp found).1 same made
          rw [frames]
          refine ⟨upholds, reports.trans (imp_congr_right fun _ => ?_), distinct⟩
          simp [ResolvesSound, named, found]
      | none =>
          simp only
          have soundly : ResolvesSound host l base specifier wantsJson memory
              ↔ (wantsJson = true → LoadsJson host memory name → name ∉ l.refused) := by
            simp [ResolvesSound, named, found]
          have vacuous (fails : wantsJson = true → ¬LoadsJson host memory name)
              : Outermost Frame.isResolve l.frames →
                ResolvesSound host l base specifier wantsJson memory :=
            fun _ => soundly.mpr fun json loads => absurd loads (fails json)
          split
          · rename_i unread
            refine Goes.always ?_ (vacuous fun _ loads => ?_) trivial
            · rw [frames]
              exact LoaderFits.returnNone ⟨fits.cache, fits.loops, fits.runs⟩ all same made
            · exact unread.elim (fun unread => unread loads.1) fun full => full loads.2.1
          · rename_i readable
            rw [not_or, Decidable.not_not, Decidable.not_not] at readable
            cases wantsJson with
            | true =>
                simp only [if_true]
                split
                · rename_i unparsed
                  refine Goes.always ?_ (vacuous fun _ loads => unparsed loads.2.2.1) trivial
                  exact fits.addFailed all frames (fun _ => List.not_mem_nil) rfl rfl rfl same made
                · rename_i parses
                  have parses : host.parsesJson name := Decidable.not_not.mp parses
                  rw [update_added rfl]
                  split
                  · rename_i full
                    refine Goes.always ?_ (vacuous fun _ loads => full loads.2.2.2) trivial
                    exact fits.addFailed all frames (fun _ => List.not_mem_nil) rfl rfl rfl same made
                  · rename_i room
                    have loads : LoadsJson host memory name :=
                      ⟨readable.1, readable.2, parses, Decidable.not_not.mp room⟩
                    rw [createEnv_added rfl, update_added rfl]
                    obtain ⟨upholds, reports, distinct⟩ := fits.addJson all frames
                      { ModuleRecord.new name with
                        isJson := true
                        exports := [⟨"default", "default", false, 0⟩]
                        hasEnv := true
                        status := .loaded
                        validated := true }
                      parses rfl rfl rfl rfl rfl same created
                    refine ⟨upholds, reports.trans (imp_congr_right fun _ => ?_), distinct⟩
                    rw [soundly, imp_iff_right rfl, imp_iff_right loads]
                    rfl
            | false =>
                simp only [Bool.false_eq_true, if_false]
                rw [update_added rfl]
                split
                · refine Goes.always ?_ (vacuous fun json => by cases json) trivial
                  exact fits.addFailed all frames withMetadata_fresh rfl rfl rfl same made
                · rename_i taken
                  have compiles := Decidable.not_not.mp taken
                  refine Goes.always ?_ (vacuous fun json => by cases json) trivial
                  exact fits.addLoop all frames compiles rfl rfl rfl rfl withMetadata_fresh same made

/-- The loop of `resolve_module` goes on. -/
theorem LoaderFits.nextResolve {l' : Loader N S E} {memory : Memory}
    (fits : LoaderFits host l (.resolve m i :: loops) rest)
    (frames : l.frames = .resolve m i :: (loops ++ rest))
    (taken : l.nextResolve host memory m i (loops ++ rest) = some l')
    : Goes host l l'
        (∀ mod, l.cache[m]? = some mod → mod.reqModules[i]? = none →
          Outermost Frame.isResolve (loops ++ rest) → Unfailed l m) True := by
  have all := fits.loops.resolves
  obtain ⟨mod, here, loading, compiles, found⟩ := fits.loops.held _ List.mem_cons_self
  have only : (∀ other, l.cache[m]? = some other → other.reqModules[i]? = none →
        Outermost Frame.isResolve (loops ++ rest) → Unfailed l m)
      ↔ (mod.reqModules[i]? = none → Outermost Frame.isResolve (loops ++ rest) → Unfailed l m) := by
    refine ⟨fun sound => sound mod here, fun sound other there => ?_⟩
    obtain rfl : mod = other := Option.some.inj (here.symm.trans there)
    exact sound
  rw [only]
  rw [Loader.nextResolve, here] at taken
  have taken := Option.some.inj taken
  cases next : mod.reqModules[i]? with
  | some req =>
      simp only [next] at taken
      rw [← taken]
      have goes : Goes host l (l.callResolve host memory (some mod.moduleName) req.moduleName
          req.wantsJson) _ True := fits.callResolve all frames rfl rfl
      obtain ⟨upholds, reports, distinct⟩ := goes
      refine ⟨upholds, reports.trans (iff_of_true (fun outermost => ?_) fun absent => ?_), distinct⟩
      · rw [frames] at outermost
        have waits := outermost _ rfl
        cases waits
      · cases absent
  | none =>
      simp only [next] at taken
      rw [← taken]
      have resolved : none ∉ mod.pointers := by
        have few : mod.pointers.length ≤ i := by
          rw [ModuleRecord.pointers, List.length_map]
          exact List.getElem?_eq_none_iff.mp next
        rwa [List.take_of_length_le few] at found
      let change (mod : ModuleRecord N S E) : ModuleRecord N S E := { mod with status := .loaded }
      have turns : Turns l.cache mod (change mod) :=
        ⟨fun _ => .inl, by simp [loading, ModuleStatus.isPast], id⟩
      have record := fits.cache.records m mod here
      have cache := fits.cache.modify (loops.map Frame.mod) here turns []
        (fun _ member => absurd member List.not_mem_nil)
        (by
          rw [List.append_nil]
          exact ⟨by simp [change], by simp [change], fun _ => record.early (.inl loading),
            by simp [change], record.env⟩)
        (fun sound => by
          have old := fits.cache.sound m mod here sound
          refine ⟨by simp [change], fun _ => compiles, fun _ => resolved, old.json, fun validated => ?_⟩
          exact absurd (record.loading loading) (by simpa [change] using validated))
        fun k member other => (List.mem_cons.mp member).resolve_left other
      rw [List.append_nil] at cache
      have moved : LoaderFits host (l.setStatus m .loaded) loops rest :=
        ⟨cache, fits.loops.tail.modify here turns fits.loops.apart,
          fits.runs.onward (turns.onward here)⟩
      have outlined : SameOutlines l (l.setStatus m .loaded) := SameOutlines.update fun _ _ => rfl
      have inside : m < (l.setStatus m .loaded).cache.length := by
        rw [Loader.setStatus, Loader.update, List.length_modify]
        exact (List.getElem?_eq_some_iff.mp here).1
      have goes : Goes host l (Loader.returnResolved (some m) (loops ++ rest) (l.setStatus m .loaded))
          _ True := moved.returnSome
        (fun frame member => all frame (List.mem_cons_of_mem _ member)) inside rfl id
      obtain ⟨upholds, reports, distinct⟩ := goes
      refine ⟨upholds, reports.trans ?_, distinct⟩
      rw [imp_iff_right rfl, outlined.unfailed_iff]

end Boomkat.Correctness
