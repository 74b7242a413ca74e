import Mathlib.Data.List.Nodup
import Boomkat.Correctness.ModuleLoading

/-! The steps of linking: what they keep, and of which modules they report that they are linked. -/

namespace Boomkat.Correctness

open Foundation Modules

variable {N S E : Type*} {host : Host N S E} {l l' before : Loader N S E} {loops rest : List Frame}
  {cache : List (ModuleRecord N S E)} {failed created busy : List Nat} {m d i : Nat}
  {mod : ModuleRecord N S E} {memory : Memory} {change : ModuleRecord N S E → ModuleRecord N S E}

-----------------------------------------------------------------------------------------
-- Calls that return
-----------------------------------------------------------------------------------------

theorem RunsFit.notLink {frames : List Frame} {pendingFinish : List Nat}
    {deferredContinue : List (Nat × Nat)} (fits : RunsFit cache frames pendingFinish deferredContinue)
    : ∀ frame ∈ frames, frame.isLink = false :=
  fun frame member => (isRun_cases (fits.frames frame member).1).2

/-- Where no loop takes a module that was linked, the call was the outermost one. -/
theorem returnLinked_rest (below : ∀ frame ∈ rest, frame.isLink = false) (ok : Bool)
    : Loader.returnLinked m ok rest l = { l with frames := rest }.log (.linked m ok) := by
  cases rest with
  | nil => rfl
  | cons frame rest =>
      have other := below frame List.mem_cons_self
      cases frame with
      | resolve k i => rfl
      | link k i => cases other
      | execute k i asyncDep => rfl
      | body k deferred => rfl

/-- All the loops fail, by induction over them. -/
theorem returnLinked_false (all : ∀ frame ∈ loops, frame.isLink)
    (below : ∀ frame ∈ rest, frame.isLink = false)
    : ∃ root, Loader.returnLinked m false (loops ++ rest) l
      = { l with
          failed := l.failed ++ loops.map Frame.mod
          frames := rest
          results := l.results ++ [.linked root false] } := by
  induction loops generalizing l m with
  | nil =>
      rw [List.nil_append, returnLinked_rest below, List.map_nil, List.append_nil]
      exact ⟨m, rfl⟩
  | cons frame loops ih =>
      obtain ⟨k, i, rfl⟩ := isLink_cases (all frame List.mem_cons_self)
      obtain ⟨root, ends⟩ := ih (l := l.fail k) (m := k)
        fun frame member => all frame (List.mem_cons_of_mem _ member)
      refine ⟨root, ?_⟩
      rw [List.cons_append, Loader.returnLinked, if_neg Bool.false_ne_true, ends]
      simp only [Loader.fail, List.append_assoc, List.map_cons, Frame.mod, List.singleton_append]

/-- A module is not linked, and the loops that wait for it fail too. -/
theorem CacheFits.returnFailed (fits : CacheFits host l.cache l.failed l.created busy)
    (runs : RunsFit l.cache rest l.pendingFinish l.deferredContinue)
    (all : ∀ frame ∈ loops, frame.isLink) (inside : m < l.cache.length)
    (within : ∀ frame ∈ loops, frame.mod < l.cache.length)
    (covers : ∀ k ∈ busy, k ∈ m :: loops.map Frame.mod) (same : l.results = before.results)
    (made : before.created.Nodup → l.created.Nodup)
    : Goes host before (Loader.returnLinked m false (loops ++ rest) (l.fail m)) True True := by
  obtain ⟨root, ends⟩ := returnLinked_false (l := l.fail m) (m := m) all runs.notLink
  rw [ends]
  have cache := fits.fail (m :: loops.map Frame.mod) covers fun k member => by
    rcases List.mem_cons.mp member with rfl | member
    · exact inside
    · obtain ⟨frame, inLoops, rfl⟩ := List.mem_map.mp member
      exact within frame inLoops
  refine ⟨⟨[], rest, rfl, ?_, LoopsFit.nil, runs⟩, ?_, fun distinct => iff_of_true (made distinct) trivial⟩
  · have joined : (l.fail m).failed ++ loops.map Frame.mod = l.failed ++ (m :: loops.map Frame.mod) := by
      rw [Loader.fail, List.append_assoc, List.singleton_append]
    simp only [joined]
    exact cache
  · exact iff_of_true (.inr ⟨_, congrArg (· ++ _) same, trivial⟩) trivial

/-- A module whose linking has begun is returned, to the loop that waits for it or to the outermost
call.
-/
theorem LoaderFits.returnLinked (fits : LoaderFits host l loops rest)
    (all : ∀ frame ∈ loops, frame.isLink) (entered : Entered l.cache m) (ready : Waits l.cache loops)
    (same : l.results = before.results) (made : before.created.Nodup → l.created.Nodup)
    : Goes host before (Loader.returnLinked m true (loops ++ rest) l)
        (Outermost Frame.isLink (loops ++ rest) → Upright l m) True := by
  have outermost := outermost_iff all fits.runs.notLink
  cases loops with
  | nil =>
      have outer : Outermost Frame.isLink rest := outermost.mpr rfl
      rw [List.nil_append, returnLinked_rest fits.runs.notLink]
      have idle : LoaderFits host ({ l with frames := rest }.log (.linked m true)) [] rest :=
        ⟨fits.cache, fits.loops, fits.runs⟩
      refine ⟨⟨[], rest, rfl, idle⟩, ?_, fun distinct => iff_of_true (made distinct) trivial⟩
      rw [Reports.logged (congrArg (· ++ _) same), idle.linked_iff entered, imp_iff_right outer]
      rfl
  | cons frame loops =>
      obtain ⟨k, i, rfl⟩ := isLink_cases (all frame List.mem_cons_self)
      obtain ⟨mod, here, linking, env, -⟩ := fits.loops.held _ List.mem_cons_self
      have moved := fits.loops.tail.push (.link k (i + 1))
        ⟨mod, here, linking, env, fun d taken => ready k i mod d List.mem_cons_self here taken⟩
        (.inr fun frame member => by
          rcases List.mem_cons.mp member with rfl | member
          · rfl
          · exact all frame (List.mem_cons_of_mem _ member))
        fits.loops.apart
        fun k i mod d member => ready k i mod d (List.mem_cons_of_mem _ member)
      refine ⟨⟨.link k (i + 1) :: loops, rest, rfl, fits.cache, moved, fits.runs⟩, ?_, fun distinct =>
        iff_of_true (made distinct) trivial⟩
      exact iff_of_true (.inl same) fun outer => absurd (outermost.mp outer) (List.cons_ne_nil _ _)

-----------------------------------------------------------------------------------------
-- Calls of `link_module`
-----------------------------------------------------------------------------------------

/-- Whether a module was validated is read of its record and of the modules that have failed. -/
theorem upright_update (here : l.cache[m]? = some mod) (kept : outline (change mod) = outline mod)
    (same : ¬Marred l m → ((mod.status.isPast → mod.validated)
      ↔ ((change mod).status.isPast → (change mod).validated)))
    : Upright (l.update m change) d ↔ Upright l d := by
  have outlined : SameOutlines l (l.update m change) := SameOutlines.update fun other found => by
    obtain rfl : mod = other := Option.some.inj (here.symm.trans found)
    exact kept
  refine throughout_congr (fun _ _ => outlined.requires_iff.symm) fun b => ?_
  rw [← outlined.marred_iff]
  refine and_congr_right fun sound => ?_
  by_cases equal : m = b
  · subst equal
    have there : (l.update m change).cache[m]? = some (change mod) := modify_here here
    simp only [here, there, Option.some.injEq, forall_eq']
    exact (same sound).symm
  · rw [Loader.update, modify_other equal]

/-- The loops wait for modules whose linking has begun, but for one. -/
def WaitsBut (cache : List (ModuleRecord N S E)) (loops : List Frame) (m : Nat) : Prop :=
  ∀ k i mod d, .link k i ∈ loops → cache[k]? = some mod → some d ∈ mod.pointers.take (i + 1) →
    Entered cache d ∨ d = m

theorem WaitsBut.waits (ready : WaitsBut cache loops m) (here : cache[m]? = some mod)
    (turns : Turns cache mod (change mod))
    (begun : (change mod).status = .linking ∨ (change mod).status.isPast)
    (apart : ∀ frame ∈ loops, frame.mod ≠ m)
    : Waits (cache.modify m change) loops := by
  intro k i other d member found taken
  have old := (modify_other (Ne.symm (apart _ member))).symm.trans found
  rcases ready k i other d member old taken with entered | rfl
  · exact (turns.onward here).entered d entered
  · exact ⟨change mod, modify_here here, begun⟩

theorem LoopsFit.busyLinks (fits : LoopsFit host cache loops) (all : ∀ frame ∈ loops, frame.isLink)
    (here : cache[m]? = some mod) (busy : m ∈ loops.map Frame.mod)
    : mod.status = .linking := by
  obtain ⟨frame, member, same⟩ := List.mem_map.mp busy
  obtain ⟨k, i, rfl⟩ := isLink_cases (all frame member)
  obtain ⟨other, found, linking, -⟩ := fits.held _ member
  obtain rfl : k = m := same
  obtain rfl : mod = other := Option.some.inj (here.symm.trans found)
  exact linking

/-- The statuses that `link_module` takes for good. -/
def Guarded (status : ModuleStatus) : Prop :=
  status = .linked ∨ status = .evaluated ∨ status = .linking ∨ status = .evaluating

instance (status : ModuleStatus) : Decidable (Guarded status) := inferInstanceAs (Decidable (_ ∨ _))

/-- What an outermost call takes for linked, or is JSON, has not failed, and neither has a module
that it requires, and none of them was evaluated before it was validated.
-/
def LinksSound (l : Loader N S E) (m : Nat) : Prop :=
  ∀ mod, l.cache[m]? = some mod → Guarded mod.status ∨ mod.isJson → Upright l m

/-- The call does not make a second environment for a module whose evaluation threw. -/
def LinksOnce (l : Loader N S E) (memory : Memory) (m : Nat) : Prop :=
  ∀ mod, l.cache[m]? = some mod → mod.status = .errored → mod.isJson ∨ memory.env = false

theorem linksSound_iff (here : l.cache[m]? = some mod)
    : LinksSound l m ↔ (Guarded mod.status ∨ mod.isJson → Upright l m) := by
  refine ⟨fun sound => sound mod here, fun sound other found => ?_⟩
  obtain rfl : mod = other := Option.some.inj (here.symm.trans found)
  exact sound

theorem linksOnce_iff (here : l.cache[m]? = some mod)
    : LinksOnce l memory m ↔ (mod.status = .errored → mod.isJson ∨ memory.env = false) := by
  refine ⟨fun once => once mod here, fun once other found => ?_⟩
  obtain rfl : mod = other := Option.some.inj (here.symm.trans found)
  exact once

/-- The loader is done with loading a module that a call links, if it has not failed. -/
theorem LoaderFits.loaded (fits : LoaderFits host l loops rest) (all : ∀ frame ∈ loops, frame.isLink)
    (here : l.cache[m]? = some mod) (sound : m ∉ l.failed)
    : mod.status ≠ .loading := by
  intro loading
  have linking := fits.loops.busyLinks all here
    ((fits.cache.sound m mod here sound).busy (.inl loading))
  rw [loading] at linking
  cases linking

/-- A call takes a module for linked. -/
theorem LoaderFits.linkGuarded (fits : LoaderFits host l loops rest)
    (all : ∀ frame ∈ loops, frame.isLink) (here : l.cache[m]? = some mod)
    (guarded : Guarded mod.status) (ready : WaitsBut l.cache loops m)
    (same : l.results = before.results) (made : before.created.Nodup → l.created.Nodup)
    : Goes host before (Loader.returnLinked m true (loops ++ rest) l)
        (Outermost Frame.isLink (loops ++ rest) → Upright l m) True := by
  have entered : Entered l.cache m := by
    refine ⟨mod, here, ?_⟩
    rcases guarded with status | status | status | status <;> simp [status, ModuleStatus.isPast]
  have waits : Waits l.cache loops := by
    intro k i other d member found taken
    rcases ready k i other d member found taken with before | rfl
    · exact before
    · exact entered
  exact fits.returnLinked all entered waits same made

/-- A JSON module is linked at once. -/
theorem LoaderFits.linkJson (fits : LoaderFits host l loops rest)
    (all : ∀ frame ∈ loops, frame.isLink) (here : l.cache[m]? = some mod) (json : mod.isJson)
    (apart : ∀ frame ∈ loops, frame.mod ≠ m) (ready : WaitsBut l.cache loops m)
    (same : l.results = before.results) (made : before.created.Nodup → l.created.Nodup)
    : Goes host before (Loader.returnLinked m true (loops ++ rest) (l.setStatus m .linked))
        (Outermost Frame.isLink (loops ++ rest) → Upright l m) True := by
  let change (mod : ModuleRecord N S E) : ModuleRecord N S E := { mod with status := .linked }
  have turns : Turns l.cache mod (change mod) := ⟨fun _ => .inl, fun _ => .inr rfl, id⟩
  have record := fits.cache.records m mod here
  have cache := fits.cache.modify (loops.map Frame.mod) here turns []
    (fun _ member => absurd member List.not_mem_nil)
    (by
      rw [List.append_nil]
      exact ⟨by simp [change], by simp [change], by simp [change], by simp [change], record.env⟩)
    (fun sound => by
      have old := fits.cache.sound m mod here sound
      have loaded := fits.loaded all here sound
      refine ⟨by simp [change], fun _ => old.compiles loaded, fun _ => old.resolved loaded,
        old.json, fun validated => ?_⟩
      obtain ⟨env, below⟩ := old.validated validated
      exact ⟨env, fun d member => (turns.onward here).entered d (below d member)⟩)
    fun k member _ => member
  rw [List.append_nil] at cache
  have linked : LoaderFits host (l.setStatus m .linked) loops rest :=
    ⟨cache, fits.loops.modify here turns apart, fits.runs.onward (turns.onward here)⟩
  have upright : Upright (l.setStatus m .linked) m ↔ Upright l m :=
    upright_update here rfl fun sound => by
      have validated := (fits.cache.sound m mod here fun failed => sound (.inl failed)).json json
      exact iff_of_true (fun _ => validated) fun _ => validated
  rw [← upright]
  exact linked.returnLinked all ⟨_, modify_here here, .inr rfl⟩
    (ready.waits here turns (.inr rfl) apart) same made

/-- There is no memory for the environment of a module. -/
theorem LoaderFits.noEnv (fits : LoaderFits host l loops rest) (all : ∀ frame ∈ loops, frame.isLink)
    (here : l.cache[m]? = some mod) (same : l.results = before.results)
    (made : before.created.Nodup → l.created.Nodup)
    : Goes host before
        (Loader.returnLinked m false (loops ++ rest) ((l.setStatus m .linking).fail m)) True True := by
  let change (mod : ModuleRecord N S E) : ModuleRecord N S E := { mod with status := .linking }
  have turns : Turns l.cache mod (change mod) := ⟨fun _ => .inl, fun _ => .inl rfl, id⟩
  have record := fits.cache.records m mod here
  have cache := fits.cache.modify (m :: loops.map Frame.mod) here turns []
    (fun _ member => absurd member List.not_mem_nil)
    (by
      rw [List.append_nil]
      exact ⟨by simp [change], by simp [change], by simp [change], by simp [change], record.env⟩)
    (fun sound => by
      have before := fits.cache.sound m mod here sound
      have loaded := fits.loaded all here sound
      refine ⟨fun _ => List.mem_cons_self, fun _ => before.compiles loaded,
        fun _ => before.resolved loaded, before.json, fun validated => ?_⟩
      obtain ⟨env, below⟩ := before.validated validated
      exact ⟨env, fun d member => (turns.onward here).entered d (below d member)⟩)
    fun k member _ => List.mem_cons_of_mem _ member
  rw [List.append_nil] at cache
  have within (k : Nat) (inside : k < l.cache.length)
      : k < (l.setStatus m .linking).cache.length := by
    rwa [Loader.setStatus, Loader.update, List.length_modify]
  exact CacheFits.returnFailed (l := l.setStatus m .linking) cache
    (fits.runs.onward (turns.onward here)) all (within m (List.getElem?_eq_some_iff.mp here).1)
    (fun frame member => within _ (fits.loops.held frame member).inside) (fun _ => id) same made

/-- The module gets an environment, its first unless its evaluation threw, and a loop begins over what
it requires.
-/
theorem LoaderFits.enterLink (fits : LoaderFits host l loops rest)
    (all : ∀ frame ∈ loops, frame.isLink) (frames : l.frames = loops ++ rest)
    (here : l.cache[m]? = some mod) (guarded : ¬Guarded mod.status) (json : mod.isJson = false)
    (apart : ∀ frame ∈ loops, frame.mod ≠ m) (ready : WaitsBut l.cache loops m)
    (same : l.results = before.results) (created : before.created = l.created)
    : Goes host before (((l.setStatus m .linking).createEnv m).push (.link m 0)) True
        (mod.status ≠ .errored) := by
  let change (mod : ModuleRecord N S E) : ModuleRecord N S E :=
    { mod with status := .linking, hasEnv := true }
  have turns : Turns l.cache mod (change mod) :=
    ⟨fun _ => .inl, fun _ => .inl rfl, fun _ => rfl⟩
  have record := fits.cache.records m mod here
  have cache := fits.cache.modify (m :: loops.map Frame.mod) here turns [m]
    (fun _ => List.mem_singleton.mp)
    ⟨by simp [change], by simp [change], by simp [change], by simp [change], by simp [change]⟩
    (fun sound => by
      have old := fits.cache.sound m mod here sound
      have loaded := fits.loaded all here sound
      refine ⟨fun _ => List.mem_cons_self, fun _ => old.compiles loaded, fun _ => old.resolved loaded,
        old.json, fun validated => ⟨rfl, ?_⟩⟩
      exact fun d member => (turns.onward here).entered d ((old.validated validated).2 d member))
    fun k member _ => List.mem_cons_of_mem _ member
  have loops' := (fits.loops.modify here turns apart).push (.link m 0)
    ⟨change mod, modify_here here, rfl, rfl, by simp⟩
    (.inr fun frame member => by
      rcases List.mem_cons.mp member with rfl | member
      · rfl
      · exact all frame member)
    apart (ready.waits here turns (.inl rfl) apart)
  have twice : (l.cache.modify m fun mod => { mod with status := .linking }).modify m
      (fun mod => { mod with hasEnv := true }) = l.cache.modify m change :=
    List.modify_modify_eq _ _ _ _
  refine ⟨⟨.link m 0 :: loops, rest, ?_, ?_⟩, Reports.silent same, fun nodup => ?_⟩
  · rw [List.cons_append, ← frames]
    rfl
  · refine ⟨?_, ?_, ?_⟩
    all_goals
      simp only [Loader.push, Loader.createEnv, Loader.update, Loader.setStatus, twice]
    · exact cache
    · exact loops'
    · exact fits.runs.onward (turns.onward here)
  · have appended : (Loader.push ((l.setStatus m .linking).createEnv m) (.link m 0)).created
        = before.created ++ [m] := by rw [created]; rfl
    have fresh : (before.created ++ [m]).Nodup ↔ m ∉ before.created := by
      rw [← List.concat_eq_append, List.nodup_concat, and_iff_left nodup]
    rw [appended, fresh, created, record.env]
    -- Of the statuses that get this far only `ERRORED` is one of a module that was linked.
    cases status : mod.status with
    | errored => simp [record.errored status]
    | loading => simp [record.early (.inl status) json]
    | loaded => simp [record.early (.inr status) json]
    | unloaded => exact absurd status record.status
    | linking => exact absurd (.inr (.inr (.inl status))) guarded
    | linked => exact absurd (.inl status) guarded
    | evaluating => exact absurd (.inr (.inr (.inr status))) guarded
    | evaluated => exact absurd (.inr (.inl status)) guarded

/-- A call of `link_module`, from the outside or from a loop. -/
theorem LoaderFits.callLink (fits : LoaderFits host l loops rest)
    (all : ∀ frame ∈ loops, frame.isLink) (frames : l.frames = loops ++ rest)
    (ready : WaitsBut l.cache loops m) (same : l.results = before.results)
    (created : before.created = l.created) (taken : l.callLink memory m = some l')
    : Goes host before l' (Outermost Frame.isLink l.frames → LinksSound l m)
        (LinksOnce l memory m) := by
  rw [Loader.callLink] at taken
  obtain ⟨mod, here, rfl⟩ := Option.map_eq_some_iff.mp taken
  rw [linksSound_iff here, linksOnce_iff here]
  have made : before.created.Nodup → l.created.Nodup := fun distinct => created ▸ distinct
  by_cases guarded : Guarded mod.status
  · have other : mod.status ≠ .errored := by
      rcases guarded with status | status | status | status <;> simp [status]
    rw [if_pos (show mod.status = .linked ∨ mod.status = .evaluated ∨ mod.status = .linking
      ∨ mod.status = .evaluating from guarded), frames]
    refine (fits.linkGuarded all here guarded ready same made).congr ?_ ?_
    · exact imp_congr_right fun _ => (imp_iff_right (.inl guarded)).symm
    · exact iff_of_true trivial fun errored => absurd errored other
  · rw [if_neg (show ¬(mod.status = .linked ∨ mod.status = .evaluated ∨ mod.status = .linking
      ∨ mod.status = .evaluating) from guarded)]
    have apart : ∀ frame ∈ loops, frame.mod ≠ m := by
      intro frame member equal
      have linking := fits.loops.busyLinks all here (List.mem_map.mpr ⟨frame, member, equal⟩)
      exact guarded (.inr (.inr (.inl linking)))
    split
    · rename_i json
      rw [frames]
      refine (fits.linkJson all here json apart ready same made).congr ?_ ?_
      · exact imp_congr_right fun _ => (imp_iff_right (.inr json)).symm
      · exact iff_of_true trivial fun _ => .inl json
    · rename_i json
      have json : mod.isJson = false := Bool.eq_false_iff.mpr json
      have neither : Outermost Frame.isLink l.frames → Guarded mod.status ∨ mod.isJson →
          Upright l m :=
        fun _ either => either.elim (fun status => absurd status guarded) fun isJson => by
          rw [json] at isJson
          cases isJson
      split
      · rename_i full
        have full : memory.env = false := Bool.eq_false_iff.mpr full
        have goes := fits.noEnv all here same made
        rw [← frames] at goes
        exact goes.always neither fun _ => .inr full
      · rename_i room
        have room : memory.env = true := Decidable.not_not.mp room
        have goes := fits.enterLink all frames here guarded json apart ready same created
        refine goes.congr (iff_of_true trivial neither) ?_
        simp [json, room]

-----------------------------------------------------------------------------------------
-- The loop
-----------------------------------------------------------------------------------------

/-- The entries for modules that are erased keep their places. -/
theorem markTypeOnly_pointers {depth : Nat} {graph : Nat → ModuleDef Nat}
    {imports : List ImportEntry} {ri : Nat} {reqs marked : List (ReqModuleEntry S)}
    (taken : markTypeOnlyReqModules depth graph imports ri reqs = some marked)
    : marked.map ReqModuleEntry.resolved = reqs.map ReqModuleEntry.resolved := by
  induction reqs generalizing ri marked with
  | nil =>
      obtain rfl := Option.some.inj taken
      rfl
  | cons req reqs ih =>
      obtain ⟨rest, taken', ends⟩ := Option.bind_eq_some_iff.mp taken
      have kept := ih taken'
      cases resolved : req.resolved with
      | none =>
          simp only [resolved] at ends
          obtain rfl := Option.some.inj ends
          rw [List.map_cons, kept, List.map_cons]
      | some d =>
          simp only [resolved] at ends
          obtain ⟨elided, -, rfl⟩ := Option.map_eq_some_iff.mp ends
          rw [List.map_cons, kept, List.map_cons, resolved]

theorem take_succ_cases {α : Type*} {xs : List α} {x : α} (member : x ∈ xs.take (i + 1))
    : x ∈ xs.take i ∨ xs[i]? = some x := by
  rw [List.take_add_one, List.mem_append] at member
  exact member.imp id Option.mem_toList.mp

/-- The two checks at the end of `link_module` find no error. -/
def Validates (host : Host N S E) (l : Loader N S E) (depth m : Nat) (mod : ModuleRecord N S E)
    : Prop :=
  validateIndirectExports depth l.graph m mod.exports = some none
  ∧ validateImports depth l.cache l.graph (host.isTs mod.moduleName) mod.reqModules mod.imports
    = some none

/-- The loop of `link_module` goes past a module. -/
theorem LoaderFits.pass (fits : LoaderFits host l (.link m i :: loops) rest)
    (here : l.cache[m]? = some mod)
    (entered : ∀ d, mod.pointers[i]? = some (some d) → Entered l.cache d)
    : Goes host l { l with frames := .link m (i + 1) :: (loops ++ rest) } True True := by
  have all := fits.loops.links
  obtain ⟨other, found, linking, env, taken⟩ := fits.loops.held _ List.mem_cons_self
  obtain rfl : mod = other := Option.some.inj (here.symm.trans found)
  have moved := fits.loops.tail.push (.link m (i + 1))
    ⟨mod, here, linking, env, fun d member => (take_succ_cases member).elim (taken d) (entered d)⟩
    (.inr fun frame member => by
      rcases List.mem_cons.mp member with rfl | member
      · rfl
      · exact all frame (List.mem_cons_of_mem _ member))
    fits.loops.apart fits.loops.waiting
  exact ⟨⟨.link m (i + 1) :: loops, rest, rfl, fits.cache, moved, fits.runs⟩, Reports.silent rfl,
    fun distinct => iff_of_true distinct trivial⟩

/-- A module that is validated is linked. -/
theorem LoaderFits.finishLink {reqModules : List (ReqModuleEntry S)}
    (fits : LoaderFits host l (.link m i :: loops) rest) (here : l.cache[m]? = some mod)
    (past : mod.reqModules[i]? = none) (kept : reqModules.map ReqModuleEntry.resolved = mod.pointers)
    : Goes host l
        (Loader.returnLinked m true (loops ++ rest) <| l.update m fun mod =>
          { mod with reqModules := reqModules, status := .linked, validated := true })
        (Outermost Frame.isLink (loops ++ rest) → Upright l m) True := by
  obtain ⟨other, found, linking, env, taken⟩ := fits.loops.held _ List.mem_cons_self
  obtain rfl : mod = other := Option.some.inj (here.symm.trans found)
  let change (mod : ModuleRecord N S E) : ModuleRecord N S E :=
    { mod with reqModules := reqModules, status := .linked, validated := true }
  have pointers : (change mod).pointers = mod.pointers := kept
  have turns : Turns l.cache mod (change mod) :=
    ⟨fun d member => .inl (pointers ▸ member), fun _ => .inr rfl, id⟩
  have onward := turns.onward here
  have record := fits.cache.records m mod here
  have few : mod.pointers.length ≤ i := by
    rw [ModuleRecord.pointers, List.length_map]
    exact List.getElem?_eq_none_iff.mp past
  rw [List.take_of_length_le few] at taken
  have cache := fits.cache.modify (loops.map Frame.mod) here turns []
    (fun _ member => absurd member List.not_mem_nil)
    (by
      rw [List.append_nil]
      exact ⟨by simp [change], by simp [change], by simp [change], by simp [change], record.env⟩)
    (fun sound => by
      have old := fits.cache.sound m mod here sound
      refine ⟨by simp [change], fun _ => old.compiles (by simp [linking]), fun _ => ?_,
        fun _ => rfl, fun _ => ⟨env, fun d member => ?_⟩⟩
      · rw [pointers]
        exact old.resolved (by simp [linking])
      · rw [pointers] at member
        exact onward.entered d (taken d member))
    fun k member other => (List.mem_cons.mp member).resolve_left other
  rw [List.append_nil] at cache
  have linked : LoaderFits host (l.update m change) loops rest :=
    ⟨cache, fits.loops.tail.modify here turns fits.loops.apart, fits.runs.onward onward⟩
  have ready : Waits (l.update m change).cache loops :=
    fits.loops.waiting.onward onward fun frame member other found =>
      (modify_other (Ne.symm (fits.loops.apart frame member))).symm.trans found
  have upright : Upright (l.update m change) m ↔ Upright l m :=
    upright_update here (Prod.ext rfl pointers) fun _ =>
      iff_of_true (by simp [linking, ModuleStatus.isPast]) fun _ => rfl
  have goes : Goes host l (Loader.returnLinked m true (loops ++ rest) (l.update m change)) _ True :=
    linked.returnLinked (fun frame member => fits.loops.links frame (List.mem_cons_of_mem _ member))
      ⟨change mod, modify_here here, .inr rfl⟩ ready rfl id
  obtain ⟨upholds, reports, distinct⟩ := goes
  exact ⟨upholds, reports.trans (imp_congr_right fun _ => upright), distinct⟩

/-- The loop of `link_module` goes on, or the module is validated. -/
theorem LoaderFits.nextLink [DecidableEq N] {depth : Nat}
    (fits : LoaderFits host l (.link m i :: loops) rest)
    (frames : l.frames = .link m i :: (loops ++ rest))
    (taken : l.nextLink host memory depth m i (loops ++ rest) = some l')
    : Goes host l l'
        (∀ mod, l.cache[m]? = some mod → mod.reqModules[i]? = none →
          Outermost Frame.isLink (loops ++ rest) → Validates host l depth m mod → Upright l m)
        (∀ mod, l.cache[m]? = some mod → ∀ d, mod.pointers[i]? = some (some d) →
          LinksOnce l memory d) := by
  have all := fits.loops.links
  obtain ⟨mod, here, linking, env, begun⟩ := fits.loops.held _ List.mem_cons_self
  have only {P : ModuleRecord N S E → Prop} : (∀ other, l.cache[m]? = some other → P other) ↔ P mod := by
    simp [here]
  rw [only, only]
  rw [Loader.nextLink, here, Option.bind_some] at taken
  cases next : mod.reqModules[i]? with
  | some req =>
      have pointer : mod.pointers[i]? = some req.resolved := by
        rw [ModuleRecord.pointers, List.getElem?_map, next, Option.map_some]
      simp only [next] at taken
      have noEnd : some req = none → Outermost Frame.isLink (loops ++ rest) →
          Validates host l depth m mod → Upright l m := fun absent => by cases absent
      cases resolved : req.resolved with
      | none =>
          simp only [resolved] at taken
          obtain rfl := Option.some.inj taken
          rw [pointer, resolved]
          refine (fits.pass here fun d required => ?_).always noEnd fun d required => ?_
          · rw [pointer, resolved] at required
            cases Option.some.inj required
          · cases Option.some.inj required
      | some d =>
          simp only [resolved] at taken
          rw [resolved] at pointer
          rw [pointer]
          simp only [Option.some.injEq, forall_eq']
          obtain ⟨dep, found, taken⟩ := Option.bind_eq_some_iff.mp taken
          split at taken
          · rename_i done
            obtain rfl := Option.some.inj taken
            refine (fits.pass here fun c required => ?_).always noEnd ?_
            · obtain rfl : d = c := Option.some.inj (Option.some.inj (pointer.symm.trans required))
              refine ⟨dep, found, .inr ?_⟩
              rcases done with done | done <;> rw [done] <;> rfl
            · refine (linksOnce_iff found).mpr fun errored => ?_
              rcases done with done | done <;> rw [done] at errored <;> cases errored
          · have ready : WaitsBut l.cache (.link m i :: loops) d := by
              intro k j other c member foundOther taken
              rcases List.mem_cons.mp member with same | member
              · cases same
                obtain rfl : mod = other := Option.some.inj (here.symm.trans foundOther)
                rcases take_succ_cases taken with before | last
                · exact .inl (begun c before)
                · exact .inr (Option.some.inj (Option.some.inj (last.symm.trans pointer)))
              · exact .inl (fits.loops.waiting k j other c member foundOther taken)
            have goes : Goes host l l' _ (LinksOnce l memory d) :=
              fits.callLink all frames ready rfl rfl taken
            refine ⟨goes.upholds, goes.reports.trans (iff_of_true (fun outer => ?_) noEnd),
              goes.created⟩
            rw [frames] at outer
            cases outer _ rfl
  | none =>
      simp only [next] at taken
      have noNext : ∀ d, mod.pointers[i]? = some (some d) → LinksOnce l memory d := fun d required => by
        rw [ModuleRecord.pointers, List.getElem?_map, next] at required
        cases required
      have fails (e : LoadError)
          : Goes host l (Loader.returnLinked m false (loops ++ rest) ((l.park host e).fail m)) True
              True :=
        CacheFits.returnFailed (l := l.park host e) fits.cache fits.runs
          (fun frame member => all frame (List.mem_cons_of_mem _ member))
          (List.getElem?_eq_some_iff.mp here).1
          (fun frame member => (fits.loops.held frame (List.mem_cons_of_mem _ member)).inside)
          (fun _ => id) rfl id
      obtain ⟨invalid, exports, taken⟩ := Option.bind_eq_some_iff.mp taken
      cases invalid with
      | some e =>
          obtain rfl := Option.some.inj taken
          refine (fails e).always (fun _ _ validates => ?_) noNext
          rw [validates.1] at exports
          cases exports
      | none =>
          simp only at taken
          obtain ⟨missing, imports, taken⟩ := Option.bind_eq_some_iff.mp taken
          cases missing with
          | some e =>
              obtain rfl := Option.some.inj taken
              refine (fails e).always (fun _ _ validates => ?_) noNext
              rw [validates.2] at imports
              cases imports
          | none =>
              obtain ⟨reqModules, marked, rfl⟩ := Option.map_eq_some_iff.mp taken
              have kept : reqModules.map ReqModuleEntry.resolved = mod.pointers := by
                split at marked
                · exact markTypeOnly_pointers marked
                · rw [← Option.some.inj marked]
                  rfl
              have goes := fits.finishLink here next kept
              refine ⟨goes.upholds, goes.reports.trans ?_, fun nodup =>
                (goes.created nodup).trans (iff_of_true trivial noNext)⟩
              rw [imp_iff_right rfl]
              exact imp_congr_right fun _ => (imp_iff_right ⟨exports, imports⟩).symm

end Boomkat.Correctness
