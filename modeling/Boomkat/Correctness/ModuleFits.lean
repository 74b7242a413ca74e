import Boomkat.Modules.Evaluation
import Boomkat.Foundation.Throughout

/-! What the records of modules and the calls in progress keep to in every run, and when what is
reported of a module is so.
-/

namespace Boomkat.Correctness

open Foundation Modules

variable {N S E : Type*}

section Notions

variable (host : Host N S E) (l : Loader N S E) (cache : List (ModuleRecord N S E))

/-- The module has failed at some time, also before it was put into the cache. -/
def Marred (m : Nat) : Prop :=
  m ∈ l.failed ∨ ∃ mod, l.cache[m]? = some mod ∧ mod.moduleName ∈ l.refused

/-- Neither the module nor one that it requires has failed. -/
def Unfailed (m : Nat) : Prop := Throughout (Requires l.cache) (¬Marred l ·) m

/-- Nor was one of them evaluated before it was validated. -/
def Upright (m : Nat) : Prop :=
  Throughout (Requires l.cache) (fun d => ¬Marred l d
    ∧ ∀ mod, l.cache[d]? = some mod → mod.status.isPast → mod.validated) m

/-- The linking or the evaluation of the module has begun. -/
def Entered (m : Nat) : Prop :=
  ∃ mod, cache[m]? = some mod ∧ (mod.status = .linking ∨ mod.status.isPast)

def HasEnv (m : Nat) : Prop := ∃ mod, cache[m]? = some mod ∧ mod.hasEnv

/-- The parser or the compiler takes the source. -/
def Compiles (mod : ModuleRecord N S E) : Prop :=
  if mod.isJson then host.parsesJson mod.moduleName else (host.compile mod.moduleName).1

/-- What holds of every record. -/
structure RecordFits (created : List Nat) (m : Nat) (mod : ModuleRecord N S E) : Prop where
  status : mod.status ≠ .unloaded
  loading : mod.status = .loading → mod.validated = false
  early : mod.status = .loading ∨ mod.status = .loaded → mod.isJson = false → mod.hasEnv = false
  errored : mod.status = .errored → mod.hasEnv
  env : m ∈ created ↔ mod.hasEnv

/-- What holds of the record of a module that has not failed, where some modules are busy with
calls in progress.
-/
structure SoundFits (busy : List Nat) (m : Nat) (mod : ModuleRecord N S E) : Prop where
  busy : mod.status = .loading ∨ mod.status = .linking → m ∈ busy
  compiles : mod.status ≠ .loading → Compiles host mod
  resolved : mod.status ≠ .loading → none ∉ mod.pointers
  json : mod.isJson → mod.validated
  validated : mod.validated → mod.hasEnv ∧ ∀ d, some d ∈ mod.pointers → Entered cache d

/-- What holds of the cache. -/
structure CacheFits (failed created busy : List Nat) : Prop where
  made : ∀ m ∈ created, m < cache.length
  lost : ∀ m ∈ failed, m < cache.length
  required : ∀ m d, Requires cache m d → d < cache.length
  records : ∀ m mod, cache[m]? = some mod → RecordFits created m mod
  sound : ∀ m mod, cache[m]? = some mod → m ∉ failed → SoundFits host cache busy m mod

/-- What holds of a loop: the modules before the index are resolved or their linking has begun. -/
def LoopFits : Frame → Prop
  | .resolve m i => ∃ mod, cache[m]? = some mod ∧ mod.status = .loading ∧ Compiles host mod
      ∧ none ∉ mod.pointers.take i
  | .link m i => ∃ mod, cache[m]? = some mod ∧ mod.status = .linking ∧ mod.hasEnv
      ∧ ∀ d, some d ∈ mod.pointers.take i → Entered cache d
  | .execute _ _ _ | .body _ _ => False

/-- The linking of the modules that loops wait for has begun. -/
def Waits (loops : List Frame) : Prop :=
  ∀ m i mod d, .link m i ∈ loops → cache[m]? = some mod → some d ∈ mod.pointers.take (i + 1) →
    Entered cache d

/-- What holds of the loops of the call in progress. -/
structure LoopsFit (loops : List Frame) : Prop where
  uniform : (∀ frame ∈ loops, frame.isResolve) ∨ ∀ frame ∈ loops, frame.isLink
  distinct : (loops.map Frame.mod).Nodup
  held : ∀ frame ∈ loops, LoopFits host cache frame
  waiting : Waits cache loops.tail

/-- What holds of the evaluations in progress: their modules have environments. -/
structure RunsFit (frames : List Frame) (pendingFinish : List Nat) (deferredContinue : List (Nat × Nat))
    : Prop where
  frames : ∀ frame ∈ frames, frame.isRun ∧ HasEnv cache frame.mod
  finishing : ∀ m ∈ pendingFinish, HasEnv cache m
  continuing : ∀ m d, (m, d) ∈ deferredContinue → HasEnv cache m

end Notions

/-- What holds of the loader, with the loops of the call in progress and the frames below. -/
structure LoaderFits (host : Host N S E) (l : Loader N S E) (loops rest : List Frame) : Prop where
  cache : CacheFits host l.cache l.failed l.created (loops.map Frame.mod)
  loops : LoopsFit host l.cache loops
  runs : RunsFit l.cache rest l.pendingFinish l.deferredContinue

/-- What is reported of a module is so of each that it requires. -/
def Truthful (host : Host N S E) (l : Loader N S E) : CallResult → Prop
  | .resolved (some m) => Throughout (Requires l.cache) (fun d => ¬Marred l d ∧ ∃ mod,
      l.cache[d]? = some mod ∧ Compiles host mod ∧ none ∉ mod.pointers) m
  | .linked m true => Throughout (Requires l.cache) (fun d => ¬Marred l d ∧ ∃ mod,
      l.cache[d]? = some mod ∧ mod.hasEnv ∧ mod.validated) m
  | .executed m true => Unfailed l m
  | .resolved none | .linked _ false | .executed _ false => True

/-- A step reports nothing, or what is so. -/
def Reports (host : Host N S E) (l l' : Loader N S E) : Prop :=
  l'.results = l.results
  ∨ ∃ result, l'.results = l.results ++ [result] ∧ Truthful host l' result

/-- The records of modules and the calls in progress are as they should be. -/
def Upholds (host : Host N S E) (l : Loader N S E) : Prop :=
  ∃ loops rest, l.frames = loops ++ rest ∧ LoaderFits host l loops rest

/-- What a step comes to: when what it reports is so, and when it creates no environment twice. -/
structure Goes (host : Host N S E) (l l' : Loader N S E) (good once : Prop) : Prop where
  upholds : Upholds host l'
  reports : Reports host l l' ↔ good
  created : l.created.Nodup → (l'.created.Nodup ↔ once)

variable {host : Host N S E} {l l' before : Loader N S E} {loops loops' rest : List Frame}
  {cache cache' : List (ModuleRecord N S E)} {failed created busy busy' : List Nat} {m d i : Nat}
  {mod mod' : ModuleRecord N S E} {frame : Frame} {good once : Prop}

/-- A step that reports nothing. -/
theorem Reports.silent (same : l'.results = l.results) : Reports host l l' ↔ True :=
  iff_of_true (.inl same) trivial

/-- A step that reports one result. -/
theorem Reports.logged {result : CallResult} (logged : l'.results = l.results ++ [result])
    : Reports host l l' ↔ Truthful host l' result := by
  constructor
  · rintro (same | ⟨other, logged', truthful⟩)
    · rw [logged] at same
      simp at same
    · obtain rfl : result = other := by simpa [logged] using logged'
      exact truthful
  · exact fun truthful => .inr ⟨result, logged, truthful⟩

theorem Goes.congr {good' once' : Prop} (goes : Goes host l l' good once) (sameGood : good ↔ good')
    (sameOnce : once ↔ once')
    : Goes host l l' good' once' :=
  ⟨goes.upholds, goes.reports.trans sameGood, fun distinct => (goes.created distinct).trans sameOnce⟩

/-- A step that reports nothing wrong comes to what holds anyway. -/
theorem Goes.always (goes : Goes host l l' True True) (isGood : good) (isOnce : once)
    : Goes host l l' good once :=
  goes.congr (iff_of_true trivial isGood) (iff_of_true trivial isOnce)

theorem requires_iff (here : cache[m]? = some mod) : Requires cache m d ↔ some d ∈ mod.pointers := by
  constructor
  · intro required
    obtain ⟨other, found, member⟩ := required
    obtain rfl : mod = other := Option.some.inj (here.symm.trans found)
    exact member
  · intro member
    exact ⟨mod, here, member⟩

-----------------------------------------------------------------------------------------
-- Reports
-----------------------------------------------------------------------------------------

/-- What is read of a record to tell whether a module has failed, and which it requires. -/
def outline (mod : ModuleRecord N S E) : N × List (Option Nat) := (mod.moduleName, mod.pointers)

/-- The same modules have failed and require the same modules. -/
structure SameOutlines (l l' : Loader N S E) : Prop where
  failed : l'.failed = l.failed
  refused : l'.refused = l.refused
  outlines : ∀ m : Nat, (l'.cache[m]?).map outline = (l.cache[m]?).map outline

theorem SameOutlines.refl (l : Loader N S E) : SameOutlines l l := ⟨rfl, rfl, fun _ => rfl⟩

theorem SameOutlines.trans {l'' : Loader N S E} (first : SameOutlines l l') (second : SameOutlines l' l'')
    : SameOutlines l l'' :=
  ⟨second.failed.trans first.failed, second.refused.trans first.refused,
    fun m => (second.outlines m).trans (first.outlines m)⟩

/-- A record changes of which the name and the pointers stay. -/
theorem SameOutlines.update {change : ModuleRecord N S E → ModuleRecord N S E}
    (kept : ∀ mod, l.cache[m]? = some mod → outline (change mod) = outline mod)
    : SameOutlines l (l.update m change) := by
  refine ⟨rfl, rfl, fun k => ?_⟩
  rw [Loader.update]
  by_cases same : m = k
  · subst same
    rw [List.getElem?_modify_eq]
    cases here : l.cache[m]? with
    | none => rfl
    | some mod => exact congrArg some (kept mod here)
  · rw [List.getElem?_modify_ne _ _ same]

theorem requires_outline
    : Requires cache m d ↔ ∃ shape, (cache[m]?).map outline = some shape ∧ some d ∈ shape.2 := by
  constructor
  · intro required
    obtain ⟨mod, here, member⟩ := required
    exact ⟨outline mod, by rw [here]; rfl, member⟩
  · rintro ⟨shape, found, member⟩
    obtain ⟨mod, here, rfl⟩ := Option.map_eq_some_iff.mp found
    exact ⟨mod, here, member⟩

theorem marred_outline
    : Marred l m ↔ m ∈ l.failed ∨ ∃ shape, (l.cache[m]?).map outline = some shape
      ∧ shape.1 ∈ l.refused := by
  refine or_congr_right ⟨?_, ?_⟩
  · rintro ⟨mod, here, refused⟩
    exact ⟨outline mod, by rw [here]; rfl, refused⟩
  · rintro ⟨shape, found, refused⟩
    obtain ⟨mod, here, rfl⟩ := Option.map_eq_some_iff.mp found
    exact ⟨mod, here, refused⟩

theorem SameOutlines.requires_iff (outlined : SameOutlines l l')
    : Requires l.cache m d ↔ Requires l'.cache m d := by
  rw [requires_outline, requires_outline, outlined.outlines]

theorem SameOutlines.marred_iff (outlined : SameOutlines l l') : Marred l m ↔ Marred l' m := by
  rw [marred_outline, marred_outline, outlined.outlines, outlined.failed, outlined.refused]

theorem SameOutlines.unfailed_iff (outlined : SameOutlines l l') : Unfailed l m ↔ Unfailed l' m :=
  throughout_congr (fun _ _ => outlined.requires_iff) fun _ => not_congr outlined.marred_iff

/-- What holds where no call is in progress: what is resolved is loaded. -/
theorem LoaderFits.resolved_iff (fits : LoaderFits host l [] rest) (inside : m < l.cache.length)
    : Truthful host l (.resolved (some m)) ↔ Unfailed l m := by
  constructor
  · exact fun truthful => truthful.mono fun _ => And.left
  · intro sound
    refine Throughout.of_closed (Q := fun b => Unfailed l b ∧ b < l.cache.length) ?_ ⟨sound, inside⟩
    rintro b ⟨sound, inside⟩
    have here := List.getElem?_eq_getElem inside
    have record := fits.cache.sound b _ here fun failed => sound.self (.inl failed)
    have done : l.cache[b].status ≠ .loading := fun loading =>
      absurd (record.busy (.inl loading)) List.not_mem_nil
    exact ⟨⟨sound.self, _, here, record.compiles done, record.resolved done⟩,
      fun c required => ⟨sound.next required, fits.cache.required b c required⟩⟩

/-- What holds where no call is in progress: what is linked has an environment and was validated. -/
theorem LoaderFits.linked_iff (fits : LoaderFits host l [] rest) (entered : Entered l.cache m)
    : Truthful host l (.linked m true) ↔ Upright l m := by
  constructor
  · refine fun truthful => truthful.mono fun b ⟨sound, mod, here, _, validated⟩ =>
      ⟨sound, fun other found _ => ?_⟩
    obtain rfl : mod = other := Option.some.inj (here.symm.trans found)
    exact validated
  · intro upright
    refine Throughout.of_closed (Q := fun b => Upright l b ∧ Entered l.cache b) ?_ ⟨upright, entered⟩
    rintro b ⟨upright, mod, here, begun⟩
    have record := fits.cache.sound b mod here fun failed => upright.self.1 (.inl failed)
    have past : mod.status.isPast := begun.resolve_left fun linking =>
      absurd (record.busy (.inr linking)) List.not_mem_nil
    have validated := upright.self.2 mod here past
    obtain ⟨env, below⟩ := record.validated validated
    refine ⟨⟨upright.self.1, mod, here, env, validated⟩, fun c required => ?_⟩
    exact ⟨upright.next required, below c ((requires_iff here).mp required)⟩

-----------------------------------------------------------------------------------------
-- One record changes
-----------------------------------------------------------------------------------------

variable {change : ModuleRecord N S E → ModuleRecord N S E}

theorem modify_here (here : cache[m]? = some mod) : (cache.modify m change)[m]? = some (change mod) := by
  rw [List.getElem?_modify_eq, here]
  rfl

theorem modify_other {k : Nat} (apart : m ≠ k) : (cache.modify m change)[k]? = cache[k]? :=
  List.getElem?_modify_ne change cache apart

/-- What no step undoes. -/
structure Onward (cache cache' : List (ModuleRecord N S E)) : Prop where
  entered : ∀ m, Entered cache m → Entered cache' m
  env : ∀ m, HasEnv cache m → HasEnv cache' m

/-- What a change of a record keeps. -/
structure Turns (cache : List (ModuleRecord N S E)) (mod mod' : ModuleRecord N S E) : Prop where
  required : ∀ d, some d ∈ mod'.pointers → some d ∈ mod.pointers ∨ d < cache.length
  entered : mod.status = .linking ∨ mod.status.isPast → mod'.status = .linking ∨ mod'.status.isPast
  env : mod.hasEnv → mod'.hasEnv

theorem Turns.onward (turns : Turns cache mod (change mod)) (here : cache[m]? = some mod)
    : Onward cache (cache.modify m change) := by
  constructor
  · intro b entered
    obtain ⟨other, found, status⟩ := entered
    by_cases same : m = b
    · subst same
      obtain rfl : mod = other := Option.some.inj (here.symm.trans found)
      exact ⟨change mod, modify_here here, turns.entered status⟩
    · exact ⟨other, (modify_other same).trans found, status⟩
  · intro b env
    obtain ⟨other, found, env⟩ := env
    by_cases same : m = b
    · subst same
      obtain rfl : mod = other := Option.some.inj (here.symm.trans found)
      exact ⟨change mod, modify_here here, turns.env env⟩
    · exact ⟨other, (modify_other same).trans found, env⟩

theorem RunsFit.onward {frames : List Frame} {pendingFinish : List Nat}
    {deferredContinue : List (Nat × Nat)} (fits : RunsFit cache frames pendingFinish deferredContinue)
    (onward : Onward cache cache')
    : RunsFit cache' frames pendingFinish deferredContinue :=
  ⟨fun frame member => ⟨(fits.frames frame member).1, onward.env _ (fits.frames frame member).2⟩,
    fun m member => onward.env m (fits.finishing m member),
    fun m d member => onward.env m (fits.continuing m d member)⟩

theorem SoundFits.onward (fits : SoundFits host cache busy m mod) (onward : Onward cache cache')
    (kept : m ∈ busy → m ∈ busy')
    : SoundFits host cache' busy' m mod where
  busy inProgress := kept (fits.busy inProgress)
  compiles := fits.compiles
  resolved := fits.resolved
  json := fits.json
  validated validated :=
    let ⟨env, below⟩ := fits.validated validated
    ⟨env, fun d member => onward.entered d (below d member)⟩

/-- The record of a module changes, which may get an environment. -/
theorem CacheFits.modify (fits : CacheFits host cache failed created busy) (busy' : List Nat)
    (here : cache[m]? = some mod) (turns : Turns cache mod (change mod)) (more : List Nat)
    (made : ∀ k ∈ more, k = m)
    (record : RecordFits (created ++ more) m (change mod))
    (sound : m ∉ failed → SoundFits host (cache.modify m change) busy' m (change mod))
    (kept : ∀ k ∈ busy, k ≠ m → k ∈ busy')
    : CacheFits host (cache.modify m change) failed (created ++ more) busy' := by
  have onward := turns.onward here
  have inside := (List.getElem?_eq_some_iff.mp here).1
  refine ⟨?_, ?_, ?_, ?_, ?_⟩
  · intro k member
    rw [List.length_modify]
    rcases List.mem_append.mp member with old | new
    · exact fits.made k old
    · exact made k new ▸ inside
  · intro k member
    rw [List.length_modify]
    exact fits.lost k member
  · intro b c required
    rw [List.length_modify]
    by_cases same : m = b
    · subst same
      rcases turns.required c ((requires_iff (modify_here here)).mp required) with old | inside
      · exact fits.required m c ⟨mod, here, old⟩
      · exact inside
    · obtain ⟨other, found, member⟩ := required
      exact fits.required b c ⟨other, (modify_other same).symm.trans found, member⟩
  · intro k other found
    by_cases same : m = k
    · subst same
      obtain rfl : change mod = other := Option.some.inj ((modify_here here).symm.trans found)
      exact record
    · obtain ⟨status, loading, early, errored, env⟩ :=
        fits.records k other ((modify_other same).symm.trans found)
      refine ⟨status, loading, early, errored, ?_⟩
      rw [List.mem_append, or_iff_left fun new => same (made k new).symm]
      exact env
  · intro k other found notFailed
    by_cases same : m = k
    · subst same
      obtain rfl : change mod = other := Option.some.inj ((modify_here here).symm.trans found)
      exact sound notFailed
    · have old := fits.sound k other ((modify_other same).symm.trans found) notFailed
      exact old.onward onward fun inProgress => kept k inProgress (Ne.symm same)

/-- The modules with calls in progress fail, and others. -/
theorem CacheFits.fail (fits : CacheFits host cache failed created busy) (lost : List Nat)
    (covers : ∀ k ∈ busy, k ∈ lost) (inside : ∀ k ∈ lost, k < cache.length)
    : CacheFits host cache (failed ++ lost) created [] := by
  refine ⟨fits.made, fun k member => ?_, fits.required, fits.records, fun k mod here sound => ?_⟩
  · exact (List.mem_append.mp member).elim (fits.lost k) (inside k)
  · rw [List.mem_append, not_or] at sound
    refine (fits.sound k mod here sound.1).onward ⟨fun _ => id, fun _ => id⟩ fun inProgress => ?_
    exact absurd (covers k inProgress) sound.2

-----------------------------------------------------------------------------------------
-- The loops
-----------------------------------------------------------------------------------------

theorem LoopFits.inside (held : LoopFits host cache frame) : frame.mod < cache.length := by
  cases frame with
  | resolve k i =>
      obtain ⟨mod, here, -⟩ := held
      exact (List.getElem?_eq_some_iff.mp here).1
  | link k i =>
      obtain ⟨mod, here, -⟩ := held
      exact (List.getElem?_eq_some_iff.mp here).1
  | execute k i asyncDep => exact held.elim
  | body k deferred => exact held.elim

/-- A loop whose own record is kept goes on as before. -/
theorem LoopFits.onward (held : LoopFits host cache frame) (onward : Onward cache cache')
    (kept : ∀ mod, cache[frame.mod]? = some mod → cache'[frame.mod]? = some mod)
    : LoopFits host cache' frame := by
  cases frame with
  | resolve k i =>
      obtain ⟨mod, here, held⟩ := held
      exact ⟨mod, kept mod here, held⟩
  | link k i =>
      obtain ⟨mod, here, status, env, entered⟩ := held
      exact ⟨mod, kept mod here, status, env, fun d member => onward.entered d (entered d member)⟩
  | execute k i asyncDep => exact held
  | body k deferred => exact held

theorem Waits.onward (waits : Waits cache loops) (onward : Onward cache cache')
    (kept : ∀ frame ∈ loops, ∀ mod, cache'[frame.mod]? = some mod → cache[frame.mod]? = some mod)
    : Waits cache' loops :=
  fun m i mod d member found taken =>
    onward.entered d (waits m i mod d member (kept _ member mod found) taken)

theorem LoopsFit.nil : LoopsFit host cache [] :=
  ⟨.inl fun _ member => absurd member List.not_mem_nil, List.nodup_nil,
    fun _ member => absurd member List.not_mem_nil, fun _ _ _ _ member => absurd member List.not_mem_nil⟩

theorem LoopsFit.tail (fits : LoopsFit host cache (frame :: loops)) : LoopsFit host cache loops := by
  refine ⟨?_, (List.nodup_cons.mp fits.distinct).2,
    fun other member => fits.held other (List.mem_cons_of_mem _ member),
    fun m i mod d member => fits.waiting m i mod d (List.mem_of_mem_tail member)⟩
  rcases fits.uniform with all | all
  · exact .inl fun other member => all other (List.mem_cons_of_mem _ member)
  · exact .inr fun other member => all other (List.mem_cons_of_mem _ member)

theorem LoopsFit.apart (fits : LoopsFit host cache (frame :: loops))
    : ∀ other ∈ loops, other.mod ≠ frame.mod :=
  fun other member same =>
    (List.nodup_cons.mp fits.distinct).1 (List.mem_map.mpr ⟨other, member, same⟩)

theorem LoopsFit.resolves (fits : LoopsFit host cache (.resolve m i :: loops))
    : ∀ frame ∈ Frame.resolve m i :: loops, frame.isResolve := by
  rcases fits.uniform with all | all
  · exact all
  · cases all _ List.mem_cons_self

theorem LoopsFit.links (fits : LoopsFit host cache (.link m i :: loops))
    : ∀ frame ∈ Frame.link m i :: loops, frame.isLink := by
  rcases fits.uniform with all | all
  · cases all _ List.mem_cons_self
  · exact all

/-- The record of a module without a loop changes. -/
theorem LoopsFit.modify (fits : LoopsFit host cache loops) (here : cache[m]? = some mod)
    (turns : Turns cache mod (change mod)) (apart : ∀ frame ∈ loops, frame.mod ≠ m)
    : LoopsFit host (cache.modify m change) loops := by
  have onward := turns.onward here
  refine ⟨fits.uniform, fits.distinct, fun frame member => ?_, ?_⟩
  · exact (fits.held frame member).onward onward fun other found =>
      (modify_other (Ne.symm (apart frame member))).trans found
  · exact fits.waiting.onward onward fun frame member other found =>
      (modify_other (Ne.symm (apart frame (List.mem_of_mem_tail member)))).symm.trans found

/-- A loop is put above those that wait for it. -/
theorem LoopsFit.push (fits : LoopsFit host cache loops) (frame : Frame)
    (held : LoopFits host cache frame)
    (outlined : (∀ other ∈ frame :: loops, other.isResolve) ∨ ∀ other ∈ frame :: loops, other.isLink)
    (apart : ∀ other ∈ loops, other.mod ≠ frame.mod) (waits : Waits cache loops)
    : LoopsFit host cache (frame :: loops) := by
  refine ⟨outlined, List.nodup_cons.mpr ⟨fun member => ?_, fits.distinct⟩, fun other member => ?_, waits⟩
  · obtain ⟨other, member, same⟩ := List.mem_map.mp member
    exact apart other member same
  · rcases List.mem_cons.mp member with rfl | member
    · exact held
    · exact fits.held other member

/-- Loops of resolution wait for no linking. -/
theorem waits_of_resolve (all : ∀ frame ∈ loops, frame.isResolve) : Waits cache loops :=
  fun _ _ _ _ member => by cases all _ member

-----------------------------------------------------------------------------------------
-- The outermost call
-----------------------------------------------------------------------------------------

/-- No loop of the kind waits for the call. -/
def Outermost (kind : Frame → Bool) (frames : List Frame) : Prop :=
  ∀ frame, frames.head? = some frame → kind frame = false

theorem outermost_iff {kind : Frame → Bool} (all : ∀ frame ∈ loops, kind frame)
    (below : ∀ frame ∈ rest, kind frame = false)
    : Outermost kind (loops ++ rest) ↔ loops = [] := by
  cases loops with
  | nil =>
      refine iff_of_true (fun frame top => below frame ?_) rfl
      exact List.mem_of_mem_head? top
  | cons frame loops =>
      refine iff_of_false (fun outermost => ?_) (List.cons_ne_nil _ _)
      have waits := outermost frame rfl
      rw [all frame List.mem_cons_self] at waits
      cases waits

theorem isRun_cases (run : frame.isRun) : frame.isResolve = false ∧ frame.isLink = false := by
  cases frame with
  | resolve k i => cases run
  | link k i => cases run
  | execute k i asyncDep => exact ⟨rfl, rfl⟩
  | body k deferred => exact ⟨rfl, rfl⟩

theorem isResolve_cases (resolving : frame.isResolve) : ∃ k i, frame = .resolve k i := by
  cases frame with
  | resolve k i => exact ⟨k, i, rfl⟩
  | link k i => cases resolving
  | execute k i asyncDep => cases resolving
  | body k deferred => cases resolving

theorem isLink_cases (linking : frame.isLink) : ∃ k i, frame = .link k i := by
  cases frame with
  | link k i => exact ⟨k, i, rfl⟩
  | resolve k i => cases linking
  | execute k i asyncDep => cases linking
  | body k deferred => cases linking

end Boomkat.Correctness
