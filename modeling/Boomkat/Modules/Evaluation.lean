import Boomkat.Modules.Loader

/-! The evaluation of modules, and the steps of the loader: outermost calls, loops that go on, bodies
that end and reactions that run.
-/

namespace Boomkat.Modules

variable {N S E : Type*} (l : Loader N S E) (host : Host N S E)

-----------------------------------------------------------------------------------------
-- The ends of evaluations
-----------------------------------------------------------------------------------------

def Loader.isPending (m : Nat) : Bool :=
  match (l.cache[m]?).bind ModuleRecord.evalPromise with
  | some .pending => true
  | _ => false

/-- `module_ensure_eval_promise` -/
def Loader.ensureEvalPromise (m : Nat) : Loader N S E :=
  l.update m fun mod => { mod with evalPromise := mod.evalPromise.or (some .pending) }

/-- `module_settle_eval_promise`. A promise that is not pending stays as it is. -/
def settleEvalPromise (mod : ModuleRecord N S E) (state : PromiseState E) : ModuleRecord N S E :=
  match mod.evalPromise with
  | some .pending => { mod with evalPromise := some state }
  | _ => mod

/-- `module_record_eval_error`, with what is parked in the error channel. The first error is kept. -/
def Loader.recordEvalError [Inhabited E] (m : Nat) : Loader N S E :=
  l.update m fun mod =>
    let evalError := mod.evalError.getD (l.error.getD default)
    settleEvalPromise { mod with status := .errored, evalError := some evalError }
      (.rejected evalError)

def Loader.evaluated (m : Nat) : Loader N S E :=
  l.update m fun mod => settleEvalPromise { mod with status := .evaluated } .fulfilled

/-- The module that one waits for that depends on a module: the root of its cycle, or itself. -/
def Loader.waitOn (m d : Nat) : Nat :=
  match (l.cache[d]?).bind ModuleRecord.cycleRoot with
  | some root => if root = m then d else root
  | none => d

/-- A call of `execute_module` returns to the loop that made it, which ends where it failed. -/
def Loader.returnExecuted [Inhabited E] (m : Nat) (ok : Bool)
    : List Frame → Loader N S E → Loader N S E
  | .execute parent i asyncDep :: frames, l =>
      if ok then
        let root := l.waitOn parent m
        let asyncDep := if l.isPending root then some root else asyncDep
        { l with frames := .execute parent (i + 1) asyncDep :: frames }
      else Loader.returnExecuted parent false frames (l.recordEvalError parent)
  | frames, l => { l with frames := frames }.log (.executed m ok)

-----------------------------------------------------------------------------------------
-- Evaluation
-----------------------------------------------------------------------------------------

/-- `execute_module` up to its loop over the modules that are required. -/
def Loader.callExecute [Inhabited E] (memory : Memory) (m : Nat) : Option (Loader N S E) :=
  (l.cache[m]?).map fun mod =>
    match mod.status with
    | .evaluated | .evaluating => Loader.returnExecuted m true l.frames l
    | .errored => Loader.returnExecuted m false l.frames { l with error := mod.evalError }
    | .unloaded | .loading | .loaded | .linking | .linked =>
        if mod.isJson then Loader.returnExecuted m true l.frames (l.setStatus m .evaluated)
        else
          let l := l.setStatus m .evaluating
          if mod.hasEnv then l.push (.execute m 0 none)
          else if ¬memory.env then Loader.returnExecuted m false l.frames l
          else (l.createEnv m).push (.execute m 0 none)

/-- `module_execute_continue` up to the body. Without a body the module is evaluated. -/
def Loader.continueExecute [Inhabited E] (m : Nat) (deferred : Bool) (frames : List Frame)
    : Option (Loader N S E) :=
  (l.cache[m]?).map fun mod =>
    if mod.func then { l with frames := .body m deferred :: frames, bodies := l.bodies ++ [m] }
    else if deferred then { l with frames := frames }.evaluated m
    else Loader.returnExecuted m true frames (l.evaluated m)

/-- The loop of `execute_module` goes on. At its end the module waits for the last dependency that was
pending, or runs.
-/
def Loader.nextExecute [Inhabited E] (memory : Memory) (m i : Nat) (asyncDep : Option Nat)
    (frames : List Frame)
    : Option (Loader N S E) :=
  (l.cache[m]?).bind fun mod =>
    match mod.reqModules[i]? with
    | some req =>
        let next := { l with frames := .execute m (i + 1) asyncDep :: frames }
        match req.resolved with
        | none => some next
        | some d =>
            if req.typeOnly then some next
            else
              (l.cache[d]?).bind fun dep =>
                let backEdge := dep.status = .evaluating ∧ dep.evalPromise.isNone
                let l := if backEdge then
                    l.update m fun mod => { mod with cycleRoot := some d }
                  else l
                if dep.status = .evaluated then some next else l.callExecute memory d
    | none =>
        match asyncDep with
        | some d =>
            let l := (l.ensureEvalPromise d).ensureEvalPromise m
            some (Loader.returnExecuted m true frames
              { l with deferredContinue := l.deferredContinue ++ [(m, d)] })
        | none => l.continueExecute m false frames

/-- What the body of a module comes to. -/
inductive BodyEnd (E : Type*) where
  | done
  | thrown (e : E)
  | suspended

/-- The end of `module_execute_continue`. -/
def Loader.endBody [Inhabited E] (m : Nat) (deferred : Bool) (frames : List Frame)
    (bodyEnd : BodyEnd E)
    : Loader N S E :=
  let (ok, l) := match bodyEnd with
    | .done => (true, l.evaluated m)
    | .thrown e => (false, { l with error := some e }.recordEvalError m)
    | .suspended =>
        let l := l.ensureEvalPromise m
        (true, { l with pendingFinish := l.pendingFinish ++ [m] })
  if deferred then { l with frames := frames } else Loader.returnExecuted m ok frames l

/-- `module_pending_finish_run`, with the reason where the promise of the body was rejected. -/
def Loader.pendingFinishRun [Inhabited E] (m : Nat) (reason : Option E) : Option (Loader N S E) :=
  (l.cache[m]?).map fun mod =>
    if mod.status = .evaluated ∨ mod.status = .errored then l
    else
      match reason with
      | none => l.evaluated m
      | some e => { { l with error := some e }.recordEvalError m with error := none }

/-- `module_deferred_continue_run`, when the promise of the dependency is settled. -/
def Loader.deferredContinueRun [Inhabited E] (m d : Nat) : Option (Loader N S E) :=
  (l.cache[m]?).bind fun mod =>
    match (l.cache[d]?).bind ModuleRecord.evalPromise with
    | some .fulfilled =>
        if mod.status = .evaluating then l.continueExecute m true l.frames else some l
    | some (.rejected e) =>
        if mod.status = .evaluating then
          some { { l with error := some e }.recordEvalError m with error := none }
        else some l
    | some .pending | none => none

-----------------------------------------------------------------------------------------
-- Steps
-----------------------------------------------------------------------------------------

/-- Calls from outside the loader or from a body or a job, and steps of the calls in progress. -/
inductive LoadEvent (N S E : Type*) where
  | resolve (base : Option N) (specifier : S) (wantsJson : Bool) (memory : Memory)
  | link (mod : Nat) (memory : Memory)
  | execute (mod : Nat) (memory : Memory)
  | next (memory : Memory) (depth : Nat)
  | endBody (bodyEnd : BodyEnd E)
  | pendingFinish (mod : Nat) (reason : Option E)
  | deferredContinue (mod dep : Nat)

/-- Code of scripts runs: a body does, or nothing. -/
def Loader.atCode : Bool :=
  match l.frames with
  | [] | .body _ _ :: _ => true
  | _ => false

def Loader.step [DecidableEq N] [Inhabited E] (host : Host N S E) (l : Loader N S E)
    : LoadEvent N S E → Option (Loader N S E)
  | .resolve base specifier wantsJson memory =>
      if l.atCode then
        some ({ l with error := none }.callResolve host memory base specifier wantsJson)
      else none
  | .link m memory => if l.atCode then { l with error := none }.callLink memory m else none
  | .execute m memory => if l.atCode then { l with error := none }.callExecute memory m else none
  | .next memory depth =>
      match l.frames with
      | .resolve m i :: frames => l.nextResolve host memory m i frames
      | .link m i :: frames => l.nextLink host memory depth m i frames
      | .execute m i asyncDep :: frames => l.nextExecute memory m i asyncDep frames
      | .body _ _ :: _ | [] => none
  | .endBody bodyEnd =>
      match l.frames with
      | .body m deferred :: frames => some (l.endBody m deferred frames bodyEnd)
      | _ => none
  | .pendingFinish m reason =>
      if l.atCode ∧ m ∈ l.pendingFinish then
        { l with pendingFinish := l.pendingFinish.erase m }.pendingFinishRun m reason
      else none
  | .deferredContinue m d =>
      if l.atCode ∧ (m, d) ∈ l.deferredContinue then
        { l with deferredContinue := l.deferredContinue.erase (m, d) }.deferredContinueRun m d
      else none

end Boomkat.Modules
