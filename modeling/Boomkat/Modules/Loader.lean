import Boomkat.Modules.ResolveExport

/-! The module loader: modules are resolved, linked and evaluated by calls that go down the modules
that a module requires. The calls in progress are a stack of loops, and bodies that run may make
further calls.
-/

namespace Boomkat.Modules

-----------------------------------------------------------------------------------------
-- Module records
-----------------------------------------------------------------------------------------

inductive ModuleStatus where
  | unloaded
  | loading
  | loaded
  | linking
  | linked
  | evaluating
  | evaluated
  | errored
  deriving DecidableEq

/-- Linked, or further. -/
def ModuleStatus.isPast : ModuleStatus → Bool
  | .linked | .evaluating | .evaluated | .errored => true
  | .unloaded | .loading | .loaded | .linking => false

structure ImportEntry where
  importName : String
  reqModuleIdx : Nat
  isStar : Bool

/-- A module that is required. Where it is resolved it has its place in the cache. -/
structure ReqModuleEntry (S : Type*) where
  moduleName : S
  resolved : Option Nat
  wantsJson : Bool
  typeOnly : Bool

/-- What the compiler fills in, also before it fails: a module that is required has its specifier and
whether it is wanted as JSON.
-/
structure Metadata (S : Type*) where
  imports : List ImportEntry
  exports : List ExportEntry
  starExports : List Nat
  reqModules : List (S × Bool)

inductive PromiseState (E : Type*) where
  | pending
  | fulfilled
  | rejected (reason : E)

/-- A `ModuleDef` of the cache. Whether its imports and indirect exports were found right is kept
for what is said about it.
-/
structure ModuleRecord (N S E : Type*) where
  moduleName : N
  status : ModuleStatus
  imports : List ImportEntry
  exports : List ExportEntry
  starExports : List Nat
  reqModules : List (ReqModuleEntry S)
  func : Bool
  hasEnv : Bool
  isJson : Bool
  evalError : Option E
  evalPromise : Option (PromiseState E)
  cycleRoot : Option Nat
  validated : Bool

variable {N S E : Type*}

def ModuleRecord.new (name : N) : ModuleRecord N S E :=
  ⟨name, .loading, [], [], [], [], false, false, false, none, none, none, false⟩

/-- The record after the compiler, which makes a body only if it does not fail. -/
def ModuleRecord.withMetadata (mod : ModuleRecord N S E) (compiled : Bool) (metadata : Metadata S)
    : ModuleRecord N S E :=
  { mod with
    imports := metadata.imports
    exports := metadata.exports
    starExports := metadata.starExports
    reqModules := metadata.reqModules.map fun (moduleName, wantsJson) =>
      ⟨moduleName, none, wantsJson, false⟩
    func := compiled }

/-- Where the modules that a module requires have their places. -/
def ModuleRecord.pointers (mod : ModuleRecord N S E) : List (Option Nat) :=
  mod.reqModules.map ReqModuleEntry.resolved

/-- A module requires another one, which it has found. -/
def Requires (cache : List (ModuleRecord N S E)) (m d : Nat) : Prop :=
  ∃ mod, cache[m]? = some mod ∧ some d ∈ mod.pointers

/-- What of a record export resolution reads. -/
def ModuleRecord.toModuleDef (mod : ModuleRecord N S E) : ModuleDef Nat :=
  ⟨mod.exports, mod.starExports, mod.pointers⟩

/-- The errors that the loader makes itself. -/
inductive LoadError where
  | compile
  | json
  | reexport (exportName : String)
  | missingJsonExport
  | missingExport (importName : String)
  deriving DecidableEq

/-- The host: the names that specifiers come to, from a module or from none, the sources that can be
read, and what the parser and the compiler make of them.
-/
structure Host (N S E : Type*) where
  resolveName : Option N → S → Option N
  readSource : N → Bool
  parsesJson : N → Bool
  compile : N → Bool × Metadata S
  isTs : N → Bool
  syntaxError : LoadError → E

-----------------------------------------------------------------------------------------
-- The state of the loader
-----------------------------------------------------------------------------------------

/-- A loop over the modules that a module requires, with the index of the next one, or a body that
runs. The evaluation of a module has the dependency to wait for.
-/
inductive Frame where
  | resolve (mod i : Nat)
  | link (mod i : Nat)
  | execute (mod i : Nat) (asyncDep : Option Nat)
  | body (mod : Nat) (deferred : Bool)

def Frame.mod : Frame → Nat
  | .resolve m _ | .link m _ | .execute m _ _ | .body m _ => m

def Frame.isResolve : Frame → Bool
  | .resolve _ _ => true
  | _ => false

def Frame.isLink : Frame → Bool
  | .link _ _ => true
  | _ => false

def Frame.isExecute : Frame → Bool
  | .execute _ _ _ => true
  | _ => false

/-- Of an evaluation. -/
def Frame.isRun : Frame → Bool
  | .execute _ _ _ | .body _ _ => true
  | _ => false

/-- What an outermost call comes to. -/
inductive CallResult where
  | resolved (mod : Option Nat)
  | linked (mod : Nat) (ok : Bool)
  | executed (mod : Nat) (ok : Bool)
  deriving DecidableEq

/-- The loader, with the error channel of the heap and the reactions to promises that are attached:
to the end of a body, and of a module for one that waits. Which modules have failed, which were not
put into the cache since they could not be read, and for which an environment was created is kept for
what is said about it.
-/
structure Loader (N S E : Type*) where
  cache : List (ModuleRecord N S E)
  frames : List Frame
  error : Option E
  pendingFinish : List Nat
  deferredContinue : List (Nat × Nat)
  results : List CallResult
  failed : List Nat
  refused : List N
  created : List Nat
  bodies : List Nat

def Loader.new : Loader N S E := ⟨[], [], none, [], [], [], [], [], [], []⟩

/-- Whether there is memory for a record and for an environment. -/
structure Memory where
  record : Bool
  env : Bool

variable (l : Loader N S E) (host : Host N S E)

def Loader.push (frame : Frame) : Loader N S E := { l with frames := frame :: l.frames }

def Loader.update (m : Nat) (change : ModuleRecord N S E → ModuleRecord N S E) : Loader N S E :=
  { l with cache := l.cache.modify m change }

def Loader.setStatus (m : Nat) (status : ModuleStatus) : Loader N S E :=
  l.update m fun mod => { mod with status := status }

def Loader.park (e : LoadError) : Loader N S E := { l with error := some (host.syntaxError e) }

def Loader.fail (m : Nat) : Loader N S E := { l with failed := l.failed ++ [m] }

/-- The module gets an environment. -/
def Loader.createEnv (m : Nat) : Loader N S E :=
  { l.update m fun mod => { mod with hasEnv := true } with created := l.created ++ [m] }

def Loader.log (result : CallResult) : Loader N S E := { l with results := l.results ++ [result] }

/-- The records, for export resolution. -/
def Loader.graph (m : Nat) : ModuleDef Nat :=
  match l.cache[m]? with
  | some mod => mod.toModuleDef
  | none => ⟨[], [], []⟩

variable [DecidableEq N]

/-- `heap_find_loaded_module` -/
def Loader.find (name : N) : Option Nat :=
  l.cache.findIdx? fun mod => decide (mod.moduleName = name)

-----------------------------------------------------------------------------------------
-- Resolution
-----------------------------------------------------------------------------------------

/-- A call of `resolve_module` returns to the loop that made it, which ends where it failed. -/
def Loader.returnResolved (result : Option Nat) : List Frame → Loader N S E → Loader N S E
  | .resolve m i :: frames, l =>
      match result with
      | some d =>
          { l.update m fun mod =>
              { mod with reqModules := mod.reqModules.modify i fun req =>
                { req with resolved := some d } } with frames := .resolve m (i + 1) :: frames }
      | none => Loader.returnResolved none frames (l.fail m)
  | frames, l => { l with frames := frames }.log (.resolved result)

/-- A module that is in the cache fails to load. -/
def Loader.failLoad (m : Nat) : Loader N S E := Loader.returnResolved none l.frames (l.fail m)

/-- `resolve_module` up to its loop over the modules that are required. -/
def Loader.callResolve (memory : Memory) (base : Option N) (specifier : S) (wantsJson : Bool)
    : Loader N S E :=
  match host.resolveName base specifier with
  | none => Loader.returnResolved none l.frames l
  | some normalized =>
      match l.find normalized with
      | some cached => Loader.returnResolved (some cached) l.frames l
      | none =>
          if ¬host.readSource normalized ∨ ¬memory.record then
            Loader.returnResolved none l.frames { l with refused := l.refused ++ [normalized] }
          else
            let m := l.cache.length
            let l := { l with cache := l.cache ++ [ModuleRecord.new normalized] }
            if wantsJson then
              if ¬host.parsesJson normalized then (l.park host .json).failLoad m
              else
                -- The sole export is `default`, and the environment is made here.
                let l := l.update m fun mod =>
                  { mod with isJson := true, exports := [⟨"default", "default", false, 0⟩] }
                if ¬memory.env then l.failLoad m
                else
                  let l := (l.createEnv m).update m fun mod =>
                    { mod with status := .loaded, validated := true }
                  Loader.returnResolved (some m) l.frames l
            else
              let (compiled, metadata) := host.compile normalized
              let l := l.update m fun mod => mod.withMetadata compiled metadata
              if ¬compiled then (l.park host .compile).failLoad m else l.push (.resolve m 0)

/-- The loop of `resolve_module` goes on. -/
def Loader.nextResolve (memory : Memory) (m i : Nat) (frames : List Frame) : Option (Loader N S E) :=
  (l.cache[m]?).map fun mod =>
    match mod.reqModules[i]? with
    | some req => l.callResolve host memory (some mod.moduleName) req.moduleName req.wantsJson
    | none => Loader.returnResolved (some m) frames (l.setStatus m .loaded)

-----------------------------------------------------------------------------------------
-- Linking
-----------------------------------------------------------------------------------------

/-- `validate_indirect_exports`, where export resolution returns, with the error it raises. -/
def validateIndirectExports (depth : Nat) (graph : Nat → ModuleDef Nat) (m : Nat)
    : List ExportEntry → Option (Option LoadError)
  | [] => some none
  | entry :: entries =>
      if ¬entry.isIndirect then validateIndirectExports depth graph m entries
      else
        (resolveExport graph depth m entry.exportName []).bind fun
          | .resolved _ _ => validateIndirectExports depth graph m entries
          | .null | .ambiguous => some (some (.reexport entry.exportName))

/-- `validate_imports`, where export resolution returns, with the error it raises. -/
def validateImports (depth : Nat) (cache : List (ModuleRecord N S E)) (graph : Nat → ModuleDef Nat)
    (isTs : Bool) (reqModules : List (ReqModuleEntry S))
    : List ImportEntry → Option (Option LoadError)
  | [] => some none
  | entry :: entries =>
      let rest := validateImports depth cache graph isTs reqModules entries
      if entry.isStar then rest
      else
        match (reqModules[entry.reqModuleIdx]?).bind ReqModuleEntry.resolved with
        | none => rest
        | some source =>
            if (cache[source]?).any ModuleRecord.isJson then
              if entry.importName ≠ "default" then some (some .missingJsonExport) else rest
            else
              (resolveExport graph depth source entry.importName []).bind fun
                | .resolved _ _ => rest
                | .null | .ambiguous =>
                    -- The name may be one of a type, which is erased.
                    if isTs then rest else some (some (.missingExport entry.importName))

/-- Whether all of the imports from a module are names of types, which are erased. -/
def allElided (depth : Nat) (graph : Nat → ModuleDef Nat) (d : Nat) : List ImportEntry → Option Bool
  | [] => some true
  | entry :: entries =>
      (allElided depth graph d entries).bind fun rest =>
        if entry.isStar then some false
        else
          (resolveExport graph depth d entry.importName []).map fun
            | .resolved _ _ => false
            | .null | .ambiguous => rest

/-- `mark_type_only_req_modules` from an index on, where export resolution returns. -/
def markTypeOnlyReqModules (depth : Nat) (graph : Nat → ModuleDef Nat) (imports : List ImportEntry)
    (ri : Nat)
    : List (ReqModuleEntry S) → Option (List (ReqModuleEntry S))
  | [] => some []
  | req :: reqs =>
      (markTypeOnlyReqModules depth graph imports (ri + 1) reqs).bind fun rest =>
        match req.resolved with
        | none => some (req :: rest)
        | some d =>
            let own := imports.filter fun entry => entry.reqModuleIdx == ri
            (allElided depth graph d own).map fun elided =>
              { req with typeOnly := req.typeOnly || (!own.isEmpty && elided) } :: rest

/-- A call of `link_module` returns to the loop that made it, which ends where it failed. -/
def Loader.returnLinked (m : Nat) (ok : Bool) : List Frame → Loader N S E → Loader N S E
  | .link parent i :: frames, l =>
      if ok then { l with frames := .link parent (i + 1) :: frames }
      else Loader.returnLinked parent false frames (l.fail parent)
  | frames, l => { l with frames := frames }.log (.linked m ok)

/-- `link_module` up to its loop over the modules that are required. -/
def Loader.callLink (memory : Memory) (m : Nat) : Option (Loader N S E) :=
  (l.cache[m]?).map fun mod =>
    if mod.status = .linked ∨ mod.status = .evaluated ∨ mod.status = .linking
        ∨ mod.status = .evaluating then
      Loader.returnLinked m true l.frames l
    else if mod.isJson then Loader.returnLinked m true l.frames (l.setStatus m .linked)
    else
      let l := l.setStatus m .linking
      if ¬memory.env then Loader.returnLinked m false l.frames (l.fail m)
      else (l.createEnv m).push (.link m 0)

/-- The loop of `link_module` goes on, or the module is validated. -/
def Loader.nextLink (memory : Memory) (depth m i : Nat) (frames : List Frame)
    : Option (Loader N S E) :=
  (l.cache[m]?).bind fun mod =>
    match mod.reqModules[i]? with
    | some req =>
        let next := { l with frames := .link m (i + 1) :: frames }
        match req.resolved with
        | none => some next
        | some d =>
            (l.cache[d]?).bind fun dep =>
              if dep.status = .linked ∨ dep.status = .evaluated then some next
              else l.callLink memory d
    | none =>
        (validateIndirectExports depth l.graph m mod.exports).bind fun
          | some e => some (Loader.returnLinked m false frames ((l.park host e).fail m))
          | none =>
              (validateImports depth l.cache l.graph (host.isTs mod.moduleName) mod.reqModules
                mod.imports).bind fun
                | some e => some (Loader.returnLinked m false frames ((l.park host e).fail m))
                | none =>
                    let marked := if host.isTs mod.moduleName then
                        markTypeOnlyReqModules depth l.graph mod.imports 0 mod.reqModules
                      else some mod.reqModules
                    marked.map fun reqModules =>
                      Loader.returnLinked m true frames <| l.update m fun mod =>
                        { mod with reqModules := reqModules, status := .linked, validated := true }

end Boomkat.Modules
