import Mathlib.Data.List.Basic

/-! Export resolution over a graph of module records, as the module loader does it and as the
language specification does.
-/

namespace Boomkat.Modules

variable {M : Type*}

structure ExportEntry where
  localName : String
  exportName : String
  isIndirect : Bool
  reqModuleIdx : Nat
  deriving DecidableEq, Repr

/-- What of a module record export resolution reads. A star export is the index of its module
among those required, and a required module may be unresolved.
-/
structure ModuleDef (M : Type*) where
  exports : List ExportEntry
  starExports : List Nat
  reqModules : List (Option M)
  deriving Repr

def ModuleDef.resolved (mod : ModuleDef M) (reqModuleIdx : Nat) : Option M :=
  (mod.reqModules[reqModuleIdx]?).join

def ModuleDef.directExport (mod : ModuleDef M) (exportName : String) : Option ExportEntry :=
  mod.exports.find? fun entry => !entry.isIndirect && entry.exportName == exportName

def ModuleDef.indirectExport (mod : ModuleDef M) (exportName : String) : Option ExportEntry :=
  mod.exports.find? fun entry => entry.isIndirect && entry.exportName == exportName

inductive ResolveExportResult (M : Type*) where
  | resolved (owner : M) (bindingName : String)
  | null
  | ambiguous
  deriving DecidableEq, Repr

abbrev ResolveSetEntry (M : Type*) := M × String

def resolveSetMax : Nat := 64

/-- Step 7-8: all star exports, gathered from left to right. -/
def resolveStars [DecidableEq M] (resolve : M → Option (ResolveExportResult M))
    (mod : ModuleDef M) : List Nat → ResolveExportResult M → Option (ResolveExportResult M)
  | [], starResolution => some starResolution
  | reqModuleIdx :: rest, starResolution =>
      match mod.resolved reqModuleIdx with
      | none => resolveStars resolve mod rest starResolution
      | some imported =>
          (resolve imported).bind fun
            | .ambiguous => some .ambiguous
            | .null => resolveStars resolve mod rest starResolution
            | .resolved owner bindingName =>
                match starResolution with
                | .null => resolveStars resolve mod rest (.resolved owner bindingName)
                | .resolved starOwner starName =>
                    if starOwner ≠ owner ∨ starName ≠ bindingName then some .ambiguous
                    else resolveStars resolve mod rest starResolution
                | .ambiguous => some .ambiguous

/-- `resolve_export` with so many nested calls left; `none` when they do not suffice. -/
def resolveExport [DecidableEq M] (graph : M → ModuleDef M)
    : Nat → M → String → List (ResolveSetEntry M) → Option (ResolveExportResult M)
  | 0, _, _, _ => none
  | depth + 1, mod, exportName, set =>
      -- Step 2: circular-request guard.
      if (mod, exportName) ∈ set then some .null
      else
        let set := if set.length < resolveSetMax then set ++ [(mod, exportName)] else set
        match (graph mod).directExport exportName with
        | some entry => some (.resolved mod entry.localName)
        | none =>
            match (graph mod).indirectExport exportName with
            | some entry =>
                match (graph mod).resolved entry.reqModuleIdx with
                | none => some .null
                | some imported =>
                    -- `export * as ns from` resolves to the namespace object itself.
                    if entry.localName = "*" then some (.resolved imported "*")
                    else resolveExport graph depth imported entry.localName set
            | none =>
                if exportName = "default" then some .null
                else
                  resolveStars (fun imported => resolveExport graph depth imported exportName set)
                    (graph mod) (graph mod).starExports .null

/-- The specification's step 8: all star exports, which share the resolve set. -/
def specResolveStars [DecidableEq M]
    (resolve : M → List (ResolveSetEntry M)
      → Option (ResolveExportResult M × List (ResolveSetEntry M)))
    (mod : ModuleDef M)
    : List Nat → ResolveExportResult M → List (ResolveSetEntry M)
      → Option (ResolveExportResult M × List (ResolveSetEntry M))
  | [], starResolution, resolveSet => some (starResolution, resolveSet)
  | reqModuleIdx :: rest, starResolution, resolveSet =>
      match mod.resolved reqModuleIdx with
      | none => specResolveStars resolve mod rest starResolution resolveSet
      | some imported =>
          (resolve imported resolveSet).bind fun (resolution, resolveSet) =>
            match resolution with
            | .ambiguous => some (.ambiguous, resolveSet)
            | .null => specResolveStars resolve mod rest starResolution resolveSet
            | .resolved owner bindingName =>
                match starResolution with
                | .null =>
                    specResolveStars resolve mod rest (.resolved owner bindingName) resolveSet
                | .resolved starOwner starName =>
                    if starOwner ≠ owner ∨ starName ≠ bindingName then
                      some (.ambiguous, resolveSet)
                    else specResolveStars resolve mod rest starResolution resolveSet
                | .ambiguous => some (.ambiguous, resolveSet)

/-- The specification's ResolveExport, with one resolve set that all its calls append to. -/
def specResolveExport [DecidableEq M] (graph : M → ModuleDef M)
    : Nat → M → String → List (ResolveSetEntry M)
      → Option (ResolveExportResult M × List (ResolveSetEntry M))
  | 0, _, _, _ => none
  | depth + 1, mod, exportName, resolveSet =>
      if (mod, exportName) ∈ resolveSet then some (.null, resolveSet)
      else
        let resolveSet := resolveSet ++ [(mod, exportName)]
        match (graph mod).directExport exportName with
        | some entry => some (.resolved mod entry.localName, resolveSet)
        | none =>
            match (graph mod).indirectExport exportName with
            | some entry =>
                match (graph mod).resolved entry.reqModuleIdx with
                | none => some (.null, resolveSet)
                | some imported =>
                    if entry.localName = "*" then some (.resolved imported "*", resolveSet)
                    else specResolveExport graph depth imported entry.localName resolveSet
            | none =>
                if exportName = "default" then some (.null, resolveSet)
                else
                  specResolveStars
                    (fun imported => specResolveExport graph depth imported exportName)
                    (graph mod) (graph mod).starExports .null resolveSet

end Boomkat.Modules
