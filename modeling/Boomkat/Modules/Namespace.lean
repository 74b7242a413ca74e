import Mathlib.Logic.Function.Basic
import Boomkat.Modules.ResolveExport

/-! Module namespace objects: the names that they list, gathered over star exports to a limited depth,
and what is behind each name.
-/

namespace Boomkat.Modules

variable {M : Type*}

-----------------------------------------------------------------------------------------
-- The names
-----------------------------------------------------------------------------------------

/-- One resolved exported name. -/
structure NsExportItem (M : Type*) where
  exportName : String
  ownerMod : M
  localName : String
  entry : Option ExportEntry

def nsHasExportName (items : List (NsExportItem M)) (name : String) : Bool :=
  items.any fun item => item.exportName == name

/-- `ns_add_export_item`. Nearer exports shadow those that come over stars. -/
def nsAddExportItem (items : List (NsExportItem M)) (exportName : String) (ownerMod : M)
    (entry : Option ExportEntry)
    : List (NsExportItem M) :=
  if nsHasExportName items exportName then items
  else
    items ++ [⟨exportName, ownerMod, (entry.map ExportEntry.localName).getD exportName, entry⟩]

def maxStarExports : Nat := 16

variable [DecidableEq M] (graph : M → ModuleDef M) (depth : Nat)

/-- The exports of one star target, without `default` and the names that are ambiguous in the
module whose namespace is built. Export resolution may not return.
-/
def addStarEntries (root target : M)
    : List ExportEntry → List (NsExportItem M) → Option (List (NsExportItem M))
  | [], items => some items
  | ee :: rest, items =>
      if ee.exportName = "default" then addStarEntries root target rest items
      else
        (resolveExport graph depth root ee.exportName []).bind fun
          | .ambiguous => addStarEntries root target rest items
          | .resolved _ _ | .null =>
              addStarEntries root target rest (nsAddExportItem items ee.exportName target (some ee))

/-- `collect_star_export_items_from` with so many levels left. -/
def collectStarExportItemsFrom (root : M)
    : Nat → M → List (NsExportItem M) → Option (List (NsExportItem M))
  | 0, _, items => some items
  | left + 1, mod, items =>
      (graph mod).starExports.foldlM (fun items reqModuleIdx =>
        match (graph mod).resolved reqModuleIdx with
        | none => some items
        | some target =>
            (addStarEntries graph depth root target (graph target).exports items).bind fun items =>
              -- Transitively include the target's own star re-exports.
              collectStarExportItemsFrom root left target items) items

/-- `collect_star_export_items`, after the exports of the module itself. -/
def collectExportItems (mod : M) : Option (List (NsExportItem M)) :=
  let own := (graph mod).exports.foldl
    (fun items ee => nsAddExportItem items ee.exportName mod (some ee)) []
  collectStarExportItemsFrom graph depth mod (maxStarExports + 1) mod own

def nameBytes (name : String) : List UInt8 := name.toByteArray.data.toList

/-- The comparison of `export_name_less`. -/
def bytesLess : List UInt8 → List UInt8 → Bool
  | _, [] => false
  | [], _ :: _ => true
  | a :: as, b :: bs => if a ≠ b then decide (a < b) else bytesLess as bs

def exportNameLess (a b : String) : Bool := bytesLess (nameBytes a) (nameBytes b)

/-- The inner loop of the sort, over the items that are sorted already, from the last one. -/
def insertItem (tmp : NsExportItem M) : List (NsExportItem M) → List (NsExportItem M)
  | [] => [tmp]
  | item :: items =>
      if exportNameLess tmp.exportName item.exportName then item :: insertItem tmp items
      else tmp :: item :: items

def sortItems (items : List (NsExportItem M)) : List (NsExportItem M) :=
  (items.foldl (fun sorted tmp => insertItem tmp sorted) []).reverse

-----------------------------------------------------------------------------------------
-- What is behind them
-----------------------------------------------------------------------------------------

/-- A live binding in the environment of a module, the namespace object of a module, or what an
unavailable value degrades to.
-/
inductive NsValue (M : Type*) where
  | binding (owner : M) (localName : String)
  | namespace (mod : M)
  | undefined
  deriving DecidableEq

/-- The string keys of a namespace object, in the order in which they were put. -/
abbrev NsObject (M : Type*) := List (String × NsValue M)

def putProp (props : NsObject M) (key : String) (value : NsValue M) : NsObject M :=
  if props.any fun prop => prop.1 == key then
    props.map fun prop => if prop.1 = key then (key, value) else prop
  else props ++ [(key, value)]

/-- The namespace object that each module has, also while it is built. -/
abbrev Namespaces (M : Type*) := M → Option (NsObject M)

def Namespaces.put (ns : Namespaces M) (mod : M) (key : String) (value : NsValue M)
    : Namespaces M :=
  Function.update ns mod ((ns mod).map fun props => putProp props key value)

/-- `resolve_export_local_name` -/
def resolveExportLocalName (mod : ModuleDef M) (exportName : String) : String :=
  ((mod.directExport exportName).map ExportEntry.localName).getD exportName

/-- `resolve_export_binding_source` -/
def resolveExportBindingSource (mod : M) (ee : ExportEntry) : Option (M × String) :=
  if ¬ee.isIndirect then some (mod, ee.localName)
  else
    ((graph mod).resolved ee.reqModuleIdx).map fun target =>
      (target, resolveExportLocalName (graph target) ee.localName)

/-- Where the entry of an item is a namespace re-export, the module it is of, if it is resolved. -/
def namespaceTarget (item : NsExportItem M) : Option (Option M) :=
  match item.entry with
  | some ee =>
      if ee.isIndirect ∧ ee.localName = "*"
          ∧ ee.reqModuleIdx < (graph item.ownerMod).reqModules.length then
        some ((graph item.ownerMod).resolved ee.reqModuleIdx)
      else none
  | none => none

/-- The value of an item that is no namespace re-export. -/
def exportValue (hasEnv : M → Bool) (item : NsExportItem M) : Option (NsValue M) :=
  (resolveExport graph depth item.ownerMod item.exportName []).map fun nsRr =>
    let fallback := match item.entry with
      | some ee => resolveExportBindingSource graph item.ownerMod ee
      | none => some (item.ownerMod, item.localName)
    let src := match nsRr with
      | .resolved owner bindingName =>
          if bindingName ≠ "*" then some (owner, bindingName) else fallback
      | .null | .ambiguous => fallback
    match src with
    | some (owner, localName) => if hasEnv owner then .binding owner localName else .undefined
    | none => .undefined

/-- The loop of `build_namespace_object` for one item. -/
def installExport (hasEnv : M → Bool) (build : M → Namespaces M → Option (Namespaces M)) (mod : M)
    (ns : Namespaces M) (item : NsExportItem M)
    : Option (Namespaces M) :=
  match namespaceTarget graph item with
  | some (some target) =>
      (build target ns).map fun ns => ns.put mod item.exportName (.namespace target)
  | some none => some (ns.put mod item.exportName .undefined)
  | none =>
      (exportValue graph depth hasEnv item).map fun value => ns.put mod item.exportName value

/-- `build_namespace_object` with so many nested calls left. -/
def buildNamespaceObject (hasEnv : M → Bool) : Nat → M → Namespaces M → Option (Namespaces M)
  | 0, _, _ => none
  | fuel + 1, mod, ns =>
      match ns mod with
      | some _ => some ns
      | none =>
          (collectExportItems graph depth mod).bind fun items =>
            -- The empty object is there before the exports, for calls that come back to it.
            (sortItems items).foldlM
              (installExport graph depth hasEnv (buildNamespaceObject hasEnv fuel) mod)
              (Function.update ns mod (some []))

-----------------------------------------------------------------------------------------
-- The specification
-----------------------------------------------------------------------------------------

/-- The specification's GetExportedNames, with the set of modules that all its calls append to. -/
def specGetExportedNames : Nat → M → List M → Option (List String × List M)
  | 0, _, _ => none
  | fuel + 1, mod, exportStarSet =>
      if mod ∈ exportStarSet then some ([], exportStarSet)
      else
        (graph mod).starExports.foldlM (fun (names, exportStarSet) reqModuleIdx =>
          match (graph mod).resolved reqModuleIdx with
          | none => some (names, exportStarSet)
          | some requested =>
              (specGetExportedNames fuel requested exportStarSet).map fun (starNames, exportStarSet) =>
                (starNames.foldl (fun names n =>
                  if n ≠ "default" ∧ n ∉ names then names ++ [n] else names) names, exportStarSet))
          ((graph mod).exports.map ExportEntry.exportName, exportStarSet ++ [mod])

/-- The code units of a name, which the specification compares. -/
def codeUnits (name : String) : List Nat :=
  name.toList.flatMap fun c =>
    if c.toNat < 0x10000 then [c.toNat]
    else [0xD800 + (c.toNat - 0x10000) / 0x400, 0xDC00 + (c.toNat - 0x10000) % 0x400]

end Boomkat.Modules
