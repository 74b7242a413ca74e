import Mathlib.Data.List.Lex
import Mathlib.Data.List.Sort
import Boomkat.Correctness.ExportedNames

/-! Module namespace objects against the specification's: their keys are names that resolve to a
binding, in the order of their bytes, and behind each is what it resolves to.
-/

namespace Boomkat.Correctness

open Foundation Modules

variable {M : Type*} {graph : M → ModuleDef M} {root mod owner : M} {n : String}
  {items : List (NsExportItem M)} {depth : Nat}

-----------------------------------------------------------------------------------------
-- The order of the names
-----------------------------------------------------------------------------------------

theorem bytesLess_iff {as bs : List UInt8} : bytesLess as bs = true ↔ as < bs := by
  induction as generalizing bs with
  | nil =>
      cases bs with
      | nil => simp [bytesLess]
      | cons b bs => simp [bytesLess]
  | cons a as ih =>
      cases bs with
      | nil => simp [bytesLess]
      | cons b bs =>
          rw [bytesLess, List.cons_lt_cons_iff]
          split
          · rename_i differs
            simp [differs]
          · rename_i same
            obtain rfl : a = b := Decidable.not_not.mp same
            simp [ih]

theorem nameBytes_injective : Function.Injective nameBytes := by
  intro a b same
  exact String.toByteArray_inj.mp (ByteArray.ext (Array.toList_inj.mp same))

theorem exportNameLess_iff {a b : String} : exportNameLess a b = true ↔ nameBytes a < nameBytes b :=
  bytesLess_iff

/-- No item comes before one with a greater name, from the last one on. -/
def Descends (a b : NsExportItem M) : Prop := nameBytes b.exportName ≤ nameBytes a.exportName

instance : DecidableRel (Descends (M := M)) := fun _ _ => inferInstanceAs (Decidable (_ ≤ _))

instance : Std.Total (Descends (M := M)) := ⟨fun _ _ => List.le_total _ _⟩

instance : IsTrans (NsExportItem M) Descends := ⟨fun _ _ _ first second => List.le_trans second first⟩

theorem insertItem_eq (tmp : NsExportItem M) (items : List (NsExportItem M))
    : insertItem tmp items = items.orderedInsert Descends tmp := by
  induction items with
  | nil => rfl
  | cons item items ih =>
      rw [insertItem, List.orderedInsert, ih]
      by_cases less : exportNameLess tmp.exportName item.exportName = true
      · have above : ¬Descends tmp item := fun descends => List.not_lt.mpr descends
          (exportNameLess_iff.mp less)
        rw [if_pos less, if_neg above]
      · have below : Descends tmp item := List.not_lt.mp fun before => less
          (exportNameLess_iff.mpr before)
        rw [if_neg less, if_pos below]

/-- The sort is the insertion sort of the items from the last one on. -/
theorem sortItems_eq (items : List (NsExportItem M))
    : sortItems items = (items.reverse.insertionSort Descends).reverse := by
  have folded (sorted : List (NsExportItem M))
      : items.foldl (fun sorted tmp => insertItem tmp sorted) sorted
        = items.reverse.foldr (List.orderedInsert Descends) sorted := by
    rw [List.foldr_reverse]
    simp only [insertItem_eq]
  rw [sortItems, folded]
  rfl

theorem sortItems_perm (items : List (NsExportItem M)) : (sortItems items).Perm items := by
  rw [sortItems_eq]
  exact (List.reverse_perm _).trans ((List.perm_insertionSort _ _).trans (List.reverse_perm items))

/-- Items of distinct names are sorted strictly. -/
theorem sortItems_ascending (distinct : (itemNames items).Nodup)
    : (itemNames (sortItems items)).Pairwise fun a b => exportNameLess a b = true := by
  have sorted : (sortItems items).Pairwise fun a b => Descends b a := by
    rw [sortItems_eq, List.pairwise_reverse]
    exact List.pairwise_insertionSort _ _
  have distinct : (itemNames (sortItems items)).Nodup :=
    ((sortItems_perm items).map _).nodup_iff.mpr distinct
  have apart := List.pairwise_map.mp distinct
  refine List.pairwise_map.mpr ((sorted.and apart).imp fun {a b} both => ?_)
  refine exportNameLess_iff.mpr (Decidable.not_not.mp fun notLess => ?_)
  have above := List.not_lt.mp notLess
  exact both.2 (nameBytes_injective (List.le_antisymm both.1 above))

-----------------------------------------------------------------------------------------
-- What names come to
-----------------------------------------------------------------------------------------

/-- What a named import is bound to: a binding of the name `*` is the namespace object of its module. -/
def denote (owner : M) (name : String) : NsValue M :=
  if name = "*" then .namespace owner else .binding owner name

variable [DecidableEq M] {result : ResolveExportResult M} {binding : M × String}

theorem resolveExport_denotes (resolved : resolveExport graph depth mod n [] = some result)
    : (answerOf result).Denotes (Bound graph mod n) := by
  have searched := resolveExport_searches graph depth mod n []
  rw [resolved] at searched
  exact pathSearch_denotes searched.symm

theorem specResolves_denotes (resolves : SpecResolves graph mod n result)
    : (answerOf result).Denotes (Bound graph mod n) := by
  obtain ⟨depth, set, returned⟩ := resolves
  have searched := specResolveExport_searches graph depth mod n []
  rw [returned] at searched
  exact sharedSearch_denotes searched.symm

/-- The entry that a name has in a module is found, as a direct export or as an indirect one. -/
theorem LinkedGraph.find (linked : LinkedGraph graph) {ee : ExportEntry}
    (member : ee ∈ (graph mod).exports)
    : (graph mod).directExport ee.exportName = (if ee.isIndirect then none else some ee)
      ∧ (graph mod).indirectExport ee.exportName = (if ee.isIndirect then some ee else none) := by
  have unique (other : ExportEntry) (found : other ∈ (graph mod).exports)
      (same : other.exportName = ee.exportName)
      : other = ee := List.inj_on_of_nodup_map (linked.distinct mod) found member same
  have search (indirect : Bool)
      : (graph mod).exports.find? (fun entry => entry.isIndirect == indirect
          && entry.exportName == ee.exportName)
        = if ee.isIndirect = indirect then some ee else none := by
    split
    · rename_i kind
      cases found : (graph mod).exports.find? (fun entry => entry.isIndirect == indirect
          && entry.exportName == ee.exportName) with
      | none =>
          have missed := List.find?_eq_none.mp found ee member
          simp [kind] at missed
      | some other =>
          have holds := List.find?_some found
          simp only [Bool.and_eq_true, beq_iff_eq] at holds
          rw [unique other (List.mem_of_find?_eq_some found) holds.2]
    · rename_i kind
      refine List.find?_eq_none.mpr fun other found => ?_
      simp only [Bool.and_eq_true, beq_iff_eq, not_and]
      intro isKind same
      rw [unique other found same] at isKind
      exact kind isKind
  constructor
  · have direct := search false
    cases kind : ee.isIndirect <;> simp_all [ModuleDef.directExport]
  · have indirect := search true
    cases kind : ee.isIndirect <;> simp_all [ModuleDef.indirectExport]

/-- Every export of a module comes to a binding. -/
theorem LinkedGraph.bound (linked : LinkedGraph graph) (owns : Owns graph mod n)
    : ∃ binding, Bound graph mod n binding := by
  obtain ⟨ee, member, rfl⟩ := owns
  cases kind : ee.isIndirect with
  | true =>
      obtain ⟨owner, name, depth, resolved⟩ := linked.indirect mod ee member kind
      exact ⟨(owner, name), (resolveExport_denotes resolved).1⟩
  | false =>
      have direct := (linked.find member).1
      simp only [kind, Bool.false_eq_true, if_false] at direct
      refine ⟨(mod, ee.localName), .found List.not_mem_nil ?_⟩
      simp only [requestView, direct]

/-- What a star export passes on comes to a binding, by induction over the star exports. -/
theorem LinkedGraph.boundWithin (linked : LinkedGraph graph) {k : Nat}
    (within : WithinStars graph k mod n)
    : ∃ binding, Bound graph mod n binding := by
  induction k generalizing mod with
  | zero => exact linked.bound within
  | succ k ih =>
      by_cases owns : Owns graph mod n
      · exact linked.bound owns
      · obtain ⟨other, target, star, within⟩ := within.resolve_left owns
        obtain ⟨binding, bound⟩ := ih within
        exact ⟨binding, bound_of_star owns other star bound⟩

omit [DecidableEq M] in
theorem owns_of_withinStars {k : Nat} (within : WithinStars graph k mod n) : ∃ m, Owns graph m n := by
  induction k generalizing mod with
  | zero => exact ⟨mod, within⟩
  | succ k ih =>
      rcases within with owns | ⟨-, target, -, within⟩
      · exact ⟨mod, owns⟩
      · exact ih within

/-- The keys: names that the module exports over so many star exports and that come to a binding. -/
theorem LinkedGraph.key_iff [Fintype M] (linked : LinkedGraph graph)
    (returns : ∀ m n, Owns graph m n → ∃ result, resolveExport graph depth root n [] = some result)
    (names : ∀ n, n ∈ itemNames items ↔ Owns graph root n
      ∨ Passes graph depth root n ∧ OverStars graph (maxStarExports + 1) root n)
    : n ∈ itemNames items ↔ WithinStars graph (maxStarExports + 1) root n
      ∧ ∃ owner name, SpecResolves graph root n (.resolved owner name) := by
  obtain ⟨spec, specResolves⟩ := exists_specResolves graph root n
  have denotes := specResolves_denotes specResolves
  have only {result : ResolveExportResult M} (resolves : SpecResolves graph root n result)
      : result = spec :=
    answerOf_injective ((specResolves_denotes resolves).unique denotes)
  have same (m : M) (owns : Owns graph m n)
      : resolveExport graph depth root n [] = some spec := by
    obtain ⟨result, resolved⟩ := returns m n owns
    rw [resolved, answerOf_injective ((resolveExport_denotes resolved).unique denotes)]
  rw [names n, withinStars_iff]
  constructor
  · intro listed
    have within : WithinStars graph (maxStarExports + 1) root n :=
      withinStars_iff.mpr (listed.imp_right fun both => ⟨both.1.1, both.2⟩)
    obtain ⟨m, owns⟩ := owns_of_withinStars within
    obtain ⟨binding, bound⟩ := linked.boundWithin within
    refine ⟨listed.imp_right fun both => ⟨both.1.1, both.2⟩, ?_⟩
    cases spec with
    | resolved owner name => exact ⟨owner, name, specResolves⟩
    | null => exact absurd bound (denotes binding)
    | ambiguous =>
        -- An export of the module itself comes to one binding.
        rcases listed with ⟨ee, member, rfl⟩ | ⟨passes, -⟩
        · cases kind : ee.isIndirect with
          | true =>
              obtain ⟨owner, name, depth', resolved⟩ := linked.indirect root ee member kind
              cases (resolveExport_denotes resolved).unique denotes
          | false =>
              have direct := (linked.find member).1
              simp only [kind, Bool.false_eq_true, if_false] at direct
              have resolved : resolveExport graph 1 root ee.exportName []
                  = some (.resolved root ee.localName) := by
                simp [resolveExport, direct]
              cases (resolveExport_denotes resolved).unique denotes
        · exact absurd (same m owns) passes.2
  · rintro ⟨within, owner, name, resolves⟩
    refine within.imp_right fun past => ⟨⟨past.1, fun ambiguous => ?_⟩, past.2⟩
    obtain ⟨m, owns⟩ := owns_of_withinStars (withinStars_iff.mpr (.inr past))
    obtain rfl := Option.some.inj ((same m owns).symm.trans ambiguous)
    cases only resolves

/-- What an item comes to in its own module is what its name comes to in the root. -/
theorem ItemFits.denotes {item : NsExportItem M} {name : String} (linked : LinkedGraph graph)
    (fits : ItemFits graph root item)
    (resolves : SpecResolves graph root item.exportName (.resolved owner name))
    : Bound graph item.ownerMod item.exportName (owner, name)
      ∧ ∀ binding, Bound graph item.ownerMod item.exportName binding → binding = (owner, name) := by
  have denotes := specResolves_denotes resolves
  have unique (binding : M × String) (bound : Bound graph item.ownerMod item.exportName binding)
      : binding = (owner, name) := denotes.2 binding (fits.bound binding bound)
  obtain ⟨ee, member, -, same⟩ := fits.entry
  obtain ⟨binding, bound⟩ := linked.bound ⟨ee, member, same⟩
  exact ⟨unique binding bound ▸ bound, unique⟩

/-- A value is what the name comes to, iff that is no namespace or the key is of an `export * as`. -/
def ValueFits (graph : M → ModuleDef M) (root : M) (n : String) (value : NsValue M) : Prop :=
  ∀ owner name, SpecResolves graph root n (.resolved owner name) →
    (value = denote owner name ↔ (name = "*" → ExportsNamespace graph root n))

/-- The item of a key has the export that the key is of. -/
def ItemExported (graph : M → ModuleDef M) (root : M) (item : NsExportItem M) : Prop :=
  (exporter graph root item.exportName).map asItem = some (item.ownerMod, item.entry)

omit [DecidableEq M] in
theorem ItemExported.exportsNamespace_iff {item : NsExportItem M} {ee : ExportEntry}
    (exported : ItemExported graph root item) (entry : item.entry = some ee)
    : ExportsNamespace graph root item.exportName ↔ ee.isIndirect ∧ ee.localName = "*" := by
  obtain ⟨⟨owner, ee'⟩, found, same⟩ := Option.map_eq_some_iff.mp exported
  obtain rfl : ee' = ee := Option.some.inj ((Prod.mk.inj same).2.trans entry)
  constructor
  · rintro ⟨owner', ee'', found', shape⟩
    rw [found] at found'
    cases found'
    exact shape
  · exact fun shape => ⟨owner, ee', found, shape⟩

/-- A namespace re-export of a linked module is of a module that is resolved. -/
theorem ItemFits.namespaceTarget {item : NsExportItem M} {found : Option M}
    (linked : LinkedGraph graph) (fits : ItemFits graph root item)
    (exported : ItemExported graph root item)
    (isNamespace : namespaceTarget graph item = some found)
    : ∃ target, found = some target ∧ ValueFits graph root item.exportName (.namespace target) := by
  obtain ⟨ee, member, entry, same⟩ := fits.entry
  simp only [Modules.namespaceTarget, entry] at isNamespace
  split at isNamespace
  · rename_i shape
    obtain ⟨kind, star, -⟩ := shape
    have isNs : ExportsNamespace graph root item.exportName :=
      (exported.exportsNamespace_iff entry).mpr ⟨kind, star⟩
    obtain ⟨noDirect, indirect⟩ := linked.find member
    rw [same] at noDirect indirect
    simp only [kind, if_true] at noDirect indirect
    cases Option.some.inj isNamespace
    cases resolved : (graph item.ownerMod).resolved ee.reqModuleIdx with
    | none =>
        obtain ⟨binding, bound⟩ := linked.bound ⟨ee, member, same⟩
        cases bound with
        | found _ found => simp [requestView, noDirect, indirect, resolved] at found
        | asks _ asks among _ =>
            simp only [requestView, noDirect, indirect, resolved, View.asks.injEq] at asks
            rw [← asks] at among
            exact absurd among List.not_mem_nil
    | some target =>
        refine ⟨target, rfl, fun owner name resolves => iff_of_true ?_ fun _ => isNs⟩
        have bound : Bound graph item.ownerMod item.exportName (target, "*") := by
          refine .found List.not_mem_nil ?_
          simp only [requestView, noDirect, indirect, resolved, if_pos star]
        cases (fits.denotes linked resolves).2 _ bound
        rfl
  · cases isNamespace

/-- What is no namespace re-export has the value of the binding that its name comes to, and never that
of a namespace.
-/
theorem ItemFits.exportValue [Fintype M] {item : NsExportItem M} {hasEnv : M → Bool}
    (linked : LinkedGraph graph) (env : ∀ mod, hasEnv mod)
    (returns : ∀ root m n, Owns graph m n →
      ∃ result, resolveExport graph depth root n [] = some result)
    (fits : ItemFits graph root item) (exported : ItemExported graph root item)
    (plain : Modules.namespaceTarget graph item = none)
    : ∃ value, exportValue graph depth hasEnv item = some value
      ∧ ValueFits graph root item.exportName value := by
  obtain ⟨ee, member, entry, same⟩ := fits.entry
  obtain ⟨result, resolved⟩ := returns item.ownerMod item.ownerMod item.exportName ⟨ee, member, same⟩
  rw [Modules.exportValue, resolved, Option.map_some]
  refine ⟨_, rfl, fun owner name resolves => ?_⟩
  obtain ⟨bound, unique⟩ := fits.denotes linked resolves
  have found : result = .resolved owner name := by
    refine answerOf_injective ((resolveExport_denotes resolved).unique ?_)
    exact ⟨bound, unique⟩
  subst found
  by_cases star : name = "*"
  · -- The entry is a namespace re-export itself, or a named one of a namespace.
    subst star
    obtain ⟨noDirect, indirect⟩ := linked.find member
    rw [same] at noDirect indirect
    cases kind : ee.isIndirect with
    | false =>
        simp only [kind, Bool.false_eq_true, if_false] at noDirect
        have here : Bound graph item.ownerMod item.exportName (item.ownerMod, ee.localName) :=
          .found List.not_mem_nil (by simp only [requestView, noDirect])
        exact absurd (Prod.mk.inj (unique _ here)).2 (linked.direct item.ownerMod ee member kind)
    | true =>
        simp only [kind, if_true] at noDirect indirect
        by_cases local_ : ee.localName = "*"
        · have out : ¬ee.reqModuleIdx < (graph item.ownerMod).reqModules.length := by
            intro inside
            simp [Modules.namespaceTarget, entry, kind, local_, inside] at plain
          have missing : (graph item.ownerMod).resolved ee.reqModuleIdx = none := by
            rw [ModuleDef.resolved, List.getElem?_eq_none (Nat.le_of_not_lt out)]
            rfl
          cases bound with
          | found _ found => simp [requestView, noDirect, indirect, missing] at found
          | asks _ asks among _ =>
              simp only [requestView, noDirect, indirect, missing, View.asks.injEq] at asks
              rw [← asks] at among
              exact absurd among List.not_mem_nil
        · -- The value is read from an environment, and there is none that has the namespace.
          have hidden : ¬ExportsNamespace graph root item.exportName := fun isNs =>
            local_ ((exported.exportsNamespace_iff entry).mp isNs).2
          refine iff_of_false ?_ fun implies => hidden (implies rfl)
          simp only [ne_eq, not_true_eq_false, if_false, denote, if_true]
          split
          · split <;> simp
          · simp
  · refine iff_of_true ?_ fun same => absurd same star
    simp only [if_pos (show name ≠ "*" from star), env owner, if_true, denote, if_neg star]

-----------------------------------------------------------------------------------------
-- The object
-----------------------------------------------------------------------------------------

/-- A namespace object as it should be: each key once, in the order of their bytes, those that are
exported over so many star exports and come to a binding, with what they come to.
-/
structure NamespaceFits (graph : M → ModuleDef M) (root : M) (props : NsObject M) : Prop where
  ascending : (props.map Prod.fst).Pairwise fun a b => exportNameLess a b = true
  keys : ∀ key, key ∈ props.map Prod.fst ↔ WithinStars graph (maxStarExports + 1) root key
    ∧ ∃ owner name, SpecResolves graph root key (.resolved owner name)
  values : ∀ prop ∈ props, ValueFits graph root prop.1 prop.2

/-- The objects there are stay, and those that are new are as they should be, but for the one that is
being built.
-/
def Extends (graph : M → ModuleDef M) (building : Option M) (ns ns' : Namespaces M) : Prop :=
  ∀ mod, building ≠ some mod → (∀ props, ns mod = some props → ns' mod = some props)
    ∧ (ns mod = none → ∀ props, ns' mod = some props → NamespaceFits graph mod props)

theorem Extends.refl {building : Option M} (ns : Namespaces M) : Extends graph building ns ns :=
  fun mod _ => ⟨fun _ => id, fun absent props present => by rw [absent] at present; cases present⟩

theorem Extends.trans {building : Option M} {ns ns' ns'' : Namespaces M}
    (first : Extends graph building ns ns') (second : Extends graph building ns' ns'')
    : Extends graph building ns ns'' := by
  intro mod other
  refine ⟨fun props present => (second mod other).1 props ((first mod other).1 props present),
    fun absent props present => ?_⟩
  cases between : ns' mod with
  | none => exact (second mod other).2 between props present
  | some props' =>
      have kept := (second mod other).1 props' between
      obtain rfl := Option.some.inj (kept.symm.trans present)
      exact (first mod other).2 absent props' between

/-- The modules without an object. -/
def unbuilt [Fintype M] (ns : Namespaces M) : Nat :=
  (Finset.univ.filter fun mod => (ns mod).isNone).card

omit [DecidableEq M] in
theorem unbuilt_le [Fintype M] {ns ns' : Namespaces M}
    (kept : ∀ mod, (ns mod).isSome → (ns' mod).isSome)
    : unbuilt ns' ≤ unbuilt ns := by
  refine Finset.card_le_card fun mod member => ?_
  simp only [Finset.mem_filter, Finset.mem_univ, true_and] at member ⊢
  cases built : ns mod with
  | none => rfl
  | some props =>
      have still := kept mod (by rw [built]; rfl)
      rw [Option.isNone_iff_eq_none.mp member] at still
      cases still

theorem unbuilt_lt [Fintype M] {ns : Namespaces M} {props : NsObject M} (absent : ns root = none)
    : unbuilt (Function.update ns root (some props)) < unbuilt ns := by
  refine Finset.card_lt_card (Finset.ssubset_iff_of_subset ?_ |>.mpr ⟨root, ?_, ?_⟩)
  · intro mod member
    simp only [Finset.mem_filter, Finset.mem_univ, true_and] at member ⊢
    by_cases same : mod = root
    · subst same
      rw [absent]
      rfl
    · rwa [Function.update_of_ne same] at member
  · simp [absent]
  · simp

omit [DecidableEq M] in
/-- A property of a new name is put last. -/
theorem putProp_fresh {props : NsObject M} {value : NsValue M} (fresh : n ∉ props.map Prod.fst)
    : putProp props n value = props ++ [(n, value)] := by
  rw [putProp, if_neg]
  rw [List.any_eq_true]
  rintro ⟨prop, member, same⟩
  exact fresh (List.mem_map.mpr ⟨prop, member, beq_iff_eq.mp same⟩)

/-- What the loop of `build_namespace_object` does for one item. -/
structure Installs [Fintype M] (graph : M → ModuleDef M) (root : M) (fuel : Nat)
    (ns ns' : Namespaces M) (props added : NsObject M)
    : Prop where
  extends_ : Extends graph (some root) ns ns'
  object : ns' root = some (props ++ added)
  values : ∀ prop ∈ added, ValueFits graph root prop.1 prop.2
  few : unbuilt ns' < fuel

theorem Namespaces.put_installs [Fintype M] {fuel : Nat} {ns ns' : Namespaces M}
    {props : NsObject M} {value : NsValue M} (extends_ : Extends graph none ns ns')
    (object : ns root = some props) (fresh : n ∉ props.map Prod.fst)
    (fits : ValueFits graph root n value) (few : unbuilt ns < fuel)
    : Installs graph root fuel ns (ns'.put root n value) props [(n, value)] := by
  have kept := (extends_ root (by simp)).1 props object
  have put : ns'.put root n value root = some (props ++ [(n, value)]) := by
    rw [Namespaces.put, Function.update_self, kept, Option.map_some, putProp_fresh fresh]
  refine ⟨fun mod other => ?_, put, fun prop member => ?_, Nat.lt_of_le_of_lt (unbuilt_le ?_) few⟩
  · have apart : mod ≠ root := fun same => other (congrArg some same.symm)
    rw [Namespaces.put, Function.update_of_ne apart]
    exact extends_ mod (by simp)
  · rw [List.mem_singleton.mp member]
    exact fits
  · intro mod built
    by_cases same : mod = root
    · rw [same, put]
      rfl
    · obtain ⟨props', present⟩ := Option.isSome_iff_exists.mp built
      rw [Namespaces.put, Function.update_of_ne same, (extends_ mod (by simp)).1 props' present]
      rfl

/-- One item is installed, which may build another namespace object before. -/
theorem installExport_spec [Fintype M] {hasEnv : M → Bool} {fuel : Nat} {ns : Namespaces M}
    {build : M → Namespaces M → Option (Namespaces M)} {props : NsObject M}
    {item : NsExportItem M} (linked : LinkedGraph graph) (env : ∀ mod, hasEnv mod)
    (returns : ∀ root m n, Owns graph m n →
      ∃ result, resolveExport graph depth root n [] = some result)
    (builds : ∀ target ns, unbuilt ns < fuel →
      ∃ ns', build target ns = some ns' ∧ Extends graph none ns ns')
    (fits : ItemFits graph root item) (exported : ItemExported graph root item)
    (object : ns root = some props)
    (fresh : item.exportName ∉ props.map Prod.fst) (few : unbuilt ns < fuel)
    : ∃ ns' value, installExport graph depth hasEnv build root ns item = some ns'
      ∧ Installs graph root fuel ns ns' props [(item.exportName, value)] := by
  cases kind : namespaceTarget graph item with
  | some found =>
      obtain ⟨target, rfl, value⟩ := fits.namespaceTarget linked exported kind
      obtain ⟨ns', built, extends_⟩ := builds target ns few
      refine ⟨ns'.put root item.exportName (.namespace target), .namespace target, ?_,
        Namespaces.put_installs extends_ object fresh value few⟩
      simp only [installExport, kind, built, Option.map_some]
  | none =>
      obtain ⟨value, found, valueFits⟩ := fits.exportValue linked env returns exported kind
      refine ⟨ns.put root item.exportName value, value, ?_,
        Namespaces.put_installs (Extends.refl ns) object fresh valueFits few⟩
      simp only [installExport, kind, found, Option.map_some]

/-- All items are installed, by induction over them. -/
theorem installExports_spec [Fintype M] {hasEnv : M → Bool} {fuel : Nat} {ns : Namespaces M}
    {build : M → Namespaces M → Option (Namespaces M)} {props : NsObject M}
    (linked : LinkedGraph graph) (env : ∀ mod, hasEnv mod)
    (returns : ∀ root m n, Owns graph m n →
      ∃ result, resolveExport graph depth root n [] = some result)
    (builds : ∀ target ns, unbuilt ns < fuel →
      ∃ ns', build target ns = some ns' ∧ Extends graph none ns ns')
    (fits : ∀ item ∈ items, ItemFits graph root item)
    (exported : ∀ item ∈ items, ItemExported graph root item) (object : ns root = some props)
    (distinct : (props.map Prod.fst ++ itemNames items).Nodup) (few : unbuilt ns < fuel)
    : ∃ ns' added, items.foldlM (installExport graph depth hasEnv build root) ns = some ns'
      ∧ Installs graph root fuel ns ns' props added ∧ added.map Prod.fst = itemNames items := by
  induction items generalizing ns props with
  | nil =>
      refine ⟨ns, [], rfl, ⟨Extends.refl ns, by rw [List.append_nil, object], ?_, few⟩, rfl⟩
      exact fun _ member => absurd member List.not_mem_nil
  | cons item items ih =>
      have fresh : item.exportName ∉ props.map Prod.fst := fun known =>
        (List.nodup_append.mp distinct).2.2 _ known _ List.mem_cons_self rfl
      obtain ⟨ns₁, value, installed, step⟩ := installExport_spec linked env returns builds
        (fits item List.mem_cons_self) (exported item List.mem_cons_self) object fresh few
      have distinct' : ((props ++ [(item.exportName, value)]).map Prod.fst
          ++ itemNames items).Nodup := by
        rw [List.map_append, List.append_assoc]
        exact distinct
      obtain ⟨ns', added, looped, rest, names⟩ := ih
        (fun other inRest => fits other (List.mem_cons_of_mem _ inRest))
        (fun other inRest => exported other (List.mem_cons_of_mem _ inRest)) step.object distinct'
        step.few
      refine ⟨ns', (item.exportName, value) :: added, ?_, ⟨step.extends_.trans rest.extends_, ?_, ?_,
        rest.few⟩, ?_⟩
      · rw [List.foldlM_cons, installed]
        exact looped
      · rw [rest.object, List.append_assoc, List.singleton_append]
      · intro prop member
        rcases List.mem_cons.mp member with rfl | member
        · exact step.values _ List.mem_cons_self
        · exact rest.values prop member
      · rw [List.map_cons, names]
        rfl

/-- The namespace object of a module is built, and those of modules that it re-exports: by induction
over the modules that have none yet.
-/
theorem buildNamespaceObject_spec [Fintype M] {hasEnv : M → Bool} (linked : LinkedGraph graph)
    (env : ∀ mod, hasEnv mod)
    (returns : ∀ root m n, Owns graph m n →
      ∃ result, resolveExport graph depth root n [] = some result)
    {fuel : Nat} {ns : Namespaces M} (root : M) (few : unbuilt ns < fuel)
    : ∃ ns', buildNamespaceObject graph depth hasEnv fuel root ns = some ns'
      ∧ (ns' root).isSome ∧ Extends graph none ns ns' := by
  induction fuel generalizing ns root with
  | zero => exact absurd few (Nat.not_lt_zero _)
  | succ fuel ih =>
      rw [buildNamespaceObject]
      cases present : ns root with
      | some props => exact ⟨ns, rfl, by rw [present]; rfl, Extends.refl ns⟩
      | none =>
          obtain ⟨items, collected, fits, names⟩ := collectExportItems_spec (returns root)
          have perm := sortItems_perm items
          have exported : ∀ item ∈ items, ItemExported graph root item := by
            intro item member
            have listed := (names item.exportName).mp (List.mem_map_of_mem member)
            exact (collectExportItems_exporter collected (listed.imp_right And.left)).symm.trans
              (fits.itemAt member)
          have builds : ∀ target ns, unbuilt ns < fuel →
              ∃ ns', buildNamespaceObject graph depth hasEnv fuel target ns = some ns'
                ∧ Extends graph none ns ns' := by
            intro target ns few
            obtain ⟨ns', built, -, extends_⟩ := ih target few
            exact ⟨ns', built, extends_⟩
          have started : Function.update ns root (some ([] : NsObject M)) root = some [] :=
            Function.update_self root _ ns
          obtain ⟨ns', added, looped, installs, keys⟩ := installExports_spec linked env returns builds
            (fun item member => fits.each item (perm.mem_iff.mp member))
            (fun item member => exported item (perm.mem_iff.mp member)) started
            ((perm.map _).nodup_iff.mpr fits.distinct)
            (Nat.lt_of_lt_of_le (unbuilt_lt present) (Nat.le_of_lt_succ few))
          have object : ns' root = some added := installs.object
          refine ⟨ns', by simp only [collected, Option.bind_some, looped], by rw [object]; rfl,
            fun mod _ => ?_⟩
          by_cases same : mod = root
          · subst same
            refine ⟨fun props there => ?_, fun _ props there => ?_⟩
            · rw [present] at there
              cases there
            · obtain rfl := Option.some.inj (object.symm.trans there)
              refine ⟨?_, fun key => ?_, installs.values⟩
              · rw [keys]
                exact sortItems_ascending fits.distinct
              · rw [keys]
                exact ((perm.map _).mem_iff).trans (linked.key_iff (returns mod) names)
          · have others := installs.extends_ mod fun equal => same (Option.some.inj equal).symm
            rwa [Function.update_of_ne same] at others

/-- Export resolution returns for all modules and names with some number of nested calls. -/
theorem LinkedGraph.exists_depth [Fintype M] (linked : LinkedGraph graph)
    : ∃ depth, ∀ root m n, Owns graph m n →
      ∃ result, resolveExport graph depth root n [] = some result := by
  let names := Finset.univ.toList.flatMap fun mod : M =>
    (graph mod).exports.map ExportEntry.exportName
  let requests := (Finset.univ : Finset M).toList ×ˢ names
  have each : ∀ request ∈ requests, True → Ends (requestView graph) resolveSetMax [] request := by
    rintro ⟨root, n⟩ among -
    obtain ⟨mod, -, named⟩ := List.mem_flatMap.mp (List.mem_product.mp among).2
    obtain ⟨ee, owned, same⟩ := List.mem_map.mp named
    obtain ⟨known, member, closed⟩ := exists_requests graph root n
    exact (ends_iff closed member).mpr (linked.returns root mod n ⟨ee, owned, same⟩)
  obtain ⟨depth, ends⟩ := exists_common_fuel each
  refine ⟨depth, fun root m n owns => ?_⟩
  obtain ⟨ee, member, rfl⟩ := owns
  have among : (root, ee.exportName) ∈ requests := by
    refine List.mem_product.mpr ⟨Finset.mem_toList.mpr (Finset.mem_univ root), ?_⟩
    exact List.mem_flatMap.mpr ⟨m, Finset.mem_toList.mpr (Finset.mem_univ m),
      List.mem_map_of_mem member⟩
  obtain ⟨answer, searched⟩ := ends _ among trivial
  rw [← resolveExport_searches, Option.map_eq_some_iff] at searched
  obtain ⟨result, resolved, -⟩ := searched
  exact ⟨result, resolved⟩

/-- A namespace object as the specification has it: its keys are the exported names that resolve to a
binding, each once and in the order of their code units, with what a named import of each is bound to.
-/
structure NamespaceHolds (graph : M → ModuleDef M) (root : M) (names : List String)
    (props : NsObject M)
    : Prop where
  keys : ∀ key, key ∈ props.map Prod.fst
    ↔ key ∈ names ∧ ∃ owner name, SpecResolves graph root key (.resolved owner name)
  ascending : (props.map Prod.fst).Pairwise fun a b => codeUnits a < codeUnits b
  values : ∀ prop ∈ props, ∀ owner name, SpecResolves graph root prop.1 (.resolved owner name) →
    prop.2 = denote owner name

/-- The names that are exported over star exports and resolve to a binding. -/
def Exported (graph : M → ModuleDef M) (root : M) (key : String) : Prop :=
  (∃ k, WithinStars graph k root key)
    ∧ ∃ owner name, SpecResolves graph root key (.resolved owner name)

/-- What the object of one module asks of its own exported names: none is further away than the star
exports are followed, their bytes are in the order of their code units, and one that comes to a
namespace is of an `export * as`.
-/
structure NamespaceCondition (graph : M → ModuleDef M) (root : M) : Prop where
  near : ∀ key, Exported graph root key → WithinStars graph (maxStarExports + 1) root key
  order : ∀ a b, Exported graph root a → Exported graph root b → exportNameLess a b = true →
    codeUnits a < codeUnits b
  direct : ∀ key, Exported graph root key → ∀ owner,
    SpecResolves graph root key (.resolved owner "*") → ExportsNamespace graph root key

theorem exportNameLess_asymm {a b : String} (less : exportNameLess a b = true)
    : ¬exportNameLess b a = true :=
  fun greater => List.lt_asymm (exportNameLess_iff.mp less) (exportNameLess_iff.mp greater)

omit [DecidableEq M] in
/-- Sorted in both orders, the orders agree on the keys. -/
theorem order_of_sorted {keys : List String}
    (byBytes : keys.Pairwise fun a b => exportNameLess a b = true)
    (byUnits : keys.Pairwise fun a b => codeUnits a < codeUnits b) {a b : String}
    (inKeys : a ∈ keys) (inKeys' : b ∈ keys) (less : exportNameLess a b = true)
    : codeUnits a < codeUnits b := by
  have before := (byBytes.and byUnits).imp fun {a b} sorted (_ : exportNameLess a b = true) => sorted.2
  have after := byBytes.imp fun {a b} sorted (greater : exportNameLess b a = true) =>
    absurd (b := codeUnits b < codeUnits a) greater (exportNameLess_asymm sorted)
  exact List.Pairwise.forall_of_forall_of_flip
    (fun a _ same => absurd same (exportNameLess_asymm same)) before after inKeys inKeys' less

/-- The object that is built is the specification's iff the module's names are as they have to be. -/
theorem NamespaceFits.holds_iff {props : NsObject M} {names : List String}
    (fits : NamespaceFits graph root props)
    (exported : ∀ n, n ∈ names ↔ ∃ k, WithinStars graph k root n)
    : NamespaceHolds graph root names props ↔ NamespaceCondition graph root := by
  constructor
  · intro holds
    have listed {key : String} (isExported : Exported graph root key) : key ∈ props.map Prod.fst :=
      (holds.keys key).mpr ⟨(exported key).mpr isExported.1, isExported.2⟩
    refine ⟨fun key isExported => ((fits.keys key).mp (listed isExported)).1, ?_, ?_⟩
    · exact fun a b first second =>
        order_of_sorted fits.ascending holds.ascending (listed first) (listed second)
    · intro key isExported owner resolves
      obtain ⟨prop, member, rfl⟩ := List.mem_map.mp (listed isExported)
      exact (fits.values prop member owner "*" resolves).mp
        (holds.values prop member owner "*" resolves) rfl
  · intro condition
    have keys (key : String) : key ∈ props.map Prod.fst ↔ Exported graph root key := by
      rw [fits.keys key]
      exact ⟨fun listed => ⟨⟨_, listed.1⟩, listed.2⟩,
        fun isExported => ⟨condition.near key isExported, isExported.2⟩⟩
    refine ⟨fun key => ?_, ?_, fun prop member owner name resolves => ?_⟩
    · rw [keys key, exported key]
      rfl
    · exact fits.ascending.imp_of_mem fun first second =>
        condition.order _ _ ((keys _).mp first) ((keys _).mp second)
    · refine (fits.values prop member owner name resolves).mpr fun same => ?_
      subst same
      exact condition.direct prop.1 ((keys _).mp (List.mem_map_of_mem member)) owner resolves

/-- Three modules with star exports in a circle: the first one has a variable, the second one an
`export * as` of the third, which has another variable.
-/
def starCircle : Fin 3 → ModuleDef (Fin 3)
  | 0 => ⟨[⟨"x", "x", false, 0⟩], [0], [some 1]⟩
  | 1 => ⟨[⟨"*", "ns", true, 0⟩], [0], [some 2]⟩
  | 2 => ⟨[⟨"v", "v", false, 0⟩], [0], [some 0]⟩

theorem starCircle_names {m : Fin 3} {n : String} (owns : Owns starCircle m n)
    : n = "x" ∨ n = "ns" ∨ n = "v" := by
  obtain ⟨ee, member, rfl⟩ := owns
  match m with
  | 0 => exact .inl (congrArg ExportEntry.exportName (List.mem_singleton.mp member))
  | 1 => exact .inr (.inl (congrArg ExportEntry.exportName (List.mem_singleton.mp member)))
  | 2 => exact .inr (.inr (congrArg ExportEntry.exportName (List.mem_singleton.mp member)))

/-- What the names come to, from any of the modules. -/
theorem starCircle_resolves (mod : Fin 3)
    : resolveExport starCircle 4 mod "x" [] = some (.resolved 0 "x")
      ∧ resolveExport starCircle 4 mod "ns" [] = some (.resolved 2 "*")
      ∧ resolveExport starCircle 4 mod "v" [] = some (.resolved 2 "v") := by
  revert mod
  decide

theorem starCircle_linked : LinkedGraph starCircle where
  distinct := by decide
  direct := by decide
  indirect := by
    intro mod ee member kind
    match mod with
    | 0 => cases List.mem_singleton.mp member; cases kind
    | 1 => cases List.mem_singleton.mp member; exact ⟨2, "*", 4, (starCircle_resolves 1).2.1⟩
    | 2 => cases List.mem_singleton.mp member; cases kind
  returns := by
    intro mod m n owns
    obtain ⟨known, member, closed⟩ := exists_requests starCircle mod n
    refine (ends_iff closed member).mp (resolves_iff_ends.mp ?_)
    rcases starCircle_names owns with rfl | rfl | rfl
    · exact ⟨_, 4, (starCircle_resolves mod).1⟩
    · exact ⟨_, 4, (starCircle_resolves mod).2.1⟩
    · exact ⟨_, 4, (starCircle_resolves mod).2.2⟩

theorem starCircle_condition : NamespaceCondition starCircle 0 := by
  have listed {key : String} (exported : Exported starCircle 0 key)
      : key = "x" ∨ key = "ns" ∨ key = "v" := by
    obtain ⟨⟨k, within⟩, -⟩ := exported
    obtain ⟨m, owns⟩ := owns_of_withinStars within
    exact starCircle_names owns
  have first : StarTarget starCircle 0 1 := ⟨0, by decide, rfl⟩
  have second : StarTarget starCircle 1 2 := ⟨0, by decide, rfl⟩
  refine ⟨fun key exported => ?_, fun a b inNames inNames' => ?_, fun key exported owner resolves => ?_⟩
  · rcases listed exported with rfl | rfl | rfl
    · exact .inl ⟨_, List.mem_singleton.mpr rfl, rfl⟩
    · exact .inr ⟨by decide, 1, first, .inl ⟨_, List.mem_singleton.mpr rfl, rfl⟩⟩
    · exact .inr ⟨by decide, 1, first, .inr ⟨by decide, 2, second,
        .inl ⟨_, List.mem_singleton.mpr rfl, rfl⟩⟩⟩
  · rcases listed inNames with rfl | rfl | rfl <;> rcases listed inNames' with rfl | rfl | rfl
      <;> decide
  · rcases listed exported with rfl | rfl | rfl
    · exact absurd (Resolves.unique ⟨4, (starCircle_resolves 0).1⟩ resolves) (by simp)
    · exact ⟨1, _, rfl, rfl, rfl⟩
    · exact absurd (Resolves.unique ⟨4, (starCircle_resolves 0).2.2⟩ resolves) (by simp)

/-- A module that exports by name what the second one has as an `export * as` of the third. -/
def namedNamespace : Fin 3 → ModuleDef (Fin 3)
  | 0 => ⟨[⟨"ns", "ns", true, 0⟩], [], [some 1]⟩
  | 1 => ⟨[⟨"*", "ns", true, 0⟩], [], [some 2]⟩
  | 2 => ⟨[⟨"v", "v", false, 0⟩], [], []⟩

/-- A module with two exports, of which the one outside of the basic plane has the smaller code units. -/
def astralExport (_ : Unit) : ModuleDef Unit :=
  ⟨[⟨"a", "\uE000", false, 0⟩, ⟨"b", String.singleton (Char.ofNat 0x10000), false, 0⟩], [], []⟩

/-- A chain of 19 modules, each with a star export of the next, the last one with an export. -/
def deepStars (mod : Fin 19) : ModuleDef (Fin 19) :=
  if mod.val = 18 then ⟨[⟨"x", "x", false, 0⟩], [], []⟩
  else ⟨[], [0], [some (Fin.ofNat 19 (mod.val + 1))]⟩

end Boomkat.Correctness
