import Boomkat.Modules.Namespace
import Boomkat.Correctness.ResolveExport

/-! The names that are gathered for a module namespace object: those of the exports of the module and
of the modules over star exports, where the name is not ambiguous.
-/

namespace Boomkat.Correctness

open Foundation Modules

variable {M : Type*} {graph : M → ModuleDef M} {root mod target : M} {n : String}
  {items items' : List (NsExportItem M)} {depth left : Nat}

section Notions

variable (graph : M → ModuleDef M)

/-- The module has an export of this name, direct or indirect. -/
def Owns (mod : M) (n : String) : Prop := ∃ ee ∈ (graph mod).exports, ee.exportName = n

def StarTarget (mod target : M) : Prop :=
  ∃ reqModuleIdx ∈ (graph mod).starExports, (graph mod).resolved reqModuleIdx = some target

/-- The module exports the name itself or over at most so many star exports. -/
def WithinStars : Nat → M → String → Prop
  | 0, mod, n => Owns graph mod n
  | k + 1, mod, n => Owns graph mod n
      ∨ n ≠ "default" ∧ ∃ target, StarTarget graph mod target ∧ WithinStars k target n

/-- The module exports the name over at least one and at most so many star exports. -/
def OverStars (left : Nat) (mod : M) (n : String) : Prop :=
  ∃ k < left, ∃ target, StarTarget graph mod target ∧ WithinStars graph k target n

/-- The export of this name that the module itself has. -/
def ownEntry (mod : M) (n : String) : Option (M × ExportEntry) :=
  ((graph mod).exports.find? fun ee => ee.exportName == n).map fun ee => (mod, ee)

/-- The first export of this name on the way over at most so many star exports. -/
def starExporter : Nat → M → String → Option (M × ExportEntry)
  | 0, _, _ => none
  | left + 1, mod, n =>
      (graph mod).starExports.findSome? fun reqModuleIdx =>
        ((graph mod).resolved reqModuleIdx).bind fun target =>
          (ownEntry graph target n).or (starExporter left target n)

/-- The export that a key of the module's namespace is of, and the module that has it. -/
def exporter (mod : M) (n : String) : Option (M × ExportEntry) :=
  (ownEntry graph mod n).or (starExporter graph (maxStarExports + 1) mod n)

/-- The key is of an `export * as`. -/
def ExportsNamespace (mod : M) (n : String) : Prop :=
  ∃ owner ee, exporter graph mod n = some (owner, ee) ∧ ee.isIndirect ∧ ee.localName = "*"

/-- The binding is reached from the request for the name. -/
abbrev Bound (mod : M) (n : String) (binding : M × String) : Prop :=
  Binds (requestView graph) [] (mod, n) binding

/-- What the compiler and the linking make sure of: the names of exports are distinct, the local name
of a direct export is not the mark of a namespace, and every indirect export comes to one binding.
Export resolution returns for the names that are exported, since it never comes round with a full
resolve set.
-/
structure LinkedGraph [DecidableEq M] : Prop where
  distinct : ∀ mod, ((graph mod).exports.map ExportEntry.exportName).Nodup
  direct : ∀ mod, ∀ ee ∈ (graph mod).exports, ee.isIndirect = false → ee.localName ≠ "*"
  indirect : ∀ mod, ∀ ee ∈ (graph mod).exports, ee.isIndirect →
    ∃ owner name, Resolves graph mod ee.exportName (.resolved owner name)
  returns : ∀ mod m n, Owns graph m n → ¬EntersCycle (requestView graph) resolveSetMax (mod, n)

/-- An item has an export of its module, and what that is bound to the root's export is bound to. -/
structure ItemFits (root : M) (item : NsExportItem M) : Prop where
  entry : ∃ ee ∈ (graph item.ownerMod).exports, item.entry = some ee
    ∧ ee.exportName = item.exportName
  bound : ∀ binding, Bound graph item.ownerMod item.exportName binding →
    Bound graph root item.exportName binding

end Notions

/-- The names of the items, which are distinct. -/
def itemNames (items : List (NsExportItem M)) : List String := items.map NsExportItem.exportName

structure ItemsFit (graph : M → ModuleDef M) (root : M) (items : List (NsExportItem M)) : Prop where
  distinct : (itemNames items).Nodup
  each : ∀ item ∈ items, ItemFits graph root item

/-- The item of a name: the module that it is of and its export there. -/
def itemAt (items : List (NsExportItem M)) (n : String) : Option (M × Option ExportEntry) :=
  (items.find? fun item => item.exportName == n).map fun item => (item.ownerMod, item.entry)

/-- An export as an item has it. -/
def asItem (found : M × ExportEntry) : M × Option ExportEntry := (found.1, some found.2)

theorem hasExportName_iff : nsHasExportName items n = true ↔ n ∈ itemNames items := by
  rw [nsHasExportName, List.any_eq_true, itemNames, List.mem_map]
  simp only [beq_iff_eq]

theorem mem_addExportItem {entry : Option ExportEntry} {name : String}
    : n ∈ itemNames (nsAddExportItem items name mod entry) ↔ n ∈ itemNames items ∨ n = name := by
  rw [nsAddExportItem]
  split
  · rename_i known
    refine ⟨.inl, fun member => member.elim id ?_⟩
    rintro rfl
    exact hasExportName_iff.mp known
  · simp [itemNames]

theorem ItemsFit.add {ee : ExportEntry} (fits : ItemsFit graph root items)
    (member : ee ∈ (graph mod).exports)
    (bound : ee.exportName ∉ itemNames items → ∀ binding, Bound graph mod ee.exportName binding →
      Bound graph root ee.exportName binding)
    : ItemsFit graph root (nsAddExportItem items ee.exportName mod (some ee)) := by
  rw [nsAddExportItem]
  split
  · exact fits
  · rename_i unknown
    have fresh : ee.exportName ∉ itemNames items := fun known => unknown (hasExportName_iff.mpr known)
    constructor
    · rw [itemNames, List.map_append, List.map_singleton]
      refine List.nodup_append.mpr ⟨fits.distinct, List.nodup_cons.mpr
        ⟨List.not_mem_nil, List.nodup_nil⟩, ?_⟩
      intro a known b same equal
      rw [equal, List.mem_singleton.mp same] at known
      exact fresh known
    · intro item among
      rcases List.mem_append.mp among with before | new
      · exact fits.each item before
      · rw [List.mem_singleton.mp new]
        exact ⟨⟨ee, member, rfl, rfl⟩, bound fresh⟩

-----------------------------------------------------------------------------------------
-- Bindings over stars
-----------------------------------------------------------------------------------------

/-- A module without the name asks its star targets for it. -/
theorem requestView_stars (free : ¬Owns graph mod n) (other : n ≠ "default")
    : requestView graph (mod, n)
      = .asks (((graph mod).starExports.filterMap (graph mod).resolved).map
          fun imported => (imported, n)) := by
  have noDirect : (graph mod).directExport n = none := by
    refine List.find?_eq_none.mpr fun ee member => ?_
    simp only [Bool.and_eq_true, beq_iff_eq, not_and]
    exact fun _ same => free ⟨ee, member, same⟩
  have noIndirect : (graph mod).indirectExport n = none := by
    refine List.find?_eq_none.mpr fun ee member => ?_
    simp only [Bool.and_eq_true, beq_iff_eq, not_and]
    exact fun _ same => free ⟨ee, member, same⟩
  simp only [requestView, noDirect, noIndirect, if_neg other]

theorem bound_of_star {binding : M × String} (free : ¬Owns graph mod n) (other : n ≠ "default")
    (star : StarTarget graph mod target) (bound : Bound graph target n binding)
    : Bound graph mod n binding := by
  obtain ⟨reqModuleIdx, member, resolved⟩ := star
  refine .asks List.not_mem_nil (requestView_stars free other) ?_ bound
  exact List.mem_map_of_mem (List.mem_filterMap.mpr ⟨reqModuleIdx, member, resolved⟩)

theorem withinStars_mono {k k' : Nat} (few : k ≤ k') (within : WithinStars graph k mod n)
    : WithinStars graph k' mod n := by
  induction k generalizing k' mod with
  | zero =>
      cases k' with
      | zero => exact within
      | succ k' => exact .inl within
  | succ k ih =>
      obtain ⟨k', rfl⟩ : ∃ less, k' = less + 1 := ⟨k' - 1, by omega⟩
      rcases within with owns | ⟨other, target, star, within⟩
      · exact .inl owns
      · exact .inr ⟨other, target, star, ih (by omega) within⟩

theorem withinStars_iff : WithinStars graph left mod n
    ↔ Owns graph mod n ∨ n ≠ "default" ∧ OverStars graph left mod n := by
  cases left with
  | zero => simp [WithinStars, OverStars]
  | succ left =>
      constructor
      · rintro (owns | ⟨other, target, star, within⟩)
        · exact .inl owns
        · exact .inr ⟨other, left, Nat.lt_succ_self left, target, star, within⟩
      · rintro (owns | ⟨other, k, few, target, star, within⟩)
        · exact .inl owns
        · exact .inr ⟨other, target, star, withinStars_mono (Nat.le_of_lt_succ few) within⟩

-----------------------------------------------------------------------------------------
-- Gathering
-----------------------------------------------------------------------------------------

variable [DecidableEq M]

/-- The name is one that a star export passes on to the root. -/
def Passes (graph : M → ModuleDef M) (depth : Nat) (root : M) (n : String) : Prop :=
  n ≠ "default" ∧ resolveExport graph depth root n [] ≠ some .ambiguous

/-- What is bound to a name that is not listed yet is bound to the root's export. -/
def Leads (graph : M → ModuleDef M) (depth : Nat) (root : M) (items : List (NsExportItem M))
    (mod : M)
    : Prop :=
  ∀ n, Passes graph depth root n → n ∉ itemNames items →
    ∀ binding, Bound graph mod n binding → Bound graph root n binding

theorem Leads.more (leads : Leads graph depth root items mod)
    (more : ∀ n ∈ itemNames items, n ∈ itemNames items')
    : Leads graph depth root items' mod :=
  fun n passes fresh => leads n passes fun known => fresh (more n known)

/-- The names of one star target are added, by induction over its exports. -/
theorem addStarEntries_spec
    (returns : ∀ m n, Owns graph m n → ∃ result, resolveExport graph depth root n [] = some result)
    {entries : List ExportEntry} (among : ∀ ee ∈ entries, ee ∈ (graph target).exports)
    (fits : ItemsFit graph root items) (leads : Leads graph depth root items target)
    : ∃ items', addStarEntries graph depth root target entries items = some items'
      ∧ ItemsFit graph root items'
      ∧ ∀ n, n ∈ itemNames items' ↔ n ∈ itemNames items
        ∨ Passes graph depth root n ∧ ∃ ee ∈ entries, ee.exportName = n := by
  induction entries generalizing items with
  | nil => exact ⟨items, rfl, fits, by simp⟩
  | cons ee entries ih =>
      have member := among ee List.mem_cons_self
      have among := fun other inRest => among other (List.mem_cons_of_mem _ inRest)
      by_cases isDefault : ee.exportName = "default"
      · obtain ⟨items', added, fits', names⟩ := ih among fits leads
        refine ⟨items', by rw [addStarEntries, if_pos isDefault, added], fits', fun n => ?_⟩
        rw [names n, List.exists_mem_cons_iff]
        refine or_congr_right (and_congr_right fun passes => ?_)
        exact (or_iff_right fun same => passes.1 (same.symm.trans isDefault)).symm
      · obtain ⟨result, resolved⟩ := returns target ee.exportName ⟨ee, member, rfl⟩
        rw [addStarEntries, if_neg isDefault, resolved, Option.bind_some]
        by_cases ambiguous : result = .ambiguous
        · subst ambiguous
          obtain ⟨items', added, fits', names⟩ := ih among fits leads
          refine ⟨items', added, fits', fun n => ?_⟩
          rw [names n, List.exists_mem_cons_iff]
          refine or_congr_right (and_congr_right fun passes => ?_)
          refine (or_iff_right fun same => passes.2 ?_).symm
          rw [← same, resolved]
        · have passes : Passes graph depth root ee.exportName := by
            refine ⟨isDefault, fun other => ambiguous ?_⟩
            exact Option.some.inj (resolved.symm.trans other)
          have more : ∀ n ∈ itemNames items,
              n ∈ itemNames (nsAddExportItem items ee.exportName target (some ee)) :=
            fun n known => mem_addExportItem.mpr (.inl known)
          obtain ⟨items', added, fits', names⟩ := ih among
            (fits.add member fun fresh => leads ee.exportName passes fresh) (leads.more more)
          refine ⟨items', ?_, fits', fun n => ?_⟩
          · cases result with
            | ambiguous => exact absurd rfl ambiguous
            | resolved owner name => exact added
            | null => exact added
          · rw [names n, mem_addExportItem, List.exists_mem_cons_iff, or_assoc, and_or_left]
            refine or_congr_right (or_congr_left ?_)
            constructor
            · rintro rfl
              exact ⟨passes, rfl⟩
            · exact fun same => same.2.symm

/-- One star target's names are led to through a module that does not have them. -/
theorem Leads.star (leads : Leads graph depth root items mod)
    (listed : ∀ n, Passes graph depth root n → Owns graph mod n → n ∈ itemNames items)
    (star : StarTarget graph mod target)
    : Leads graph depth root items target :=
  fun n passes fresh binding bound => leads n passes fresh binding
    (bound_of_star (fun owns => fresh (listed n passes owns)) passes.1 star bound)

/-- What `collect_star_export_items` does with a star export. -/
def collectTurn (graph : M → ModuleDef M) (depth : Nat) (root : M) (left : Nat) (mod : M)
    (items : List (NsExportItem M)) (reqModuleIdx : Nat) : Option (List (NsExportItem M)) :=
  match (graph mod).resolved reqModuleIdx with
  | none => some items
  | some target =>
      (addStarEntries graph depth root target (graph target).exports items).bind fun items =>
        collectStarExportItemsFrom graph depth root left target items

theorem collectTurn_none {left star : Nat} {items : List (NsExportItem M)}
    (resolved : (graph mod).resolved star = none)
    : collectTurn graph depth root left mod items star = some items := by
  rw [collectTurn, resolved]

theorem collectTurn_some {left star : Nat} {items : List (NsExportItem M)}
    (resolved : (graph mod).resolved star = some target)
    : collectTurn graph depth root left mod items star
      = (addStarEntries graph depth root target (graph target).exports items).bind fun items =>
        collectStarExportItemsFrom graph depth root left target items := by
  rw [collectTurn, resolved]

/-- The names of the modules over star exports are added, by induction over the levels and at each
over the star exports.
-/
theorem collectStarExportItems_spec
    (returns : ∀ m n, Owns graph m n → ∃ result, resolveExport graph depth root n [] = some result)
    (fits : ItemsFit graph root items) (leads : Leads graph depth root items mod)
    (listed : ∀ n, Passes graph depth root n → Owns graph mod n → n ∈ itemNames items)
    : ∃ items', collectStarExportItemsFrom graph depth root left mod items = some items'
      ∧ ItemsFit graph root items'
      ∧ ∀ n, n ∈ itemNames items' ↔ n ∈ itemNames items
        ∨ Passes graph depth root n ∧ OverStars graph left mod n := by
  induction left generalizing mod items with
  | zero => exact ⟨items, rfl, fits, by simp [OverStars]⟩
  | succ left ih =>
      have loop (stars : List Nat) (among : ∀ star ∈ stars, star ∈ (graph mod).starExports)
          {items : List (NsExportItem M)} (fits : ItemsFit graph root items)
          (leads : Leads graph depth root items mod)
          (listed : ∀ n, Passes graph depth root n → Owns graph mod n → n ∈ itemNames items)
          : ∃ items', stars.foldlM (collectTurn graph depth root left mod) items
              = some items'
            ∧ ItemsFit graph root items'
            ∧ ∀ n, n ∈ itemNames items' ↔ n ∈ itemNames items
              ∨ Passes graph depth root n ∧ ∃ reqModuleIdx ∈ stars, ∃ target,
                (graph mod).resolved reqModuleIdx = some target
                ∧ WithinStars graph left target n := by
        induction stars generalizing items with
        | nil => exact ⟨items, rfl, fits, by simp⟩
        | cons star stars ihStars =>
            have rest := fun other inRest => among other (List.mem_cons_of_mem _ inRest)
            rw [List.foldlM_cons]
            cases resolved : (graph mod).resolved star with
            | none =>
                rw [collectTurn_none resolved]
                obtain ⟨items', gathered, fits', names⟩ := ihStars rest fits leads listed
                refine ⟨items', gathered, fits', fun n => ?_⟩
                rw [names n, List.exists_mem_cons_iff]
                simp [resolved]
            | some target =>
                have starred : StarTarget graph mod target :=
                  ⟨star, among star List.mem_cons_self, resolved⟩
                obtain ⟨items₁, added, fits₁, names₁⟩ := addStarEntries_spec returns
                  (fun _ member => member) fits (leads.star listed starred)
                have more₁ : ∀ n ∈ itemNames items, n ∈ itemNames items₁ :=
                  fun n known => (names₁ n).mpr (.inl known)
                obtain ⟨items₂, collected, fits₂, names₂⟩ := ih fits₁
                  ((leads.star listed starred).more more₁)
                  fun n passes owns => (names₁ n).mpr (.inr ⟨passes, owns⟩)
                have more₂ : ∀ n ∈ itemNames items, n ∈ itemNames items₂ :=
                  fun n known => (names₂ n).mpr (.inl (more₁ n known))
                obtain ⟨items', gathered, fits', names⟩ := ihStars rest fits₂ (leads.more more₂)
                  fun n passes owns => more₂ n (listed n passes owns)
                refine ⟨items', ?_, fits', fun n => ?_⟩
                · rw [collectTurn_some resolved, added, Option.bind_some, collected]
                  exact gathered
                · rw [names n, names₂ n, names₁ n, List.exists_mem_cons_iff, or_assoc, or_assoc]
                  refine or_congr_right ?_
                  rw [← and_or_left, ← and_or_left]
                  refine and_congr_right fun passes => ?_
                  rw [← or_assoc]
                  refine or_congr_left ?_
                  simp only [resolved, Option.some.injEq, exists_eq_left', withinStars_iff]
                  rw [and_iff_right passes.1]
                  rfl
      obtain ⟨items', gathered, fits', names⟩ := loop _ (fun _ member => member) fits leads listed
      refine ⟨items', gathered, fits', fun n => ?_⟩
      rw [names n]
      refine or_congr_right (and_congr_right fun _ => ?_)
      constructor
      · rintro ⟨star, member, target, resolved, within⟩
        exact ⟨left, Nat.lt_succ_self left, target, ⟨star, member, resolved⟩, within⟩
      · rintro ⟨k, few, target, ⟨star, member, resolved⟩, within⟩
        exact ⟨star, member, target, resolved, withinStars_mono (Nat.le_of_lt_succ few) within⟩

omit [DecidableEq M] in
/-- The exports of the module itself. -/
theorem ownItems_spec (entries : List ExportEntry)
    (among : ∀ ee ∈ entries, ee ∈ (graph root).exports) (fits : ItemsFit graph root items)
    : ItemsFit graph root (entries.foldl
        (fun items ee => nsAddExportItem items ee.exportName root (some ee)) items)
      ∧ ∀ n, n ∈ itemNames (entries.foldl
          (fun items ee => nsAddExportItem items ee.exportName root (some ee)) items)
        ↔ n ∈ itemNames items ∨ ∃ ee ∈ entries, ee.exportName = n := by
  induction entries generalizing items with
  | nil => exact ⟨fits, by simp⟩
  | cons ee entries ih =>
      obtain ⟨fits', names⟩ := ih (fun other inRest => among other (List.mem_cons_of_mem _ inRest))
        (fits.add (among ee List.mem_cons_self) fun _ _ bound => bound)
      refine ⟨fits', fun n => ?_⟩
      rw [List.foldl_cons, names n, mem_addExportItem, List.exists_mem_cons_iff, or_assoc]
      exact or_congr_right (or_congr_left eq_comm)

/-- The items of a module: its own exports, and what star exports pass on. -/
theorem collectExportItems_spec
    (returns : ∀ m n, Owns graph m n → ∃ result, resolveExport graph depth root n [] = some result)
    : ∃ items, collectExportItems graph depth root = some items
      ∧ ItemsFit graph root items
      ∧ ∀ n, n ∈ itemNames items ↔ Owns graph root n
        ∨ Passes graph depth root n ∧ OverStars graph (maxStarExports + 1) root n := by
  have start : ItemsFit graph root [] :=
    ⟨List.nodup_nil, fun _ member => absurd member List.not_mem_nil⟩
  obtain ⟨fits, names⟩ := ownItems_spec (graph root).exports (fun _ member => member) start
  have own (n : String) := (names n).trans (or_iff_right List.not_mem_nil)
  obtain ⟨items, collected, fits, names⟩ := collectStarExportItems_spec returns fits
    (fun _ _ _ _ bound => bound) (fun n _ owns => (own n).mpr owns)
  refine ⟨items, collected, fits, fun n => ?_⟩
  rw [names n, own n]
  rfl

-----------------------------------------------------------------------------------------
-- The exports behind the items
-----------------------------------------------------------------------------------------

variable {entries : List ExportEntry}

omit [DecidableEq M] in
theorem itemAt_isSome_iff : (itemAt items n).isSome ↔ n ∈ itemNames items := by
  simp [itemAt, itemNames]

omit [DecidableEq M] in
theorem ItemsFit.itemAt {item : NsExportItem M} (fits : ItemsFit graph root items)
    (member : item ∈ items)
    : itemAt items item.exportName = some (item.ownerMod, item.entry) := by
  rw [Correctness.itemAt]
  cases found : items.find? fun other => other.exportName == item.exportName with
  | none => exact absurd (beq_self_eq_true _) (List.find?_eq_none.mp found item member)
  | some other =>
      have holds := List.find?_some found
      have same : other.exportName = item.exportName := beq_iff_eq.mp holds
      rw [List.inj_on_of_nodup_map fits.distinct (List.mem_of_find?_eq_some found) member same]
      rfl

omit [DecidableEq M] in
/-- A name that is listed keeps its item. -/
theorem itemAt_add {entry : Option ExportEntry} {name : String}
    : itemAt (nsAddExportItem items name mod entry) n
      = (itemAt items n).or (if name = n then some (mod, entry) else none) := by
  rw [nsAddExportItem]
  split
  · rename_i known
    split
    · rename_i same
      rw [← same, Option.or_of_isSome (itemAt_isSome_iff.mpr (hasExportName_iff.mp known))]
    · rw [Option.or_none]
  · rw [itemAt, itemAt, List.find?_append, Option.map_or, List.find?_singleton]
    by_cases same : name = n
    · simp [same]
    · rw [beq_false_of_ne same, if_neg same]
      rfl

omit [DecidableEq M] in
/-- The first export of a name is the head or among the rest. -/
theorem entryOf_cons {ee : ExportEntry}
    : ((ee :: entries).find? fun ee => ee.exportName == n).map (fun ee => (target, some ee))
      = (if ee.exportName = n then some (target, some ee) else none).or
          ((entries.find? fun ee => ee.exportName == n).map fun ee => (target, some ee)) := by
  rw [List.find?_cons]
  by_cases same : ee.exportName = n
  · simp [same]
  · rw [beq_false_of_ne same, if_neg same, Option.none_or]

omit [DecidableEq M] in
theorem itemAt_own
    : itemAt (entries.foldl (fun items ee => nsAddExportItem items ee.exportName mod (some ee)) items) n
      = (itemAt items n).or
          ((entries.find? fun ee => ee.exportName == n).map fun ee => (mod, some ee)) := by
  induction entries generalizing items with
  | nil => simp
  | cons ee entries ih =>
      rw [List.foldl_cons, ih, itemAt_add, Option.or_assoc, entryOf_cons]

/-- A star target's export of a name is the item of the name, unless there is one: by induction over
the exports.
-/
theorem itemAt_addStarEntries
    (added : addStarEntries graph depth root target entries items = some items')
    (listed : Passes graph depth root n ∨ (itemAt items n).isSome)
    : itemAt items' n = (itemAt items n).or
        ((entries.find? fun ee => ee.exportName == n).map fun ee => (target, some ee)) := by
  induction entries generalizing items with
  | nil =>
      obtain rfl := Option.some.inj added
      simp
  | cons ee entries ih =>
      -- An export that is left out is not of a name that is passed on.
      have skip (left : ee.exportName = n → ¬Passes graph depth root n)
          (rest : addStarEntries graph depth root target entries items = some items')
          : itemAt items' n = (itemAt items n).or (((ee :: entries).find?
              fun ee => ee.exportName == n).map fun ee => (target, some ee)) := by
        rw [ih rest listed, entryOf_cons]
        by_cases same : ee.exportName = n
        · have known := listed.resolve_left (left same)
          rw [Option.or_of_isSome known, Option.or_of_isSome known]
        · rw [if_neg same, Option.none_or]
      rw [addStarEntries] at added
      split at added
      · rename_i isDefault
        exact skip (fun same passes => passes.1 (same.symm.trans isDefault)) added
      · obtain ⟨result, resolved, added⟩ := Option.bind_eq_some_iff.mp added
        have taken (rest : addStarEntries graph depth root target entries
              (nsAddExportItem items ee.exportName target (some ee)) = some items')
            : itemAt items' n = (itemAt items n).or (((ee :: entries).find?
                fun ee => ee.exportName == n).map fun ee => (target, some ee)) := by
          have still : Passes graph depth root n
              ∨ (itemAt (nsAddExportItem items ee.exportName target (some ee)) n).isSome := by
            refine listed.imp_right fun known => ?_
            rw [itemAt_add, Option.or_of_isSome known]
            exact known
          rw [ih rest still, itemAt_add, Option.or_assoc, entryOf_cons]
        cases result with
        | ambiguous =>
            refine skip (fun same passes => passes.2 ?_) added
            rw [← same, resolved]
        | resolved owner name => exact taken added
        | null => exact taken added

theorem itemAt_still {entry : Option (M × Option ExportEntry)}
    (listed : Passes graph depth root n ∨ (itemAt items n).isSome)
    (more : itemAt items' n = (itemAt items n).or entry)
    : Passes graph depth root n ∨ (itemAt items' n).isSome := by
  refine listed.imp_right fun known => ?_
  rw [more, Option.or_of_isSome known]
  exact known

/-- The item of a name is the first export over the stars: by induction over the levels and at each
over the star exports.
-/
theorem itemAt_collect
    (collected : collectStarExportItemsFrom graph depth root left mod items = some items')
    (listed : Passes graph depth root n ∨ (itemAt items n).isSome)
    : itemAt items' n = (itemAt items n).or ((starExporter graph left mod n).map asItem) := by
  induction left generalizing mod items items' with
  | zero =>
      obtain rfl := Option.some.inj collected
      simp [starExporter]
  | succ left ih =>
      have loop (stars : List Nat) {items : List (NsExportItem M)}
          (listed : Passes graph depth root n ∨ (itemAt items n).isSome)
          (collected : stars.foldlM (collectTurn graph depth root left mod) items = some items')
          : itemAt items' n = (itemAt items n).or ((stars.findSome? fun reqModuleIdx =>
              ((graph mod).resolved reqModuleIdx).bind fun target =>
                (ownEntry graph target n).or (starExporter graph left target n)).map asItem) := by
        induction stars generalizing items with
        | nil =>
            obtain rfl := Option.some.inj collected
            simp
        | cons star stars ihStars =>
            rw [List.foldlM_cons] at collected
            obtain ⟨items₂, turn, rest⟩ := Option.bind_eq_some_iff.mp collected
            rw [List.findSome?_cons]
            cases resolved : (graph mod).resolved star with
            | none =>
                rw [collectTurn_none resolved] at turn
                obtain rfl := Option.some.inj turn
                exact ihStars listed rest
            | some target =>
                rw [collectTurn_some resolved] at turn
                obtain ⟨items₁, added, turn⟩ := Option.bind_eq_some_iff.mp turn
                have first := itemAt_addStarEntries added listed
                have second := ih turn (itemAt_still listed first)
                have third := ihStars (itemAt_still (itemAt_still listed first) second) rest
                have own : ((graph target).exports.find? fun ee => ee.exportName == n).map
                    (fun ee => (target, some ee)) = (ownEntry graph target n).map asItem := by
                  rw [ownEntry, Option.map_map]
                  rfl
                rw [third, second, first, own, Option.bind_some]
                cases ownEntry graph target n <;> cases starExporter graph left target n
                  <;> simp
      exact loop _ listed collected

/-- Each key has the item of its export. -/
theorem collectExportItems_exporter (collected : collectExportItems graph depth root = some items)
    (listed : Owns graph root n ∨ Passes graph depth root n)
    : itemAt items n = (exporter graph root n).map asItem := by
  have some_ : Passes graph depth root n ∨ (itemAt ((graph root).exports.foldl
      (fun items ee => nsAddExportItem items ee.exportName root (some ee)) []) n).isSome := by
    refine listed.symm.imp_right fun owns => ?_
    rw [itemAt_own]
    simpa [itemAt, Owns] using owns
  rw [itemAt_collect collected some_, itemAt_own, exporter]
  cases found : (graph root).exports.find? fun ee => ee.exportName == n <;>
    simp [ownEntry, found, asItem, itemAt]

end Boomkat.Correctness
