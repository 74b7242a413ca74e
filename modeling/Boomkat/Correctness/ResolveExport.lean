import Mathlib.Data.Fintype.Basic
import Mathlib.Data.List.ProdSigma
import Boomkat.Foundation.SearchTermination
import Boomkat.Modules.ResolveExport

/-! `resolve_export` against the specification's ResolveExport. Both are searches of one graph of
requests; the first remembers its path, in a set with room for 64 of them.
-/

namespace Boomkat.Correctness

open Foundation Modules

variable {M : Type*} [DecidableEq M] {graph : M → ModuleDef M}

/-- What a module comes to when it is asked for a name: a binding, or what other modules
answer.
-/
def requestView (graph : M → ModuleDef M) : M × String → View (M × String) (M × String)
  | (mod, exportName) =>
      match (graph mod).directExport exportName with
      | some entry => .found (mod, entry.localName)
      | none =>
          match (graph mod).indirectExport exportName with
          | some entry =>
              match (graph mod).resolved entry.reqModuleIdx with
              | none => .asks []
              | some imported =>
                  if entry.localName = "*" then .found (imported, "*")
                  else .asks [(imported, entry.localName)]
          | none =>
              if exportName = "default" then .asks []
              else
                .asks (((graph mod).starExports.filterMap (graph mod).resolved).map
                  fun imported => (imported, exportName))

/-- A result as the answer of a search. -/
def answerOf : ResolveExportResult M → Answer (M × String)
  | .resolved owner bindingName => .resolved (owner, bindingName)
  | .null => .null
  | .ambiguous => .ambiguous

omit [DecidableEq M] in
theorem answerOf_injective : Function.Injective (@answerOf M) := by
  intro result other same
  cases result <;> cases other <;> simp_all [answerOf]

-----------------------------------------------------------------------------------------
-- The searches that they are
-----------------------------------------------------------------------------------------

/-- The star loop gathers the answers of the modules that are resolved. -/
theorem resolveStars_gathers {resolve : M → Option (ResolveExportResult M)}
    {search : M × String → Option (Answer (M × String))} {exportName : String}
    (same : ∀ imported, (resolve imported).map answerOf = search (imported, exportName))
    (mod : ModuleDef M) (stars : List Nat) (star : ResolveExportResult M)
    (agreed : star ≠ .ambiguous)
    : (resolveStars resolve mod stars star).map answerOf
      = gather search ((stars.filterMap mod.resolved).map fun imported => (imported, exportName))
          (answerOf star) := by
  induction stars generalizing star with
  | nil => rfl
  | cons reqModuleIdx rest ih =>
      cases seen : mod.resolved reqModuleIdx with
      | none =>
          rw [List.filterMap_cons_none seen]
          simp only [resolveStars, seen]
          exact ih star agreed
      | some imported =>
          rw [List.filterMap_cons_some seen, List.map_cons, gather, ← same imported]
          simp only [resolveStars, seen]
          cases resolve imported with
          | none => rfl
          | some result =>
              simp only [Option.bind_some, Option.map_some]
              cases result with
              | ambiguous => rfl
              | null =>
                  have unchanged : (answerOf star).join (answerOf .null) = answerOf star := rfl
                  have agreed' : answerOf star ≠ .ambiguous := answerOf_injective.ne agreed
                  rw [unchanged, if_neg agreed']
                  exact ih star agreed
              | resolved owner bindingName =>
                  cases star with
                  | ambiguous => exact absurd rfl agreed
                  | null => exact ih (.resolved owner bindingName) (by simp)
                  | resolved starOwner starName =>
                      by_cases equal : starOwner = owner ∧ starName = bindingName
                      · obtain ⟨rfl, rfl⟩ := equal
                        simpa [answerOf, Answer.join] using ih (.resolved starOwner starName) (by simp)
                      · have differs : starOwner ≠ owner ∨ starName ≠ bindingName :=
                          Decidable.not_and_iff_or_not.mp equal
                        have differs' : (starOwner, starName) ≠ (owner, bindingName) := by
                          simpa using equal
                        simp only [if_pos differs, answerOf, Answer.join, if_neg differs']
                        rfl

/-- `resolve_export` is the search that remembers its path. -/
theorem resolveExport_searches (graph : M → ModuleDef M) (depth : Nat) (mod : M)
    (exportName : String) (set : List (ResolveSetEntry M))
    : (resolveExport graph depth mod exportName set).map answerOf
      = pathSearch (requestView graph) resolveSetMax depth (mod, exportName) set := by
  induction depth generalizing mod exportName set with
  | zero => rfl
  | succ depth ih =>
      simp only [resolveExport, pathSearch, requestView]
      by_cases met : (mod, exportName) ∈ set
      · simp only [if_pos met]
        rfl
      · simp only [if_neg met]
        cases (graph mod).directExport exportName with
        | some entry => rfl
        | none =>
            cases (graph mod).indirectExport exportName with
            | none =>
                by_cases isDefault : exportName = "default"
                · simp only [if_pos isDefault]
                  rfl
                · simp only [if_neg isDefault]
                  exact resolveStars_gathers (fun imported => ih imported exportName _) (graph mod)
                    (graph mod).starExports .null (by simp)
            | some entry =>
                dsimp only
                cases (graph mod).resolved entry.reqModuleIdx with
                | none => rfl
                | some imported =>
                    dsimp only
                    by_cases namespaced : entry.localName = "*"
                    · simp only [if_pos namespaced]
                      rfl
                    · simp only [if_neg namespaced]
                      exact (ih imported entry.localName _).trans
                        (gather_singleton (fun next => pathSearch (requestView graph) resolveSetMax
                          depth next (recordRequest resolveSetMax set (mod, exportName)))
                          (imported, entry.localName)).symm

/-- The specification's star loop gathers the answers too, with what has been visited. -/
theorem specResolveStars_gathers
    {resolve : M → List (ResolveSetEntry M)
      → Option (ResolveExportResult M × List (ResolveSetEntry M))}
    {search : M × String → List (M × String)
      → Option (Answer (M × String) × List (M × String))}
    {exportName : String}
    (same : ∀ imported set,
      (resolve imported set).map (Prod.map answerOf id) = search (imported, exportName) set)
    (mod : ModuleDef M) (stars : List Nat) (star : ResolveExportResult M)
    (set : List (ResolveSetEntry M)) (agreed : star ≠ .ambiguous)
    : (specResolveStars resolve mod stars star set).map (Prod.map answerOf id)
      = gatherShared search
          ((stars.filterMap mod.resolved).map fun imported => (imported, exportName))
          (answerOf star) set := by
  induction stars generalizing star set with
  | nil => rfl
  | cons reqModuleIdx rest ih =>
      cases seen : mod.resolved reqModuleIdx with
      | none =>
          rw [List.filterMap_cons_none seen]
          simp only [specResolveStars, seen]
          exact ih star set agreed
      | some imported =>
          rw [List.filterMap_cons_some seen, List.map_cons, gatherShared, ← same imported]
          simp only [specResolveStars, seen]
          cases resolve imported set with
          | none => rfl
          | some found =>
              obtain ⟨result, set⟩ := found
              simp only [Option.bind_some, Option.map_some, Prod.map_apply, id_eq]
              cases result with
              | ambiguous => rfl
              | null =>
                  have unchanged : (answerOf star).join (answerOf .null) = answerOf star := rfl
                  have agreed' : answerOf star ≠ .ambiguous := answerOf_injective.ne agreed
                  rw [unchanged, if_neg agreed']
                  exact ih star set agreed
              | resolved owner bindingName =>
                  cases star with
                  | ambiguous => exact absurd rfl agreed
                  | null => exact ih (.resolved owner bindingName) set (by simp)
                  | resolved starOwner starName =>
                      by_cases equal : starOwner = owner ∧ starName = bindingName
                      · obtain ⟨rfl, rfl⟩ := equal
                        simpa [answerOf, Answer.join]
                          using ih (.resolved starOwner starName) set (by simp)
                      · have differs : starOwner ≠ owner ∨ starName ≠ bindingName :=
                          Decidable.not_and_iff_or_not.mp equal
                        have differs' : (starOwner, starName) ≠ (owner, bindingName) := by
                          simpa using equal
                        simp only [if_pos differs, answerOf, Answer.join, if_neg differs']
                        rfl

/-- The specification's ResolveExport is the search that remembers all. -/
theorem specResolveExport_searches (graph : M → ModuleDef M) (depth : Nat) (mod : M)
    (exportName : String) (set : List (ResolveSetEntry M))
    : (specResolveExport graph depth mod exportName set).map (Prod.map answerOf id)
      = sharedSearch (requestView graph) depth (mod, exportName) set := by
  induction depth generalizing mod exportName set with
  | zero => rfl
  | succ depth ih =>
      simp only [specResolveExport, sharedSearch, requestView]
      by_cases met : (mod, exportName) ∈ set
      · simp only [if_pos met]
        rfl
      · simp only [if_neg met]
        cases (graph mod).directExport exportName with
        | some entry => rfl
        | none =>
            cases (graph mod).indirectExport exportName with
            | none =>
                by_cases isDefault : exportName = "default"
                · simp only [if_pos isDefault]
                  rfl
                · simp only [if_neg isDefault]
                  exact specResolveStars_gathers (fun imported set => ih imported exportName set)
                    (graph mod) (graph mod).starExports .null _ (by simp)
            | some entry =>
                dsimp only
                cases (graph mod).resolved entry.reqModuleIdx with
                | none => rfl
                | some imported =>
                    dsimp only
                    by_cases namespaced : entry.localName = "*"
                    · simp only [if_pos namespaced]
                      rfl
                    · simp only [if_neg namespaced]
                      exact (ih imported entry.localName _).trans
                        (gatherShared_singleton _ (imported, entry.localName) _).symm

-----------------------------------------------------------------------------------------
-- Agreement
-----------------------------------------------------------------------------------------

/-- The call with an empty resolve set returns this result. -/
def Resolves (graph : M → ModuleDef M) (mod : M) (exportName : String)
    (result : ResolveExportResult M) : Prop :=
  ∃ depth, resolveExport graph depth mod exportName [] = some result

/-- The specification's ResolveExport returns this result. -/
def SpecResolves (graph : M → ModuleDef M) (mod : M) (exportName : String)
    (result : ResolveExportResult M) : Prop :=
  ∃ depth set, specResolveExport graph depth mod exportName [] = some (result, set)

/-- The code returns iff the search that remembers its path ends. -/
theorem resolves_iff_ends {mod : M} {exportName : String}
    : (∃ result, Resolves graph mod exportName result)
      ↔ Ends (requestView graph) resolveSetMax [] (mod, exportName) := by
  constructor
  · rintro ⟨result, depth, returned⟩
    refine ⟨depth, answerOf result, ?_⟩
    rw [← resolveExport_searches, returned, Option.map_some]
  · rintro ⟨depth, answer, searched⟩
    rw [← resolveExport_searches, Option.map_eq_some_iff] at searched
    obtain ⟨result, returned, _⟩ := searched
    exact ⟨result, depth, returned⟩

/-- What the code returns, the specification does. Witness: both answers stand for the bindings
that are reached.
-/
theorem Resolves.unique {mod : M} {exportName : String} {result result' : ResolveExportResult M}
    (resolves : Resolves graph mod exportName result)
    (resolves' : SpecResolves graph mod exportName result')
    : result = result' := by
  obtain ⟨depth, returned⟩ := resolves
  obtain ⟨depth', set, returned'⟩ := resolves'
  have searched := resolveExport_searches graph depth mod exportName []
  have searched' := specResolveExport_searches graph depth' mod exportName []
  rw [returned] at searched
  rw [returned'] at searched'
  exact answerOf_injective
    ((pathSearch_denotes searched.symm).unique (sharedSearch_denotes searched'.symm))

omit [DecidableEq M] in
/-- A module is only asked for the first name or for a name that an export has in its module. -/
theorem exists_requests [Fintype M] (graph : M → ModuleDef M) (mod : M) (exportName : String)
    : ∃ known : List (M × String), (mod, exportName) ∈ known
      ∧ ∀ request ∈ known, ∀ asked, requestView graph request = .asks asked → asked ⊆ known := by
  let names := exportName
    :: Finset.univ.toList.flatMap fun mod : M => (graph mod).exports.map ExportEntry.localName
  refine ⟨Finset.univ.toList ×ˢ names, ?_, ?_⟩
  · exact List.mem_product.mpr ⟨by simp, List.mem_cons_self ..⟩
  · rintro ⟨asker, name⟩ member asked asks ⟨imported, name'⟩ among
    rw [List.mem_product] at member ⊢
    refine ⟨by simp, ?_⟩
    simp only [requestView] at asks
    split at asks
    · cases asks
    · split at asks
      · rename_i entry found
        split at asks
        · cases asks
          exact absurd among List.not_mem_nil
        · split at asks
          · cases asks
          · cases asks
            rw [List.mem_singleton, Prod.mk.injEq] at among
            refine List.mem_cons_of_mem _ (List.mem_flatMap.mpr ⟨asker, by simp, ?_⟩)
            exact among.2 ▸ List.mem_map_of_mem (List.mem_of_find?_eq_some found)
      · split at asks
        · cases asks
          exact absurd among List.not_mem_nil
        · cases asks
          obtain ⟨_, _, same⟩ := List.mem_map.mp among
          cases same
          exact member.2

/-- The specification's ResolveExport always returns. -/
theorem exists_specResolves [Fintype M] (graph : M → ModuleDef M) (mod : M) (exportName : String)
    : ∃ result, SpecResolves graph mod exportName result := by
  obtain ⟨known, member, closed⟩ := exists_requests graph mod exportName
  have enough : (unvisited known []).length < known.length + 1 :=
    Nat.lt_succ_of_le (List.length_filter_le ..)
  obtain ⟨answer, after, searched, _⟩ := sharedSearch_ends closed member enough
  rw [← specResolveExport_searches, Option.map_eq_some_iff] at searched
  obtain ⟨⟨result, set⟩, returned, _⟩ := searched
  exact ⟨result, _, set, returned⟩

/-- `resolve_export` returns what the specification's ResolveExport returns, unless it comes with
a full resolve set to a request that leads back to itself. Witness: where it returns at all, both
answers stand for the bindings that are reached.
-/
theorem resolveExport_agrees [Fintype M] (graph : M → ModuleDef M) (mod : M)
    (exportName : String)
    : (∃ result, Resolves graph mod exportName result ∧ SpecResolves graph mod exportName result)
      ↔ ¬EntersCycle (requestView graph) resolveSetMax (mod, exportName) := by
  obtain ⟨known, member, closed⟩ := exists_requests graph mod exportName
  rw [← ends_iff closed member, ← resolves_iff_ends]
  constructor
  · rintro ⟨result, resolves, _⟩
    exact ⟨result, resolves⟩
  · rintro ⟨result, resolves⟩
    obtain ⟨result', resolves'⟩ := exists_specResolves graph mod exportName
    exact ⟨result, resolves, resolves.unique resolves' ▸ resolves'⟩

/-- A chain of 65 modules, each with a star export of the next, the last one of itself. -/
def starChain (mod : Fin 65) : ModuleDef (Fin 65) where
  exports := []
  starExports := [0]
  reqModules := [some (Fin.ofNat 65 (min (mod.val + 1) 64))]

/-- A module of the chain asks the next. -/
theorem starChain_asks {path : List (Fin 65 × String)} {mod : Fin 65} (next : Fin 65)
    (clear : (mod, "x") ∉ path) (follows : next.val = min (mod.val + 1) 64)
    : Asks (requestView starChain) resolveSetMax path (mod, "x") (next, "x") := by
  have same : next = Fin.ofNat 65 (min (mod.val + 1) 64) := by
    apply Fin.ext
    simp only [Fin.ofNat]
    omega
  refine ⟨clear, [], [], ?_, ?_⟩
  · rw [same]
    rfl
  · rintro binding _ ⟨_, among, _⟩
    exact absurd among List.not_mem_nil

/-- Each of the chain is reached with all before it in the set. -/
theorem starChain_visits (count : Nat) (few : count < 65)
    : ∃ path : List (Fin 65 × String), path.length = count
      ∧ (∀ request ∈ path, request.1.val < count)
      ∧ Visits (requestView starChain) resolveSetMax (0, "x") path (⟨count, few⟩, "x") := by
  induction count with
  | zero => exact ⟨[], rfl, fun request among => absurd among List.not_mem_nil, .start⟩
  | succ count ih =>
      obtain ⟨path, length, before, visits⟩ := ih (by omega)
      have clear : ((⟨count, by omega⟩ : Fin 65), "x") ∉ path :=
        fun among => absurd (before _ among) (Nat.lt_irrefl count)
      have asks := starChain_asks ⟨count + 1, few⟩ clear (by simp; omega)
      have recorded : recordRequest resolveSetMax path ((⟨count, by omega⟩ : Fin 65), "x")
          = path ++ [(⟨count, by omega⟩, "x")] :=
        if_pos (by rw [length, resolveSetMax]; omega)
      refine ⟨path ++ [(⟨count, by omega⟩, "x")], by simp [length], ?_, recorded ▸ visits.asks asks⟩
      intro request among
      rcases List.mem_append.mp among with among | among
      · exact Nat.lt_succ_of_lt (before request among)
      · rw [List.mem_singleton.mp among]
        exact Nat.lt_succ_self count

/-- On the chain `resolve_export` never returns, where the specification finds nothing. -/
theorem starChain_never_resolves
    : ¬∃ result, Resolves starChain 0 "x" result ∧ SpecResolves starChain 0 "x" result := by
  rintro ⟨result, resolves, _⟩
  obtain ⟨path, length, before, visits⟩ := starChain_visits 64 (by decide)
  have clear : ((⟨64, by decide⟩ : Fin 65), "x") ∉ path :=
    fun among => absurd (before _ among) (Nat.lt_irrefl 64)
  have ends := resolves_iff_ends.mp ⟨result, resolves⟩
  exact (visits.ends ends).irrefl (Nat.le_of_eq length.symm)
    (.single (starChain_asks _ clear (by decide)))

end Boomkat.Correctness
