import Boomkat.Collector.Sweep
import Boomkat.Correctness.Marking

/-! A collection keeps the nodes in reach as they are and frees the others, whatever their counts
say.
-/

namespace Boomkat.Correctness
open Collector Tracing
open Strings (Addr stringPinnedRefcount)

variable {heap heap' heap'' : Heap} {a : Addr}

-----------------------------------------------------------------------------------------
-- Sparing what is marked
-----------------------------------------------------------------------------------------

/-- Nodes have been freed, but no marked one other than strings. -/
structure Spares (heap heap' : Heap) : Prop where
  flags : heap'.reachable = heap.reachable
  sweeping : heap'.sweeping = heap.sweeping
  nodes
    : ∀ b, heap'.nodes b = heap.nodes b
        ∨ heap'.nodes b = none ∧ (heap.reachable b = true → heap.isString b = true)
  listed : ∀ b ∈ heap.heapAllocated, b ∈ heap'.heapAllocated ∨ heap.reachable b = false
  fewer : heap'.heapAllocated.Sublist heap.heapAllocated
  strings : heap'.strTable.Sublist heap.strTable
  largeStrings : heap'.largeStrings.Sublist heap.largeStrings
  gray : heap'.grayObjects = heap.grayObjects

/-- Nothing has been freed. -/
theorem Spares.refl (heap : Heap) : Spares heap heap :=
  ⟨rfl, rfl, fun _ => .inl rfl, fun _ member => .inl member, .refl _, .refl _, .refl _, rfl⟩

/-- Frees one after the other: what the first kept, the second may free only if it may go. -/
theorem Spares.trans (first : Spares heap heap') (second : Spares heap' heap'')
    : Spares heap heap'' where
  flags := second.flags.trans first.flags
  sweeping := second.sweeping.trans first.sweeping
  nodes b := by
    rcases first.nodes b with same | ⟨gone, string⟩
    · rcases second.nodes b with same' | ⟨gone, string⟩
      · exact .inl (same'.trans same)
      · rw [first.flags, Heap.isString, same] at string
        exact .inr ⟨gone, string⟩
    · rcases second.nodes b with same' | ⟨gone', -⟩
      · exact .inr ⟨same'.trans gone, string⟩
      · exact .inr ⟨gone', string⟩
  listed b member := by
    rcases first.listed b member with kept | unmarked
    · rcases second.listed b kept with kept' | unmarked
      · exact .inl kept'
      · exact .inr (by rwa [first.flags] at unmarked)
    · exact .inr unmarked
  fewer := second.fewer.trans first.fewer
  strings := second.strings.trans first.strings
  largeStrings := second.largeStrings.trans first.largeStrings
  gray := second.gray.trans first.gray

theorem Spares.touch (heap : Heap) (a : Addr) : Spares heap (heap.touch a) :=
  ⟨rfl, rfl, fun _ => .inl rfl, fun _ member => .inl member, .refl _, .refl _, .refl _, rfl⟩

theorem Spares.clearTemproot (heap : Heap) (a : Addr) : Spares heap (heap.clearTemproot a) :=
  ⟨rfl, rfl, fun _ => .inl rfl, fun _ member => .inl member, .refl _, .refl _, .refl _, rfl⟩

/-- A block that is freed is not marked, or it is a string. -/
theorem Spares.freeBlock (spared : heap.reachable a = true → heap.isString a = true)
    : Spares heap (heap.freeBlock a) where
  flags := rfl
  sweeping := rfl
  nodes b := by
    by_cases same : b = a
    · subst same
      exact .inr ⟨Function.update_self .., spared⟩
    · exact .inl (Function.update_of_ne same ..)
  listed _ member := .inl member
  fewer := .refl _
  strings := .refl _
  largeStrings := .refl _
  gray := rfl

/-- Counts can change. -/
theorem Spares.recount (spares : Spares heap heap') (refcount : Addr → UInt32)
    : Spares heap { heap' with refcount := refcount } :=
  ⟨spares.flags, spares.sweeping, spares.nodes, spares.listed, spares.fewer, spares.strings,
    spares.largeStrings, spares.gray⟩

/-- A node that is not marked can be unlinked. -/
theorem Spares.unlink (spares : Spares heap heap') (unmarked : heap.reachable a = false)
    : Spares heap { heap' with heapAllocated := heap'.heapAllocated.erase a } where
  flags := spares.flags
  sweeping := spares.sweeping
  nodes := spares.nodes
  listed b member := by
    by_cases same : b = a
    · exact .inr (same ▸ unmarked)
    · exact (spares.listed b member).imp_left (List.mem_erase_of_ne same).mpr
  fewer := List.erase_sublist.trans spares.fewer
  strings := spares.strings
  largeStrings := spares.largeStrings
  gray := spares.gray

theorem Spares.eraseString (spares : Spares heap heap') (a : Addr)
    : Spares heap { heap' with strTable := heap'.strTable.erase a } :=
  ⟨spares.flags, spares.sweeping, spares.nodes, spares.listed, spares.fewer,
    List.erase_sublist.trans spares.strings, spares.largeStrings, spares.gray⟩

theorem Spares.eraseLargeString (spares : Spares heap heap') (a : Addr)
    : Spares heap { heap' with largeStrings := heap'.largeStrings.erase a } :=
  ⟨spares.flags, spares.sweeping, spares.nodes, spares.listed, spares.fewer, spares.strings,
    List.erase_sublist.trans spares.largeStrings, spares.gray⟩

/-- `decref` in the sweep. An object whose teardown is left to do is not marked. -/
theorem decref_spares (sweeping : heap.sweeping = true) (a : Addr)
    : Spares heap (heap.decref a).1
      ∧ ∀ obj, (heap.decref a).2 = some obj → heap.reachable a = false := by
  have touched := Spares.touch heap a
  have counted := touched.recount
    (Function.update heap.refcount a (heap.refcount a - 1))
  rw [Heap.decref]
  split
  · exact ⟨touched, fun obj none => by cases none⟩
  split
  · exact ⟨touched, fun obj none => by cases none⟩
  dsimp only
  split
  · exact ⟨counted, fun obj none => by cases none⟩
  split
  · rename_i isInterned found
    have string : heap.isString a = true := by
      rw [Heap.isString]
      rw [show heap.nodes a = _ from found]
      rfl
    split
    · exact ⟨(counted.eraseString a).trans (Spares.freeBlock fun _ => string),
        fun obj none => by cases none⟩
    · exact ⟨(counted.eraseLargeString a).trans (Spares.freeBlock fun _ => string),
        fun obj none => by cases none⟩
  · rename_i node _ found
    split
    · exact ⟨touched.recount _, fun obj none => by cases none⟩
    · rename_i free
      have unmarked : heap.reachable a = false := by
        have sweeping' : (heap.touch a).sweeping = true := sweeping
        rw [sweeping', Bool.true_and] at free
        exact Bool.eq_false_iff.mpr free
      split
      · exact ⟨counted.unlink unmarked, fun _ _ => unmarked⟩
      · refine ⟨(counted.unlink unmarked).trans (Spares.freeBlock fun marked => ?_),
          fun obj none => by cases none⟩
        rw [show heap.reachable a = true from marked] at unmarked
        cases unmarked
  · exact ⟨counted, fun obj none => by cases none⟩

/-- A generator state that is released frees no node. -/
theorem gsRelease_spares (heap : Heap) (gs : Addr) : Spares heap (heap.gsRelease gs).1 := by
  rw [Heap.gsRelease]
  split
  · exact ⟨rfl, rfl, fun _ => .inl rfl, fun _ member => .inl member, .refl _, .refl _, .refl _, rfl⟩
  split
  · exact ⟨rfl, rfl, fun _ => .inl rfl, fun _ member => .inl member, .refl _, .refl _, .refl _, rfl⟩
  · exact ⟨rfl, rfl, fun _ => .inl rfl, fun _ member => .inl member, .refl _, .refl _, .refl _, rfl⟩

theorem strayed_spares (heap : Heap) (strayed : Bool)
    : Spares heap { heap with strayed := strayed } :=
  ⟨rfl, rfl, fun _ => .inl rfl, fun _ member => .inl member, .refl _, .refl _, .refl _, rfl⟩

theorem free_not_drop (pointers : List Addr) (b : Addr)
    : Release.free b ∉ pointers.map Release.drop := by
  intro member
  obtain ⟨_, _, same⟩ := List.mem_map.mp member
  cases same

/-- What an extra of an object releases is never a block by itself. -/
theorem free_not_extra (extra : HObjectExtra) (b : Addr) : Release.free b ∉ extra.releases := by
  have generator (gs : Option Addr) : Release.free b ∉ gs.toList.map Release.generator := by
    intro member
    obtain ⟨_, _, same⟩ := List.mem_map.mp member
    cases same
  cases extra <;>
    simp only [HObjectExtra.releases, dropValue, dropObject, List.mem_append, List.not_mem_nil,
      free_not_drop, generator, or_self, not_false_eq_true]

/-- Nor is what the object releases. -/
theorem free_not_object (obj : HObject) (b : Addr) : Release.free b ∉ obj.releases := by
  have values (values : List Collections.TVal) : Release.free b ∉ values.flatMap dropValue := by
    intro member
    obtain ⟨_, _, inside⟩ := List.mem_flatMap.mp member
    exact free_not_drop _ b inside
  rw [HObject.releases, List.mem_append, not_or]
  refine ⟨free_not_extra obj.extra b, ?_⟩
  split
  · rw [List.mem_append, not_or]
    refine ⟨fun member => ?_, values _⟩
    obtain ⟨_, _, inside⟩ := List.mem_flatMap.mp member
    exact free_not_drop _ b inside
  · exact List.not_mem_nil

theorem free_not_generator (gs : GeneratorState) (b : Addr) : Release.free b ∉ gs.releases := by
  intro member
  rcases List.mem_append.mp member with member | member
  · rcases List.mem_append.mp member with member | member
    · rcases List.mem_append.mp member with member | member
      · obtain ⟨_, _, inside⟩ := List.mem_flatMap.mp member
        exact free_not_drop _ b inside
      · exact free_not_drop _ b member
    · obtain ⟨_, _, same⟩ := List.mem_map.mp member
      cases same
  · obtain ⟨_, _, inside⟩ := List.mem_flatMap.mp member
    exact free_not_drop _ b inside

/-- Nor what the last release of a generator state does. -/
theorem free_not_gsRelease {gs b : Addr} : Release.free b ∉ (heap.gsRelease gs).2 := by
  rw [Heap.gsRelease]
  split
  · exact List.not_mem_nil
  split
  · exact List.not_mem_nil
  · exact free_not_generator _ b

/-- The releases of a teardown, by induction over the turns of the loop. -/
theorem release_spares (fuel : Nat) (work : List Release) (heap : Heap)
    (sweeping : heap.sweeping = true)
    (freeable : ∀ b, Release.free b ∈ work → heap.reachable b = false)
    : Spares heap (Heap.release fuel work heap) := by
  have rest {step : Release} {work : List Release} {heap heap' : Heap}
      (freeable : ∀ b, Release.free b ∈ step :: work → heap.reachable b = false)
      (spares : Spares heap heap') (b : Addr) (member : Release.free b ∈ work)
      : heap'.reachable b = false := by
    rw [spares.flags]
    exact freeable b (List.mem_cons_of_mem _ member)
  induction fuel, work, heap using Heap.release.induct with
  | case1 _ heap =>
      rw [Heap.release]
      exact .refl heap
  | case2 fuel a work heap ih =>
      rw [Heap.release]
      have cleared := Spares.clearTemproot heap a
      exact cleared.trans (ih sweeping (rest freeable cleared))
  | case3 fuel a work heap ih =>
      rw [Heap.release]
      have unmarked := freeable a List.mem_cons_self
      have freed : Spares heap (heap.freeBlock a) := .freeBlock fun marked => by
        rw [marked] at unmarked
        cases unmarked
      exact freed.trans (ih sweeping (rest freeable freed))
  | case4 fuel a work heap heap' step ih =>
      have dropped := (decref_spares sweeping a).1
      rw [step] at dropped
      rw [Heap.release, step]
      exact dropped.trans (ih (dropped.sweeping.trans sweeping) (rest freeable dropped))
  | case5 a work heap heap' obj step =>
      have dropped := (decref_spares sweeping a).1
      rw [step] at dropped
      rw [Heap.release, step]
      exact dropped.trans (strayed_spares heap' true)
  | case6 a work heap heap' obj step fuel ih =>
      obtain ⟨dropped, unmarked⟩ := decref_spares sweeping a
      rw [step] at dropped unmarked
      rw [Heap.release, step]
      refine dropped.trans (ih (dropped.sweeping.trans sweeping) fun b member => ?_)
      rcases List.mem_append.mp member with own | member
      · exact absurd own (free_not_object obj b)
      rcases List.mem_cons.mp member with same | member
      · cases same
        rw [dropped.flags]
        exact unmarked obj rfl
      · exact rest freeable dropped b member
  | case7 fuel gs work heap heap' step ih =>
      have released := gsRelease_spares heap gs
      rw [step] at released
      rw [Heap.release, step]
      exact released.trans (ih (released.sweeping.trans sweeping) (rest freeable released))
  | case8 gs work heap heap' more some step =>
      obtain ⟨first, more, rfl⟩ := List.exists_cons_of_ne_nil some
      have released := gsRelease_spares heap gs
      rw [step] at released
      rw [Heap.release, step]
      exact released.trans (strayed_spares heap' true)
  | case9 gs work heap heap' more some step fuel ih =>
      obtain ⟨first, more, rfl⟩ := List.exists_cons_of_ne_nil some
      have released := gsRelease_spares heap gs
      have plain := @free_not_gsRelease heap gs
      rw [step] at released plain
      rw [Heap.release, step]
      refine released.trans (ih (released.sweeping.trans sweeping) fun b member => ?_)
      exact rest freeable released b ((List.mem_append.mp member).resolve_left plain)

/-- A teardown during a sweep spares the marked nodes. -/
theorem teardown_spares (sweeping : heap.sweeping = true) (a : Addr)
    : Spares heap (heap.teardown a) := by
  rw [Heap.teardown]
  split
  · exact release_spares _ _ heap sweeping fun b member => absurd member (free_not_object _ b)
  · exact .refl heap
  · exact strayed_spares heap true

-----------------------------------------------------------------------------------------
-- The sweep
-----------------------------------------------------------------------------------------

/-- So do the teardowns of all that die. -/
theorem teardowns_spare (dying : List Addr) (sweeping : heap.sweeping = true)
    : Spares heap (dying.foldl Heap.teardown heap) := by
  induction dying generalizing heap with
  | nil => exact .refl heap
  | cons a dying ih =>
      have torn := teardown_spares sweeping a
      exact torn.trans (ih (torn.sweeping.trans sweeping))

/-- The blocks at these addresses are freed. -/
def freed (heap : Heap) (gone : List Addr) (strayed : Bool) : Heap :=
  { heap with nodes := fun b => if b ∈ gone then none else heap.nodes b, strayed := strayed }

/-- The loop that frees blocks, by induction on them. A block that was freed before is noted. -/
theorem foldl_freeBlock (gone : List Addr) (heap : Heap)
    : ∃ strayed, gone.foldl Heap.freeBlock heap = freed heap gone strayed := by
  induction gone generalizing heap with
  | nil =>
      refine ⟨heap.strayed, ?_⟩
      simp only [freed, List.not_mem_nil, if_false, List.foldl_nil]
  | cons a gone ih =>
      obtain ⟨strayed, rest⟩ := ih (heap.freeBlock a)
      refine ⟨strayed, rest.trans ?_⟩
      have nodes : (fun b => if b ∈ gone then none else (heap.freeBlock a).nodes b)
          = fun b => if b ∈ a :: gone then none else heap.nodes b := by
        funext b
        by_cases same : b = a
        · subst same
          rw [if_pos List.mem_cons_self]
          exact (ite_eq_left_iff.mpr fun _ => Function.update_self ..)
        · simp only [List.mem_cons, same, false_or]
          refine if_congr Iff.rfl rfl ?_
          exact Function.update_of_ne same ..
      rw [freed, freed, nodes]
      rfl

/-- The flags of marked survivors are cleared. -/
def reset (heap : Heap) (survivors : List Addr) (strayed : Bool) : Heap :=
  {
    heap with
    reachable := fun b => heap.reachable b && !decide (b ∈ survivors)
    temproot := fun b => heap.temproot b && !(decide (b ∈ survivors) && heap.reachable b)
    strayed := strayed
  }

/-- The reachable flag of a survivor is cleared. -/
theorem resetSurvivor_reachable (heap : Heap) (a b : Addr)
    : (heap.resetSurvivor a).reachable b = (heap.reachable b && !decide (b = a)) := by
  rw [Heap.resetSurvivor]
  by_cases same : b = a
  · subst same
    split
    · simp only [Function.update_self, decide_true, Bool.not_true, Bool.and_false]
    · rename_i unmarked
      simp only [Heap.touch, Bool.eq_false_iff.mpr unmarked, Bool.false_and]
  · split <;> simp [Heap.touch, same]

/-- The temporary root flag is cleared only with the reachable flag. -/
theorem resetSurvivor_temproot (heap : Heap) (a b : Addr)
    : (heap.resetSurvivor a).temproot b
      = (heap.temproot b && !(decide (b = a) && heap.reachable b)) := by
  rw [Heap.resetSurvivor]
  by_cases same : b = a
  · subst same
    split
    · rename_i marked
      simp only [Function.update_self, marked, decide_true, Bool.and_true, Bool.not_true,
        Bool.and_false]
    · rename_i unmarked
      simp only [Heap.touch, Bool.eq_false_iff.mpr unmarked, Bool.and_false, Bool.not_false,
        Bool.and_true]
  · split <;> simp [Heap.touch, same]

/-- The loop over the survivors clears the flags of all of them. -/
theorem foldl_resetSurvivor (survivors : List Addr) (heap : Heap)
    : ∃ strayed, survivors.foldl Heap.resetSurvivor heap = reset heap survivors strayed := by
  induction survivors generalizing heap with
  | nil =>
      refine ⟨heap.strayed, ?_⟩
      simp only [reset, List.not_mem_nil, decide_false, Bool.not_false, Bool.and_true,
        Bool.false_and, List.foldl_nil]
  | cons a survivors ih =>
      obtain ⟨strayed, rest⟩ := ih (heap.resetSurvivor a)
      refine ⟨strayed, rest.trans ?_⟩
      have reachable : (fun b => (heap.resetSurvivor a).reachable b && !decide (b ∈ survivors))
          = fun b => heap.reachable b && !decide (b ∈ a :: survivors) := by
        funext b
        rw [resetSurvivor_reachable, Bool.and_assoc]
        simp only [List.mem_cons, Bool.decide_or, Bool.not_or]
      have temproot : (fun b => (heap.resetSurvivor a).temproot b
            && !(decide (b ∈ survivors) && (heap.resetSurvivor a).reachable b))
          = fun b => heap.temproot b && !(decide (b ∈ a :: survivors) && heap.reachable b) := by
        funext b
        rw [resetSurvivor_temproot, resetSurvivor_reachable]
        by_cases same : b = a <;> simp [same]
      rw [reset, reset, reachable, temproot, Heap.resetSurvivor]
      split <;> rfl

/-- What the sweep leaves of the listed nodes. -/
structure Swept (heap heap' : Heap) : Prop where
  kept
    : ∀ a ∈ heap.heapAllocated, heap.reachable a = true → heap.isString a = false
        → heap'.nodes a = heap.nodes a ∧ a ∈ heap'.heapAllocated ∧ heap'.reachable a = false
          ∧ heap'.temproot a = false
  gone
    : ∀ a ∈ heap.heapAllocated, heap.isDying a = true
        → heap'.nodes a = none ∧ a ∉ heap'.heapAllocated
  strings : heap'.strTable.Sublist heap.strTable
  largeStrings : heap'.largeStrings.Sublist heap.largeStrings
  gray : heap'.grayObjects = heap.grayObjects

/-- What a sweep leaves: the teardowns spare what is marked, then the blocks of what dies are freed
and the flags of the rest are cleared.
-/
theorem sweep_swept (heap : Heap) : Swept heap heap.sweep := by
  rw [Heap.sweep]
  generalize is_dying : (heap.heapAllocated.filter heap.isDying).reverse = dying
  generalize is_kept : (heap.heapAllocated.filter fun a => !heap.isDying a) = kept
  have mem_dying (a : Addr) : a ∈ dying ↔ a ∈ heap.heapAllocated ∧ heap.isDying a = true := by
    rw [← is_dying, List.mem_reverse, List.mem_filter]
  have mem_kept (a : Addr) : a ∈ kept ↔ a ∈ heap.heapAllocated ∧ heap.isDying a = false := by
    rw [← is_kept, List.mem_filter, Bool.not_eq_true']
  have spares := @teardowns_spare { heap with heapAllocated := kept, sweeping := true } dying rfl
  generalize dying.foldl Heap.teardown { heap with heapAllocated := kept, sweeping := true } = torn
    at spares
  obtain ⟨strayed, is_freed⟩ := foldl_freeBlock dying torn
  obtain ⟨strayed', is_reset⟩ := foldl_resetSurvivor torn.heapAllocated (freed torn dying strayed)
  rw [is_freed]
  have is_reset' : List.foldl Heap.resetSurvivor (freed torn dying strayed)
      (freed torn dying strayed).heapAllocated = _ := is_reset
  rw [is_reset']
  refine ⟨fun a member marked plain => ?_, fun a member dies => ?_, spares.strings,
    spares.largeStrings, spares.gray⟩
  · have lives : heap.isDying a = false := by rw [Heap.isDying, marked]; rfl
    have listed : a ∈ torn.heapAllocated :=
      (spares.listed a ((mem_kept a).mpr ⟨member, lives⟩)).resolve_right fun unmarked => by
        rw [show heap.reachable a = false from unmarked] at marked
        cases marked
    have nodes : torn.nodes a = heap.nodes a := by
      refine (spares.nodes a).resolve_right fun freed => ?_
      have string : heap.isString a = true := freed.2 marked
      rw [plain] at string
      cases string
    have marked' : torn.reachable a = true := by rw [spares.flags]; exact marked
    have spared : a ∉ dying := fun dies => by
      have dies := ((mem_dying a).mp dies).2
      rw [lives] at dies
      cases dies
    refine ⟨(if_neg spared).trans nodes, listed, ?_, ?_⟩
    · simp [reset, freed, listed]
    · simp [reset, freed, listed, marked']
  · have dead := (mem_dying a).mpr ⟨member, dies⟩
    refine ⟨if_pos dead, fun listed => ?_⟩
    have lives := ((mem_kept a).mp (spares.fewer.subset listed)).2
    rw [dies] at lives
    cases lives

-----------------------------------------------------------------------------------------
-- The strings
-----------------------------------------------------------------------------------------

/-- The sweeps of strings leave the other nodes alone. -/
structure StringsOnly (heap heap' : Heap) : Prop where
  nodes : ∀ a, a ∉ heap.strTable → a ∉ heap.largeStrings → heap'.nodes a = heap.nodes a
  listed : heap'.heapAllocated = heap.heapAllocated
  reachable : heap'.reachable = heap.reachable
  temproot : heap'.temproot = heap.temproot
  gray : heap'.grayObjects = heap.grayObjects

/-- Only the table holds the string, and it is not marked. -/
def onlyInTable (heap : Heap) (s : Addr) : Bool := heap.refcount s == 1 && !heap.reachable s

/-- The sweep of the table frees what only the table holds, and keeps the rest. -/
theorem sweepStrings_eq (heap : Heap)
    : ∃ strayed, heap.sweepStrings
      = freed
        {
          heap with
          markWorkLast := heap.markWorkLast + heap.strTableSize
          strTable := heap.strTable.filter fun s => !onlyInTable heap s
        }
        (heap.strTable.filter (onlyInTable heap)) strayed :=
  foldl_freeBlock _ _

/-- The sweep of the list of large strings frees what is not marked. -/
theorem sweepLargeStrings_eq (heap : Heap)
    : ∃ strayed, heap.sweepLargeStrings
      = freed { heap with largeStrings := heap.largeStrings.filter heap.reachable }
        (heap.largeStrings.filter fun s => !heap.reachable s) strayed :=
  foldl_freeBlock _ _

/-- Either sweep frees strings of its list only. -/
theorem stringSweeps_only (heap : Heap)
    : StringsOnly heap
      (if heap.stringSweepSafe then heap.sweepStrings.sweepLargeStrings else heap) := by
  split
  · obtain ⟨strayed, table⟩ := sweepStrings_eq heap
    obtain ⟨strayed', large⟩ := sweepLargeStrings_eq heap.sweepStrings
    rw [large, table]
    refine ⟨fun a outTable outLarge => ?_, rfl, rfl, rfl, rfl⟩
    refine (if_neg fun dead => outLarge (List.mem_of_mem_filter dead)).trans ?_
    exact if_neg fun dead => outTable (List.mem_of_mem_filter dead)
  · exact ⟨fun _ _ _ => rfl, rfl, rfl, rfl, rfl⟩

-----------------------------------------------------------------------------------------
-- A collection
-----------------------------------------------------------------------------------------

/-- The lists of the heap hold what they are for. -/
structure HeapLists (heap : Heap) : Prop where
  plain : ∀ a ∈ heap.heapAllocated, heap.isString a = false
  objects : ∀ a, heap.isObject a = true → a ∈ heap.heapAllocated
  strings : ∀ a ∈ heap.strTable, heap.isString a = true
  largeStrings : ∀ a ∈ heap.largeStrings, heap.isString a = true

/-- A temporary root is kept, unless the collection is at a safepoint without a native frame. -/
def keepsTemproot (heap : Heap) (safepoint : Bool) (a : Addr) : Bool :=
  heap.temproot a && !(safepoint && heap.nativeFrameDepth == 0)

/-- What a collection leaves of a listed node. A node in reach is as it was, without its flags, and
one out of reach is gone, other than a temporary root that is kept.
-/
structure Collected (heap heap' : Heap) (safepoint : Bool) (a : Addr) : Prop where
  inReach
    : InReach heap a → heap'.nodes a = heap.nodes a ∧ a ∈ heap'.heapAllocated
        ∧ heap'.reachable a = false ∧ heap'.temproot a = false
  outOfReach
    : ¬InReach heap a → keepsTemproot heap safepoint a = false
        → heap'.nodes a = none ∧ a ∉ heap'.heapAllocated

/-- The heap when its flags are cleared. -/
def cleared (heap : Heap) (safepoint : Bool) : Heap :=
  Heap.clearFlags { heap with gcRunning := true, markWorkLast := 0 }
    (safepoint && heap.nativeFrameDepth == 0)

theorem sameGraph_cleared (heap : Heap) (safepoint : Bool)
    : SameGraph heap (cleared heap safepoint) := ⟨rfl, rfl, rfl, rfl, rfl⟩

/-- The flags of all listed nodes are cleared before the marking. -/
theorem cleared_unmarked {safepoint : Bool} (member : a ∈ heap.heapAllocated)
    : (cleared heap safepoint).reachable a = false := by
  simp [cleared, Heap.clearFlags, member]

theorem cleared_temproot {safepoint : Bool} (member : a ∈ heap.heapAllocated)
    : (cleared heap safepoint).temproot a = keepsTemproot heap safepoint a := by
  simp [cleared, Heap.clearFlags, keepsTemproot, member]

/-- The mark phase of a collection. -/
theorem cleared_marks (fits : ReachFits heap) (lists : HeapLists heap)
    (empty : heap.grayObjects = []) (safepoint : Bool)
    : ∃ m work, (cleared heap safepoint).markRoots = withMarks (cleared heap safepoint) m work
      ∧ m.gray = []
      ∧ ∀ a, m.marked a = true
        ↔ InReach heap a ∨ (cleared heap safepoint).reachable a = true := by
  have same := sameGraph_cleared heap safepoint
  obtain ⟨m, work, marked, gray, exact⟩ := markRoots_exact (same.reachFits fits) empty
    lists.objects fun a marked => by
      rw [isLeaf, Bool.not_eq_true']
      refine Bool.eq_false_iff.mpr fun object => ?_
      rw [cleared_unmarked (lists.objects a object)] at marked
      cases marked
  exact ⟨m, work, marked, gray, fun a => (exact a).trans (or_congr_left (same.inReach a))⟩

/-- The heap when its strings have been swept. -/
def stringsSwept (heap : Heap) : Heap :=
  if heap.stringSweepSafe then heap.sweepStrings.sweepLargeStrings else heap

/-- A collection that is not inside of another one clears the flags, marks, sweeps and sweeps the
strings.
-/
theorem markAndSweep_eq (idle : heap.gcRunning = false) (safepoint : Bool)
    : ∃ trigger, heap.markAndSweep safepoint
      = { stringsSwept (cleared heap safepoint).markRoots.sweep with
          gcTriggerCounter := trigger, gcRunning := false } := by
  rw [Heap.markAndSweep, idle, if_neg Bool.false_ne_true]
  exact ⟨_, rfl⟩

/-- A collection keeps each node in reach as it is and frees each that is out of reach, whatever the
reference counts say. It can be followed by another one.
-/
theorem markAndSweep_exact (fits : ReachFits heap) (lists : HeapLists heap)
    (idle : heap.gcRunning = false) (empty : heap.grayObjects = []) (safepoint : Bool)
    : (∀ a ∈ heap.heapAllocated, Collected heap (heap.markAndSweep safepoint) safepoint a)
      ∧ (heap.markAndSweep safepoint).grayObjects = []
      ∧ (heap.markAndSweep safepoint).gcRunning = false := by
  obtain ⟨m, work, is_marked, gray, exact⟩ := cleared_marks fits lists empty safepoint
  obtain ⟨trigger, whole⟩ := markAndSweep_eq idle safepoint
  rw [is_marked] at whole
  have swept := sweep_swept (withMarks (cleared heap safepoint) m work)
  generalize (withMarks (cleared heap safepoint) m work).sweep = heap₁ at whole swept
  have only : StringsOnly heap₁ (stringsSwept heap₁) := stringSweeps_only heap₁
  rw [whole]
  refine ⟨fun a member => ?_, only.gray.trans (swept.gray.trans gray), rfl⟩
  have plain := lists.plain a member
  have outTable : a ∉ heap₁.strTable := fun inside => by
    rw [lists.strings a (swept.strings.subset inside)] at plain
    cases plain
  have outLarge : a ∉ heap₁.largeStrings := fun inside => by
    rw [lists.largeStrings a (swept.largeStrings.subset inside)] at plain
    cases plain
  have nodes : (stringsSwept heap₁).nodes a = heap₁.nodes a := only.nodes a outTable outLarge
  have reached : m.marked a = true ↔ InReach heap a := by
    rw [exact a, cleared_unmarked member, or_iff_left Bool.false_ne_true]
  refine ⟨fun inReach => ?_, fun outOfReach unkept => ?_⟩
  · obtain ⟨same, listed, unmarked, unpinned⟩ := swept.kept a member (reached.mpr inReach) plain
    refine ⟨nodes.trans same, ?_, ?_, ?_⟩
    · exact only.listed ▸ listed
    · exact (congrFun only.reachable a).trans unmarked
    · exact (congrFun only.temproot a).trans unpinned
  · have unmarked : m.marked a = false := Bool.eq_false_iff.mpr (mt reached.mp outOfReach)
    have dying : (withMarks (cleared heap safepoint) m work).isDying a = true := by
      have unpinned : (cleared heap safepoint).temproot a = false :=
        (cleared_temproot member).trans unkept
      change (!m.marked a && !(cleared heap safepoint).temproot a) = true
      rw [unmarked, unpinned]
      rfl
    obtain ⟨gone, unlisted⟩ := swept.gone a member dying
    exact ⟨nodes.trans gone, fun listed => unlisted (only.listed ▸ listed)⟩

theorem twoObjects_lists : HeapLists twoObjects where
  plain a member := by
    simp only [twoObjects, List.mem_cons, List.not_mem_nil, or_false] at member
    rcases member with rfl | rfl <;> rfl
  objects _ := twoObjects_listed
  strings a member := by
    cases List.mem_singleton.mp member
    rfl
  largeStrings a member := absurd member List.not_mem_nil

theorem markAndSweep_twoObjects
    : (∀ a ∈ twoObjects.heapAllocated, Collected twoObjects (twoObjects.markAndSweep true) true a)
      ∧ (twoObjects.markAndSweep true).grayObjects = []
      ∧ (twoObjects.markAndSweep true).gcRunning = false :=
  markAndSweep_exact twoObjects_fits twoObjects_lists rfl rfl true

end Boomkat.Correctness
