import Boomkat.Correctness.InternTable

/-! Runs of the operations on strings: the table of interned strings and the registry. -/

namespace Boomkat.Correctness

open Foundation Strings

variable {heap heap' : StringHeap} {s : Addr} {str : HString} {data : List UInt8} {hash : UInt32}
  {cap : Nat} {answers : Answers}

-----------------------------------------------------------------------------------------
-- New strings
-----------------------------------------------------------------------------------------

/-- A reference that is dropped leaves the other strings, and of its own the bytes. -/
theorem decref_strings {t : Addr} (live : (heap.decref s).strings t = some str)
    : ∃ old, heap.strings t = some old ∧ old.isInterned = str.isInterned ∧ old.data = str.data
      ∧ old.hash = str.hash := by
  have written {u : Addr} {owner new : HString} (at_s : heap.strings s = some owner)
      (live : (heap.write s { owner with refcount := owner.refcount - 1 }).strings u = some new)
      : ∃ old, heap.strings u = some old ∧ old.isInterned = new.isInterned ∧ old.data = new.data
        ∧ old.hash = new.hash := by
    rcases write_cases at_s live with ⟨rfl, rfl, old⟩ | ⟨_, old⟩
    · exact ⟨owner, old, rfl, rfl, rfl⟩
    · exact ⟨new, old, rfl, rfl, rfl⟩
  have freed {heap' : StringHeap} {new : HString}
      (live : (heap'.freeString s).strings t = some new) : heap'.strings t = some new := by
    by_cases same : t = s
    · subst same
      simp [StringHeap.freeString] at live
    · rwa [show (heap'.freeString s).strings t = heap'.strings t from
        Function.update_of_ne same ..] at live
  unfold StringHeap.decref at live
  cases at_s : heap.strings s with
  | none =>
      simp only [at_s] at live
      exact ⟨str, live, rfl, rfl, rfl⟩
  | some owner =>
      simp only [at_s] at live
      split at live
      · exact ⟨str, live, rfl, rfl, rfl⟩
      · split at live
        · refine written at_s ?_
          split at live
          · have before := freed live
            unfold StringHeap.strTableRemove at before
            simp only at before
            split at before
            · exact before
            · split at before <;> exact before
          · exact freed live
        · exact written at_s live

/-- The references that a collection drops. -/
theorem Sound.collect (sound : Sound heap none) (collected : List Addr)
    : Sound (collected.foldl StringHeap.decref heap) none
      ∧ KeptStrings heap (collected.foldl StringHeap.decref heap)
      ∧ (Unused heap data hash → Unused (collected.foldl StringHeap.decref heap) data hash) := by
  induction collected generalizing heap with
  | nil => exact ⟨sound, .refl heap, id⟩
  | cons s collected ih =>
      obtain ⟨sound', kept⟩ := sound.decref s
      obtain ⟨sound'', kept', unused⟩ := ih sound'
      refine ⟨sound'', kept.trans kept', fun before => unused fun {t str} live interned same => ?_⟩
      obtain ⟨old, at_t, flag, data, hash⟩ := decref_strings live
      rw [← hash]
      exact before at_t (flag.trans interned) (data.trans same)

/-- The hash that a new string starts with. -/
def HashFits (hashSeed : UInt32) (data : List UInt8) (hash : UInt32) : Prop :=
  isSymbolData data = false → hash = hashDeferred ∨ hash = hashString hashSeed data

/-- A string at an address that was free is loose. -/
theorem Sound.fresh (sound : Sound heap none) (free : heap.strings s = none)
    (flag : str.isInterned = false) (serial : str.serial = heap.nextSerial)
    (wellFormed : WellFormed heap.hashSeed str)
    : Sound
          {
            heap.write s str with
            nextSerial := heap.nextSerial + 1
            refused := heap.refused.filter (· ≠ s)
          }
          (some s)
      ∧ KeptStrings heap
          {
            heap.write s str with
            nextSerial := heap.nextSerial + 1
            refused := heap.refused.filter (· ≠ s)
          } := by
  have cases_ {t : Addr} {other : HString} (live : (heap.write s str).strings t = some other)
      : t = s ∧ other = str ∨ t ≠ s ∧ heap.strings t = some other := by
    by_cases same : t = s
    · subst same
      rw [write_self] at live
      exact .inl ⟨rfl, (Option.some.inj live).symm⟩
    · rw [write_of_ne same] at live
      exact .inr ⟨same, live⟩
  have old {t : Addr} {other : HString} (live : (heap.write s str).strings t = some other)
      (interned : other.isInterned = true) : heap.strings t = some other := by
    rcases cases_ live with ⟨_, rfl⟩ | ⟨_, live⟩
    · rw [flag] at interned
      cases interned
    · exact live
  have apart {t : Addr} {other : HString} (live : heap.strings t = some other) : t ≠ s := by
    rintro rfl
    rw [free] at live
    cases live
  refine ⟨⟨sound.size, sound.reach.congr fun t entry => ?_, sound.held, fun t => ?_,
    fun live live' interned interned' => sound.distinct (old live interned) (old live' interned')
      interned interned', fun live => ?_, fun live => ?_, fun {t other} live flag' different => ?_,
    fun t member => ?_⟩, rfl, Nat.le_succ _, fun {t other} live => ?_⟩
  · obtain ⟨other, live, _⟩ := sound.live_of_entry entry
    simp only [StringHeap.hashOf, write_of_ne (apart live)]
  · refine (sound.interned t).trans ⟨?_, ?_⟩
    · rintro ⟨other, live, interned⟩
      exact ⟨other, (write_of_ne (apart live) ..).trans live, interned⟩
    · rintro ⟨other, live, interned⟩
      exact ⟨other, old live interned, interned⟩
  · rcases cases_ live with ⟨_, rfl⟩ | ⟨_, live⟩
    · exact wellFormed
    · exact sound.wellFormed live
  · rcases cases_ live with ⟨_, rfl⟩ | ⟨_, live⟩
    · rw [serial]
      exact Nat.lt_succ_self _
    · exact Nat.lt_succ_of_lt (sound.serial live)
  · rcases cases_ live with ⟨rfl, rfl⟩ | ⟨other, live⟩
    · exact absurd rfl different
    · change heap.largeStrings.count t = _
      simpa [List.mem_filter, other] using sound.registered live flag' fun no => by cases no
  · obtain ⟨_, other, live, flag'⟩ := sound.listed t member
    exact ⟨fun same => apart live (Option.some.inj same).symm, other,
      (write_of_ne (apart live) ..).trans live, flag'⟩
  · rcases cases_ live with ⟨_, rfl⟩ | ⟨_, live⟩
    · exact .inl (Nat.le_of_eq serial.symm)
    · exact .inr ⟨other, live, rfl, fun interned => ⟨interned, rfl, rfl⟩⟩

/-- A new string is loose, or there is none. -/
theorem Sound.alloc (sound : Sound heap none) (fits : HashFits heap.hashSeed data hash)
    {result : Option Addr}
    (done : heap.hstringAllocCap data hash cap answers = (heap', result))
    : KeptStrings heap heap'
      ∧ match result with
        | none => Sound heap' none
        | some s => Sound heap' (some s)
            ∧ (∃ str, heap'.strings s = some str ∧ str.isInterned = false ∧ str.data = data
              ∧ str.hash = hash)
            ∧ (Unused heap data hash → Unused heap' data hash) := by
  unfold StringHeap.hstringAllocCap at done
  simp only at done
  split at done
  · cases done
    exact ⟨.refl _, sound⟩
  · obtain ⟨sound', kept, unused⟩ :
        Sound (answers.collected.foldl StringHeap.decref heap) none
        ∧ KeptStrings heap (answers.collected.foldl StringHeap.decref heap)
        ∧ (Unused heap data hash →
          Unused (answers.collected.foldl StringHeap.decref heap) data hash) :=
      sound.collect answers.collected
    generalize answers.collected.foldl StringHeap.decref heap = mid at done sound' kept unused
    split at done
    · cases done
      exact ⟨kept, sound'⟩
    · rename_i s _
      split at done
      · cases done
        exact ⟨kept, sound'⟩
      · rename_i taken
        cases done
        have free : mid.strings s = none := by simpa using taken
        have fits' : HashFits mid.hashSeed data hash := kept.seed ▸ fits
        let new : HString :=
          {
            data := data
            hash := hash
            capacity := if cap < data.length then data.length else cap
            refcount := 0
            isSymbol := isSymbolData data
            isInterned := false
            serial := mid.nextSerial
          }
        have wellFormed : WellFormed mid.hashSeed new := ⟨rfl, nofun, fits'⟩
        obtain ⟨sound'', kept'⟩ := sound'.fresh free rfl rfl wellFormed
        refine ⟨kept.trans kept', sound'', ⟨_, write_self .., rfl, rfl, rfl⟩,
          fun before t other live interned => ?_⟩
        by_cases same : t = s
        · subst same
          obtain rfl := Option.some.inj ((write_self ..).symm.trans live)
          cases interned
        · exact unused before ((write_of_ne same ..).symm.trans live) interned

/-- A new string goes to the registry. -/
theorem Sound.allocRegistered (sound : Sound heap none) (fits : HashFits heap.hashSeed data hash)
    {result : Option Addr} (done : heap.allocRegistered data hash cap answers = (heap', result))
    : (Sound heap' none ∧ KeptStrings heap heap')
      ∧ ∀ s, result = some s →
        ∃ str, heap'.strings s = some str ∧ str.isInterned = false ∧ str.data = data := by
  unfold StringHeap.allocRegistered at done
  split at done
  · rename_i allocated
    cases done
    obtain ⟨kept, sound'⟩ := sound.alloc fits allocated
    exact ⟨⟨sound', kept⟩, nofun⟩
  · rename_i mid s allocated
    cases done
    obtain ⟨kept, loose, ⟨str, live, flag, isData, _⟩, _⟩ := sound.alloc fits allocated
    obtain ⟨sound', kept'⟩ := loose.register live flag answers.registry
    refine ⟨⟨sound', kept.trans kept'⟩, fun t same => ?_⟩
    obtain rfl := Option.some.inj same
    refine ⟨str, ?_, flag, isData⟩
    unfold StringHeap.largeStringRegister
    simp only
    split <;> exact live

-----------------------------------------------------------------------------------------
-- Interning
-----------------------------------------------------------------------------------------

theorem Sound.strInternNormalized (sound : Sound heap none) {result : Option Addr}
    (done : heap.strInternNormalized data answers = some (heap', result))
    : Sound heap' none ∧ KeptStrings heap heap' := by
  unfold StringHeap.strInternNormalized at done
  simp only at done
  split at done
  · exact (sound.allocRegistered (fun _ => .inl rfl) (Option.some.inj done)).1
  · split at done
    · cases done
      exact ⟨sound, .refl _⟩
    · rename_i missing
      have fits : HashFits heap.hashSeed data (hashString heap.hashSeed data) := fun _ => .inr rfl
      split at done
      · rename_i allocated
        cases done
        obtain ⟨kept, sound'⟩ := sound.alloc fits allocated
        exact ⟨sound', kept⟩
      · rename_i mid s allocated
        obtain ⟨kept, loose, ⟨str, live, flag, isData, isHash⟩, unused⟩ :=
          sound.alloc fits allocated
        rw [live, Option.bind_some, Option.map_eq_some_iff] at done
        obtain ⟨entered, done, same⟩ := done
        cases same
        have unused' : Unused mid str.data str.hash := by
          rw [isData, isHash]
          exact unused (sound.unused missing)
        have hashed : str.hash ≠ hashDeferred := by
          rw [isHash]
          exact hashString_ne_deferred _ _
        obtain ⟨sound', kept'⟩ := loose.insertOrRegister live flag hashed unused' done
        exact ⟨sound', kept.trans kept'⟩

/-- A hash that is computed late is that of the bytes. -/
theorem Sound.rewrite_contentHash (sound : Sound heap none) (live : heap.strings s = some str)
    (flag : str.isInterned = false)
    : Rewrite heap.hashSeed str (str.contentHash heap.hashSeed)
      ∧ (str.contentHash heap.hashSeed).hash ≠ hashDeferred
      ∧ (str.contentHash heap.hashSeed).isInterned = false := by
  have wellFormed := sound.wellFormed live
  unfold HString.contentHash
  split
  · refine ⟨⟨rfl, rfl, fun interned => ?_, wellFormed.symbol, fun _ => ?_, fun _ => .inr rfl⟩, ?_,
      flag⟩
    · rw [flag] at interned
      cases interned
    · exact hashString_ne_deferred _ _
    · exact hashString_ne_deferred _ _
  · rename_i hashed
    exact ⟨⟨rfl, rfl, fun _ => ⟨rfl, rfl⟩, wellFormed⟩, hashed, flag⟩

theorem Sound.ensureInterned (sound : Sound heap none) {result : Addr}
    (done : heap.ensureInterned s answers = some (heap', result))
    : Sound heap' none ∧ KeptStrings heap heap' := by
  rw [StringHeap.ensureInterned, Option.bind_eq_some_iff] at done
  obtain ⟨str, live, done⟩ := done
  split at done
  · cases done
    exact ⟨sound, .refl _⟩
  · rename_i flag
    obtain ⟨rewrite, hashed, flag'⟩ := sound.rewrite_contentHash live (Bool.eq_false_iff.mpr flag)
    have sound' := sound.write live rewrite
    have kept := KeptStrings.write live rewrite
    have live' := write_self heap s (str.contentHash heap.hashSeed)
    simp only at done
    split at done
    · cases done
      exact ⟨sound', kept⟩
    · rename_i missing
      rw [Option.map_eq_some_iff] at done
      obtain ⟨entered, done, same⟩ := done
      cases same
      obtain ⟨loose, kept'⟩ := sound'.unregister s
      have unused : Unused (heap.write s (str.contentHash heap.hashSeed))
          (str.contentHash heap.hashSeed).data (str.contentHash heap.hashSeed).hash :=
        sound'.unused missing
      obtain ⟨sound'', kept''⟩ := loose.insertOrRegister live' flag' hashed unused done
      exact ⟨sound'', kept.trans (kept'.trans kept'')⟩

-----------------------------------------------------------------------------------------
-- Accumulators
-----------------------------------------------------------------------------------------

/-- Bytes that are appended to a string that is not interned and no symbol. -/
theorem rewrite_append {longer : HString} {hashSeed : UInt32} {tail : List UInt8}
    (wellFormed : WellFormed hashSeed str) (nonempty : str.data ≠ [])
    (flag : str.isInterned = false) (appended : str.tryAppendInPlace tail = some longer)
    : Rewrite hashSeed str longer := by
  unfold HString.tryAppendInPlace at appended
  split at appended
  · cases appended
  · cases appended
    refine ⟨rfl, rfl, fun interned => ?_, ?_, fun interned => ?_, fun _ => .inl rfl⟩
    · rw [flag] at interned
      cases interned
    · obtain ⟨first, rest, shape⟩ := List.exists_cons_of_ne_nil nonempty
      simpa [shape, isSymbolData] using wellFormed.symbol
    · rw [show str.isInterned = true from interned] at flag
      cases flag

theorem Sound.increfString (sound : Sound heap none) (s : Addr)
    : Sound (heap.increfString s) none ∧ KeptStrings heap (heap.increfString s) := by
  unfold StringHeap.increfString
  split
  · exact ⟨sound, .refl _⟩
  · rename_i str live
    have rewrite : Rewrite heap.hashSeed str str.incref := by
      unfold HString.incref
      split
      · exact ⟨rfl, rfl, fun _ => ⟨rfl, rfl⟩, sound.wellFormed live⟩
      · exact sound.rewrite_refcount live (str.refcount + 1)
    exact ⟨sound.write live rewrite, .write live rewrite⟩

theorem Sound.setPinned (sound : Sound heap none) (s : Addr)
    : Sound (heap.setPinned s) none ∧ KeptStrings heap (heap.setPinned s) := by
  unfold StringHeap.setPinned
  split
  · exact ⟨sound, .refl _⟩
  · rename_i str live
    have rewrite := sound.rewrite_refcount live stringPinnedRefcount
    exact ⟨sound.write live rewrite, .write live rewrite⟩

theorem Sound.concatAccumulate {tail : List UInt8} {storesBack : Bool} (sound : Sound heap none)
    (done : heap.concatAccumulate s tail storesBack answers = some heap')
    : Sound heap' none ∧ KeptStrings heap heap' := by
  rw [StringHeap.concatAccumulate, Option.map_eq_some_iff] at done
  obtain ⟨str, live, rfl⟩ := done
  split
  · exact ⟨sound, .refl _⟩
  · rename_i eligible
    simp only [Bool.or_eq_true, decide_eq_true_eq, not_or, Bool.not_eq_true] at eligible
    obtain ⟨⟨long, flag⟩, plain⟩ := eligible
    have nonempty {other : HString} (same : other.data = str.data) : other.data ≠ [] := by
      intro isNil
      rw [← same, isNil] at long
      exact long (by decide)
    split
    · exact ⟨sound, .refl _⟩
    · split
      · rename_i longer appended
        have rewrite := rewrite_append (sound.wellFormed live) (nonempty rfl) flag appended
        exact ⟨sound.write live rewrite, .write live rewrite⟩
      · lift_lets
        intro need want want'
        split
        · exact ⟨sound, .refl _⟩
        · split
          · rename_i allocated
            exact (sound.allocRegistered (fun _ => .inl rfl) allocated).1
          · rename_i mid grown allocated
            obtain ⟨⟨sound', kept⟩, result⟩ := sound.allocRegistered (fun _ => .inl rfl) allocated
            obtain ⟨new, live', flag', isData⟩ := result grown rfl
            split
            · have drops := sound'.drops_registered live' flag'
              exact ⟨sound'.drops drops, kept.trans drops.keptStrings⟩
            · rename_i longer appended
              rw [live', Option.bind_some] at appended
              have rewrite :=
                rewrite_append (sound'.wellFormed live') (nonempty isData) flag' appended
              obtain ⟨sound'', kept'⟩ := (sound'.write live' rewrite).increfString grown
              obtain ⟨ends, kept''⟩ := sound''.decref s
              exact ⟨ends, kept.trans ((KeptStrings.write live' rewrite).trans (kept'.trans kept''))⟩

-----------------------------------------------------------------------------------------
-- Sweeps
-----------------------------------------------------------------------------------------

theorem Sound.unlisted_of_entry {loose : Option Addr} (sound : Sound heap loose)
    (entry : Slot.entry s ∈ heap.strTable)
    : s ∉ heap.largeStrings := by
  intro member
  obtain ⟨_, str, live, flag⟩ := sound.listed s member
  obtain ⟨_, live', interned⟩ := sound.live_of_entry entry
  obtain rfl := Option.some.inj (live.symm.trans live')
  rw [interned] at flag
  cases flag

theorem Sound.drops_dead (sound : Sound heap none) (dead : Addr → Bool)
    : Drops heap (heap.freeDead dead) fun s => dead s ∧ Slot.entry s ∈ heap.strTable := by
  refine ⟨?_, sound.reach.buryDead dead, fun gone => if_pos gone, fun here => if_neg here,
    fun t => ?_, fun t => ?_, fun gone => sound.unlisted_of_entry gone.2, fun _ => rfl, rfl, rfl,
    rfl⟩
  · simpa [StringHeap.freeDead, buryDead] using sound.size
  · simp only [StringHeap.freeDead, mem_buryDead]
    cases dead t <;> simp
  · simp only [StringHeap.freeDead, List.mem_filter, ← sound.held]
    cases dead t <;> simp

theorem Sound.sweepStrings {reachable : Addr → Bool} {allocates : Bool} (sound : Sound heap none)
    (done : heap.sweepStrings reachable allocates = some heap')
    : Sound heap' none ∧ KeptStrings heap heap' := by
  simp only [StringHeap.sweepStrings, sound.size, if_false] at done
  have drops := sound.drops_dead (heap.isDead reachable)
  have sound' := sound.drops drops
  split at done
  · obtain ⟨sound'', strings, seed, serial, _⟩ := sound'.resize done
    exact ⟨sound'', drops.keptStrings.trans (.of_same seed serial strings)⟩
  · cases done
    exact ⟨sound', drops.keptStrings⟩

theorem Sound.sweepLargeStrings (sound : Sound heap none) (reachable : Addr → Bool)
    : Sound (heap.sweepLargeStrings reachable) none
      ∧ KeptStrings heap (heap.sweepLargeStrings reachable) := by
  have unheld {t : Addr} (listed : t ∈ heap.largeStrings) : Slot.entry t ∉ heap.strTable :=
    fun entry => sound.unlisted_of_entry entry listed
  have drops : Drops heap (heap.sweepLargeStrings reachable)
      fun s => (!reachable s) = true ∧ s ∈ heap.largeStrings := by
    refine ⟨sound.size, sound.reach, fun gone => if_pos gone, fun here => if_neg here, fun t => ?_,
      fun t => ?_, fun {t} gone member => ?_, fun {t} here => ?_, rfl, rfl, rfl⟩
    · exact ⟨fun entry => ⟨fun gone => unheld gone.2 entry, entry⟩, And.right⟩
    · exact ⟨fun held => ⟨fun gone => unheld gone.2 ((sound.held t).mpr held), held⟩, And.right⟩
    · have marked := (List.mem_filter.mp member).2
      simp [marked] at gone
    · cases marked : reachable t with
      | true => exact List.count_filter marked
      | false =>
          have unlisted : t ∉ heap.largeStrings := fun member => here ⟨by simp [marked], member⟩
          rw [List.count_eq_zero_of_not_mem unlisted, List.count_eq_zero]
          exact fun member => unlisted (List.mem_filter.mp member).1
  exact ⟨sound.drops drops, drops.keptStrings⟩

-----------------------------------------------------------------------------------------
-- Runs
-----------------------------------------------------------------------------------------

/-- Symbols may start with any hash. -/
theorem Sound.createSymbol {result : Option Addr} {counter : UInt32} (sound : Sound heap none)
    (symbol : isSymbolData data = true)
    (done : { heap with symbolCounter := counter }.allocRegistered data hash cap answers
      = (heap', result))
    : Sound heap' none ∧ KeptStrings heap heap' := by
  have sound' : Sound { heap with symbolCounter := counter } none :=
    ⟨sound.size, sound.reach, sound.held, sound.interned, sound.distinct, sound.wellFormed,
      sound.serial, sound.registered, sound.listed⟩
  have fits : HashFits heap.hashSeed data hash := by
    intro plain
    rw [symbol] at plain
    cases plain
  obtain ⟨⟨sound'', kept⟩, _⟩ := sound'.allocRegistered fits done
  have counted : KeptStrings heap { heap with symbolCounter := counter } := .of_same rfl rfl rfl
  exact ⟨sound'', counted.trans kept⟩

theorem Sound.step {event : StringEvent} (sound : Sound heap none)
    (taken : heap.step event = some heap')
    : Sound heap' none ∧ KeptStrings heap heap' := by
  cases event with
  | strIntern data answers =>
      rw [StringHeap.step, Option.map_eq_some_iff] at taken
      obtain ⟨⟨mid, result⟩, done, rfl⟩ := taken
      exact sound.strInternNormalized done
  | strInternNormalized data answers =>
      rw [StringHeap.step, Option.map_eq_some_iff] at taken
      obtain ⟨⟨mid, result⟩, done, rfl⟩ := taken
      exact sound.strInternNormalized done
  | ensureInterned s answers =>
      rw [StringHeap.step, Option.map_eq_some_iff] at taken
      obtain ⟨⟨mid, result⟩, done, rfl⟩ := taken
      exact sound.ensureInterned done
  | createSymbolString desc hasDesc answers =>
      cases taken
      refine sound.createSymbol ?_ rfl
      cases hasDesc <;> rfl
  | createHiddenSymbol desc answers =>
      cases taken
      exact sound.createSymbol rfl rfl
  | concatBirth data answers =>
      cases taken
      unfold StringHeap.concatBirth
      split
      · exact ⟨sound, .refl _⟩
      · exact (sound.allocRegistered (fun _ => .inl rfl) rfl).1
  | concatAccumulate s tail storesBack answers => exact sound.concatAccumulate taken
  | incref s =>
      cases taken
      exact sound.increfString s
  | decref s =>
      cases taken
      exact sound.decref s
  | setPinned s =>
      cases taken
      exact sound.setPinned s
  | strTableGrow allocates =>
      obtain ⟨sound', strings, seed, serial, _⟩ := sound.resize taken
      exact ⟨sound', .of_same seed serial strings⟩
  | strTableShrink allocates =>
      obtain ⟨sound', strings, seed, serial, _⟩ := sound.resize taken
      exact ⟨sound', .of_same seed serial strings⟩
  | sweepStrings reachable allocates => exact sound.sweepStrings taken
  | sweepLargeStrings reachable =>
      cases taken
      exact sound.sweepLargeStrings reachable

theorem Sound.new : Sound StringHeap.new none := by
  have none : ∀ s, Slot.entry s ∉ StringHeap.new.strTable := by
    intro s entry
    cases (List.mem_replicate.mp entry).2
  have size : StringHeap.new.strTable.length = 256 := List.length_replicate
  refine ⟨size ▸ by decide, InReach.empty .., fun s => ?_, fun s => ?_, nofun, nofun, nofun, nofun,
    fun _ member => absurd member List.not_mem_nil⟩
  · exact iff_of_false (none s) List.not_mem_nil
  · exact iff_of_false List.not_mem_nil (fun ⟨_, live, _⟩ => nomatch live)

/-- No two slots hold the same bytes, unless these are symbols with different hashes. -/
def OneEntryPerContent (heap : StringHeap) : Prop :=
  ∀ (idx idx' : Nat) (s s' : Addr) (str str' : HString),
    heap.strTable[idx]? = some (.entry s) → heap.strTable[idx']? = some (.entry s') →
    heap.strings s = some str → heap.strings s' = some str' → str.data = str'.data →
    (str.isSymbol = false ∨ str.hash = str'.hash) → idx = idx'

/-- A lookup finds a string that was inserted and not removed, and every one. -/
def LookupExact (heap : StringHeap) : Prop :=
  ∀ data hash s, heap.strTableLookup data hash = some s
    ↔ s ∈ heap.held ∧ ∃ str, heap.strings s = some str ∧ str.data = data ∧ str.hash = hash

/-- The entries of the table are the live strings that are marked interned, and every other live
string is in the registry once, unless there was no memory for it.
-/
structure EachInPlace (heap : StringHeap) : Prop where
  table : ∀ s, Slot.entry s ∈ heap.strTable
    ↔ ∃ str, heap.strings s = some str ∧ str.isInterned = true
  registry : ∀ s str, heap.strings s = some str → str.isInterned = false →
    heap.largeStrings.count s = if s ∈ heap.refused then 0 else 1

/-- The interned strings that are still there are as they were. -/
def InternedKept (heap heap' : StringHeap) : Prop :=
  ∀ s str str', heap.strings s = some str → str.isInterned = true → heap'.strings s = some str' →
    str'.serial = str.serial → str'.isInterned = true ∧ str'.data = str.data ∧ str'.hash = str.hash

theorem Sound.oneEntryPerContent (sound : Sound heap none) : OneEntryPerContent heap := by
  intro idx idx' s s' str str' at_idx at_idx' live live' data told
  obtain ⟨_, live'', interned⟩ := sound.live_of_entry (List.mem_of_getElem? at_idx)
  obtain rfl := Option.some.inj (live.symm.trans live'')
  obtain ⟨_, live''', interned'⟩ := sound.live_of_entry (List.mem_of_getElem? at_idx')
  obtain rfl := Option.some.inj (live'.symm.trans live''')
  have hashes : str.hash = str'.hash := by
    rcases told with plain | same
    · have fits := sound.wellFormed live
      have fits' := sound.wellFormed live'
      have plain' : str'.isSymbol = false := by rw [fits'.symbol, ← data, ← fits.symbol, plain]
      rw [(fits.hash plain).resolve_left (fits.interned interned),
        (fits'.hash plain').resolve_left (fits'.interned interned'), data]
    · exact same
  obtain rfl := sound.distinct live live' interned interned' data hashes
  exact sound.reach.once idx idx' s at_idx at_idx'

theorem KeptStrings.internedKept (sound : Sound heap none) (kept : KeptStrings heap heap')
    : InternedKept heap heap' := by
  intro s str str' live interned live' same
  rcases kept.strings live' with later | ⟨old, at_s, _, unchanged⟩
  · have earlier := sound.serial live
    omega
  · obtain rfl := Option.some.inj (live.symm.trans at_s)
    exact unchanged interned

/-- The invariant holds after any operations. -/
theorem Sound.replay {events : List StringEvent}
    (run : Foundation.replay StringHeap.step StringHeap.new events = some heap)
    : Sound heap none := by
  have stays : ∀ {h e h'}, Sound h none → StringHeap.step h e = some h' → Sound h' none :=
    fun sound taken => (sound.step taken).1
  exact replay_preserves (σ := StringHeap) stays Sound.new run

/-- After any operations, the table has one entry for a content and a lookup finds what is held;
each live string is in its place; and from then on no interned string changes.
-/
theorem stringTable_run {events : List StringEvent}
    (run : replay StringHeap.step StringHeap.new events = some heap)
    : OneEntryPerContent heap ∧ LookupExact heap ∧ EachInPlace heap
      ∧ ∀ later heap', replay StringHeap.step heap later = some heap' → InternedKept heap heap' := by
  have sound : Sound heap none := Sound.replay run
  refine ⟨sound.oneEntryPerContent, fun _ _ _ => sound.lookup_iff, ⟨fun s => ?_, fun s str live flag
    => sound.registered live flag nofun⟩, fun later heap' goesOn => ?_⟩
  · rw [sound.held, sound.interned]
  · have keeps : ∀ {h e h'}, Sound h none ∧ KeptStrings heap h → StringHeap.step h e = some h' →
        Sound h' none ∧ KeptStrings heap h' := fun before taken =>
      ⟨(before.1.step taken).1, before.2.trans (before.1.step taken).2⟩
    have kept : Sound heap' none ∧ KeptStrings heap heap' :=
      replay_preserves (σ := StringHeap) keeps ⟨sound, .refl heap⟩ goesOn
    exact kept.2.internedKept sound

/-- The allocator has memory for everything, and the new string is at `s`. -/
def generous (s : Addr) : Answers where
  scratch := true
  table := true
  registry := true
  collected := []
  string := some s

/-- A string is interned twice, removed and interned again at another address. A second one is swept,
and a symbol becomes a property key.
-/
def internAgain : List StringEvent :=
  [.strIntern [65] (generous 2), .strIntern [65] (generous 9), .decref 2,
    .strIntern [65] (generous 3), .strIntern [66] (generous 2), .sweepStrings (· == 3) true,
    .createSymbolString [120] true (generous 4), .ensureInterned 4 (generous 5)]

theorem stringTable_run_reinterned
    : ∃ heap, replay StringHeap.step StringHeap.new internAgain = some heap
      ∧ heap.held = [4, 3]
      ∧ heap.strTableLookup [65] (hashString heap.hashSeed [65]) = some 3
      ∧ heap.strTableLookup [66] (hashString heap.hashSeed [66]) = none
      ∧ OneEntryPerContent heap ∧ LookupExact heap ∧ EachInPlace heap
      ∧ ∀ later heap', replay StringHeap.step heap later = some heap' → InternedKept heap heap' := by
  have contents : (replay StringHeap.step StringHeap.new internAgain).map (fun heap =>
      (heap.held, heap.strTableLookup [65] (hashString heap.hashSeed [65]),
        heap.strTableLookup [66] (hashString heap.hashSeed [66])))
      = some ([4, 3], some 3, none) := by decide +kernel
  obtain ⟨heap, run, contents⟩ := Option.map_eq_some_iff.mp contents
  obtain ⟨held, lookups⟩ := Prod.mk.inj contents
  obtain ⟨found, missing⟩ := Prod.mk.inj lookups
  exact ⟨heap, run, held, found, missing, stringTable_run run⟩

set_option maxRecDepth 4096 in
/-- Two symbols with one description become property keys: both are in the table, with the same
bytes. And where the registry cannot grow, a long string is in neither of the lists.
-/
theorem symbols_share_content
    : (∃ heap, replay StringHeap.step StringHeap.new
          [.createSymbolString [120] true (generous 2), .createSymbolString [120] true (generous 3),
            .ensureInterned 2 (generous 4), .ensureInterned 3 (generous 4)] = some heap
        ∧ heap.strTable[239]? = some (.entry 2) ∧ heap.strTable[238]? = some (.entry 3)
        ∧ (heap.strings 2).map HString.data = some [0xFF, 0x01, 120]
        ∧ (heap.strings 3).map HString.data = some [0xFF, 0x01, 120])
      ∧ ∃ heap, replay StringHeap.step StringHeap.new
          [.strIntern (List.replicate 257 65) { generous 2 with registry := false }] = some heap
        ∧ (heap.strings 2).map HString.isInterned = some false ∧ 2 ∉ heap.largeStrings := by
  refine ⟨⟨_, rfl, ?_, ?_, ?_, ?_⟩, ⟨_, rfl, ?_, ?_⟩⟩ <;> decide

end Boomkat.Correctness
