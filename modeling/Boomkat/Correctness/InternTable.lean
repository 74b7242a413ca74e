import Mathlib.Data.List.Perm.Basic
import Boomkat.Foundation.Replay
import Boomkat.Strings.StringHeap

/-! The table of interned strings and the registry of the others through each operation. -/

namespace Boomkat.Correctness

open Foundation Strings

variable {heap heap' : StringHeap} {s : Addr} {str : HString} {loose : Option Addr}
  {data : List UInt8} {hash : UInt32}

-----------------------------------------------------------------------------------------
-- The invariant
-----------------------------------------------------------------------------------------

/-- What a string's flags and hash say of its bytes. -/
structure WellFormed (hashSeed : UInt32) (str : HString) : Prop where
  symbol : str.isSymbol = isSymbolData str.data
  interned : str.isInterned = true → str.hash ≠ hashDeferred
  hash : str.isSymbol = false → str.hash = hashDeferred ∨ str.hash = hashString hashSeed str.data

/-- Every live string is in the table or in the registry, except one that is loose: it is on its
way into either.
-/
structure Sound (heap : StringHeap) (loose : Option Addr) : Prop where
  size : heap.strTable.length ≠ 0
  reach : InReach heap.strTable heap.hashOf
  held : ∀ s, Slot.entry s ∈ heap.strTable ↔ s ∈ heap.held
  interned : ∀ s, s ∈ heap.held ↔ ∃ str, heap.strings s = some str ∧ str.isInterned = true
  distinct : ∀ {s t str str'}, heap.strings s = some str → heap.strings t = some str' →
    str.isInterned = true → str'.isInterned = true → str.data = str'.data →
    str.hash = str'.hash → s = t
  wellFormed : ∀ {s str}, heap.strings s = some str → WellFormed heap.hashSeed str
  serial : ∀ {s str}, heap.strings s = some str → str.serial < heap.nextSerial
  registered : ∀ {s str}, heap.strings s = some str → str.isInterned = false → loose ≠ some s →
    heap.largeStrings.count s = if s ∈ heap.refused then 0 else 1
  listed : ∀ s ∈ heap.largeStrings,
    loose ≠ some s ∧ ∃ str, heap.strings s = some str ∧ str.isInterned = false

/-- The strings that are still there are those that were, and the interned ones are as they
were. New strings have later serials.
-/
structure KeptStrings (heap heap' : StringHeap) : Prop where
  seed : heap'.hashSeed = heap.hashSeed
  serial : heap.nextSerial ≤ heap'.nextSerial
  strings : ∀ {s str'}, heap'.strings s = some str' → heap.nextSerial ≤ str'.serial
    ∨ ∃ str, heap.strings s = some str ∧ str.serial = str'.serial
      ∧ (str.isInterned = true →
        str'.isInterned = true ∧ str'.data = str.data ∧ str'.hash = str.hash)

theorem KeptStrings.refl (heap : StringHeap) : KeptStrings heap heap :=
  ⟨rfl, Nat.le_refl _, fun {_ str} live => .inr ⟨str, live, rfl, fun interned => ⟨interned, rfl, rfl⟩⟩⟩

theorem KeptStrings.trans {heap'' : StringHeap} (first : KeptStrings heap heap')
    (second : KeptStrings heap' heap'')
    : KeptStrings heap heap'' := by
  refine ⟨second.seed.trans first.seed, Nat.le_trans first.serial second.serial,
    fun {s str''} live => ?_⟩
  rcases second.strings live with later | ⟨str', live', same', kept'⟩
  · exact .inl (Nat.le_trans first.serial later)
  · rcases first.strings live' with later | ⟨str, live'', same, kept⟩
    · exact .inl (same' ▸ later)
    · refine .inr ⟨str, live'', same.trans same', fun interned => ?_⟩
      obtain ⟨interned', data, hash⟩ := kept interned
      obtain ⟨interned'', data', hash'⟩ := kept' interned'
      exact ⟨interned'', data'.trans data, hash'.trans hash⟩

/-- No strings are touched. -/
theorem KeptStrings.of_same (seed : heap'.hashSeed = heap.hashSeed)
    (serial : heap'.nextSerial = heap.nextSerial) (strings : heap'.strings = heap.strings)
    : KeptStrings heap heap' :=
  ⟨seed, Nat.le_of_eq serial.symm, fun {_ str} live =>
    .inr ⟨str, strings ▸ live, rfl, fun interned => ⟨interned, rfl, rfl⟩⟩⟩

theorem Sound.live_of_entry (sound : Sound heap loose) (entry : Slot.entry s ∈ heap.strTable)
    : ∃ str, heap.strings s = some str ∧ str.isInterned = true :=
  (sound.interned s).mp ((sound.held s).mp entry)

theorem hashOf_live (live : heap.strings s = some str) : heap.hashOf s = str.hash.toNat := by
  simp only [StringHeap.hashOf, live]

-----------------------------------------------------------------------------------------
-- Lookup
-----------------------------------------------------------------------------------------

theorem isContent_iff
    : heap.isContent data hash s = true
      ↔ ∃ str, heap.strings s = some str ∧ str.data = data ∧ str.hash = hash := by
  unfold StringHeap.isContent
  cases live : heap.strings s with
  | none => simp
  | some str => simp [and_comm]

/-- A lookup finds exactly the string that is held with these bytes and this hash. -/
theorem Sound.lookup_iff (sound : Sound heap loose)
    : heap.strTableLookup data hash = some s
      ↔ s ∈ heap.held ∧ ∃ str, heap.strings s = some str ∧ str.data = data ∧ str.hash = hash := by
  simp only [StringHeap.strTableLookup, sound.size, if_false]
  constructor
  · intro found
    obtain ⟨entry, content⟩ := findEntry_sound found
    exact ⟨(sound.held s).mp entry, isContent_iff.mp content⟩
  · intro ⟨held, content⟩
    obtain ⟨str, live, isData, isHash⟩ := content
    have start : heap.hashOf s = hash.toNat := by rw [hashOf_live live, isHash]
    rw [← start]
    refine sound.reach.find ((sound.held s).mpr held) (isContent_iff.mpr ⟨str, live, isData, isHash⟩)
      fun other entry content => ?_
    obtain ⟨str', live', isData', isHash'⟩ := isContent_iff.mp content
    obtain ⟨_, live'', interned'⟩ := sound.live_of_entry entry
    obtain rfl := Option.some.inj (live'.symm.trans live'')
    obtain ⟨_, live''', interned⟩ := (sound.interned s).mp held
    obtain rfl := Option.some.inj (live.symm.trans live''')
    exact sound.distinct live' live interned' interned (isData'.trans isData.symm)
      (isHash'.trans isHash.symm)

/-- No interned string has these bytes and this hash. -/
def Unused (heap : StringHeap) (data : List UInt8) (hash : UInt32) : Prop :=
  ∀ {s str}, heap.strings s = some str → str.isInterned = true → str.data = data →
    str.hash ≠ hash

theorem Sound.unused (sound : Sound heap loose) (missing : heap.strTableLookup data hash = none)
    : Unused heap data hash := by
  intro s str live interned isData isHash
  have held : s ∈ heap.held := (sound.interned s).mpr ⟨str, live, interned⟩
  have found := sound.lookup_iff.mpr ⟨held, str, live, isData, isHash⟩
  rw [missing] at found
  cases found

-----------------------------------------------------------------------------------------
-- Changing one string
-----------------------------------------------------------------------------------------

theorem write_self (heap : StringHeap) (s : Addr) (str : HString)
    : (heap.write s str).strings s = some str :=
  Function.update_self ..

theorem write_of_ne {t : Addr} (different : t ≠ s) (heap : StringHeap) (str : HString)
    : (heap.write s str).strings t = heap.strings t :=
  Function.update_of_ne different ..

/-- What changes of a string when it is written back. -/
structure Rewrite (hashSeed : UInt32) (str str' : HString) : Prop where
  flag : str'.isInterned = str.isInterned
  serial : str'.serial = str.serial
  kept : str.isInterned = true → str'.data = str.data ∧ str'.hash = str.hash
  wellFormed : WellFormed hashSeed str'

theorem KeptStrings.write {str' : HString} (live : heap.strings s = some str)
    (rewrite : Rewrite heap.hashSeed str str')
    : KeptStrings heap (heap.write s str') := by
  refine ⟨rfl, Nat.le_refl _, fun {t other} live' => .inr ?_⟩
  by_cases same : t = s
  · subst same
    rw [write_self] at live'
    cases live'
    exact ⟨str, live, rewrite.serial.symm, fun interned =>
      ⟨rewrite.flag.trans interned, rewrite.kept interned⟩⟩
  · rw [write_of_ne same] at live'
    exact ⟨other, live', rfl, fun interned => ⟨interned, rfl, rfl⟩⟩

/-- A string after another was written: itself, or the one that was written. -/
theorem write_cases {t : Addr} {str' other : HString} (live : heap.strings s = some str)
    (live' : (heap.write s str').strings t = some other)
    : t = s ∧ other = str' ∧ heap.strings t = some str ∨ t ≠ s ∧ heap.strings t = some other := by
  by_cases same : t = s
  · subst same
    rw [write_self] at live'
    exact .inl ⟨rfl, (Option.some.inj live').symm, live⟩
  · rw [write_of_ne same] at live'
    exact .inr ⟨same, live'⟩

theorem Sound.write {str' : HString} (sound : Sound heap loose)
    (live : heap.strings s = some str) (rewrite : Rewrite heap.hashSeed str str')
    : Sound (heap.write s str') loose where
  size := sound.size
  reach := by
    refine InReach.congr sound.reach fun t entry => ?_
    obtain ⟨other, live', interned⟩ := sound.live_of_entry entry
    by_cases same : t = s
    · subst same
      obtain rfl := Option.some.inj (live.symm.trans live')
      rw [hashOf_live live, hashOf_live (write_self ..), (rewrite.kept interned).2]
    · rw [hashOf_live live', hashOf_live ((write_of_ne same ..).trans live')]
  held := sound.held
  interned t := by
    rw [show (heap.write s str').held = heap.held from rfl, sound.interned t]
    by_cases same : t = s
    · subst same
      simp [write_self, live, rewrite.flag]
    · simp [write_of_ne same]
  distinct {t t' other other'} live' live'' interned interned' sameData sameHash := by
    have before {u : Addr} {new : HString} (live' : (heap.write s str').strings u = some new)
        (interned : new.isInterned = true)
        : ∃ old, heap.strings u = some old ∧ old.isInterned = true ∧ new.data = old.data
          ∧ new.hash = old.hash := by
      rcases write_cases live live' with ⟨rfl, rfl, old⟩ | ⟨_, old⟩
      · have interned' := rewrite.flag.symm.trans interned
        exact ⟨str, old, interned', rewrite.kept interned'⟩
      · exact ⟨new, old, interned, rfl, rfl⟩
    obtain ⟨old, at_t, wasInterned, data, hash⟩ := before live' interned
    obtain ⟨old', at_t', wasInterned', data', hash'⟩ := before live'' interned'
    exact sound.distinct at_t at_t' wasInterned wasInterned'
      (data.symm.trans (sameData.trans data')) (hash.symm.trans (sameHash.trans hash'))
  wellFormed live' := by
    rcases write_cases live live' with ⟨_, rfl, _⟩ | ⟨_, old⟩
    · exact rewrite.wellFormed
    · exact sound.wellFormed old
  serial live' := by
    rcases write_cases live live' with ⟨_, rfl, old⟩ | ⟨_, old⟩
    · rw [rewrite.serial]
      exact sound.serial old
    · exact sound.serial old
  registered live' flag free := by
    rcases write_cases live live' with ⟨_, rfl, old⟩ | ⟨_, old⟩
    · exact sound.registered old (rewrite.flag.symm.trans flag) free
    · exact sound.registered old flag free
  listed t member := by
    obtain ⟨free, other, at_t, flag⟩ := sound.listed t member
    by_cases same : t = s
    · subst same
      obtain rfl := Option.some.inj (live.symm.trans at_t)
      exact ⟨free, str', write_self .., rewrite.flag.trans flag⟩
    · exact ⟨free, other, (write_of_ne same ..).trans at_t, flag⟩

-----------------------------------------------------------------------------------------
-- Dropping strings
-----------------------------------------------------------------------------------------

/-- Some strings are gone, from memory, table and registry. -/
structure Drops (heap heap' : StringHeap) (gone : Addr → Prop) : Prop where
  size : heap'.strTable.length ≠ 0
  reach : InReach heap'.strTable heap.hashOf
  dropped : ∀ {s}, gone s → heap'.strings s = none
  kept : ∀ {s}, ¬gone s → heap'.strings s = heap.strings s
  entries : ∀ s, Slot.entry s ∈ heap'.strTable ↔ ¬gone s ∧ Slot.entry s ∈ heap.strTable
  held : ∀ s, s ∈ heap'.held ↔ ¬gone s ∧ s ∈ heap.held
  delisted : ∀ {s}, gone s → s ∉ heap'.largeStrings
  large : ∀ {s}, ¬gone s → heap'.largeStrings.count s = heap.largeStrings.count s
  seed : heap'.hashSeed = heap.hashSeed
  serial : heap'.nextSerial = heap.nextSerial
  refused : heap'.refused = heap.refused

variable {gone : Addr → Prop}

theorem Drops.live (drops : Drops heap heap' gone) (live : heap'.strings s = some str)
    : ¬gone s ∧ heap.strings s = some str := by
  have here : ¬gone s := by
    intro isGone
    rw [drops.dropped isGone] at live
    cases live
  exact ⟨here, drops.kept here ▸ live⟩

theorem Drops.keptStrings (drops : Drops heap heap' gone) : KeptStrings heap heap' :=
  ⟨drops.seed, Nat.le_of_eq drops.serial.symm, fun {_ str} live =>
    .inr ⟨str, (drops.live live).2, rfl, fun interned => ⟨interned, rfl, rfl⟩⟩⟩

theorem Sound.drops (sound : Sound heap none) (drops : Drops heap heap' gone)
    : Sound heap' none where
  size := drops.size
  reach := by
    refine drops.reach.congr fun t entry => ?_
    have here := ((drops.entries t).mp entry).1
    simp only [StringHeap.hashOf, drops.kept here]
  held t := by rw [drops.entries, drops.held, sound.held]
  interned t := by
    rw [drops.held, sound.interned]
    constructor
    · intro ⟨here, str, live, interned⟩
      exact ⟨str, (drops.kept here).trans live, interned⟩
    · intro ⟨str, live, interned⟩
      exact ⟨(drops.live live).1, str, (drops.live live).2, interned⟩
  distinct live live' := sound.distinct (drops.live live).2 (drops.live live').2
  wellFormed live := drops.seed ▸ sound.wellFormed (drops.live live).2
  serial live := drops.serial ▸ sound.serial (drops.live live).2
  registered {t _} live flag _ := by
    obtain ⟨here, live⟩ := drops.live live
    rw [drops.large here, drops.refused]
    exact sound.registered live flag nofun
  listed t member := by
    have here : ¬gone t := fun isGone => drops.delisted isGone member
    have member' : t ∈ heap.largeStrings := by
      rw [← List.count_pos_iff, ← drops.large here, List.count_pos_iff]
      exact member
    obtain ⟨_, str, live, flag⟩ := sound.listed t member'
    exact ⟨nofun, str, (drops.kept here).trans live, flag⟩

/-- The swap with the last entry removes the string once. -/
theorem swapRemove_perm (entries : List Addr) (s : Addr)
    : (swapRemove entries s).Perm (entries.erase s) := by
  rw [swapRemove, List.erase_eq_eraseIdx]
  cases at_idx : entries.idxOf? s with
  | none => exact .refl _
  | some idx =>
      cases at_last : entries.getLast? with
      | none =>
          rw [List.getLast?_eq_none_iff] at at_last
          subst at_last
          cases at_idx
      | some last =>
          obtain ⟨front, rfl⟩ := List.getLast?_eq_some_iff.mp at_last
          by_cases inFront : idx < front.length
          · simp only [List.set_append_left _ _ inFront, List.dropLast_concat,
              List.eraseIdx_append_of_lt_length inFront]
            exact (List.set_perm_cons_eraseIdx inFront last).trans
              (List.perm_append_singleton _ _).symm
          · have atEnd : idx < (front ++ [last]).length :=
              (List.idxOf?_eq_some_iff.mp at_idx).choose
            obtain rfl : idx = front.length := by
              rw [List.length_append, List.length_singleton] at atEnd
              omega
            simp [List.eraseIdx_append_of_length_le]

theorem Sound.count_le (sound : Sound heap none) (s : Addr) : heap.largeStrings.count s ≤ 1 := by
  by_cases member : s ∈ heap.largeStrings
  · obtain ⟨_, str, live, flag⟩ := sound.listed s member
    rw [sound.registered live flag nofun]
    split <;> omega
  · rw [List.count_eq_zero_of_not_mem member]
    omega

theorem Sound.count_unregister (sound : Sound heap none) (s t : Addr)
    : (heap.largeStringUnregister s).largeStrings.count t
      = if t = s then 0 else heap.largeStrings.count t := by
  rw [StringHeap.largeStringUnregister, (swapRemove_perm ..).count_eq]
  by_cases same : t = s
  · have once := sound.count_le s
    rw [same, if_pos rfl, List.count_erase_self]
    omega
  · rw [if_neg same, List.count_erase_of_ne same]

-----------------------------------------------------------------------------------------
-- References
-----------------------------------------------------------------------------------------

/-- A count that changes says nothing about the bytes. -/
theorem Sound.rewrite_refcount (sound : Sound heap loose) (live : heap.strings s = some str)
    (refcount : UInt32)
    : Rewrite heap.hashSeed str { str with refcount := refcount } :=
  have wellFormed := sound.wellFormed live
  ⟨rfl, rfl, fun _ => ⟨rfl, rfl⟩, wellFormed.symbol, wellFormed.interned, wellFormed.hash⟩

/-- An interned string that is removed from the table and freed. -/
theorem Sound.drops_interned (sound : Sound heap none) (live : heap.strings s = some str)
    (interned : str.isInterned = true)
    : Drops heap ((heap.strTableRemove s).freeString s) (· = s) := by
  have entry : Slot.entry s ∈ heap.strTable :=
    (sound.held s).mpr ((sound.interned s).mpr ⟨str, live, interned⟩)
  obtain ⟨use, found⟩ := sound.reach.slot entry
  have removed : heap.strTableRemove s =
      {
        heap with
        held := heap.held.filter (· ≠ s)
        strTable := heap.strTable.set use .tombstone
        strTableUsed := heap.strTableUsed - 1
      } := by
    simp only [StringHeap.strTableRemove, sound.size, if_false]
    rw [show StringHeap.hashOf { heap with held := heap.held.filter (· ≠ s) } s = heap.hashOf s
      from rfl, found]
  have unlisted : s ∉ heap.largeStrings := by
    intro member
    obtain ⟨_, str', live', flag⟩ := sound.listed s member
    obtain rfl := Option.some.inj (live.symm.trans live')
    rw [interned] at flag
    cases flag
  rw [removed]
  refine ⟨?_, sound.reach.remove use, ?_, ?_, fun t => ?_, fun t => ?_, ?_, fun _ => rfl, rfl, rfl,
    rfl⟩
  · simpa [StringHeap.freeString] using sound.size
  · rintro t rfl
    exact Function.update_self ..
  · intro t different
    exact Function.update_of_ne different ..
  · exact sound.reach.mem_remove (entrySlot_sound found)
  · simp [StringHeap.freeString, and_comm]
  · rintro t rfl
    exact unlisted

/-- A registered string that is removed from the registry and freed. -/
theorem Sound.drops_registered (sound : Sound heap none) (live : heap.strings s = some str)
    (flag : str.isInterned = false)
    : Drops heap ((heap.largeStringUnregister s).freeString s) (· = s) := by
  have unheld : s ∉ heap.held := by
    intro held
    obtain ⟨str', live', interned⟩ := (sound.interned s).mp held
    obtain rfl := Option.some.inj (live.symm.trans live')
    rw [flag] at interned
    cases interned
  refine ⟨sound.size, sound.reach, ?_, ?_, fun t => ?_, fun t => ?_, ?_, ?_, rfl, rfl, rfl⟩
  · rintro t rfl
    exact Function.update_self ..
  · intro t different
    exact Function.update_of_ne different ..
  · refine ⟨fun entry => ⟨?_, entry⟩, And.right⟩
    rintro rfl
    exact unheld ((sound.held t).mp entry)
  · refine ⟨fun held => ⟨?_, held⟩, And.right⟩
    rintro rfl
    exact unheld held
  · rintro t rfl
    have gone := sound.count_unregister t t
    rw [if_pos rfl] at gone
    exact List.count_eq_zero.mp gone
  · intro t different
    exact (sound.count_unregister s t).trans (if_neg different)

/-- Dropping a reference keeps the heap sound. -/
theorem Sound.decref (sound : Sound heap none) (s : Addr)
    : Sound (heap.decref s) none ∧ KeptStrings heap (heap.decref s) := by
  unfold StringHeap.decref
  cases live : heap.strings s with
  | none => exact ⟨sound, .refl heap⟩
  | some str =>
      simp only
      split
      · exact ⟨sound, .refl heap⟩
      · have rewrite := sound.rewrite_refcount live (str.refcount - 1)
        have sound' := sound.write live rewrite
        have kept := KeptStrings.write live rewrite
        have live' := write_self heap s { str with refcount := str.refcount - 1 }
        split
        · split
          · rename_i flag
            have drops := sound'.drops_interned live' flag
            exact ⟨sound'.drops drops, kept.trans drops.keptStrings⟩
          · rename_i flag
            have drops := sound'.drops_registered live' (Bool.eq_false_iff.mpr flag)
            exact ⟨sound'.drops drops, kept.trans drops.keptStrings⟩
        · exact ⟨sound', kept⟩

-----------------------------------------------------------------------------------------
-- The registry
-----------------------------------------------------------------------------------------

/-- A loose string goes to the registry, or it is noted that there was no memory for it. -/
theorem Sound.register (sound : Sound heap (some s)) (live : heap.strings s = some str)
    (flag : str.isInterned = false) (allocates : Bool)
    : Sound (heap.largeStringRegister s allocates) none
      ∧ KeptStrings heap (heap.largeStringRegister s allocates) := by
  have unlisted : heap.largeStrings.count s = 0 :=
    List.count_eq_zero.mpr fun member => (sound.listed s member).1 rfl
  have others {t : Addr} {other : HString} (live' : heap.strings t = some other)
      (flag' : other.isInterned = false) (different : t ≠ s)
      : heap.largeStrings.count t = if t ∈ heap.refused then 0 else 1 :=
    sound.registered live' flag' fun same => different (Option.some.inj same).symm
  unfold StringHeap.largeStringRegister
  simp only
  split
  · refine ⟨⟨sound.size, sound.reach, sound.held, sound.interned, sound.distinct, sound.wellFormed,
      sound.serial, fun {t other} live' flag' _ => ?_, fun t member => ?_⟩, .of_same rfl rfl rfl⟩
    · by_cases same : t = s
      · subst same
        simp [unlisted]
      · simp only [List.mem_cons, same, false_or]
        exact others live' flag' same
    · exact ⟨nofun, (sound.listed t member).2⟩
  · refine ⟨⟨sound.size, sound.reach, sound.held, sound.interned, sound.distinct, sound.wellFormed,
      sound.serial, fun {t other} live' flag' _ => ?_, fun t member => ?_⟩, .of_same rfl rfl rfl⟩
    · by_cases same : t = s
      · subst same
        simp [unlisted]
      · simp only [List.count_append, List.count_cons, List.count_nil, List.mem_filter]
        simpa [same, Ne.symm same] using others live' flag' same
    · rcases List.mem_append.mp member with member | member
      · exact ⟨nofun, (sound.listed t member).2⟩
      · obtain rfl := List.mem_singleton.mp member
        exact ⟨nofun, str, live, flag⟩

/-- A registered string that leaves the registry is loose. -/
theorem Sound.unregister (sound : Sound heap none) (s : Addr)
    : Sound (heap.largeStringUnregister s) (some s)
      ∧ KeptStrings heap (heap.largeStringUnregister s) := by
  refine ⟨⟨sound.size, sound.reach, sound.held, sound.interned, sound.distinct, sound.wellFormed,
    sound.serial, fun {t other} live flag different => ?_, fun t member => ?_⟩,
    .of_same rfl rfl rfl⟩
  · have apart : t ≠ s := by
      rintro rfl
      exact different rfl
    rw [sound.count_unregister, if_neg apart]
    exact sound.registered live flag nofun
  · have count := sound.count_unregister s t
    by_cases same : t = s
    · rw [if_pos same, List.count_eq_zero] at count
      exact absurd member count
    · rw [if_neg same] at count
      have member' : t ∈ heap.largeStrings := by
        rw [← List.count_pos_iff, ← count, List.count_pos_iff]
        exact member
      exact ⟨fun same' => same (Option.some.inj same').symm, (sound.listed t member').2⟩

-----------------------------------------------------------------------------------------
-- The table
-----------------------------------------------------------------------------------------

/-- A resize keeps the entries. -/
theorem Sound.resize {newSize : Nat} {allocates : Bool} (sound : Sound heap loose)
    (done : heap.resize newSize allocates = some heap')
    : Sound heap' loose ∧ heap'.strings = heap.strings ∧ heap'.hashSeed = heap.hashSeed
      ∧ heap'.nextSerial = heap.nextSerial ∧ heap'.largeStrings = heap.largeStrings
      ∧ heap'.refused = heap.refused := by
  unfold StringHeap.resize at done
  simp only at done
  split at done
  · rw [Option.map_eq_some_iff] at done
    obtain ⟨table, rehashed, rfl⟩ := done
    have nonempty : (if newSize < initialStrTableSize then initialStrTableSize else newSize) ≠ 0 := by
      unfold initialStrTableSize
      split <;> omega
    obtain ⟨reach, size, entries⟩ := sound.reach.rehash nonempty rehashed
    refine ⟨⟨size ▸ nonempty, reach, fun t => (entries t).trans (sound.held t), sound.interned,
      sound.distinct, sound.wellFormed, sound.serial, sound.registered, sound.listed⟩,
      rfl, rfl, rfl, rfl, rfl⟩
  · cases done
    exact ⟨sound, rfl, rfl, rfl, rfl, rfl⟩

@[simp] theorem HString.incref_data (str : HString) : str.incref.data = str.data := by
  unfold HString.incref
  split <;> rfl

@[simp] theorem HString.incref_hash (str : HString) : str.incref.hash = str.hash := by
  unfold HString.incref
  split <;> rfl

@[simp] theorem HString.incref_isInterned (str : HString)
    : str.incref.isInterned = str.isInterned := by
  unfold HString.incref
  split <;> rfl

@[simp] theorem HString.incref_isSymbol (str : HString) : str.incref.isSymbol = str.isSymbol := by
  unfold HString.incref
  split <;> rfl

@[simp] theorem HString.incref_serial (str : HString) : str.incref.serial = str.serial := by
  unfold HString.incref
  split <;> rfl

/-- A loose string that no interned string is like, in a slot on its probe. -/
theorem Sound.enter {use : Nat} (sound : Sound heap (some s)) (live : heap.strings s = some str)
    (flag : str.isInterned = false) (hashed : str.hash ≠ hashDeferred)
    (unused : Unused heap str.data str.hash)
    (vacant : Vacant heap.strTable heap.strTable.length
      (firstSlot heap.strTable.length (heap.hashOf s)) use)
    : Sound
          {
            heap.write s str.adopt with
            strTable := heap.strTable.set use (.entry s)
            strTableUsed := heap.strTableUsed + 1
            held := s :: heap.held
          }
          none
      ∧ KeptStrings heap
          {
            heap.write s str.adopt with
            strTable := heap.strTable.set use (.entry s)
            strTableUsed := heap.strTableUsed + 1
            held := s :: heap.held
          } := by
  have unheld : s ∉ heap.held := by
    intro held
    obtain ⟨other, live', interned⟩ := (sound.interned s).mp held
    obtain rfl := Option.some.inj (live.symm.trans live')
    rw [flag] at interned
    cases interned
  have absent : Slot.entry s ∉ heap.strTable := fun entry => unheld ((sound.held s).mp entry)
  obtain ⟨inside, free⟩ := vacant.free
  have wellFormed := sound.wellFormed live
  have adopted : WellFormed heap.hashSeed str.adopt := by
    refine ⟨?_, fun _ => ?_, ?_⟩
    · simpa [HString.adopt] using wellFormed.symbol
    · simpa [HString.adopt] using hashed
    · simpa [HString.adopt] using wellFormed.hash
  -- An interned string is the new one, or it is not like the new one.
  have before {t : Addr} {other : HString} (live' : (heap.write s str.adopt).strings t = some other)
      (interned : other.isInterned = true)
      : t = s ∧ other = str.adopt ∨ t ≠ s ∧ heap.strings t = some other
        ∧ ¬(other.data = str.data ∧ other.hash = str.hash) := by
    rcases write_cases live live' with ⟨same, isAdopted, _⟩ | ⟨different, old⟩
    · exact .inl ⟨same, isAdopted⟩
    · exact .inr ⟨different, old, fun ⟨data, hash⟩ => unused old interned data hash⟩
  refine ⟨⟨?_, ?_, fun t => ?_, fun t => ?_, fun {t t' other other'} live' live'' interned interned'
    data hash => ?_, fun {t other} live' => ?_, fun {t other} live' => ?_, fun {t other} live' flag' _
    => ?_, fun t member => ?_⟩, rfl, Nat.le_refl _, fun {t other} live' => .inr ?_⟩
  · rw [List.length_set]
    exact sound.size
  · refine (sound.reach.insert absent vacant).congr fun t entry => ?_
    by_cases same : t = s
    · subst same
      have sameHash : str.adopt.hash = str.hash := by simp [HString.adopt]
      rw [hashOf_live live, ← sameHash]
      exact (hashOf_live (write_self ..)).symm
    · simp only [StringHeap.hashOf, write_of_ne same]
  · rw [mem_set_entry free inside, sound.held, List.mem_cons]
  · rw [List.mem_cons, sound.interned]
    by_cases same : t = s
    · subst same
      simp [write_self, HString.adopt]
    · simp [write_of_ne same, same]
  · rcases before live' interned with ⟨rfl, rfl⟩ | ⟨_, old, unlike⟩
    · rcases before live'' interned' with ⟨rfl, -⟩ | ⟨_, _, unlike⟩
      · rfl
      · exact absurd ⟨by simp [← data, HString.adopt], by simp [← hash, HString.adopt]⟩ unlike
    · rcases before live'' interned' with ⟨rfl, rfl⟩ | ⟨_, old', _⟩
      · exact absurd ⟨by simp [data, HString.adopt], by simp [hash, HString.adopt]⟩ unlike
      · exact sound.distinct old old' interned interned' data hash
  · rcases write_cases live live' with ⟨_, rfl, _⟩ | ⟨_, old⟩
    · exact adopted
    · exact sound.wellFormed old
  · rcases write_cases live live' with ⟨_, rfl, old⟩ | ⟨_, old⟩
    · have sameSerial : str.adopt.serial = str.serial := by simp [HString.adopt]
      exact sameSerial ▸ sound.serial live
    · exact sound.serial old
  · rcases write_cases live live' with ⟨_, rfl, _⟩ | ⟨different, old⟩
    · simp [HString.adopt] at flag'
    · exact sound.registered old flag' fun same => different (Option.some.inj same).symm
  · obtain ⟨different, other, old, flag'⟩ := sound.listed t member
    have apart : t ≠ s := by
      rintro rfl
      exact different rfl
    exact ⟨nofun, other, (write_of_ne apart ..).trans old, flag'⟩
  · rcases write_cases live live' with ⟨rfl, rfl, old⟩ | ⟨_, old⟩
    · refine ⟨str, live, by simp [HString.adopt], fun interned => ?_⟩
      rw [flag] at interned
      cases interned
    · exact ⟨other, old, rfl, fun interned => ⟨interned, rfl, rfl⟩⟩

/-- A loose string that no interned string is like gets a slot, or the table is full and it is
still loose.
-/
theorem Sound.insert {allocates answer : Bool} (sound : Sound heap (some s))
    (live : heap.strings s = some str) (flag : str.isInterned = false)
    (hashed : str.hash ≠ hashDeferred) (unused : Unused heap str.data str.hash)
    (done : heap.strTableInsert s str allocates = some (heap', answer))
    : KeptStrings heap heap'
      ∧ (answer = true ∧ Sound heap' none
        ∨ answer = false ∧ Sound heap' (some s) ∧ heap'.strings s = some str) := by
  simp only [StringHeap.strTableInsert, Option.map_eq_some_iff] at done
  obtain ⟨grown, grew, done⟩ := done
  obtain ⟨sound', strings, seed, serial, _, _⟩ : Sound grown (some s)
      ∧ grown.strings = heap.strings ∧ grown.hashSeed = heap.hashSeed
      ∧ grown.nextSerial = heap.nextSerial ∧ grown.largeStrings = heap.largeStrings
      ∧ grown.refused = heap.refused := by
    split at grew
    · exact sound.resize grew
    · cases grew
      exact ⟨sound, rfl, rfl, rfl, rfl, rfl⟩
  have live' : grown.strings s = some str := by rw [strings, live]
  have kept : KeptStrings heap grown := .of_same seed serial strings
  split at done
  · rename_i use found
    cases done
    have here : Probes grown.strTable 0 (firstSlot grown.strTable.length str.hash.toNat)
        (firstSlot grown.strTable.length str.hash.toNat) := rfl
    have vacant : Vacant grown.strTable grown.strTable.length
        (firstSlot grown.strTable.length (grown.hashOf s)) use := by
      rw [hashOf_live live']
      exact insertionSlot_vacant here (by omega) (by simp) found
    have unused' : Unused grown str.data str.hash :=
      fun {_ _} live'' => unused (strings ▸ live'')
    obtain ⟨entered, kept'⟩ := sound'.enter live' flag hashed unused' vacant
    exact ⟨kept.trans kept', .inl ⟨rfl, entered⟩⟩
  · cases done
    exact ⟨kept, .inr ⟨rfl, sound', live'⟩⟩

/-- A loose string goes to the table or to the registry. -/
theorem Sound.insertOrRegister {answers : Answers} (sound : Sound heap (some s))
    (live : heap.strings s = some str) (flag : str.isInterned = false)
    (hashed : str.hash ≠ hashDeferred) (unused : Unused heap str.data str.hash)
    (done : heap.insertOrRegister s str answers = some heap')
    : Sound heap' none ∧ KeptStrings heap heap' := by
  rw [StringHeap.insertOrRegister, Option.map_eq_some_iff] at done
  obtain ⟨⟨inserted, answer⟩, done, rfl⟩ := done
  obtain ⟨kept, ⟨rfl, sound'⟩ | ⟨rfl, sound', live'⟩⟩ := sound.insert live flag hashed unused done
  · exact ⟨sound', kept⟩
  · obtain ⟨sound'', kept'⟩ := sound'.register live' flag answers.registry
    exact ⟨sound'', kept.trans kept'⟩

end Boomkat.Correctness
