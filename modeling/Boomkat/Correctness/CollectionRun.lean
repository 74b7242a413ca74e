import Boomkat.Correctness.CollectionSteps
import Boomkat.Foundation.Replay

/-! Lookups in maps and sets agree with the linear scan in every run in which no collection is
cleared that has an index over exactly eight entries.
-/

namespace Boomkat.Correctness

open Foundation Strings Collections

variable {heap : HeapData} {coll coll' : Coll} {key : TVal} {memory : Memory}

-----------------------------------------------------------------------------------------
-- Steps
-----------------------------------------------------------------------------------------

/-- There is room for one more entry. -/
def HasRoom (coll : Coll) (memory : Memory) : Prop :=
  memory.firstWrite = true ∧ memory.secondWrite = true
    ∧ coll.arrayUsed + coll.cls.stride < 2 ^ 31

/-- The call does not clear a collection that has an index over exactly eight entries at a load of
one half at most, and there is room for what it inserts.
-/
def Orderly (coll : Coll) : CollOp × Memory → Prop
  | (.clear, _) => ∀ ci, coll.collHash = some ci → ci.built = 8 * coll.cls.stride →
      ci.mask < ci.used * 2
  | (.set .., memory) | (.getOrInsert .., memory) | (.computed .., memory) | (.add _, memory) =>
      HasRoom coll memory
  | (.getOrInsertComputed _, _) | (.delete _, _) | (.lookup _, _) => True

instance : Decidable (HasRoom coll memory) := inferInstanceAs (Decidable (_ ∧ _))

instance : ∀ event, Decidable (Orderly coll event)
  | (.clear, _) => inferInstanceAs (Decidable (∀ ci, coll.collHash = some ci → _))
  | (.set .., memory) | (.getOrInsert .., memory) | (.computed .., memory) | (.add _, memory) =>
      inferInstanceAs (Decidable (HasRoom coll memory))
  | (.getOrInsertComputed _, _) | (.delete _, _) | (.lookup _, _) => isTrue trivial

theorem CollSound.new (cls : CollClass) : CollSound heap (Coll.new cls) := by
  have none : ∀ {i}, ¬IsEntry (Coll.new cls) i := fun entry => Nat.not_lt_zero _ entry.1
  refine ⟨⟨Nat.dvd_zero _, Nat.le_refl _, Nat.two_pow_pos 31, fun _ _ => rfl, ?_, ?_⟩, nofun⟩
  · exact fun i j m entry => absurd entry none
  · exact fun _ i entry => absurd entry none

/-- A position of the scan is one of an entry after the lookup as well. -/
theorem LookedUp.entry {before : Coll} {i : Nat} (fit : KeysFit heap)
    (fits : EntriesFit heap before) (looked : LookedUp heap before coll)
    (found : findInArrayPart heap before key = some i)
    : IsEntry coll i :=
  looked.same.isEntry.mpr ((findInArrayPart_eq_some fit fits).mp found).1

/-- What comes of a call that looks a key up: it throws on a key that a weak collection cannot
hold, or it goes on with the position of the key or without one.
-/
inductive Outcome (heap : HeapData) (coll : Coll) (key : TVal) (hit : Coll → Nat → Coll)
    (miss : Coll → Coll) (next : Coll) : Prop
  | refused (weak : coll.cls.isWeak = true) (same : next = coll)
  | hit {looked : Coll} {i : Nat} (lookedUp : LookedUp heap coll looked)
    (found : findInArrayPart heap coll key = some i) (result : next = hit looked i)
  | miss {looked : Coll} (lookedUp : LookedUp heap coll looked)
    (absent : findInArrayPart heap coll key = none) (result : next = miss looked)

theorem collSetEntry_spec (fit : KeysFit heap) (sound : CollSound heap coll)
    (key value : ScriptVal) (memory : Memory)
    : ∃ next, collSetEntry heap coll key value memory = some next
      ∧ Outcome heap coll (canonicalizeKeyedCollectionKey key).val
        (fun looked i => looked.overwrite i value.val)
        (fun looked =>
          looked.appendEntry (canonicalizeKeyedCollectionKey key).val value.val memory)
        next := by
  rw [collSetEntry]
  split
  · rename_i refused
    exact ⟨coll, rfl, .refused refused.1 rfl⟩
  · obtain ⟨looked, finds, lookedUp⟩ :=
      sound.collFind fit (canonicalizeKeyedCollectionKey key).val memory.index
    simp only [finds, Option.bind_eq_bind, Option.bind_some]
    cases found : findInArrayPart heap coll (canonicalizeKeyedCollectionKey key).val with
    | some i => exact ⟨_, rfl, .hit lookedUp found rfl⟩
    | none => exact ⟨_, rfl, .miss lookedUp found rfl⟩

theorem collGetOrInsert_spec (fit : KeysFit heap) (sound : CollSound heap coll)
    (key value : ScriptVal) (memory : Memory)
    : ∃ next, collGetOrInsert heap coll key value memory = some next
      ∧ Outcome heap coll (canonicalizeKeyedCollectionKey key).val (fun looked _ => looked)
        (fun looked =>
          looked.appendEntry (canonicalizeKeyedCollectionKey key).val value.val memory)
        next := by
  rw [collGetOrInsert]
  split
  · rename_i refused
    exact ⟨coll, rfl, .refused refused.1 rfl⟩
  · obtain ⟨looked, finds, lookedUp⟩ :=
      sound.collFind fit (canonicalizeKeyedCollectionKey key).val memory.index
    simp only [finds, Option.bind_eq_bind, Option.bind_some]
    cases found : findInArrayPart heap coll (canonicalizeKeyedCollectionKey key).val with
    | some i => exact ⟨_, rfl, .hit lookedUp found rfl⟩
    | none => exact ⟨_, rfl, .miss lookedUp found rfl⟩

/-- Append a value alone. -/
def appendValue (value : TVal) (memory : Memory) (coll : Coll) : Coll :=
  if ¬(coll.setArrayIdx coll.arrayUsed value memory.firstWrite).cls.isWeak
      ∧ (coll.setArrayIdx coll.arrayUsed value memory.firstWrite).arrayUsed ≤ coll.arrayUsed then
    { coll.setArrayIdx coll.arrayUsed value memory.firstWrite with arrayUsed := coll.arrayUsed + 1 }
  else coll.setArrayIdx coll.arrayUsed value memory.firstWrite

/-- A weak collection only gets a value that it can hold. -/
theorem collAddValue_spec (fit : KeysFit heap) (sound : CollSound heap coll) (value : ScriptVal)
    (memory : Memory)
    : ∃ next, collAddValue heap coll value memory = some next
      ∧ Outcome heap coll (canonicalizeKeyedCollectionKey value).val (fun looked _ => looked)
        (appendValue (canonicalizeKeyedCollectionKey value).val memory) next
      ∧ (next = coll ∨ (coll.cls.isWeak = true → value.val ≠ .undefined)) := by
  rw [collAddValue]
  split
  · rename_i refused
    exact ⟨coll, rfl, .refused refused.1 rfl, .inl rfl⟩
  · rename_i holdable
    have known : coll.cls.isWeak = true → value.val ≠ .undefined := by
      intro isWeak hole
      refine holdable ⟨isWeak, ?_⟩
      rw [hole]
      exact Bool.false_ne_true
    obtain ⟨looked, finds, lookedUp⟩ :=
      sound.collFind fit (canonicalizeKeyedCollectionKey value).val memory.index
    simp only [finds, Option.bind_eq_bind, Option.bind_some]
    cases found : findInArrayPart heap coll (canonicalizeKeyedCollectionKey value).val with
    | some i => exact ⟨_, rfl, .hit lookedUp found rfl, .inr known⟩
    | none => exact ⟨_, (apply_ite some ..).symm, .miss lookedUp found rfl, .inr known⟩

theorem collDelete_spec (fit : KeysFit heap) (sound : CollSound heap coll) (key : ScriptVal)
    (memory : Memory)
    : ∃ next, collDelete heap coll key memory = some next
      ∧ Outcome heap coll key.val
        (fun looked i => if looked.cls.isWeak then looked.compact i else looked.bury i) id
        next := by
  obtain ⟨looked, finds, lookedUp⟩ := sound.collFind fit key.val memory.index
  simp only [collDelete, finds, Option.bind_eq_bind, Option.bind_some]
  cases found : findInArrayPart heap coll key.val with
  | some i => exact ⟨_, rfl, .hit lookedUp found rfl⟩
  | none => exact ⟨_, rfl, .miss lookedUp found rfl⟩

/-- A new key with a value, where there is room. -/
theorem LookedUp.appendEntry (fit : KeysFit heap) (sound : CollSound heap coll) {looked : Coll}
    (lookedUp : LookedUp heap coll looked) (pair : coll.cls.stride = 2) {key : ScriptVal}
    (absent : findInArrayPart heap coll key.val = none) (room : HasRoom coll memory) (value : TVal)
    : CollSound heap (looked.appendEntry key.val value memory) := by
  obtain ⟨first, second, bounded⟩ := room
  have pair' : looked.cls.stride = 2 := by rw [lookedUp.same.cls, pair]
  rw [pair] at bounded
  have bounded' : looked.arrayUsed + 2 < 2 ^ 31 := by rwa [lookedUp.same.used]
  have appended : Appended looked (looked.appendEntry key.val value memory) key.val :=
    appendEntry_appended (lookedUp.sound sound.fits).fits pair' first second bounded'
  exact appended.sound fit sound.fits lookedUp absent key.property (by rwa [pair'])

theorem collSetEntry_sound (fit : KeysFit heap) (sound : CollSound heap coll)
    (key value : ScriptVal) (pair : coll.cls.stride = 2)
    : ∃ next, collSetEntry heap coll key value memory = some next
      ∧ (HasRoom coll memory → CollSound heap next) := by
  obtain ⟨next, taken, outcome⟩ := collSetEntry_spec fit sound key value memory
  refine ⟨next, taken, fun room => ?_⟩
  cases outcome with
  | refused _ same => exact same ▸ sound
  | hit lookedUp found result =>
      rw [result]
      have sound' := lookedUp.sound sound.fits
      have pair' : (_ : Coll).cls.stride = 2 := lookedUp.same.cls ▸ pair
      exact (overwrite_fewer pair' (lookedUp.entry fit sound.fits found) sound'.fits).sound sound'
  | miss lookedUp absent result =>
      rw [result]
      exact lookedUp.appendEntry fit sound pair absent room value.val

theorem collGetOrInsert_sound (fit : KeysFit heap) (sound : CollSound heap coll)
    (key value : ScriptVal) (pair : coll.cls.stride = 2)
    : ∃ next, collGetOrInsert heap coll key value memory = some next
      ∧ (HasRoom coll memory → CollSound heap next) := by
  obtain ⟨next, taken, outcome⟩ := collGetOrInsert_spec fit sound key value memory
  refine ⟨next, taken, fun room => ?_⟩
  cases outcome with
  | refused _ same => exact same ▸ sound
  | hit lookedUp _ result => exact result ▸ lookedUp.sound sound.fits
  | miss lookedUp absent result =>
      rw [result]
      exact lookedUp.appendEntry fit sound pair absent room value.val

/-- A zero stays a value that is not `undefined`. -/
theorem canonicalize_ne_undefined {key : ScriptVal} (known : key.val ≠ .undefined)
    : (canonicalizeKeyedCollectionKey key).val ≠ .undefined := by
  obtain ⟨val, script⟩ := key
  cases val with
  | number d =>
      simp only [canonicalizeKeyedCollectionKey]
      split
      · exact nofun
      · exact known
  | _ => exact known

theorem collAddValue_sound (fit : KeysFit heap) (sound : CollSound heap coll)
    (value : ScriptVal) (alone : coll.cls.stride = 1)
    : ∃ next, collAddValue heap coll value memory = some next
      ∧ (HasRoom coll memory → CollSound heap next) := by
  obtain ⟨next, taken, outcome, known⟩ := collAddValue_spec fit sound value memory
  refine ⟨next, taken, fun ⟨first, _, room⟩ => ?_⟩
  rcases known with same | known
  · exact same ▸ sound
  cases outcome with
  | refused _ same => exact same ▸ sound
  | hit lookedUp _ result => exact result ▸ lookedUp.sound sound.fits
  | @miss looked lookedUp absent result =>
      have alone' : looked.cls.stride = 1 := by rw [lookedUp.same.cls, alone]
      rw [alone] at room
      have bounded : looked.arrayUsed + 1 < 2 ^ 31 := by rwa [lookedUp.same.used]
      have holds : looked.cls.isWeak = true →
          (canonicalizeKeyedCollectionKey value).val ≠ .undefined := by
        rw [lookedUp.same.cls]
        exact fun isWeak => canonicalize_ne_undefined (known isWeak)
      rw [result, appendValue, first]
      exact (addValue_appended _ (lookedUp.sound sound.fits).fits alone' bounded holds).sound fit
        sound.fits lookedUp absent (canonicalizeKeyedCollectionKey value).property
        (by rwa [alone'])

theorem collDelete_sound (fit : KeysFit heap) (sound : CollSound heap coll) (key : ScriptVal)
    (memory : Memory)
    : ∃ next, collDelete heap coll key memory = some next ∧ CollSound heap next := by
  obtain ⟨next, taken, outcome⟩ := collDelete_spec fit sound key memory
  refine ⟨next, taken, ?_⟩
  cases outcome with
  | refused _ same => exact same ▸ sound
  | hit lookedUp found result =>
      have sound' := lookedUp.sound sound.fits
      have entry := lookedUp.entry fit sound.fits found
      rw [result]
      split
      · rename_i isWeak
        exact compact_sound sound.fits lookedUp isWeak entry
      · rename_i strong
        exact (bury_fewer sound'.fits (by simpa using strong) entry).sound sound'
  | miss lookedUp _ result => exact result ▸ lookedUp.sound sound.fits

/-- Every call comes to an end, and an orderly one keeps the collection sound. -/
theorem CollSound.step (fit : KeysFit heap) (sound : CollSound heap coll) (event : CollOp × Memory)
    : ∃ next, coll.step heap event = some next ∧ (Orderly coll event → CollSound heap next) := by
  obtain ⟨op, memory⟩ := event
  have lookup : ∀ key, ∃ next,
      (Collections.collFind heap coll key memory.index).map Prod.fst = some next
        ∧ CollSound heap next := by
    intro key
    obtain ⟨looked, finds, lookedUp⟩ := sound.collFind fit key memory.index
    exact ⟨looked, by rw [finds]; rfl, lookedUp.sound sound.fits⟩
  simp only [Coll.step]
  split
  · exact ⟨coll, rfl, fun _ => sound⟩
  · rename_i fits
    have fits : op.fits coll.cls = true := by simpa using fits
    cases op with
    | set key value => exact collSetEntry_sound fit sound key value (by simpa [CollOp.fits] using fits)
    | getOrInsert key value =>
        exact collGetOrInsert_sound fit sound key value (by simpa [CollOp.fits] using fits)
    | getOrInsertComputed key =>
        simp only
        split
        · exact ⟨coll, rfl, fun _ => sound⟩
        · obtain ⟨next, taken, sound'⟩ := lookup (canonicalizeKeyedCollectionKey key).val
          exact ⟨next, taken, fun _ => sound'⟩
    | computed key value =>
        exact collSetEntry_sound fit sound key value (by simpa [CollOp.fits] using fits)
    | add value => exact collAddValue_sound fit sound value (by simpa [CollOp.fits] using fits)
    | delete key =>
        obtain ⟨next, taken, sound'⟩ := collDelete_sound fit sound key memory
        exact ⟨next, taken, fun _ => sound'⟩
    | clear => exact ⟨_, rfl, collClear_sound sound⟩
    | lookup key =>
        obtain ⟨next, taken, sound'⟩ := lookup key.val
        exact ⟨next, taken, fun _ => sound'⟩

-----------------------------------------------------------------------------------------
-- Runs
-----------------------------------------------------------------------------------------

/-- A lookup is the linear scan, which finds the live entry of a key exactly if there is one; no
key is there twice; and every call comes to an end.
-/
structure FindsExactly (heap : HeapData) (coll : Coll) : Prop where
  agrees : ∀ (key : TVal) (allocates : Bool), ∃ coll', SameEntries coll coll'
    ∧ collFind heap coll key allocates = some (coll', findInArrayPart heap coll key)
  found : ∀ (key : TVal) (i : Nat), findInArrayPart heap coll key = some i →
    IsEntry coll i ∧ coll.slot i ≠ .deleted ∧ sameValueZero heap (coll.slot i) key = true
  absent : ∀ key : TVal, findInArrayPart heap coll key = none →
    ∀ i, IsEntry coll i → sameValueZero heap (coll.slot i) key = false
  once : ∀ i j, IsEntry coll i → IsEntry coll j →
    sameValueZero heap (coll.slot i) (coll.slot j) = true → i = j
  ends : ∀ event, ∃ next, coll.step heap event = some next

theorem CollSound.findsExactly (fit : KeysFit heap) (sound : CollSound heap coll)
    : FindsExactly heap coll where
  agrees key allocates := by
    obtain ⟨looked, finds, lookedUp⟩ := sound.collFind fit key allocates
    exact ⟨looked, lookedUp.same, finds⟩
  found key i found := by
    obtain ⟨entry, same⟩ := (findInArrayPart_eq_some fit sound.fits).mp found
    refine ⟨entry, fun deleted => ?_, same⟩
    obtain ⟨m, means, -⟩ := (sameValueZero_iff fit).mp same
    rw [deleted] at means
    cases means
  absent key absent := (findInArrayPart_eq_none sound.fits).mp absent
  once i j left right same := by
    obtain ⟨m, meansI, meansJ⟩ := (sameValueZero_iff fit).mp same
    exact sound.fits.once i j m left right meansI meansJ
  ends event := by
    obtain ⟨next, taken, -⟩ := sound.step fit event
    exact ⟨next, taken⟩

/-- In an orderly run of a collection, every lookup agrees with the linear scan. Witness: the index
has all live entries but the last at most, or the next lookup by it replaces it.
-/
theorem collection_run {strings : StringHeap} {stringEvents : List StringEvent}
    (reached : replay StringHeap.step StringHeap.new stringEvents = some strings)
    (hashed : ∀ s str, strings.strings s = some str → str.isSymbol = true → str.hash ≠ hashDeferred)
    (bigints : Addr → BitVec 128) (registered : Addr → Bool) (cls : CollClass)
    {events : List (CollOp × Memory)}
    (orderly : Along (Coll.step (.of strings bigints registered)) Orderly (Coll.new cls) events)
    (run : replay (Coll.step (.of strings bigints registered)) (Coll.new cls) events = some coll)
    : FindsExactly (.of strings bigints registered) coll := by
  have fit := keysFit_of_replay reached hashed bigints registered
  have kept : ∀ {s e s'}, CollSound (.of strings bigints registered) s → Orderly s e →
      s.step (.of strings bigints registered) e = some s' →
      CollSound (.of strings bigints registered) s' := by
    intro s e s' sound orderly taken
    obtain ⟨next, taken', sound'⟩ := sound.step fit e
    obtain rfl := Option.some.inj (taken.symm.trans taken')
    exact sound' orderly
  exact (orderly.preserves kept (CollSound.new cls) run).findsExactly fit

/-- The object at an address, as a key. -/
def objectKey (addr : Nat) : ScriptVal := ⟨.object addr, nofun⟩

/-- Memory for everything. -/
def plenty : Memory := ⟨true, true, true⟩

/-- A set of ten objects loses one of them, is looked up by its index, is cleared and gets ten others,
of which the first is looked up.
-/
def clearTen : List (CollOp × Memory) :=
  (List.range 10).map (fun k => (.add (objectKey (16 * k)), plenty))
    ++ [(.delete (objectKey 0), plenty), (.lookup (objectKey 16), plenty), (.clear, plenty)]
    ++ (List.range 10).map (fun k => (.add (objectKey (16 * (k + 10))), plenty))
    ++ [(.lookup (objectKey 160), plenty)]

/-- The set has an index over the ten objects and finds each of them. -/
theorem collection_run_cleared
    : ∃ coll, replay (Coll.step (.of .new (fun _ => 0) (fun _ => false))) (.new .set) clearTen
          = some coll
        ∧ coll.collHash.map CollHashInfo.built = some 10
        ∧ FindsExactly (.of .new (fun _ => 0) (fun _ => false)) coll := by
  have started : replay StringHeap.step StringHeap.new [] = some StringHeap.new := rfl
  have orderly : Along (Coll.step (.of .new (fun _ => 0) (fun _ => false))) Orderly (.new .set)
      clearTen := by decide +kernel
  have indexed : (replay (Coll.step (.of .new (fun _ => 0) (fun _ => false))) (.new .set)
      clearTen).map (fun coll => coll.collHash.map CollHashInfo.built) = some (some 10) := by
    decide +kernel
  obtain ⟨coll, run, built⟩ := Option.map_eq_some_iff.mp indexed
  exact ⟨coll, run, built, collection_run started (fun _ _ here => by cases here) (fun _ => 0)
    (fun _ => false) .set orderly run⟩

/-- The calls after which the index is that of entries that are gone: a set of eight objects loses
one of them, is looked up, is cleared and gets eight others.
-/
def refillAfterClear : List (CollOp × Memory) :=
  (List.range 8).map (fun k => (.add (objectKey (16 * k)), plenty))
    ++ [(.delete (objectKey 0), plenty), (.lookup (objectKey 16), plenty), (.clear, plenty)]
    ++ (List.range 8).map (fun k => (.add (objectKey (16 * (k + 8))), plenty))

set_option maxRecDepth 4096 in
/-- An object that is in the set is not found, and the set takes it for a second time. -/
theorem refillAfterClear_lost
    : ∃ coll coll', replay (Coll.step (.of .new (fun _ => 0) (fun _ => false))) (.new .set)
          refillAfterClear = some coll
        ∧ findInArrayPart (.of .new (fun _ => 0) (fun _ => false)) coll (.object 128) = some 0
        ∧ (collFind (.of .new (fun _ => 0) (fun _ => false)) coll (.object 128) true).map Prod.snd
          = some none
        ∧ coll.step (.of .new (fun _ => 0) (fun _ => false)) (.add (objectKey 128), plenty)
          = some coll'
        ∧ coll'.slot 0 = .object 128 ∧ coll'.slot 8 = .object 128
        ∧ coll'.arrayUsed = 9 := by
  refine ⟨_, _, rfl, ?_, ?_, rfl, ?_, ?_, ?_⟩ <;> decide

end Boomkat.Correctness
