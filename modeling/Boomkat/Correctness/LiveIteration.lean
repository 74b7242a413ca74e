import Boomkat.Correctness.EntryCells

/-! Maps and sets with live iterators do what the language says of them, as long as none is cleared
while a walk over it is part-way through.
-/

namespace Boomkat.Correctness

open Foundation EntryList Strings Collections

variable {heap : HeapData} {coll next : Coll} {cells : List (Option (TVal × TVal))}
  {data : MapData} {cls : CollClass} {base p : Nat} {key value : TVal} {memory : Memory}

-----------------------------------------------------------------------------------------
-- Calls
-----------------------------------------------------------------------------------------

/-- The data after a call are those of the collection after it. Only a `clear` leaves cells behind,
and the cursors and the log stay.
-/
structure CallFits (next : Coll) (cls : CollClass) (data data' : MapData) (base base' : Nat)
    : Prop where
  cells : Cells next data'.list.cells base'
  cls : next.cls = cls
  walks : WalksFit data'.list
  cursors : data'.list.cursors = data.list.cursors
  log : data'.log = data.log
  behind : base ≤ base'

/-- A lookup that finds the key finds its cell. -/
theorem findKey_of_found (fit : KeysFit heap) (fits : EntriesFit heap coll)
    (filled : Cells coll cells base) {i : Nat} (found : findInArrayPart heap coll key = some i)
    : ∃ k < coll.entries, i = k * coll.cls.stride ∧ coll.slot i ≠ .deleted
      ∧ findKey heap cells key = some (base + k)
      ∧ cells[base + k]? = some (some (coll.entryAt i)) := by
  obtain ⟨entry, same⟩ := (findInArrayPart_eq_some fit fits).mp found
  obtain ⟨k, few, rfl⟩ := (isEntry_iff fits).mp entry
  have live : coll.slot (k * coll.cls.stride) ≠ .deleted := by
    intro deleted
    obtain ⟨m, means, -⟩ := (sameValueZero_iff fit).mp same
    rw [deleted] at means
    cases means
  refine ⟨k, few, rfl, live, ?_, ?_⟩
  · rw [findKey_eq fit fits filled, found, Option.map_some,
      Nat.mul_div_cancel _ (stride_positive coll.cls)]
  · rw [filled.cell k few, cellAt, if_neg live]

theorem findKey_of_absent (fit : KeysFit heap) (fits : EntriesFit heap coll)
    (filled : Cells coll cells base) (absent : findInArrayPart heap coll key = none)
    : findKey heap cells key = none := by
  rw [findKey_eq fit fits filled, absent]
  rfl

/-- Nothing but the index changes. -/
theorem LookedUp.callFits (lookedUp : LookedUp heap coll next)
    (filled : Cells coll data.list.cells base) (walks : WalksFit data.list)
    : CallFits next coll.cls data data base base :=
  ⟨filled.same lookedUp.same, lookedUp.same.cls, walks, rfl, rfl, Nat.le_refl _⟩

/-- A new key with its value is a new cell. -/
theorem Appended.callFits {looked : Coll} (sound : CollSound heap coll)
    (lookedUp : LookedUp heap coll looked) (filled : Cells coll data.list.cells base)
    (walks : WalksFit data.list) (appended : Appended looked next key) (script : key ≠ .deleted)
    (paired : next.entryAt looked.arrayUsed = (key, value))
    : CallFits next coll.cls data { data with list := data.list.append (key, value) } base base where
  cells := (filled.same lookedUp.same).append (lookedUp.sound sound.fits).fits appended script paired
  cls := appended.cls.trans lookedUp.same.cls
  walks := walks.append _
  cursors := rfl
  log := rfl
  behind := Nat.le_refl _

/-- The key and the value are where the entry is read. -/
theorem appendEntry_callFits {looked : Coll} (sound : CollSound heap coll)
    (lookedUp : LookedUp heap coll looked) (filled : Cells coll data.list.cells base)
    (walks : WalksFit data.list) (pair : coll.cls.stride = 2) (script : key ≠ .deleted)
    (room : HasRoom coll memory)
    : CallFits (looked.appendEntry key value memory) coll.cls data
      { data with list := data.list.append (key, value) } base base := by
  obtain ⟨first, second, bounded⟩ := room
  have fits := (lookedUp.sound sound.fits).fits
  have pair' : looked.cls.stride = 2 := by rw [lookedUp.same.cls, pair]
  rw [pair] at bounded
  have bounded' : looked.arrayUsed + 2 < 2 ^ 31 := by rwa [lookedUp.same.used]
  obtain ⟨cls, -, -, -, slots⟩ : _ ∧ _ ∧ _ ∧ _
      ∧ ∀ j, (looked.appendEntry key value memory).slot j = _ :=
    appendEntry_spec fits first second bounded'
  have paired : (looked.appendEntry key value memory).entryAt looked.arrayUsed = (key, value) := by
    rw [Coll.entryAt, cls, if_pos pair', slots, slots, if_neg (by omega), if_pos rfl, if_pos rfl]
  have appended : Appended looked (looked.appendEntry key value memory) key :=
    appendEntry_appended fits pair' first second bounded'
  exact appended.callFits sound lookedUp filled walks script paired

/-- `set` on a map, also at the end of `getOrInsertComputed`. -/
theorem collSetEntry_callFits (fit : KeysFit heap) (sound : CollSound heap coll)
    (filled : Cells coll data.list.cells base) (walks : WalksFit data.list)
    (strong : coll.cls.isWeak = false) (pair : coll.cls.stride = 2) {key value : ScriptVal}
    (room : HasRoom coll memory) (taken : collSetEntry heap coll key value memory = some next)
    : CallFits next coll.cls data
      (data.set heap (canonicalizeKeyedCollectionKey key).val value.val) base base := by
  obtain ⟨next', taken', outcome⟩ := collSetEntry_spec fit sound key value memory
  obtain rfl := Option.some.inj (taken.symm.trans taken')
  cases outcome with
  | refused weak _ => exact absurd (strong.symm.trans weak) Bool.noConfusion
  | @hit looked i lookedUp found result =>
      obtain ⟨k, few, rfl, live, finds, at_k⟩ := findKey_of_found fit sound.fits filled found
      have fits := (lookedUp.sound sound.fits).fits
      have filled' := filled.same lookedUp.same
      have entries : looked.entries = coll.entries := by
        rw [Coll.entries, Coll.entries, lookedUp.same.cls, lookedUp.same.used]
      rw [← lookedUp.same.cls] at pair live result
      rw [← lookedUp.same.slot] at live
      rw [MapData.set, finds, result]
      simp only [at_k, Option.join_some, Option.map_some]
      refine ⟨?_, lookedUp.same.cls, walks.replace at_k _, rfl, rfl, Nat.le_refl _⟩
      have overwritten := filled'.overwrite value.val fits pair (entries ▸ few) live
      rw [lookedUp.same.slot] at overwritten
      rw [lookedUp.same.cls] at overwritten ⊢
      exact overwritten
  | miss lookedUp absent result =>
      rw [MapData.set, findKey_of_absent fit sound.fits filled absent, result]
      exact appendEntry_callFits sound lookedUp filled walks pair
        (canonicalizeKeyedCollectionKey key).property room

theorem collGetOrInsert_callFits (fit : KeysFit heap) (sound : CollSound heap coll)
    (filled : Cells coll data.list.cells base) (walks : WalksFit data.list)
    (strong : coll.cls.isWeak = false) (pair : coll.cls.stride = 2) {key value : ScriptVal}
    (room : HasRoom coll memory) (taken : collGetOrInsert heap coll key value memory = some next)
    : CallFits next coll.cls data
      (data.insert heap (canonicalizeKeyedCollectionKey key).val value.val) base base := by
  obtain ⟨next', taken', outcome⟩ := collGetOrInsert_spec fit sound key value memory
  obtain rfl := Option.some.inj (taken.symm.trans taken')
  cases outcome with
  | refused weak _ => exact absurd (strong.symm.trans weak) Bool.noConfusion
  | hit lookedUp found result =>
      obtain ⟨k, -, -, -, finds, -⟩ := findKey_of_found fit sound.fits filled found
      rw [MapData.insert, finds, result]
      exact lookedUp.callFits filled walks
  | miss lookedUp absent result =>
      rw [MapData.insert, findKey_of_absent fit sound.fits filled absent, result]
      exact appendEntry_callFits sound lookedUp filled walks pair
        (canonicalizeKeyedCollectionKey key).property room

theorem collAddValue_callFits (fit : KeysFit heap) (sound : CollSound heap coll)
    (filled : Cells coll data.list.cells base) (walks : WalksFit data.list)
    (strong : coll.cls.isWeak = false) (alone : coll.cls.stride = 1) {value : ScriptVal}
    (room : HasRoom coll memory) (taken : collAddValue heap coll value memory = some next)
    : CallFits next coll.cls data
      (data.insert heap (canonicalizeKeyedCollectionKey value).val
        (canonicalizeKeyedCollectionKey value).val) base base := by
  obtain ⟨next', taken', outcome, -⟩ := collAddValue_spec fit sound value memory
  obtain rfl := Option.some.inj (taken.symm.trans taken')
  cases outcome with
  | refused weak _ => exact absurd (strong.symm.trans weak) Bool.noConfusion
  | hit lookedUp found result =>
      obtain ⟨k, -, -, -, finds, -⟩ := findKey_of_found fit sound.fits filled found
      rw [MapData.insert, finds, result]
      exact lookedUp.callFits filled walks
  | @miss looked lookedUp absent result =>
      obtain ⟨first, -, bounded⟩ := room
      rw [MapData.insert, findKey_of_absent fit sound.fits filled absent, result, appendValue, first]
      have alone' : looked.cls.stride = 1 := by rw [lookedUp.same.cls, alone]
      rw [alone] at bounded
      have bounded' : looked.arrayUsed + 1 < 2 ^ 31 := by rwa [lookedUp.same.used]
      have holds : looked.cls.isWeak = true →
          (canonicalizeKeyedCollectionKey value).val ≠ .undefined := by
        rw [lookedUp.same.cls, strong]
        exact fun weak => absurd weak Bool.false_ne_true
      have appended := addValue_appended (canonicalizeKeyedCollectionKey value).val
        (lookedUp.sound sound.fits).fits alone' bounded' holds
      refine appended.callFits sound lookedUp filled walks
        (canonicalizeKeyedCollectionKey value).property ?_
      rw [Coll.entryAt, appended.cls, alone', appended.last]
      rfl

theorem collDelete_callFits (fit : KeysFit heap) (sound : CollSound heap coll)
    (filled : Cells coll data.list.cells base) (walks : WalksFit data.list)
    (strong : coll.cls.isWeak = false) {key : ScriptVal}
    (taken : collDelete heap coll key memory = some next)
    : CallFits next coll.cls data (data.delete heap key.val) base base := by
  obtain ⟨next', taken', outcome⟩ := collDelete_spec fit sound key memory
  obtain rfl := Option.some.inj (taken.symm.trans taken')
  cases outcome with
  | refused weak _ => exact absurd (strong.symm.trans weak) Bool.noConfusion
  | @hit looked i lookedUp found result =>
      obtain ⟨k, few, rfl, -, finds, at_k⟩ := findKey_of_found fit sound.fits filled found
      have entries : looked.entries = coll.entries := by
        rw [Coll.entries, Coll.entries, lookedUp.same.cls, lookedUp.same.used]
      rw [lookedUp.same.cls, strong, if_neg Bool.false_ne_true, ← lookedUp.same.cls] at result
      rw [MapData.delete, finds, result]
      refine ⟨?_, lookedUp.same.cls, walks.replace at_k none, rfl, rfl, Nat.le_refl _⟩
      exact (filled.same lookedUp.same).bury (lookedUp.sound sound.fits).fits (entries ▸ few)
  | miss lookedUp absent result =>
      rw [MapData.delete, findKey_of_absent fit sound.fits filled absent, result]
      exact lookedUp.callFits filled walks

/-- A call does to the collection what it does to the data. -/
theorem call_callFits (fit : KeysFit heap) (sound : CollSound heap coll)
    (filled : Cells coll data.list.cells base) (walks : WalksFit data.list)
    (strong : coll.cls.isWeak = false) {op : CollOp} (orderly : Orderly coll (op, memory))
    (taken : coll.step heap (op, memory) = some next)
    : ∃ base', CallFits next coll.cls data (data.call heap coll.cls op) base base'
      ∧ (base' = base ∨ ∃ collected, op = .clear ∧ base' = base + collected) := by
  have lookup : ∀ {key}, (collFind heap coll key memory.index).map Prod.fst = some next →
      CallFits next coll.cls data data base base := by
    intro key taken
    obtain ⟨looked, finds, lookedUp⟩ := sound.collFind fit key memory.index
    rw [finds] at taken
    obtain rfl := Option.some.inj taken
    exact lookedUp.callFits filled walks
  have unchanged : CallFits coll coll.cls data data base base :=
    ⟨filled, rfl, walks, rfl, rfl, Nat.le_refl _⟩
  simp only [Coll.step] at taken
  simp only [MapData.call]
  split at taken
  · rename_i misfit
    obtain rfl := Option.some.inj taken
    rw [if_pos misfit]
    exact ⟨base, unchanged, .inl rfl⟩
  · rename_i fits
    rw [if_neg fits]
    have fits : op.fits coll.cls = true := by simpa using fits
    cases op with
    | set key value =>
        exact ⟨base, collSetEntry_callFits fit sound filled walks strong
          (by simpa [CollOp.fits] using fits) orderly taken, .inl rfl⟩
    | getOrInsert key value =>
        exact ⟨base, collGetOrInsert_callFits fit sound filled walks strong
          (by simpa [CollOp.fits] using fits) orderly taken, .inl rfl⟩
    | getOrInsertComputed key =>
        simp only [strong, Bool.false_eq_true, false_and, if_false] at taken
        exact ⟨base, lookup taken, .inl rfl⟩
    | computed key value =>
        exact ⟨base, collSetEntry_callFits fit sound filled walks strong
          (by simpa [CollOp.fits] using fits) orderly taken, .inl rfl⟩
    | add value =>
        exact ⟨base, collAddValue_callFits fit sound filled walks strong
          (by simpa [CollOp.fits] using fits) orderly taken, .inl rfl⟩
    | delete key =>
        exact ⟨base, collDelete_callFits fit sound filled walks strong taken, .inl rfl⟩
    | clear =>
        obtain rfl := Option.some.inj taken
        exact ⟨base + coll.entries, ⟨filled.clear, rfl, walks.clear, rfl, rfl,
          Nat.le_add_right ..⟩, .inr ⟨coll.entries, rfl, rfl⟩⟩
    | lookup key => exact ⟨base, lookup taken, .inl rfl⟩

-----------------------------------------------------------------------------------------
-- Walkers
-----------------------------------------------------------------------------------------

/-- The walker is at the cursor's place, or at the first slot with only empty cells in between. -/
structure WalkerFits (stride base : Nat) (walker : Walker) (cursor : Cursor) : Prop where
  running : walker.running = !cursor.done
  place : walker.running = true → ∃ p, walker.place stride = p * stride
    ∧ (cursor.index = base + p ∨ p = 0 ∧ cursor.index ≤ base)

/-- The loop stops at the first entry that is not deleted, or behind the last one. -/
theorem skipDeleted_spec (coll : Coll) {bound fuel : Nat}
    (limit : ∀ q, q * coll.cls.stride < bound ↔ q < coll.entries)
    (enough : coll.entries < p + fuel)
    : ∃ q, coll.skipDeleted bound fuel (p * coll.cls.stride) = q * coll.cls.stride ∧ p ≤ q
      ∧ (∀ k, p ≤ k → k < q → k < coll.entries ∧ coll.slot (k * coll.cls.stride) = .deleted)
      ∧ (q < coll.entries → coll.slot (q * coll.cls.stride) ≠ .deleted) := by
  induction fuel generalizing p with
  | zero =>
      exact ⟨p, rfl, Nat.le_refl p, fun k _ _ => by omega, fun few => by omega⟩
  | succ fuel ih =>
      simp only [Coll.skipDeleted, limit]
      split
      · rename_i gone
        obtain ⟨q, ends, above, skipped, stops⟩ := ih (p := p + 1) (by omega)
        rw [Nat.succ_mul] at ends
        refine ⟨q, ends, by omega, fun k behind before => ?_, stops⟩
        rcases Nat.eq_or_lt_of_le behind with rfl | later
        · exact gone
        · exact skipped k later before
      · rename_i stays
        exact ⟨p, rfl, Nat.le_refl p, fun k _ _ => by omega, fun few deleted => stays ⟨few, deleted⟩⟩

/-- The next place with an entry is where the loop stops. -/
theorem nextLive_eq {cursor : Cursor} {q : Nat} (filled : Cells coll cells base)
    (place : cursor.index = base + p ∨ p = 0 ∧ cursor.index ≤ base) (above : p ≤ q)
    (skipped : ∀ k, p ≤ k → k < q → k < coll.entries ∧ coll.slot (k * coll.cls.stride) = .deleted)
    (stops : q < coll.entries → coll.slot (q * coll.cls.stride) ≠ .deleted)
    : nextLive cells cursor.index = if q < coll.entries then some (base + q) else none := by
  have empty : ∀ j, cursor.index ≤ j → j < base + q → ∀ a, cells[j]? ≠ some (some a) := by
    intro j after before a at_j
    rcases Nat.lt_or_ge j base with gone | behind
    · rw [filled.gone j gone] at at_j
      cases at_j
    · obtain ⟨few, deleted⟩ := skipped (j - base) (by omega) (by omega)
      have cell := filled.cell (j - base) few
      rw [Nat.add_sub_cancel' behind, at_j, cellAt, if_pos deleted] at cell
      cases cell
  split
  · rename_i few
    refine nextLive_eq_some.mpr ⟨by omega, ⟨coll.entryAt (q * coll.cls.stride), ?_⟩, empty⟩
    rw [filled.cell q few, cellAt, if_neg (stops few)]
  · rename_i many
    refine nextLive_eq_none.mpr fun j after a at_j => ?_
    have within : j < cells.length := (List.getElem?_eq_some_iff.mp at_j).1
    rw [filled.length] at within
    exact empty j after (by omega) a at_j

/-- What a step of a walker comes to, by the number of the entry. -/
structure WalkerStep (coll : Coll) (base : Nat) (cursor : Cursor)
    (next : Walker × Option Nat) (cells : List (Option (TVal × TVal))) : Prop where
  fits : WalkerFits coll.cls.stride base next.1 (advanceCursor cells cursor).1
  entry : next.2.map coll.entryAt
    = (advanceCursor cells cursor).2.bind fun i => cells[i]?.join

/-- A step of a walker is one of the cursor: both stop at the same entry. -/
theorem walkerStep_of_skip {cursor : Cursor} {next : Walker × Option Nat} {bound fuel : Nat}
    (filled : Cells coll cells base) (running : cursor.done = false)
    (place : cursor.index = base + p ∨ p = 0 ∧ cursor.index ≤ base)
    (limit : ∀ q, q * coll.cls.stride < bound ↔ q < coll.entries)
    (enough : coll.entries < p + fuel)
    (stops : ∀ q, coll.skipDeleted bound fuel (p * coll.cls.stride) = q * coll.cls.stride →
      (q < coll.entries → next.2 = some (q * coll.cls.stride) ∧ next.1.running = true
        ∧ next.1.place coll.cls.stride = (q + 1) * coll.cls.stride)
      ∧ (coll.entries ≤ q → next.2 = none ∧ next.1.running = false))
    : WalkerStep coll base cursor next cells := by
  obtain ⟨q, ends, above, skipped, live⟩ := skipDeleted_spec coll limit enough
  have goesOn := nextLive_eq filled place above skipped live
  rcases Nat.lt_or_ge q coll.entries with few | many
  · obtain ⟨found, runs, goes⟩ := (stops q ends).1 few
    rw [if_pos few] at goesOn
    refine ⟨?_, ?_⟩
    · simp only [advanceCursor, running, goesOn, Bool.false_eq_true, if_false]
      exact ⟨runs, fun _ => ⟨q + 1, goes, .inl rfl⟩⟩
    · simp only [advanceCursor, running, goesOn, Bool.false_eq_true, if_false, found,
        Option.map_some, Option.bind_some, filled.cell q few, cellAt, if_neg (live few)]
      rfl
  · obtain ⟨found, ended⟩ := (stops q ends).2 many
    rw [if_neg (Nat.not_lt.mpr many)] at goesOn
    refine ⟨?_, ?_⟩
    · simp only [advanceCursor, running, goesOn, Bool.false_eq_true, if_false]
      exact ⟨ended, fun runs => absurd (runs.symm.trans ended) Bool.noConfusion⟩
    · simp only [advanceCursor, running, goesOn, Bool.false_eq_true, if_false, found,
        Option.map_none, Option.bind_none]

/-- A walker that has ended stays so, like a cursor that is done. -/
theorem walkerStep_of_done {cursor : Cursor} {walker : Walker} (done : cursor.done = true)
    (ended : walker.running = false)
    : WalkerStep coll base cursor (walker, none) cells := by
  have stays : advanceCursor cells cursor = (cursor, none) := if_pos done
  refine ⟨?_, by rw [stays]; rfl⟩
  rw [stays]
  exact ⟨by rw [ended, done]; rfl, fun runs => absurd (runs.symm.trans ended) Bool.noConfusion⟩

theorem iteratorNext_step {cursor : Cursor} {target : Bool} {index : Nat}
    (fits : EntriesFit heap coll) (filled : Cells coll cells base)
    (fit : WalkerFits coll.cls.stride base (.iterator target index) cursor)
    : WalkerStep coll base cursor (coll.iteratorNext target index) cells := by
  have positive := stride_positive coll.cls
  have total := entries_mul fits
  cases target with
  | false =>
      have done : cursor.done = true := by simpa [Walker.running] using fit.running
      exact walkerStep_of_done done rfl
  | true =>
      have running : cursor.done = false := by simpa [Walker.running] using fit.running
      obtain ⟨p, at_p, place⟩ := fit.place rfl
      obtain rfl : index = p := Nat.eq_of_mul_eq_mul_right positive at_p
      have limit : ∀ q, q * coll.cls.stride < coll.arrayUsed ↔ q < coll.entries := by
        intro q
        rw [← total]
        exact Nat.mul_lt_mul_right positive
      have short : coll.entries ≤ coll.arrayUsed := Nat.div_le_self ..
      have enough : coll.entries < index + (coll.arrayUsed + 1) := by omega
      refine walkerStep_of_skip filled running place limit enough fun q ends => ⟨?_, ?_⟩
      · intro few
        have within := (limit q).mpr few
        have nonempty : coll.arrayPart ≠ [] := by
          intro empty
          have inside := fits.inside
          rw [empty] at inside
          exact absurd (Nat.lt_of_lt_of_le within inside) (Nat.not_lt_zero _)
        rw [Coll.iteratorNext, if_neg (by simp), ends, if_pos ⟨within, nonempty⟩]
        refine ⟨rfl, rfl, ?_⟩
        rw [Walker.place, Nat.mul_div_cancel _ positive]
      · intro many
        have beyond := mt (limit q).mp (Nat.not_lt.mpr many)
        rw [Coll.iteratorNext, if_neg (by simp), ends, if_neg (fun both => beyond both.1)]
        exact ⟨rfl, rfl⟩

theorem forEachNext_step {cursor : Cursor} {runs : Bool} {i : Nat}
    (fits : EntriesFit heap coll) (filled : Cells coll cells base)
    (fit : WalkerFits coll.cls.stride base (.forEach runs i) cursor)
    : WalkerStep coll base cursor (coll.forEachNext runs i) cells := by
  have positive := stride_positive coll.cls
  have total := entries_mul fits
  cases runs with
  | false =>
      have done : cursor.done = true := by simpa [Walker.running] using fit.running
      exact walkerStep_of_done done rfl
  | true =>
      have running : cursor.done = false := by simpa [Walker.running] using fit.running
      obtain ⟨p, at_p, place⟩ := fit.place rfl
      obtain rfl : i = p * coll.cls.stride := at_p
      -- The slot of an entry's value is there exactly if that of its key is.
      have limit : ∀ q, q * coll.cls.stride < coll.arrayUsed - (coll.cls.stride - 1)
          ↔ q < coll.entries := by
        intro q
        rw [← total]
        constructor
        · intro within
          by_contra many
          have beyond := Nat.mul_le_mul_right coll.cls.stride (Nat.le_of_not_lt many)
          omega
        · intro few
          have next := Nat.mul_le_mul_right coll.cls.stride few
          rw [Nat.succ_mul] at next
          omega
      have short : coll.entries ≤ coll.arrayUsed - (coll.cls.stride - 1) := by
        by_contra long
        have last := (limit (coll.entries - 1)).mpr (by omega)
        have below := Nat.le_mul_of_pos_right (coll.entries - 1) positive
        omega
      have enough : coll.entries < p + (coll.arrayUsed - (coll.cls.stride - 1) + 1) := by omega
      refine walkerStep_of_skip filled running place limit enough fun q ends => ⟨?_, ?_⟩
      · intro few
        rw [Coll.forEachNext, if_neg (by simp)]
        simp only [ends]
        rw [if_pos ((limit q).mpr few)]
        exact ⟨rfl, rfl, (Nat.succ_mul ..).symm⟩
      · intro many
        rw [Coll.forEachNext, if_neg (by simp)]
        simp only [ends]
        rw [if_neg (mt (limit q).mp (Nat.not_lt.mpr many))]
        exact ⟨rfl, rfl⟩

-----------------------------------------------------------------------------------------
-- Steps
-----------------------------------------------------------------------------------------

/-- The step does not clear the collection while a walk over it is part-way through. -/
def Undisturbed (state : Walked) : WalkEvent → Prop
  | .call .clear memory => Orderly state.coll (.clear, memory)
      ∧ ∀ walker ∈ state.walkers, walker.running = true →
        walker.place state.coll.cls.stride = 0
  | .call op memory => Orderly state.coll (op, memory)
  | .createIterator | .forEach | .iteratorNext _ | .forEachNext _ => True

instance {state : Walked} : ∀ event, Decidable (Undisturbed state event)
  | .call .clear _ => inferInstanceAs (Decidable (_ ∧ _))
  | .call (.set key value) memory =>
      inferInstanceAs (Decidable (Orderly state.coll (.set key value, memory)))
  | .call (.getOrInsert key value) memory =>
      inferInstanceAs (Decidable (Orderly state.coll (.getOrInsert key value, memory)))
  | .call (.getOrInsertComputed key) memory =>
      inferInstanceAs (Decidable (Orderly state.coll (.getOrInsertComputed key, memory)))
  | .call (.computed key value) memory =>
      inferInstanceAs (Decidable (Orderly state.coll (.computed key value, memory)))
  | .call (.add value) memory =>
      inferInstanceAs (Decidable (Orderly state.coll (.add value, memory)))
  | .call (.delete key) memory =>
      inferInstanceAs (Decidable (Orderly state.coll (.delete key, memory)))
  | .call (.lookup key) memory =>
      inferInstanceAs (Decidable (Orderly state.coll (.lookup key, memory)))
  | .createIterator | .forEach | .iteratorNext _ | .forEachNext _ => isTrue trivial

theorem Undisturbed.orderly {state : Walked} {op : CollOp}
    (undisturbed : Undisturbed state (.call op memory))
    : Orderly state.coll (op, memory) := by
  cases op with
  | clear => exact undisturbed.1
  | _ => exact undisturbed

/-- The collection holds what the data hold, and its walkers are at the cursors' places. -/
structure WalkedFits (heap : HeapData) (cls : CollClass) (state : Walked) (data : MapData)
    : Prop where
  sound : CollSound heap state.coll
  ofClass : state.coll.cls = cls
  walks : WalksFit data.list
  cells : ∃ base, Cells state.coll data.list.cells base
    ∧ List.Forall₂ (WalkerFits cls.stride base) state.walkers data.list.cursors
  log : state.log = data.log

theorem WalkedFits.new (cls : CollClass) : WalkedFits heap cls (.new cls) .new := by
  refine ⟨.new cls, rfl, .empty, ⟨0, ⟨?_, fun s before => absurd before (Nat.not_lt_zero s),
    fun k few => ?_⟩, .nil⟩, rfl⟩
  · simp [MapData.new, EntryList.empty, Coll.entries, Walked.new, Coll.new]
  · exact absurd few (by simp [Coll.entries, Walked.new, Coll.new])

/-- A walker and its cursor go on. -/
theorem WalkedFits.goOn {state : Walked} {w : Nat} {walker : Walker} {next : Walker × Option Nat}
    (fits : WalkedFits heap cls state data) (at_w : state.walkers[w]? = some walker)
    (step : ∀ base cursor, Cells state.coll data.list.cells base →
      WalkerFits cls.stride base walker cursor →
      WalkerStep state.coll base cursor next data.list.cells)
    : ∃ data', data.goOn w = some data' ∧ WalkedFits heap cls (state.goOn w next) data' := by
  obtain ⟨base, filled, walkers⟩ := fits.cells
  have within : w < data.list.cursors.length := by
    rw [← walkers.length_eq]
    exact (List.getElem?_eq_some_iff.mp at_w).1
  obtain ⟨cursor, at_c⟩ : ∃ cursor, data.list.cursors[w]? = some cursor :=
    ⟨_, List.getElem?_eq_getElem within⟩
  have fit : WalkerFits cls.stride base walker cursor := by
    have paired := List.forall₂_iff_get.mp walkers
    have left := (List.getElem?_eq_some_iff.mp at_w).2
    have right := (List.getElem?_eq_some_iff.mp at_c).2
    rw [← left, ← right]
    exact paired.2 w _ within
  obtain ⟨walkerFits, entry⟩ := step base cursor filled fit
  rw [fits.ofClass] at walkerFits
  have advances := advance_eq at_c
  have goes : data.goOn w = some
      ⟨⟨data.list.cells, data.list.cursors.set w (advanceCursor data.list.cells cursor).1⟩,
        data.log ++ [(w, (advanceCursor data.list.cells cursor).2.bind fun i =>
          data.list.cells[i]?.join)]⟩ := by
    rw [MapData.goOn, advances]
    rfl
  refine ⟨_, goes, fits.sound, fits.ofClass, fits.walks.advance advances, ⟨base, filled, ?_⟩, ?_⟩
  · have length := walkers.length_eq
    refine List.forall₂_iff_get.mpr ⟨by simpa [Walked.goOn] using length, fun v left right => ?_⟩
    simp only [Walked.goOn, List.get_eq_getElem, List.getElem_set]
    split
    · exact walkerFits
    · simp only [Walked.goOn, List.length_set] at left right
      exact walkers.get left right
  · rw [Walked.goOn, fits.log, entry]

/-- A new walker at the first slot. -/
theorem WalkedFits.start {state : Walked} {walker : Walker} (fits : WalkedFits heap cls state data)
    (running : walker.running = true) (place : walker.place cls.stride = 0)
    : WalkedFits heap cls { state with walkers := state.walkers ++ [walker] }
      { data with list := data.list.openCursor } := by
  obtain ⟨base, filled, walkers⟩ := fits.cells
  refine ⟨fits.sound, fits.ofClass, fits.walks.openCursor, ⟨base, filled, ?_⟩, fits.log⟩
  refine List.rel_append walkers (.cons ⟨running, fun _ => ⟨0, ?_, .inr ⟨rfl, Nat.zero_le _⟩⟩⟩ .nil)
  rw [place, Nat.zero_mul]

/-- Every step is one of the data. -/
theorem WalkedFits.step {state next : Walked} {event : WalkEvent} (fit : KeysFit heap)
    (strong : cls.isWeak = false) (fits : WalkedFits heap cls state data)
    (undisturbed : Undisturbed state event) (taken : state.step heap event = some next)
    : ∃ data', data.step heap cls event = some data' ∧ WalkedFits heap cls next data' := by
  cases event with
  | call op memory =>
      obtain ⟨coll, called, rfl⟩ := Option.map_eq_some_iff.mp taken
      obtain ⟨base, filled, walkers⟩ := fits.cells
      obtain rfl := fits.ofClass
      obtain ⟨base', done, behind⟩ := call_callFits fit fits.sound filled fits.walks strong
        undisturbed.orderly called
      obtain ⟨after, called', sound⟩ := fits.sound.step fit (op, memory)
      obtain rfl := Option.some.inj (called.symm.trans called')
      refine ⟨_, rfl, sound undisturbed.orderly, done.cls, done.walks, ⟨base', done.cells, ?_⟩,
        fits.log.trans done.log.symm⟩
      rw [done.cursors]
      rcases behind with rfl | ⟨collected, rfl, rfl⟩
      · exact walkers
      · obtain ⟨-, unstarted⟩ := undisturbed
        refine List.forall₂_iff_get.mpr ⟨walkers.length_eq, fun w left right => ?_⟩
        have before := (List.forall₂_iff_get.mp walkers).2 w left right
        refine ⟨before.running, fun runs => ⟨0, ?_, .inr ⟨rfl, ?_⟩⟩⟩
        · rw [unstarted _ (List.get_mem ..) runs, Nat.zero_mul]
        · obtain ⟨p, at_p, place⟩ := before.place runs
          rw [unstarted _ (List.get_mem ..) runs] at at_p
          have first : p = 0 := by
            rcases Nat.mul_eq_zero.mp at_p.symm with first | none
            · exact first
            · exact absurd none (Nat.ne_of_gt (stride_positive _))
          omega
  | createIterator =>
      obtain rfl := Option.some.inj taken
      exact ⟨_, rfl, fits.start rfl (Nat.zero_mul _)⟩
  | forEach =>
      obtain rfl := Option.some.inj taken
      exact ⟨_, rfl, fits.start rfl rfl⟩
  | iteratorNext w =>
      simp only [Walked.step] at taken
      split at taken
      · rename_i target index at_w
        obtain rfl := Option.some.inj taken
        refine fits.goOn at_w fun base cursor filled fit => ?_
        rw [← fits.ofClass] at fit
        exact iteratorNext_step fits.sound.fits filled fit
      · cases taken
  | forEachNext w =>
      simp only [Walked.step] at taken
      split at taken
      · rename_i running i at_w
        obtain rfl := Option.some.inj taken
        refine fits.goOn at_w fun base cursor filled fit => ?_
        rw [← fits.ofClass] at fit
        exact forEachNext_step fits.sound.fits filled fit
      · cases taken

-----------------------------------------------------------------------------------------
-- Runs
-----------------------------------------------------------------------------------------

/-- The walks over the collection came to what those over the data came to, which are in order
and complete, and the live entries are the same.
-/
structure Iterated (state : Walked) (data : MapData) : Prop where
  log : state.log = data.log
  walks : WalksFit data.list
  entries : ∃ base, Cells state.coll data.list.cells base

/-- In a run in which a map or a set is not cleared part-way through a walk, its walks are those of
the language. Witness: each step is one of the list of entries, whose cells before the last `clear`
are all empty.
-/
theorem liveIteration_run {strings : StringHeap} {stringEvents : List StringEvent}
    (reached : replay StringHeap.step StringHeap.new stringEvents = some strings)
    (hashed : ∀ s str, strings.strings s = some str → str.isSymbol = true → str.hash ≠ hashDeferred)
    (bigints : Addr → BitVec 128) (registered : Addr → Bool) (strong : cls.isWeak = false)
    {state : Walked} {events : List WalkEvent}
    (undisturbed : Along (Walked.step (.of strings bigints registered)) Undisturbed (.new cls)
      events)
    (run : replay (Walked.step (.of strings bigints registered)) (.new cls) events = some state)
    : ∃ data, replay (MapData.step (.of strings bigints registered) cls) .new events = some data
      ∧ Iterated state data := by
  have fit := keysFit_of_replay reached hashed bigints registered
  have simulated : ∀ {s t e s'}, WalkedFits (.of strings bigints registered) cls s t →
      Undisturbed s e → s.step (.of strings bigints registered) e = some s' →
      ∃ t', t.step (.of strings bigints registered) cls e = some t'
        ∧ WalkedFits (.of strings bigints registered) cls s' t' :=
    fun fits undisturbed taken => fits.step fit strong undisturbed taken
  obtain ⟨data, run', fits⟩ := undisturbed.simulates simulated (WalkedFits.new cls) run
  obtain ⟨base, filled, -⟩ := fits.cells
  exact ⟨data, run', fits.log, fits.walks, base, filled⟩

/-- A set of three objects loses two of them and gets another while an iterator is at the first, and a
second one while a `forEach` call is under way. When both walks are over it is cleared and refilled.
-/
def changeDuringWalk : List WalkEvent :=
  [.call (.add (objectKey 16)) plenty, .call (.add (objectKey 32)) plenty,
    .call (.add (objectKey 48)) plenty, .createIterator, .iteratorNext 0,
    .call (.delete (objectKey 16)) plenty, .call (.delete (objectKey 32)) plenty,
    .call (.add (objectKey 64)) plenty, .iteratorNext 0, .forEach, .forEachNext 1,
    .call (.add (objectKey 80)) plenty, .iteratorNext 0, .iteratorNext 0, .iteratorNext 0,
    .forEachNext 1, .forEachNext 1, .forEachNext 1, .call .clear plenty,
    .call (.add (objectKey 96)) plenty, .createIterator, .iteratorNext 2]

/-- Each walk comes to the entries that are left and to those that are new, in order. -/
theorem liveIteration_run_changed
    : ∃ state data, replay (Walked.step (.of .new (fun _ => 0) (fun _ => false))) (.new .set)
          changeDuringWalk = some state
        ∧ replay (MapData.step (.of .new (fun _ => 0) (fun _ => false)) .set) .new changeDuringWalk
          = some data
        ∧ state.log.map (fun visit => (visit.1, visit.2.map Prod.fst))
          = [(0, some (.object 16)), (0, some (.object 48)), (1, some (.object 48)),
            (0, some (.object 64)), (0, some (.object 80)), (0, none), (1, some (.object 64)),
            (1, some (.object 80)), (1, none), (2, some (.object 96))]
        ∧ Iterated state data := by
  have started : replay StringHeap.step StringHeap.new [] = some StringHeap.new := rfl
  have undisturbed : Along (Walked.step (.of .new (fun _ => 0) (fun _ => false))) Undisturbed
      (.new .set) changeDuringWalk := by decide +kernel
  have visits : (replay (Walked.step (.of .new (fun _ => 0) (fun _ => false))) (.new .set)
      changeDuringWalk).map (fun state => state.log.map
        fun visit => (visit.1, visit.2.map Prod.fst))
      = some [(0, some (.object 16)), (0, some (.object 48)), (1, some (.object 48)),
        (0, some (.object 64)), (0, some (.object 80)), (0, none), (1, some (.object 64)),
        (1, some (.object 80)), (1, none), (2, some (.object 96))] := by decide +kernel
  obtain ⟨state, run, log⟩ := Option.map_eq_some_iff.mp visits
  obtain ⟨data, run', iterated⟩ := liveIteration_run started (fun _ _ here => by cases here)
    (fun _ => 0) (fun _ => false) rfl undisturbed run
  exact ⟨state, data, run, run', log, iterated⟩

/-- The set loses its entry when the iterator has been at it, and gets another. -/
def refillDuringWalk : List WalkEvent :=
  [.call (.add (objectKey 16)) plenty, .createIterator, .iteratorNext 0, .call .clear plenty,
    .call (.add (objectKey 32)) plenty, .iteratorNext 0]

/-- The iterator ends without a visit to the entry that was added. -/
theorem refillDuringWalk_skipped
    : ∃ state data, replay (Walked.step (.of .new (fun _ => 0) (fun _ => false))) (.new .set)
          refillDuringWalk = some state
        ∧ replay (MapData.step (.of .new (fun _ => 0) (fun _ => false)) .set) .new refillDuringWalk
          = some data
        ∧ state.log = [(0, some (.object 16, .object 16)), (0, none)]
        ∧ data.log = [(0, some (.object 16, .object 16)), (0, some (.object 32, .object 32))] :=
  ⟨_, _, rfl, rfl, rfl, rfl⟩

end Boomkat.Correctness
