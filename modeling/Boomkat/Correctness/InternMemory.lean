import Boomkat.Correctness.InternTableRun
import Boomkat.Foundation.ProbeEnds

/-! What the memory that an operation gets means for its strings: only where the registry has none is
a string refused, and a short string that is interned comes into the table.
-/

namespace Boomkat.Correctness

open Foundation Strings

variable {heap heap' : StringHeap} {s : Addr} {str : HString} {data : List UInt8} {hash : UInt32}
  {cap : Nat} {answers : Answers} {registry : Bool} {Inv : StringHeap → Prop}

-----------------------------------------------------------------------------------------
-- What the operations do to table and registry
-----------------------------------------------------------------------------------------

/-- The steps that the operations consist of preserve what is said of the table, of its count and of
the strings that were refused. `registry` tells whether the registry has memory.
-/
structure Stable (registry : Bool) (Inv : StringHeap → Prop) : Prop where
  frame : ∀ {heap heap'}, Inv heap → heap'.strTable = heap.strTable →
    heap'.strTableUsed = heap.strTableUsed → (∀ t ∈ heap'.refused, t ∈ heap.refused) → Inv heap'
  register : ∀ {heap} s, Inv heap → Inv (heap.largeStringRegister s registry)
  enter : ∀ {heap use} s, heap.strTable[use]? = some .empty ∨ heap.strTable[use]? = some .tombstone →
    Inv heap →
    Inv
      {
        heap with
        strTable := heap.strTable.set use (.entry s)
        strTableUsed := heap.strTableUsed + 1
      }
  remove : ∀ {heap use s}, heap.strTable[use]? = some (.entry s) → Inv heap →
    Inv
      {
        heap with
        strTable := heap.strTable.set use .tombstone
        strTableUsed := heap.strTableUsed - 1
      }
  resize : ∀ {heap newSize allocates heap'},
    newSize = heap.strTable.length * 2 % 2 ^ 32 ∨ newSize = heap.strTable.length / 2 →
    heap.resize newSize allocates = some heap' → Inv heap → Inv heap'
  bury : ∀ {heap} dead, Inv heap → Inv (heap.freeDead dead)

/-- Nothing is said of the other fields. -/
theorem Stable.same (stable : Stable registry Inv) (holds : Inv heap)
    (table : heap'.strTable = heap.strTable) (used : heap'.strTableUsed = heap.strTableUsed)
    (refused : heap'.refused = heap.refused)
    : Inv heap' :=
  stable.frame holds table used fun _ member => refused ▸ member

theorem Stable.strTableRemove (stable : Stable registry Inv) (s : Addr) (holds : Inv heap)
    : Inv (heap.strTableRemove s) := by
  unfold StringHeap.strTableRemove
  simp only
  split
  · exact stable.same holds rfl rfl rfl
  · split
    · rename_i use found
      have removed := stable.remove (entrySlot_sound found) holds
      exact stable.same removed rfl rfl rfl
    · exact stable.same holds rfl rfl rfl

theorem Stable.decref (stable : Stable registry Inv) (s : Addr) (holds : Inv heap)
    : Inv (heap.decref s) := by
  unfold StringHeap.decref
  split
  · exact holds
  · rename_i str _
    have written : Inv (heap.write s { str with refcount := str.refcount - 1 }) :=
      stable.same holds rfl rfl rfl
    split
    · exact holds
    · simp only
      split
      · split
        · exact stable.same (stable.strTableRemove s written) rfl rfl rfl
        · exact stable.same written rfl rfl rfl
      · exact written

theorem Stable.collect (stable : Stable registry Inv) (collected : List Addr) (holds : Inv heap)
    : Inv (collected.foldl StringHeap.decref heap) := by
  induction collected generalizing heap with
  | nil => exact holds
  | cons s collected ih => exact ih (stable.decref s holds)

theorem Stable.alloc (stable : Stable registry Inv) (holds : Inv heap)
    : Inv (heap.hstringAllocCap data hash cap answers).1 := by
  have collected := stable.collect answers.collected holds
  unfold StringHeap.hstringAllocCap
  simp only
  split
  · exact holds
  · split
    · exact collected
    · split
      · exact collected
      · exact stable.frame collected rfl rfl fun t member => (List.mem_filter.mp member).1

theorem Stable.allocRegistered (stable : Stable answers.registry Inv) (holds : Inv heap)
    : Inv (heap.allocRegistered data hash cap answers).1 := by
  have allocated : Inv (heap.hstringAllocCap data hash cap answers).1 := stable.alloc holds
  unfold StringHeap.allocRegistered
  split
  · rename_i same
    rwa [same] at allocated
  · rename_i s same
    rw [same] at allocated
    exact stable.register s allocated

theorem Stable.insertOrRegister (stable : Stable answers.registry Inv) (holds : Inv heap)
    (done : heap.insertOrRegister s str answers = some heap')
    : Inv heap' := by
  rw [StringHeap.insertOrRegister, Option.map_eq_some_iff] at done
  obtain ⟨⟨inserted, answer⟩, done, rfl⟩ := done
  simp only [StringHeap.strTableInsert, Option.map_eq_some_iff] at done
  obtain ⟨grown, grew, done⟩ := done
  have holds' : Inv grown := by
    split at grew
    · exact stable.resize (.inl rfl) grew holds
    · cases grew
      exact holds
  split at done
  · rename_i use found
    cases done
    have here : Probes grown.strTable 0 (firstSlot grown.strTable.length str.hash.toNat)
        (firstSlot grown.strTable.length str.hash.toNat) := rfl
    have vacant : Vacant grown.strTable grown.strTable.length
        (firstSlot grown.strTable.length str.hash.toNat) use :=
      insertionSlot_vacant here (by omega) (by simp) found
    exact stable.same (stable.enter s vacant.1 holds') rfl rfl rfl
  · cases done
    exact stable.register s holds'

theorem Stable.strInternNormalized (stable : Stable answers.registry Inv) (holds : Inv heap)
    {result : Option Addr}
    (done : heap.strInternNormalized data answers = some (heap', result))
    : Inv heap' := by
  unfold StringHeap.strInternNormalized at done
  simp only at done
  split at done
  · have registered : Inv (heap.allocRegistered data hashDeferred data.length answers).1 :=
      stable.allocRegistered holds
    rwa [Option.some.inj done] at registered
  · split at done
    · cases done
      exact holds
    · have allocated : Inv (heap.hstringAllocCap data (hashString heap.hashSeed data) data.length
          answers).1 := stable.alloc holds
      split at done
      · rename_i same
        cases done
        rwa [same] at allocated
      · rename_i mid s same
        rw [same] at allocated
        rw [Option.bind_eq_some_iff] at done
        obtain ⟨str, _, done⟩ := done
        rw [Option.map_eq_some_iff] at done
        obtain ⟨entered, done, same⟩ := done
        cases same
        exact stable.insertOrRegister allocated done

theorem Stable.ensureInterned (stable : Stable answers.registry Inv) (holds : Inv heap)
    {result : Addr} (done : heap.ensureInterned s answers = some (heap', result))
    : Inv heap' := by
  rw [StringHeap.ensureInterned, Option.bind_eq_some_iff] at done
  obtain ⟨str, _, done⟩ := done
  split at done
  · cases done
    exact holds
  · have written : Inv (heap.write s (str.contentHash heap.hashSeed)) :=
      stable.same holds rfl rfl rfl
    simp only at done
    split at done
    · cases done
      exact written
    · rw [Option.map_eq_some_iff] at done
      obtain ⟨entered, done, same⟩ := done
      cases same
      have unlisted : Inv ((heap.write s (str.contentHash heap.hashSeed)).largeStringUnregister s) :=
        stable.same written rfl rfl rfl
      exact stable.insertOrRegister unlisted done

theorem Stable.increfString (stable : Stable registry Inv) (s : Addr) (holds : Inv heap)
    : Inv (heap.increfString s) := by
  unfold StringHeap.increfString
  split
  · exact holds
  · exact stable.same holds rfl rfl rfl

theorem Stable.concatAccumulate {tail : List UInt8} {storesBack : Bool}
    (stable : Stable answers.registry Inv) (holds : Inv heap)
    (done : heap.concatAccumulate s tail storesBack answers = some heap')
    : Inv heap' := by
  rw [StringHeap.concatAccumulate, Option.map_eq_some_iff] at done
  obtain ⟨str, _, rfl⟩ := done
  split
  · exact holds
  · split
    · exact holds
    · split
      · exact stable.same holds rfl rfl rfl
      · lift_lets
        intro need want want'
        split
        · exact holds
        · have allocated : Inv (heap.allocRegistered str.data hashDeferred want' answers).1 :=
            stable.allocRegistered holds
          split
          · rename_i same
            rwa [same] at allocated
          · rename_i mid grown same
            rw [same] at allocated
            split
            · exact stable.same allocated rfl rfl rfl
            · rename_i longer _
              have written : Inv (mid.write grown longer) := stable.same allocated rfl rfl rfl
              exact stable.decref s (stable.increfString grown written)

theorem Stable.sweepStrings {reachable : Addr → Bool} {allocates : Bool}
    (stable : Stable registry Inv) (holds : Inv heap)
    (done : heap.sweepStrings reachable allocates = some heap')
    : Inv heap' := by
  unfold StringHeap.sweepStrings at done
  simp only at done
  have swept := stable.bury (heap.isDead reachable) holds
  split at done
  · cases done
    exact holds
  · split at done
    · exact stable.resize (.inr rfl) done swept
    · cases done
      exact swept

/-- Whether the registry has memory for what the operation may append to it. -/
def registryMemory : StringEvent → Bool
  | .strIntern _ answers | .strInternNormalized _ answers | .ensureInterned _ answers
  | .createSymbolString _ _ answers | .createHiddenSymbol _ answers | .concatBirth _ answers
  | .concatAccumulate _ _ _ answers => answers.registry
  | _ => true

theorem Stable.step {event : StringEvent} (stable : Stable (registryMemory event) Inv)
    (holds : Inv heap) (taken : heap.step event = some heap')
    : Inv heap' := by
  cases event with
  | strIntern data answers =>
      rw [StringHeap.step, Option.map_eq_some_iff] at taken
      obtain ⟨⟨mid, result⟩, done, rfl⟩ := taken
      exact Stable.strInternNormalized stable holds done
  | strInternNormalized data answers =>
      rw [StringHeap.step, Option.map_eq_some_iff] at taken
      obtain ⟨⟨mid, result⟩, done, rfl⟩ := taken
      exact Stable.strInternNormalized stable holds done
  | ensureInterned s answers =>
      rw [StringHeap.step, Option.map_eq_some_iff] at taken
      obtain ⟨⟨mid, result⟩, done, rfl⟩ := taken
      exact Stable.ensureInterned stable holds done
  | createSymbolString desc hasDesc answers =>
      cases taken
      have counted : Inv { heap with symbolCounter := heap.symbolCounter + 1 } :=
        stable.same holds rfl rfl rfl
      exact Stable.allocRegistered stable counted
  | createHiddenSymbol desc answers =>
      cases taken
      have counted : Inv { heap with symbolCounter := heap.symbolCounter + 1 } :=
        stable.same holds rfl rfl rfl
      exact Stable.allocRegistered stable counted
  | concatBirth data answers =>
      cases taken
      unfold StringHeap.concatBirth
      split
      · exact holds
      · exact Stable.allocRegistered stable holds
  | concatAccumulate s tail storesBack answers => exact Stable.concatAccumulate stable holds taken
  | incref s =>
      cases taken
      exact stable.increfString s holds
  | decref s =>
      cases taken
      exact stable.decref s holds
  | setPinned s =>
      cases taken
      unfold StringHeap.setPinned
      split
      · exact holds
      · exact stable.same holds rfl rfl rfl
  | strTableGrow allocates => exact stable.resize (.inl rfl) taken holds
  | strTableShrink allocates => exact stable.resize (.inr rfl) taken holds
  | sweepStrings reachable allocates => exact stable.sweepStrings holds taken
  | sweepLargeStrings reachable =>
      cases taken
      exact stable.same holds rfl rfl rfl

-----------------------------------------------------------------------------------------
-- The registry
-----------------------------------------------------------------------------------------

theorem refused_stable (registry : Bool) (before : List Addr)
    : Stable registry fun heap => ∀ t ∈ heap.refused, t ∈ before ∨ registry = false where
  frame holds _ _ refused t member := holds t (refused t member)
  register {heap} s holds t member := by
    unfold StringHeap.largeStringRegister at member
    simp only at member
    split at member
    · rename_i full
      exact .inr (by simpa using full.2)
    · exact holds t (List.mem_filter.mp member).1
  enter _ _ holds := holds
  remove _ holds := holds
  resize _ done holds t member := by
    unfold StringHeap.resize at done
    simp only at done
    split at done
    · obtain ⟨table, _, rfl⟩ := Option.map_eq_some_iff.mp done
      exact holds t member
    · cases done
      exact holds t member
  bury _ holds := holds

/-- Only an operation that had no memory for the registry leaves a string out of it. -/
theorem refused_step {event : StringEvent} (taken : heap.step event = some heap')
    (member : s ∈ heap'.refused)
    : s ∈ heap.refused ∨ registryMemory event = false :=
  (refused_stable (registryMemory event) heap.refused).step (fun _ => .inl) taken s member

/-- Where the registry always had memory, every live string that is not interned is in it. -/
theorem registered_run {events : List StringEvent}
    (run : replay StringHeap.step StringHeap.new events = some heap)
    (memory : ∀ event ∈ events, registryMemory event = true)
    (live : heap.strings s = some str) (flag : str.isInterned = false)
    : heap.largeStrings.count s = 1 := by
  have sound : Sound heap none := Sound.replay run
  have along : Along StringHeap.step (fun _ event => registryMemory event = true)
      StringHeap.new events := Along.of_forall fun event member _ => memory event member
  have none : ∀ t, t ∉ heap.refused := by
    have kept : ∀ {h e h'}, (∀ t, t ∉ h.refused) → registryMemory e = true →
        StringHeap.step h e = some h' → ∀ t, t ∉ h'.refused := by
      intro h e h' none registers taken t member
      rcases refused_step taken member with old | lacking
      · exact none t old
      · rw [registers] at lacking
        cases lacking
    exact along.preserves kept (fun _ => List.not_mem_nil) run
  rw [sound.registered live flag nofun, if_neg (none s)]

-----------------------------------------------------------------------------------------
-- The table
-----------------------------------------------------------------------------------------

/-- The size of the table is a power of two, and its entries are counted. -/
structure Counted (heap : StringHeap) : Prop where
  power : PowerOfTwo heap.strTable.length
  used : entries heap.strTable = heap.strTableUsed

/-- Twice or half a power of two in 32 bits, or the initial size if that is more. -/
theorem powerOfTwo_resized {size newSize : Nat} (power : PowerOfTwo size)
    (resized : newSize = size * 2 % 2 ^ 32 ∨ newSize = size / 2)
    : PowerOfTwo (if newSize < initialStrTableSize then initialStrTableSize else newSize) := by
  have initial : PowerOfTwo initialStrTableSize := ⟨8, rfl⟩
  split
  · exact initial
  · rename_i large
    obtain ⟨k, rfl⟩ := power
    rcases resized with rfl | rfl
    · rw [← Nat.pow_succ] at large ⊢
      by_cases small : k + 1 < 32
      · rw [Nat.mod_eq_of_lt (Nat.pow_lt_pow_right Nat.one_lt_two small)]
        exact ⟨k + 1, rfl⟩
      · rw [Nat.mod_eq_zero_of_dvd (Nat.pow_dvd_pow 2 (Nat.le_of_not_lt small))] at large
        exact absurd (by decide) large
    · cases k with
      | zero => exact absurd (by decide) large
      | succ k => exact ⟨k, by rw [Nat.pow_succ, Nat.mul_div_cancel _ Nat.two_pos]⟩

theorem Counted.resize {newSize : Nat} {allocates : Bool} (counted : Counted heap)
    (resized : newSize = heap.strTable.length * 2 % 2 ^ 32 ∨ newSize = heap.strTable.length / 2)
    (done : heap.resize newSize allocates = some heap')
    : Counted heap' := by
  unfold StringHeap.resize at done
  simp only at done
  split at done
  · obtain ⟨table, rehashed, rfl⟩ := Option.map_eq_some_iff.mp done
    have size := rehash_length rehashed
    have count := entries_rehash rehashed
    rw [List.length_replicate] at size
    rw [entries_replicate, Nat.zero_add] at count
    exact ⟨size ▸ powerOfTwo_resized counted.power resized, count.trans counted.used⟩
  · cases done
    exact counted

theorem counted_stable (registry : Bool) : Stable registry Counted where
  frame counted table used _ := ⟨table ▸ counted.power, by rw [table, used, counted.used]⟩
  register s counted := by
    unfold StringHeap.largeStringRegister
    simp only
    split <;> exact ⟨counted.power, counted.used⟩
  enter s vacant counted :=
    ⟨by rw [List.length_set]; exact counted.power,
      (entries_set_entry vacant).trans (congrArg (· + 1) counted.used)⟩
  remove at_use counted :=
    ⟨by rw [List.length_set]; exact counted.power,
      (entries_set_tombstone at_use).trans (congrArg (· - 1) counted.used)⟩
  resize resized done counted := counted.resize resized done
  bury {heap} dead counted := by
    constructor
    · rw [show (heap.freeDead dead).strTable.length = heap.strTable.length from List.length_map ..]
      exact counted.power
    · rw [show (heap.freeDead dead).strTable = buryDead dead heap.strTable from rfl,
        entries_buryDead, counted.used]
      refine congrArg (heap.strTableUsed - ·) (List.countP_congr fun slot _ => ?_)
      cases slot <;> exact Iff.rfl

/-- The table of every heap that operations lead to. -/
theorem Counted.replay {events : List StringEvent}
    (run : Foundation.replay StringHeap.step StringHeap.new events = some heap)
    : Counted heap := by
  have start : Counted StringHeap.new := ⟨⟨8, List.length_replicate⟩, entries_replicate _⟩
  exact replay_preserves (σ := StringHeap)
    (fun {_ e _} counted taken => (counted_stable (registryMemory e)).step counted taken)
    start run

/-- A conversion to a float loses less than a quarter. -/
theorem le_toFloat (n : Nat) : 3 * n ≤ 4 * toFloat n := by
  unfold toFloat
  lift_lets
  intro unit below rest
  have whole : unit * below + rest = n := Nat.div_add_mod n unit
  have rounded : below * unit ≤ if 2 * rest > unit || (2 * rest == unit && below % 2 == 1) then
      (below + 1) * unit else below * unit := by
    split
    · exact Nat.mul_le_mul_right unit (Nat.le_succ below)
    · exact Nat.le_refl _
  have small : 3 * rest ≤ below * unit := by
    by_cases exact_ : unit = 1
    · have none : rest = 0 := by
        change n % unit = 0
        rw [exact_, Nat.mod_one]
      omega
    · have many : 23 ≤ n.log2 := by
        by_contra few
        exact exact_ (by
          change 2 ^ (n.log2 - 23) = 1
          rw [Nat.sub_eq_zero_of_le (by omega), Nat.pow_zero])
      have nonzero : n ≠ 0 := by
        rintro rfl
        exact absurd many (by decide)
      have top : 2 ^ 23 * unit ≤ n := by
        change 2 ^ 23 * 2 ^ (n.log2 - 23) ≤ n
        rw [← Nat.pow_add, Nat.add_sub_of_le many]
        exact Nat.log2_self_le nonzero
      have positive : 0 < unit := Nat.two_pow_pos _
      have many : 2 ^ 23 ≤ below := (Nat.le_div_iff_mul_le positive).mpr top
      have three : 3 ≤ below := by omega
      have under : rest < unit := Nat.mod_lt n positive
      calc 3 * rest ≤ 3 * unit := Nat.mul_le_mul_left 3 (Nat.le_of_lt under)
        _ ≤ below * unit := Nat.mul_le_mul_right unit three
  rw [Nat.mul_comm unit] at whole
  omega

/-- A table that is not overloaded has room. -/
theorem lt_of_not_overloaded {used size : Nat} (light : overloaded (used + 1) size = false)
    : used < size := by
  have below := le_toFloat (used + 1)
  simp only [overloaded, decide_eq_false_iff_not, Nat.not_lt] at light
  omega

/-- With memory for a table that is overloaded there is room for another entry. -/
theorem Counted.grow (counted : Counted heap) (size : heap.strTable.length < 2 ^ 31)
    : ∃ grown, (if overloaded (heap.strTableUsed + 1) heap.strTable.length then
        heap.strTableGrow true else some heap) = some grown
      ∧ grown.strings = heap.strings ∧ Counted grown
      ∧ entries grown.strTable < grown.strTable.length := by
  have few : entries heap.strTable ≤ heap.strTable.length := List.countP_le_length
  split
  · have doubled : heap.strTable.length * 2 % 2 ^ 32 = heap.strTable.length * 2 :=
      Nat.mod_eq_of_lt (by omega)
    have power := powerOfTwo_resized counted.power (.inl rfl)
    rw [doubled] at power
    have more : heap.strTable.length
        < if heap.strTable.length * 2 < initialStrTableSize then initialStrTableSize
          else heap.strTable.length * 2 := by
      have positive := counted.power.positive
      split <;> omega
    obtain ⟨table, rehashed⟩ : ∃ table, rehash heap.hashOf heap.strTable (List.replicate
        (if heap.strTable.length * 2 < initialStrTableSize then initialStrTableSize
          else heap.strTable.length * 2) .empty) = some table :=
      rehash_ends (by rwa [List.length_replicate])
        (by rw [filled_replicate, List.length_replicate]; omega)
    have done : heap.strTableGrow true = some { heap with strTable := table } := by
      rw [StringHeap.strTableGrow, StringHeap.resize, doubled]
      simp only [if_true, rehashed, Option.map_some]
    refine ⟨_, done, rfl, counted.resize (.inl rfl) done, ?_⟩
    have count := entries_rehash rehashed
    rw [entries_replicate] at count
    change entries table < table.length
    rw [rehash_length rehashed, List.length_replicate]
    omega
  · rename_i light
    exact ⟨heap, rfl, rfl, counted,
      counted.used ▸ lt_of_not_overloaded (Bool.eq_false_iff.mpr light)⟩

/-- With memory a string gets a slot. -/
theorem Counted.insert (counted : Counted heap) (size : heap.strTable.length < 2 ^ 31) (s : Addr)
    (str : HString)
    : ∃ heap', heap.strTableInsert s str true = some (heap', true)
      ∧ heap'.strings s = some str.adopt := by
  obtain ⟨grown, grew, _, counted', room⟩ := counted.grow size
  obtain ⟨use, found⟩ := insertionSlot_ends counted'.power
    (firstSlot_lt (Nat.ne_of_gt counted'.power.positive) str.hash.toNat) room
  refine ⟨
    {
      grown.write s str.adopt with
      strTable := grown.strTable.set use (.entry s)
      strTableUsed := grown.strTableUsed + 1
      held := s :: grown.held
    }, ?_, write_self grown s str.adopt⟩
  simp only [StringHeap.strTableInsert, grew, Option.map_some, found]

-----------------------------------------------------------------------------------------
-- Short strings
-----------------------------------------------------------------------------------------

/-- A reference that is dropped leaves the size of the table. -/
theorem decref_size (heap : StringHeap) (s : Addr)
    : (heap.decref s).strTable.length = heap.strTable.length := by
  have removed (heap : StringHeap)
      : (heap.strTableRemove s).strTable.length = heap.strTable.length := by
    unfold StringHeap.strTableRemove
    simp only
    split
    · rfl
    · split
      · exact List.length_set
      · rfl
  unfold StringHeap.decref
  split
  · rfl
  · split
    · rfl
    · simp only
      split
      · split
        · exact removed _
        · rfl
      · rfl

theorem collect_size (collected : List Addr)
    : (collected.foldl StringHeap.decref heap).strTable.length = heap.strTable.length := by
  induction collected generalizing heap with
  | nil => rfl
  | cons s collected ih => exact ih.trans (decref_size heap s)

/-- The allocator has an address for a new string that is free once the references are dropped, and
memory for a table that has to grow.
-/
structure HasMemory (heap : StringHeap) (answers : Answers) : Prop where
  table : answers.table = true
  string : ∃ s, answers.string = some s
    ∧ (answers.collected.foldl StringHeap.decref heap).strings s = none

theorem HasMemory.alloc (memory : HasMemory heap answers) (short : data.length ≤ maxInternBytes)
    : ∃ heap' s, heap.hstringAllocCap data hash data.length answers = (heap', some s)
      ∧ heap'.strTable.length = heap.strTable.length := by
  obtain ⟨s, at_s, free⟩ := memory.string
  have fits : ¬(data.length > maxStringBytes ∨ data.length > maxStringBytes) := by
    simp only [maxInternBytes, maxStringBytes] at *
    omega
  unfold StringHeap.hstringAllocCap
  simp only [if_neg fits, at_s, free, Option.isSome_none, Bool.false_eq_true, if_false]
  exact ⟨_, s, rfl, collect_size answers.collected⟩

/-- The string is in the table: it is interned, it has these bytes, and a lookup finds it. -/
structure InTable (heap : StringHeap) (s : Addr) (data : List UInt8) : Prop where
  live : ∃ str, heap.strings s = some str ∧ str.isInterned = true ∧ str.data = data
  found : heap.strTableLookup data (hashString heap.hashSeed data) = some s

theorem Sound.inTable (sound : Sound heap none) (live : heap.strings s = some str)
    (interned : str.isInterned = true) (hash : str.hash = hashString heap.hashSeed str.data)
    : InTable heap s str.data :=
  ⟨⟨str, live, interned, rfl⟩, sound.lookup_iff.mpr
    ⟨(sound.interned s).mpr ⟨str, live, interned⟩, str, live, rfl, hash⟩⟩

/-- A short string that the table does not have is entered. -/
theorem strInternNormalized_new {mid : StringHeap} (short : data.length ≤ maxInternBytes)
    (missing : heap.strTableLookup data (hashString heap.hashSeed data) = none)
    (allocated : heap.hstringAllocCap data (hashString heap.hashSeed data) data.length answers
      = (mid, some s))
    (live : mid.strings s = some str) (table : answers.table = true)
    (inserted : mid.strTableInsert s str true = some (heap', true))
    : heap.strInternNormalized data answers = some (heap', some s) := by
  have entered : mid.insertOrRegister s str answers = some heap' := by
    rw [StringHeap.insertOrRegister, table, inserted, Option.map_some]
  unfold StringHeap.strInternNormalized
  rw [if_neg (Nat.not_lt.mpr short)]
  simp only [missing]
  split
  · rename_i same
    rw [allocated] at same
    cases same
  · rename_i same
    rw [allocated] at same
    cases same
    rw [live, Option.bind_some, entered, Option.map_some]

/-- Where there is memory, `str_intern_normalized` of a short string returns a string of the table
with its bytes.
-/
theorem strInternNormalized_inTable {events : List StringEvent}
    (run : replay StringHeap.step StringHeap.new events = some heap)
    (short : data.length ≤ maxInternBytes) (size : heap.strTable.length < 2 ^ 31)
    (memory : HasMemory heap answers)
    : ∃ heap' s, heap.strInternNormalized data answers = some (heap', some s)
      ∧ InTable heap' s data := by
  have sound : Sound heap none := Sound.replay run
  cases found : heap.strTableLookup data (hashString heap.hashSeed data) with
  | some existing =>
      have done : heap.strInternNormalized data answers = some (heap, some existing) := by
        simp only [StringHeap.strInternNormalized, if_neg (Nat.not_lt.mpr short), found]
      obtain ⟨held, str, live, rfl, hash⟩ := sound.lookup_iff.mp found
      obtain ⟨str', live', interned⟩ := (sound.interned existing).mp held
      obtain rfl := Option.some.inj (live.symm.trans live')
      exact ⟨heap, existing, done, sound.inTable live interned hash⟩
  | none =>
      obtain ⟨mid, s, allocated, same⟩ : ∃ mid s, heap.hstringAllocCap data
          (hashString heap.hashSeed data) data.length answers = (mid, some s)
          ∧ mid.strTable.length = heap.strTable.length := memory.alloc short
      obtain ⟨_, _, ⟨str, live, _, isData, isHash⟩, _⟩ := sound.alloc (fun _ => .inr rfl) allocated
      have counted : Counted mid := by
        have stays : Counted (heap.hstringAllocCap data (hashString heap.hashSeed data)
            data.length answers).1 := (counted_stable true).alloc (Counted.replay run)
        rwa [allocated] at stays
      obtain ⟨heap', inserted, live'⟩ := counted.insert (same ▸ size) s str
      have done := strInternNormalized_new short found allocated live memory.table inserted
      obtain ⟨sound', kept⟩ := sound.strInternNormalized done
      have interned : str.adopt.isInterned = true := by simp [HString.adopt]
      have bytes : str.adopt.data = data := by simpa [HString.adopt] using isData
      have hash : str.adopt.hash = hashString heap'.hashSeed str.adopt.data := by
        rw [bytes, kept.seed, ← isHash]
        simp [HString.adopt]
      exact ⟨heap', s, done, bytes ▸ sound'.inTable live' interned hash⟩

/-- So `str_intern` returns one with the text in the form that strings are kept in. -/
theorem strIntern_inTable {events : List StringEvent} {canonical : List UInt8}
    (run : replay StringHeap.step StringHeap.new events = some heap)
    (normal : canonical
      = if hasRawUtf8Astral data && answers.scratch then normalizeToCesu8 data else data)
    (short : canonical.length ≤ maxInternBytes) (size : heap.strTable.length < 2 ^ 31)
    (memory : HasMemory heap answers)
    : ∃ heap' s, heap.strIntern data answers = some (heap', some s)
      ∧ InTable heap' s canonical := by
  rw [StringHeap.strIntern, ← normal]
  exact strInternNormalized_inTable run short size memory

end Boomkat.Correctness
