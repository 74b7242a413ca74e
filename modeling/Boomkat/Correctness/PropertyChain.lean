import Boomkat.Machine.PropertyRead

/-! When the two reads that `GETPROPC2` makes are those of two `GETPROPC`. -/

namespace Boomkat.Correctness
open Boomkat.Bytecode Boomkat.Machine

variable {W : Type} {rt : Runtime W}

/-- The result of a read without what a getter's frame leaves in registers. -/
def sync : Completion W → Coercion W Value
  | .value result _ world => .ok result world
  | .thrown thrown _ _ world => .thrown thrown world

theorem sync_complete (read : Coercion W Value) : sync read.complete = read := by
  cases read <;> rfl

/-- A getter returns the same through a frame as through `call_fn`. -/
theorem sync_primitiveGetprop (start : Nat) (receiver key : Value) (interned : Bool) (world : W)
    : sync (rt.primitiveGetprop start receiver key interned world)
      = rt.primitiveGetpropSync start receiver key interned world := by
  unfold Runtime.primitiveGetprop Runtime.primitiveGetpropSync
  cases rt.lookup start key interned world with
  | mk found world =>
      cases found with
      | missing => rfl
      | data value => rfl
      | accessor getter =>
          unfold Runtime.invokeGetter Runtime.callSync
          cases getter with
          | undefined => rfl
          | null => rfl
          | _ =>
              simp only
              cases rt.callGetter _ receiver world <;> rfl

-----------------------------------------------------------------------------------------
-- The first read
-----------------------------------------------------------------------------------------

/-- `GETPROPC` reads the key of an ordinary object as an ordinary property: it is no refused
name and no element of a string or typed array.
-/
def readsOrdinary (rt : Runtime W) (world : W) (addr : Nat) (key : Value) : Bool :=
  !(rt.isArguments world addr && key = .string "callee") && !rt.isPoisoned world addr key
    && (rt.exoticElement addr key world).isNone

/-- The lookup of a key ends at no accessor. -/
def readsData (rt : Runtime W) (world : W) (start : Nat) (key : Value) : Bool :=
  match (rt.lookup start key (rt.isInterned world key) world).1 with
  | .accessor _ => false
  | _ => true

/-- The first read of `GETPROPC2` from this source is that of `GETPROPC`. -/
def plainFirst (rt : Runtime W) (src key : Value) (world : W) : Bool :=
  match src with
  | .object addr =>
      rt.isProxy world addr || (rt.lengthRead world addr key).isSome
        || readsOrdinary rt world addr key
  | .string _ | .symbol _ | .number _ | .fastint _ | .boolean _ => true
  | .lightfunc index =>
      match rt.promotedLightfunc world index with
      | some addr => readsData rt world addr key
      | none => !isCallerKey key
  | _ => false

/-- How `GETPROPC2` dispatches a source. -/
def sourceOf : Value → ChainSource
  | .object _ => .object
  | .string _ | .symbol _ => .text
  | .lightfunc _ => .lightfunc
  | _ => .number

/-- The read of an object whose key is read as an ordinary property. -/
theorem readObject_ordinary {world : W} {addr : Nat} {key : Value} {interned : Bool}
    (noProxy : rt.isProxy world addr = false)
    (ordinary : (rt.lengthRead world addr key).isSome = true
      ∨ readsOrdinary rt world addr key = true)
    : rt.readObject addr key interned world
      = match rt.lengthRead world addr key with
        | some length => .value (.fastint length) [] world
        | none => rt.primitiveGetprop addr (.object addr) key interned world := by
  unfold Runtime.readObject
  rw [noProxy, if_neg Bool.false_ne_true]
  cases length : rt.lengthRead world addr key with
  | some length => rfl
  | none =>
      rw [length] at ordinary
      simp only [readsOrdinary, Option.isSome_none, Bool.false_eq_true, false_or,
        Bool.and_eq_true, Bool.not_eq_true', Option.isNone_iff_eq_none] at ordinary
      obtain ⟨⟨notCallee, notPoisoned⟩, noElement⟩ := ordinary
      simp only [notCallee, notPoisoned, noElement, Bool.false_eq_true, if_false]

/-- The first read from a source that is no builtin is that of `GETPROPC`. -/
theorem firstRead_eq {src key : Value} {world : W} (plain : plainFirst rt src key world = true)
    (noBuiltin : sourceOf src ≠ .lightfunc)
    : rt.firstRead src key world = sync (rt.getPropc src key world) := by
  unfold Runtime.getPropc Runtime.readProperty Runtime.firstRead
  cases src with
  | object addr =>
      simp only [plainFirst, Bool.or_eq_true] at plain
      simp only
      cases proxy : rt.isProxy world addr with
      | true => simp [Runtime.readObject, proxy, sync_complete]
      | false =>
          simp only [proxy, Bool.false_eq_true, false_or, if_false] at plain ⊢
          rw [readObject_ordinary proxy plain]
          cases rt.lengthRead world addr key with
          | some length => rfl
          | none => exact (sync_primitiveGetprop ..).symm
  | string text =>
      simp only
      split
      · rfl
      · exact (sync_primitiveGetprop ..).symm
  | symbol _ | number _ | fastint _ | boolean _ => exact (sync_primitiveGetprop ..).symm
  | lightfunc index => exact absurd rfl noBuiltin
  | _ => cases plain

/-- A builtin source writes what `GETPROPC` reads before the second read. -/
theorem getPropc2_lightfunc {index : Nat} {key1 : Value} {world : W}
    (plain : plainFirst rt (.lightfunc index) key1 world = true) (tmp last : Nat)
    (old key2 : Value)
    : ∃ mid world', rt.getPropc (.lightfunc index) key1 world = .value mid [] world'
      ∧ rt.getPropc2 tmp last (.lightfunc index) old key1 key2 world
        = rt.finishChain .lightfunc [(tmp, mid)] tmp last mid key2 world' := by
  unfold Runtime.getPropc Runtime.readProperty Runtime.readLightfunc Runtime.getPropc2
  simp only [plainFirst] at plain
  cases promoted : rt.promotedLightfunc world index with
  | none =>
      simp only [promoted, Bool.not_eq_true'] at plain ⊢
      rw [plain]
      exact ⟨_, _, rfl, rfl⟩
  | some addr =>
      simp only [promoted, readsData] at plain ⊢
      unfold Runtime.primitiveGetprop
      cases answer : rt.lookup addr key1 (rt.isInterned world key1) world with
      | mk result world' =>
          simp only [answer] at plain
          cases result with
          | missing => exact ⟨_, _, rfl, rfl⟩
          | data value => exact ⟨_, _, rfl, rfl⟩
          | accessor getter => cases plain

-----------------------------------------------------------------------------------------
-- The second read
-----------------------------------------------------------------------------------------

/-- The lookup of a key ends at no scripted getter. -/
def readsUnscripted (rt : Runtime W) (world : W) (start : Nat) (key : Value) : Bool :=
  match rt.lookup start key (rt.isInterned world key) world with
  | (.accessor getter, world) =>
      getter = .undefined || getter = .null || !rt.isScripted world getter
  | _ => true

/-- The second read of `GETPROPC2` from this value, after a first one from such a source, is
that of `GETPROPC`.
-/
def plainSecond (rt : Runtime W) (source : ChainSource) (mid key : Value) (world : W) : Bool :=
  match mid with
  | .object addr =>
      match source with
      | .object =>
          rt.isProxy world addr || (rt.lengthRead world addr key).isSome
            || rt.isPoisoned world addr key || readsOrdinary rt world addr key
      | .lightfunc =>
          !rt.isProxy world addr
            && ((rt.lengthRead world addr key).isSome || readsOrdinary rt world addr key)
      | .text | .number =>
          !rt.isProxy world addr
            && ((rt.lengthRead world addr key).isSome
              || (readsOrdinary rt world addr key && readsData rt world addr key))
  | .lightfunc index => (rt.promotedLightfunc world index).isNone && !isCallerKey key
  | .symbol _ =>
      readsUnscripted rt world (rt.symbolProto world) key
        && (source = .object || source = .lightfunc
          || (source = .text && key ≠ .string "length"))
  | .null | .undefined => source = .object
  | .bigint _ => false
  | .string _ | .number _ | .fastint _ | .boolean _ | .pointer _ | .buffer _ => true

theorem sync_second (read : Coercion W Value) : (sync read.complete).second = read.second := by
  rw [sync_complete]

/-- A lookup that ends at no scripted getter returns through a symbol hop as through a frame. -/
theorem getprop2SymbolHop_eq {mid key : Value} {world : W}
    (unscripted : readsUnscripted rt world (rt.primitiveProto world mid) key = true)
    : rt.getprop2SymbolHop mid key world
      = (rt.primitiveGetpropSync (rt.primitiveProto world mid) mid key (rt.isInterned world key)
          world).second := by
  unfold Runtime.getprop2SymbolHop Runtime.primitiveGetpropSync
  unfold readsUnscripted at unscripted
  cases answer : rt.lookup (rt.primitiveProto world mid) key (rt.isInterned world key) world with
  | mk result world' =>
      simp only [answer] at unscripted
      cases result with
      | missing => rfl
      | data value => rfl
      | accessor getter =>
          simp only [Bool.or_eq_true, decide_eq_true_eq, Bool.not_eq_true'] at unscripted
          simp only
          rw [if_neg]
          rintro ⟨defined, notNull, scripted⟩
          rcases unscripted with (isUndefined | isNull) | notScripted
          · exact defined isUndefined
          · exact notNull isNull
          · simp [scripted] at notScripted

/-- Where the lookup ends at no accessor, its value is what a getter-aware read returns. -/
theorem lookup_second {addr : Nat} {mid key : Value} {world : W}
    (data : readsData rt world addr key = true)
    : (match rt.lookup addr key (rt.isInterned world key) world with
        | (.data value, world) => SecondRead.found value world
        | (_, world) => .found .undefined world)
      = (rt.primitiveGetpropSync addr mid key (rt.isInterned world key) world).second := by
  unfold Runtime.primitiveGetpropSync
  unfold readsData at data
  cases answer : rt.lookup addr key (rt.isInterned world key) world with
  | mk result world' =>
      simp only [answer] at data
      cases result with
      | missing => rfl
      | data value => rfl
      | accessor getter => cases data

/-- A refused name is neither a length nor the callee of an arguments object. -/
theorem isPoisoned_names {world : W} {addr : Nat} {key : Value}
    (poisoned : rt.isPoisoned world addr key = true)
    : rt.lengthRead world addr key = none ∧ key ≠ .string "callee" := by
  simp only [Runtime.isPoisoned, isCallerKey, Bool.and_eq_true, Bool.or_eq_true,
    decide_eq_true_eq] at poisoned
  rcases poisoned.1.2 with rfl | rfl <;> simp [Runtime.lengthRead]

/-- The second read from an object. -/
theorem secondFromObject_eq {source : ChainSource} {addr : Nat} {key : Value} {world : W}
    (plain : plainSecond rt source (.object addr) key world = true)
    : rt.secondFromObject source addr key world
      = (sync (rt.getPropc (.object addr) key world)).second := by
  have read : rt.getPropc (.object addr) key world
      = rt.readObject addr key (rt.isInterned world key) world := rfl
  rw [read]
  unfold Runtime.secondFromObject
  simp only [plainSecond] at plain
  cases proxy : rt.isProxy world addr with
  | true =>
      cases source with
      | object => simp [Runtime.readObject, proxy, sync_second]
      | _ => simp [proxy] at plain
  | false =>
      by_cases poisoned : source = .object ∧ rt.isPoisoned world addr key = true
      · obtain ⟨rfl, poisoned⟩ := poisoned
        obtain ⟨noLength, notCallee⟩ := isPoisoned_names poisoned
        simp [Runtime.readObject, proxy, poisoned, noLength, notCallee, sync_second]
      · have ordinary : (rt.lengthRead world addr key).isSome = true
            ∨ readsOrdinary rt world addr key = true := by
          cases source with
          | object | lightfunc => simp_all
          | text | number =>
              simp only [proxy, Bool.not_false, Bool.true_and, Bool.or_eq_true,
                Bool.and_eq_true] at plain
              exact plain.imp_right And.left
        rw [readObject_ordinary proxy ordinary]
        cases length : rt.lengthRead world addr key with
        | some length => simp [poisoned, Coercion.second, sync]
        | none =>
            simp only [Bool.false_eq_true, and_false, if_false, poisoned, sync_primitiveGetprop]
            split
            · rfl
            · rename_i noGetter
              apply lookup_second
              cases source <;> simp_all

/-- A second read that is plain finds what `GETPROPC` reads. -/
theorem secondRead_eq {source : ChainSource} {mid key : Value} {world : W}
    (plain : plainSecond rt source mid key world = true)
    : rt.secondRead source mid key world = (sync (rt.getPropc mid key world)).second := by
  cases mid with
  | object addr => exact secondFromObject_eq plain
  | lightfunc index =>
      simp only [plainSecond, Bool.and_eq_true, Option.isNone_iff_eq_none,
        Bool.not_eq_true'] at plain
      simp [Runtime.secondRead, Runtime.secondFromLightfunc, Runtime.getPropc,
        Runtime.readProperty, Runtime.readLightfunc, plain, sync, Coercion.second]
  | symbol id =>
      simp only [plainSecond, Bool.and_eq_true] at plain
      have hop : rt.getprop2SymbolHop (.symbol id) key world = _ := getprop2SymbolHop_eq plain.1
      have read : rt.getPropc (.symbol id) key world
          = rt.primitiveGetprop (rt.symbolProto world) (.symbol id) key
              (rt.isInterned world key) world := rfl
      rw [read, sync_primitiveGetprop]
      cases source <;>
        simp_all [Runtime.secondRead, Runtime.secondFromText, isSymbol, Runtime.primitiveProto]
  | string text =>
      have read : rt.getPropc (.string text) key world
          = if key = .string "length" then .value (.fastint (rt.charLength (.string text))) [] world
            else rt.primitiveGetprop (rt.stringProto world) (.string text) key
              (rt.isInterned world key) world := rfl
      rw [read]
      simp only [Runtime.secondRead, Runtime.secondFromText, isSymbol, Bool.false_eq_true,
        false_and, if_false]
      split
      · rfl
      · rw [sync_primitiveGetprop]
  | number _ | fastint _ | boolean _ =>
      exact congrArg Coercion.second (sync_primitiveGetprop ..).symm
  | null | undefined =>
      obtain rfl : source = .object := by simpa [plainSecond] using plain
      simp only [Runtime.secondRead, Runtime.getPropc, Runtime.readProperty, if_true, sync_second]
  | bigint _ => cases plain
  | pointer _ | buffer _ => rfl

-----------------------------------------------------------------------------------------
-- The outcome
-----------------------------------------------------------------------------------------

/-- The outcome of `GETPROPC2` with these early writes, this first value and this second read. -/
def chainOutcome (early : List (Nat × Value)) (tmp last : Nat) (mid : Value)
    : Coercion W Value → Outcome W
  | .ok value world =>
      { writes := early ++ [(last, value), (tmp, mid)], world := world, exit := .next }
  | .thrown thrown world => { writes := early, world := world, exit := .thrown thrown }

theorem finishChain_eq {source : ChainSource} {mid key : Value} {world : W}
    (plain : plainSecond rt source mid key world = true) (early : List (Nat × Value))
    (tmp last : Nat)
    : rt.finishChain source early tmp last mid key world
      = chainOutcome early tmp last mid (sync (rt.getPropc mid key world)) := by
  unfold Runtime.finishChain
  rw [secondRead_eq plain]
  cases sync (rt.getPropc mid key world) <;> rfl

/-- A source that is no builtin goes through both reads before any write. -/
theorem getPropc2_through {src key1 : Value} {world : W}
    (plain : plainFirst rt src key1 world = true) (noBuiltin : sourceOf src ≠ .lightfunc)
    (tmp last : Nat) (old key2 : Value)
    : rt.getPropc2 tmp last src old key1 key2 world
      = rt.chainThrough (sourceOf src) tmp last key2 (sync (rt.getPropc src key1 world)) := by
  rw [← firstRead_eq plain noBuiltin]
  cases src with
  | lightfunc index => exact absurd rfl noBuiltin
  | object _ | string _ | symbol _ | number _ | fastint _ | boolean _ => rfl
  | _ => cases plain

/-- `GETPROPC2` throws what the first of two `GETPROPC` throws. -/
theorem getPropc2_thrown {src key1 thrown : Value} {world world' : W}
    (plain : plainFirst rt src key1 world = true)
    (first : sync (rt.getPropc src key1 world) = .thrown thrown world') (tmp last : Nat)
    (old key2 : Value)
    : rt.getPropc2 tmp last src old key1 key2 world
      = { writes := [], world := world', exit := .thrown thrown } := by
  by_cases builtin : sourceOf src = .lightfunc
  · cases src with
    | lightfunc index =>
        obtain ⟨mid, after, read, _⟩ := getPropc2_lightfunc plain tmp last old key2
        rw [read] at first
        cases first
    | _ => cases builtin
  · rw [getPropc2_through plain builtin, first]
    rfl

/-- `GETPROPC2` makes the two reads of two `GETPROPC`. -/
theorem getPropc2_read {src key1 key2 mid : Value} {world world' : W}
    (plain : plainFirst rt src key1 world = true)
    (first : sync (rt.getPropc src key1 world) = .ok mid world')
    (plain' : plainSecond rt (sourceOf src) mid key2 world' = true) (tmp last : Nat)
    (old : Value)
    : ∃ early, (early = [] ∨ early = [(tmp, mid)])
      ∧ rt.getPropc2 tmp last src old key1 key2 world
        = chainOutcome early tmp last mid (sync (rt.getPropc mid key2 world')) := by
  by_cases builtin : sourceOf src = .lightfunc
  · cases src with
    | lightfunc index =>
        obtain ⟨value, after, read, outcome⟩ := getPropc2_lightfunc plain tmp last old key2
        rw [read] at first
        cases first
        exact ⟨_, .inr rfl, outcome.trans (finishChain_eq plain' _ tmp last)⟩
    | _ => cases builtin
  · refine ⟨[], .inl rfl, ?_⟩
    rw [getPropc2_through plain builtin, first]
    exact finishChain_eq plain' [] tmp last

end Boomkat.Correctness
