import Boomkat.Machine.Runtime

/-! Property reads with a string key: the single read of `GETPROP` and `GETPROPC`, and the two
reads that `GETPROPC2` makes in one dispatch. Inline caches are left out.
-/

namespace Boomkat.Machine
open Boomkat.Bytecode

variable {W : Type} (rt : Runtime W)

-----------------------------------------------------------------------------------------
-- Getters and lookups
-----------------------------------------------------------------------------------------

/-- `invoke_getter`: a scripted getter runs in a frame above A, whose slot holds the getter
meanwhile; without a getter the property is `undefined`.
-/
def Runtime.invokeGetter (getter this : Value) (world : W) : Completion W :=
  match getter with
  | .undefined | .null => .value .undefined [] world
  | _ =>
      let scripted := rt.isScripted world getter
      let behind := if scripted then rt.frameOf getter this world else []
      match rt.callGetter getter this world with
      | .ok result world => .value result behind world
      | .thrown thrown world =>
          .thrown thrown (if scripted then some getter else none) behind world

/-- A getter run through the reentrant `call_fn`. -/
def Runtime.callSync (getter this : Value) (world : W) : Coercion W Value :=
  match getter with
  | .undefined | .null => .ok .undefined world
  | _ => rt.callGetter getter this world

/-- `primitive_getprop`, which is also how an ordinary object is read. -/
def Runtime.primitiveGetprop (start : Nat) (receiver key : Value) (interned : Bool)
    (world : W) : Completion W :=
  match rt.lookup start key interned world with
  | (.missing, world) => .value .undefined [] world
  | (.data value, world) => .value value [] world
  | (.accessor getter, world) => rt.invokeGetter getter receiver world

/-- `primitive_getprop_sync` -/
def Runtime.primitiveGetpropSync (start : Nat) (receiver key : Value) (interned : Bool)
    (world : W) : Coercion W Value :=
  match rt.lookup start key interned world with
  | (.missing, world) => .ok .undefined world
  | (.data value, world) => .ok value world
  | (.accessor getter, world) => rt.callSync getter receiver world

/-- The prototype on which the property of a primitive is looked up. -/
def Runtime.primitiveProto (world : W) : Value → Nat
  | .string _ => rt.stringProto world
  | .symbol _ => rt.symbolProto world
  | .boolean _ => rt.boolProto world
  | .bigint _ => rt.bigintProto world
  | _ => rt.numberProto world

/-- `is_symbol()` of a value that satisfies `is_string()`. -/
def isSymbol : Value → Bool
  | .symbol _ => true
  | _ => false

/-- The text of a key. -/
def keyText : Value → String
  | .string text => text
  | _ => ""

/-- Throw a new `TypeError`. -/
def Runtime.throwTypeError {α : Type} (message : String) (world : W) : Coercion W α :=
  let (error, world) := rt.newTypeError message world
  .thrown error world

/-- The message of a read from `null` or `undefined`; one that overflows its buffer is empty. -/
def cannotRead (obj key : Value) : String :=
  let message := "Cannot read properties of " ++ (if obj = .null then "null" else "undefined")
    ++ " (reading '" ++ keyText key ++ "')"
  if message.utf8ByteSize < 160 then message else ""

/-- The message of a read of `callee` from an arguments object. -/
def calleeMessage : String :=
  "'callee', 'arguments', and 'arguments.caller' may not be accessed in strict mode"

/-- The message of a read of `caller` or `arguments` from a function. -/
def callerMessage : String :=
  "'caller' and 'arguments' properties may not be accessed on strict mode functions "
    ++ "or the arguments objects for calls to them"

/-- The keys that functions refuse to answer. -/
def isCallerKey (key : Value) : Bool := key = .string "caller" || key = .string "arguments"

/-- A function without an own property of a refused name. -/
def Runtime.isPoisoned (world : W) (addr : Nat) (key : Value) : Bool :=
  rt.isFunction world addr && isCallerKey key && !rt.hasOwn world addr key

/-- The length of an array whose `length` is read. -/
def Runtime.lengthRead (world : W) (addr : Nat) (key : Value) : Option Int :=
  if key = .string "length" then rt.arrayLength world addr else none

-----------------------------------------------------------------------------------------
-- One read
-----------------------------------------------------------------------------------------

/-- The read of a property of an object. -/
def Runtime.readObject (addr : Nat) (key : Value) (interned : Bool) (world : W)
    : Completion W :=
  if rt.isProxy world addr then
    (rt.proxyGet addr key (.object addr) world).complete
  else
    match rt.lengthRead world addr key with
    | some length => .value (.fastint length) [] world
    | none =>
        if rt.isArguments world addr && key = .string "callee" then
          (rt.throwTypeError calleeMessage world).complete
        else if rt.isPoisoned world addr key then
          (rt.throwTypeError callerMessage world).complete
        else
          match rt.exoticElement addr key world with
          | some (value, world) => .value value [] world
          | none => rt.primitiveGetprop addr (.object addr) key interned world

/-- The read of a property of a builtin that is no object yet. -/
def Runtime.readLightfunc (index : Nat) (key : Value) (interned : Bool) (world : W)
    : Completion W :=
  match rt.promotedLightfunc world index with
  | some addr => rt.primitiveGetprop addr (.lightfunc index) key interned world
  | none =>
      if isCallerKey key then
        (rt.throwTypeError callerMessage world).complete
      else
        let (value, world) := rt.lightfuncProperty index (keyText key) world
        .value value [] world

/-- The read of a property with a string key. -/
def Runtime.readProperty (obj key : Value) (interned : Bool) (world : W) : Completion W :=
  match obj with
  | .object addr => rt.readObject addr key interned world
  | .null | .undefined => (rt.throwTypeError (cannotRead obj key) world).complete
  | .string _ =>
      if key = .string "length" then .value (.fastint (rt.charLength obj)) [] world
      else rt.primitiveGetprop (rt.primitiveProto world obj) obj key interned world
  | .symbol _ | .number _ | .fastint _ | .boolean _ | .bigint _ =>
      rt.primitiveGetprop (rt.primitiveProto world obj) obj key interned world
  | .lightfunc index => rt.readLightfunc index key interned world
  | .pointer _ | .buffer _ => .value .undefined [] world

/-- `GETPROP`: a string key is interned first. -/
def Runtime.getProp (obj key : Value) (world : W) : Completion W :=
  match key with
  | .string _ => rt.readProperty obj key true world
  | _ => rt.readPropertySlow obj key world

/-- `GETPROPC`: the key is used as the constant pool holds it. -/
def Runtime.getPropc (obj key : Value) (world : W) : Completion W :=
  rt.readProperty obj key (rt.isInterned world key) world

/-- The registers above `dst` that a frame has used. -/
def behindWrites (dst : Nat) (behind : List Value) : List (Nat × Value) :=
  behind.mapIdx fun k value => (dst + 1 + k, value)

@[simp] theorem behindWrites_nil (dst : Nat) : behindWrites dst [] = [] := rfl

-----------------------------------------------------------------------------------------
-- Two reads in one dispatch
-----------------------------------------------------------------------------------------

/-- The source values whose second read `GETPROPC2` dispatches in different ways. -/
inductive ChainSource where
  | object
  | text
  | number
  | lightfunc
  deriving DecidableEq

/-- How the second read ends: with a value, with an early return that does not write the
first value back, or with a throw.
-/
inductive SecondRead (W : Type) where
  | found (value : Value) (world : W)
  | returned (completion : Completion W)
  | thrown (value : Value) (world : W)

/-- A read through `call_fn` as the second one. -/
def Coercion.second : Coercion W Value → SecondRead W
  | .ok value world => .found value world
  | .thrown value world => .thrown value world

/-- The second read from an object. Only an object source checks for a proxy and for refused
names, and only object and builtin sources run getters.
-/
def Runtime.secondFromObject (source : ChainSource) (addr : Nat) (key : Value) (world : W)
    : SecondRead W :=
  let mid := Value.object addr
  let interned := rt.isInterned world key
  if source = .object ∧ rt.isProxy world addr then
    (rt.proxyGet addr key mid world).second
  else if source = .object ∧ rt.isPoisoned world addr key then
    (rt.throwTypeError callerMessage world).second
  else
    match rt.lengthRead world addr key with
    | some length => .found (.fastint length) world
    | none =>
        if source = .object ∨ source = .lightfunc then
          (rt.primitiveGetpropSync addr mid key interned world).second
        else
          match rt.lookup addr key interned world with
          | (.data value, world) => .found value world
          | (_, world) => .found .undefined world

/-- The second read from a builtin that is no object yet. -/
def Runtime.secondFromLightfunc (index : Nat) (key : Value) (world : W) : SecondRead W :=
  match rt.promotedLightfunc world index with
  | some addr =>
      .returned
        (rt.primitiveGetprop addr (.lightfunc index) key (rt.isInterned world key) world)
  | none =>
      let (value, world) := rt.lightfuncProperty index (keyText key) world
      .found value world

/-- `getprop2_symbol_hop`: a scripted getter ends the instruction. -/
def Runtime.getprop2SymbolHop (mid key : Value) (world : W) : SecondRead W :=
  match rt.lookup (rt.primitiveProto world mid) key (rt.isInterned world key) world with
  | (.missing, world) => .found .undefined world
  | (.data value, world) => .found value world
  | (.accessor getter, world) =>
      if getter ≠ .undefined ∧ getter ≠ .null ∧ rt.isScripted world getter then
        .returned (rt.invokeGetter getter mid world)
      else (rt.callSync getter mid world).second

/-- The second read from a string or a symbol. -/
def Runtime.secondFromText (source : ChainSource) (mid key : Value) (world : W)
    : SecondRead W :=
  if isSymbol mid ∧ (source = .object ∨ source = .lightfunc) then
    rt.getprop2SymbolHop mid key world
  else if key = .string "length" then .found (.fastint (rt.charLength mid)) world
  else if isSymbol mid ∧ source = .text then rt.getprop2SymbolHop mid key world
  else
    (rt.primitiveGetpropSync (rt.stringProto world) mid key (rt.isInterned world key)
      world).second

/-- The second read of `GETPROPC2`. -/
def Runtime.secondRead (source : ChainSource) (mid key : Value) (world : W) : SecondRead W :=
  match mid with
  | .object addr => rt.secondFromObject source addr key world
  | .lightfunc index => rt.secondFromLightfunc index key world
  | .string _ | .symbol _ => rt.secondFromText source mid key world
  | .number _ | .fastint _ | .boolean _ =>
      (rt.primitiveGetpropSync (rt.primitiveProto world mid) mid key
        (rt.isInterned world key) world).second
  | .null | .undefined =>
      if source = .object then (rt.throwTypeError (cannotRead mid key) world).second
      else .found .undefined world
  | .bigint _ | .pointer _ | .buffer _ => .found .undefined world

/-- The end of `GETPROPC2` after its first read; `early` are the writes made so far. -/
def Runtime.finishChain (source : ChainSource) (early : List (Nat × Value)) (tmp last : Nat)
    (mid key : Value) (world : W) : Outcome W :=
  match rt.secondRead source mid key world with
  | .found value world =>
      { writes := early ++ [(last, value), (tmp, mid)], world := world, exit := .next }
  | .returned (.value value behind world) =>
      {
        writes := early ++ behindWrites last behind ++ [(last, value)]
        world := world
        exit := .next
      }
  | .returned (.thrown thrown written behind world) =>
      {
        writes :=
          early ++ behindWrites last behind ++ written.toList.map fun value => (last, value)
        world := world
        exit := .thrown thrown
      }
  | .thrown thrown world => { writes := early, world := world, exit := .thrown thrown }

/-- The first read of `GETPROPC2` from a source that is no builtin. -/
def Runtime.firstRead (src key : Value) (world : W) : Coercion W Value :=
  let interned := rt.isInterned world key
  match src with
  | .object addr =>
      if rt.isProxy world addr then rt.proxyGet addr key src world
      else
        match rt.lengthRead world addr key with
        | some length => .ok (.fastint length) world
        | none => rt.primitiveGetpropSync addr src key interned world
  | .string _ =>
      if key = .string "length" then .ok (.fastint (rt.charLength src)) world
      else rt.primitiveGetpropSync (rt.primitiveProto world src) src key interned world
  | _ => rt.primitiveGetpropSync (rt.primitiveProto world src) src key interned world

/-- The second read and the writes after a first read that may throw. -/
def Runtime.chainThrough (source : ChainSource) (tmp last : Nat) (key : Value)
    : Coercion W Value → Outcome W
  | .ok mid world => rt.finishChain source [] tmp last mid key world
  | .thrown thrown world => { writes := [], world := world, exit := .thrown thrown }

/-- `GETPROPC2`: the first read goes to register `tmp`, which holds `old`, and the second to
`last`. A builtin source writes `tmp` at once; any other source writes it after `last`.
-/
def Runtime.getPropc2 (tmp last : Nat) (src old key1 key2 : Value) (world : W) : Outcome W :=
  match src with
  | .object _ => rt.chainThrough .object tmp last key2 (rt.firstRead src key1 world)
  | .string _ | .symbol _ =>
      rt.chainThrough .text tmp last key2 (rt.firstRead src key1 world)
  | .number _ | .fastint _ | .boolean _ =>
      rt.chainThrough .number tmp last key2 (rt.firstRead src key1 world)
  | .lightfunc index =>
      match rt.promotedLightfunc world index with
      | none =>
          let (mid, world) := rt.lightfuncProperty index (keyText key1) world
          rt.finishChain .lightfunc [(tmp, mid)] tmp last mid key2 world
      | some addr =>
          match rt.lookup addr key1 (rt.isInterned world key1) world with
          | (.missing, world) =>
              rt.finishChain .lightfunc [(tmp, .undefined)] tmp last .undefined key2 world
          | (.data mid, world) =>
              rt.finishChain .lightfunc [(tmp, mid)] tmp last mid key2 world
          | (.accessor _, world) =>
              rt.chainThroughAccessor tmp last src old key1 key2 world
  | _ =>
      {
        writes := [(tmp, .undefined), (last, .undefined)]
        world := world
        exit := .next
      }

end Boomkat.Machine
