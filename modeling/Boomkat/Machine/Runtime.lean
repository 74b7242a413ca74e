import Boomkat.Machine.Value

/-! The services an instruction asks of the rest of the engine: conversions, user code,
property and variable access. The engine's heap, environments and host are one abstract
state `W`, and each service is a parameter.
-/

namespace Boomkat.Machine
open Boomkat.Bytecode

-----------------------------------------------------------------------------------------
-- Results of services and of instructions
-----------------------------------------------------------------------------------------

/-- The result of a service that may run user code: a result, or a thrown value. -/
inductive Coercion (W α : Type) where
  | ok (result : α) (world : W)
  | thrown (value : Value) (world : W)
  deriving DecidableEq

/-- Continue with the result of a service, or let its throw through. -/
def Coercion.bind {W α β : Type} (first : Coercion W α) (next : α → W → Coercion W β)
    : Coercion W β :=
  match first with
  | .ok result world => next result world
  | .thrown value world => .thrown value world

/-- The completion of an instruction whose field A is a destination. `behind` are the values
that a getter's frame leaves in the registers above A. Some handlers still write A after a
throw was routed to a handler of the same frame; `written` is that value.
-/
inductive Completion (W : Type) where
  | value (result : Value) (behind : List Value) (world : W)
  | thrown (value : Value) (written : Option Value) (behind : List Value) (world : W)
  deriving DecidableEq

/-- The completion of an instruction that stores the result of a service in A. -/
def Coercion.complete {W : Type} : Coercion W Value → Completion W
  | .ok result world => .value result [] world
  | .thrown value world => .thrown value none [] world

/-- Where control goes after an instruction that is not a branch. -/
inductive Exit where
  | next
  | thrown (value : Value)
  | returned (value : Value)
  deriving DecidableEq

/-- The result of an instruction whose handler is not spelled out: the register writes it
makes in order (its own destinations and what callee frames leave behind), the state of
the engine, and the exit.
-/
structure Outcome (W : Type) where
  writes : List (Nat × Value)
  world : W
  exit : Exit

/-- What reading a primitive-only global slot finds. -/
inductive GlobalSlot where
  | missing
  | uninitialized
  | holds (value : Value)
  deriving DecidableEq

/-- The answer of a fused iterator step: refused, exhausted, or the next element. -/
inductive IterStep (W : Type) where
  | refused (world : W)
  | done (world : W)
  | element (value : Value) (world : W)

/-- What the lookup of a key along a prototype chain finds. -/
inductive PropLookup where
  | missing
  | data (value : Value)
  | accessor (getter : Value)
  deriving DecidableEq

-----------------------------------------------------------------------------------------
-- Services
-----------------------------------------------------------------------------------------

/-- The services of the engine used by the instruction handlers. `compute` covers the
pure value producers whose handlers are not spelled out and `execute` every other opcode;
both receive only the values of the registers the opcode reads. `uncatchable` is the flag
an interrupt sets: no catch clause takes its throw. `lookup` walks the prototype chain for a
key; its flag says whether the key is the interned copy, by which shapes find it.
`callGetter` runs a getter, and `frameOf` are the registers that its frame occupies when the
getter is scripted and the dispatch loop runs it. `chainThroughAccessor` is the one path of
`GETPROPC2` that is not spelled out.
-/
structure Runtime (W : Type) where
  ofInt : Int → Double
  addDouble : Double → Double → Double
  subDouble : Double → Double → Double
  mulDouble : Double → Double → Double
  toPrimitive : Value → Nat → W → Coercion W Value
  toNumberSlow : Value → W → Coercion W Double
  toStringSlow : Value → W → Coercion W String
  joinStrings : String → String → W → Coercion W Value
  bigintBinop : Opcode → Value → Value → W → Coercion W Value
  relationalCompare : Value → Value → W → Coercion W (Int × Bool)
  uncatchable : W → Bool
  constant : Nat → Option Value
  isInterned : W → Value → Bool
  isProxy : W → Nat → Bool
  proxyGet : Nat → Value → Value → W → Coercion W Value
  arrayLength : W → Nat → Option Int
  isArguments : W → Nat → Bool
  isFunction : W → Nat → Bool
  hasOwn : W → Nat → Value → Bool
  exoticElement : Nat → Value → W → Option (Value × W)
  lookup : Nat → Value → Bool → W → PropLookup × W
  isScripted : W → Value → Bool
  callGetter : Value → Value → W → Coercion W Value
  frameOf : Value → Value → W → List Value
  stringProto : W → Nat
  symbolProto : W → Nat
  numberProto : W → Nat
  boolProto : W → Nat
  bigintProto : W → Nat
  promotedLightfunc : W → Nat → Option Nat
  lightfuncProperty : Nat → String → W → Value × W
  chainThroughAccessor : Nat → Nat → Value → Value → Value → Value → W → Outcome W
  charLength : Value → Int
  newTypeError : String → W → Value × W
  readPropertySlow : Value → Value → W → Completion W
  iterNextFast : Value → Value → W → IterStep W
  hasVarIcs : W → Bool
  readGlobal : Value → W → GlobalSlot × W
  writeGlobal : Value → Value → W → W
  lexEnv : W → Option Nat
  restoreLexEnv : Nat → W → W
  toCount : Double → Nat
  compute : DecodedInsn → List Value → W → Completion W
  execute : DecodedInsn → List Value → W → Outcome W

/-- `vm_to_number`, with the cases that need no service. -/
def Runtime.toNumber {W : Type} (rt : Runtime W) (val : Value) (world : W)
    : Coercion W Double :=
  match val with
  | .fastint n => .ok (rt.ofInt n) world
  | .number d => .ok d world
  | .boolean b => .ok (rt.ofInt (if b then 1 else 0)) world
  | .undefined => .ok Double.nan world
  | .null => .ok (rt.ofInt 0) world
  | .lightfunc _ | .pointer _ | .buffer _ => .ok Double.nan world
  | _ => rt.toNumberSlow val world

/-- `vm_to_string`, with the cases that need no service. -/
def Runtime.toText {W : Type} (rt : Runtime W) (val : Value) (world : W)
    : Coercion W String :=
  match val with
  | .string text => .ok text world
  | .fastint n => .ok (toString n) world
  | _ => rt.toStringSlow val world

/-- String concatenation of two primitives. -/
def Runtime.concat {W : Type} (rt : Runtime W) (left right : Value) (world : W)
    : Coercion W Value :=
  (rt.toText left world).bind fun ls world =>
    (rt.toText right world).bind fun rs world => rt.joinStrings ls rs world

/-- `tval_numeric_to_double`, used on numeric values only. -/
def Runtime.numericToDouble {W : Type} (rt : Runtime W) : Value → Double
  | .fastint n => rt.ofInt n
  | .number d => d
  | _ => Double.nan

/-- `set_fastint_or_number`: an integer result as a fastint where it fits. -/
def Runtime.fastintOrNumber {W : Type} (rt : Runtime W) (n : Int) : Value :=
  if fastintMin ≤ n ∧ n ≤ fastintMax then .fastint n else .number (rt.ofInt n)

/-- Strict equality of two values, as `SEQ` and `JMP_SEQ` compute it. -/
def Runtime.strictEquals {W : Type} (rt : Runtime W) : Value → Value → Bool
  | .undefined, .undefined | .null, .null => true
  | .boolean x, .boolean y => x == y
  | .number x, .number y => Double.eq x y
  | .fastint x, .fastint y => x == y
  | .number x, .fastint y => Double.eq x (rt.ofInt y)
  | .fastint x, .number y => Double.eq (rt.ofInt x) y
  | .string x, .string y => x == y
  | .symbol x, .symbol y | .object x, .object y | .lightfunc x, .lightfunc y
  | .pointer x, .pointer y | .buffer x, .buffer y => x == y
  | .bigint x, .bigint y => x == y
  | _, _ => false

end Boomkat.Machine
