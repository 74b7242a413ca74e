import Boomkat.Collections.Key
import Mathlib.Logic.Function.Basic

/-! The heap as the collector sees it: the nodes with their header bits, the lists that hold them,
and what refers to a node from outside of the heap.
-/

namespace Boomkat.Collector
open Collections (TVal)
open Strings (Addr)

/-- The environment records of a scope, innermost first, by their `bindings` objects. -/
abbrev EnvChain := List (Option Addr)

/-- An entry of the request queue of an async generator. -/
structure AsyncGenRequest where
  value : TVal
  capability : Option Addr

/-- A catcher of a suspended or running body. -/
structure Catcher where
  thrownVal : TVal
  returnVal : TVal

/-- The saved execution context of a generator, with the chains that it owns as lists. The targets
of its `for-in` states are in `forin`, and `refCount` says how many objects hold it.
-/
structure GeneratorState where
  savedRegs : Option (List TVal)
  varEnv : EnvChain
  lexEnv : EnvChain
  cat : List Catcher
  forin : List (Option Addr)
  thisBinding : TVal
  resumeValue : TVal
  throwValue : TVal
  returnValue : TVal
  delegatedIter : Option Addr
  aysReceived : TVal
  aysNextMethod : TVal
  asyncPromise : Option Addr
  genObj : Option Addr
  requests : List AsyncGenRequest
  agRootPromise : Option Addr
  agCurrentValue : TVal
  resumeWrapper : Option Addr
  refCount : Nat

/-- What objects of a class keep beside their properties and elements. Classes that keep nothing of
the kind are `plain`.
-/
inductive HObjectExtra where
  | plain
  | bound (target this : TVal) (args : Option Addr)
  | asyncState (gs : Option Addr) (capturedThis : TVal)
  | function (varEnv lexEnv : EnvChain) (capturedThis : TVal) (capturedNewTarget : Option Addr)
  | generator (varEnv lexEnv : EnvChain) (generatorData : Option Addr)
  | regexp (patternStr : TVal)
  | proxy (target handler : Option Addr)
  | promise (result : TVal) (reactionsHead : Option Addr)
  | arraybuffer (viewsHead : Option Addr)
  | view (buffer nextView : Option Addr)
  | primitive (primitiveValue : TVal)
  | iterator (target : Option Addr)
  | regexpStringIterator (stringVal : TVal) (regexp : Option Addr)
  | wrapForValidIterator (iterated : Option Addr) (nextMethod : TVal)
  | iteratorHelper (underlying : Option Addr) (nextMethod callback : TVal) (innerIter : Option Addr)
      (innerNext : TVal)
  | getterSetter (getter setter : TVal)
  | error (capturedStack : TVal)

/-- An object. The named properties are in the order of their slots, each with its key, and
`propAlloc` says that the slots have left the object's own block.
-/
structure HObject where
  prototype : Option Addr
  props : List (Option Addr × TVal)
  propAlloc : Bool
  arrayPart : Option (List TVal)
  arrayUsed : Nat
  extra : HObjectExtra

/-- What is allocated at an address: an object, a string, or a box without references. -/
inductive Node where
  | object (obj : HObject)
  | string (isInterned : Bool)
  | box

def Node.isObject : Node → Bool
  | .object _ => true
  | .string _ => false
  | .box => false

def Node.isString : Node → Bool
  | .object _ => false
  | .string _ => true
  | .box => false

structure AtomicsWaiter where
  buffer : Option Addr
  promise : Option Addr
  active : Bool

/-- The constants of a compiled function, and the keys and objects of its two inline caches. -/
structure CompiledFunction where
  constants : Option (List TVal)
  icEntries : List (Option Addr × Option Addr)
  varIcEntries : List (Option Addr × Option Addr)

/-- A frame. It has registers if it runs bytecode, from `bottom` on. -/
structure Activation where
  varEnv : EnvChain
  lexEnv : EnvChain
  ownsThis : Bool
  thisBinding : TVal
  newTarget : Option Addr
  asyncPromise : Option Addr
  asyncGenState : Option Addr
  cat : List Catcher
  forin : List (Option Addr)
  bottom : Nat
  numRegs : Option Nat

structure Vm where
  valstack : List TVal
  valstackTop : Nat
  activations : List Activation
  shadowActivations : List Activation
  returnVal : TVal
  throwValue : TVal

structure ModuleDef where
  evalError : Option TVal
  jsonValue : Option TVal
  importMetaObj : Option Addr

/-- The fields of the heap that refer to nodes. The prototypes and constructors of the realm are in
`intrinsics`, and the well-known symbols in `wellKnownSymbols`.
-/
structure Roots where
  gcRoots : List Addr
  capiSlots : List (Option TVal)
  promotedBuiltins : List (Option Addr)
  intrinsics : List (Option Addr)
  vm : Vm
  microtaskQueue : List TVal
  unhandledRejections : List TVal
  asyncWaiters : List AtomicsWaiter
  symbolRegistry : List (Option Addr × Option Addr)
  strs : List (Option Addr)
  compiledFuncs : List CompiledFunction
  wellKnownSymbols : List (Option Addr)
  checkpointKeys : List (Option Addr)
  errorValue : TVal
  yieldValue : TVal
  resumeGen : Option Addr
  genInitialGs : Option Addr
  genInitialObj : Option Addr
  genInitStackObj : List (Option Addr)
  moduleCache : List ModuleDef

/-- The heap. The header fields are given by address. `strTable` holds the entries of the table of
interned strings in the order of its `strTableSize` slots, and `generatorStates` the addresses of
the generator states. `strayed` notes that a header was read or freed where nothing is allocated, or
that a teardown did not end.
-/
structure Heap where
  nodes : Addr → Option Node
  refcount : Addr → UInt32
  reachable : Addr → Bool
  temproot : Addr → Bool
  generators : Addr → Option GeneratorState
  generatorStates : List Addr
  heapAllocated : List Addr
  strTable : List Addr
  strTableSize : Nat
  largeStrings : List Addr
  grayObjects : List Addr
  reactionNextKey : Option Addr
  roots : Roots
  nativeFrameDepth : Nat
  sweeping : Bool
  gcRunning : Bool
  gcPending : Bool
  stringSweepSafe : Bool
  gcTriggerCounter : Nat
  liveObjCount : Nat
  markWorkLast : Nat
  strayed : Bool

def Heap.isString (heap : Heap) (a : Addr) : Bool := (heap.nodes a).any Node.isString

def Heap.isObject (heap : Heap) (a : Addr) : Bool := (heap.nodes a).any Node.isObject

/-- A header is read. -/
def Heap.touch (heap : Heap) (a : Addr) : Heap :=
  { heap with strayed := heap.strayed || (heap.nodes a).isNone }

def Heap.setReachable (heap : Heap) (a : Addr) : Heap :=
  { heap.touch a with reachable := Function.update heap.reachable a true }

def Heap.clearTemproot (heap : Heap) (a : Addr) : Heap :=
  { heap.touch a with temproot := Function.update heap.temproot a false }

end Boomkat.Collector
