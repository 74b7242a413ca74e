import Boomkat.Collector.Heap

/-! The mark phase: what is marked for an object and for the roots, in order, and the loop that
empties the gray stack.
-/

namespace Boomkat.Collector
open Collections (TVal)
open Strings (Addr)

/-- A call of `mark_tval` or `mark_hobject`, or a header whose flag is set. -/
inductive Mark where
  | value (v : TVal)
  | object (obj : Option Addr)
  | header (hdr : Option Addr)

-----------------------------------------------------------------------------------------
-- Objects
-----------------------------------------------------------------------------------------

/-- `mark_env_chain` -/
def envChainMarks (env : EnvChain) : List Mark := env.map .object

def catcherMarks (cat : List Catcher) : List Mark :=
  cat.flatMap fun c => [.value c.thrownVal, .value c.returnVal]

/-- `mark_generator_state` -/
def GeneratorState.marks (gs : GeneratorState) : List Mark :=
  List.flatten [
    (gs.savedRegs.getD []).map .value,
    envChainMarks gs.varEnv,
    envChainMarks gs.lexEnv,
    [.value gs.thisBinding, .value gs.resumeValue, .value gs.throwValue, .value gs.returnValue,
      .value gs.aysReceived, .value gs.aysNextMethod],
    gs.forin.map .object,
    catcherMarks gs.cat,
    [.object gs.delegatedIter, .object gs.asyncPromise, .object gs.genObj,
      .object gs.agRootPromise, .value gs.agCurrentValue, .object gs.resumeWrapper],
    gs.requests.flatMap fun req => [.value req.value, .object req.capability]]

def Heap.generatorMarks (heap : Heap) (gs : Option Addr) : List Mark :=
  ((gs.bind heap.generators).map GeneratorState.marks).getD []

/-- The object in the hidden property that links a reaction to the next one. -/
def Heap.nextReaction (heap : Heap) (reaction : Addr) : Option Addr :=
  match heap.reactionNextKey, heap.nodes reaction with
  | some key, some (.object obj) =>
      match obj.props.find? (·.1 = some key) with
      | some (_, .object next) => if next = 0 then none else some next
      | _ => none
  | _, _ => none

/-- The reactions of a promise, from the first one on. -/
def Heap.reactions (heap : Heap) : Nat → Option Addr → List Addr
  | fuel + 1, some reaction => reaction :: heap.reactions fuel (heap.nextReaction reaction)
  | _, _ => []

def Heap.nextView (heap : Heap) (view : Addr) : Option Addr :=
  match heap.nodes view with
  | some (.object { extra := .view _ next, .. }) => next
  | _ => none

/-- The views that are chained off a buffer. -/
def Heap.views (heap : Heap) : Nat → Option Addr → List Addr
  | fuel + 1, some view => view :: heap.views fuel (heap.nextView view)
  | _, _ => []

/-- The fields that only some classes have. -/
def HObjectExtra.marks (heap : Heap) : HObjectExtra → List Mark
  | .plain => []
  | .bound target this args => [.value target, .value this, .object args]
  | .asyncState gs _ => heap.generatorMarks gs
  | .function varEnv lexEnv capturedThis capturedNewTarget =>
      envChainMarks varEnv ++ envChainMarks lexEnv
        ++ [.value capturedThis, .object capturedNewTarget]
  | .generator varEnv lexEnv generatorData =>
      envChainMarks varEnv ++ envChainMarks lexEnv ++ heap.generatorMarks generatorData
  | .regexp _ => []
  | .proxy target handler => [.object target, .object handler]
  | .promise result reactionsHead =>
      .value result
        :: (heap.reactions heap.heapAllocated.length reactionsHead).map (.object ∘ some)
  | .arraybuffer viewsHead =>
      (heap.views heap.heapAllocated.length viewsHead).map (.object ∘ some)
  | .view buffer _ => [.object buffer]
  | .primitive primitiveValue => [.value primitiveValue]
  | .iterator target => [.object target]
  | .regexpStringIterator stringVal matcher => [.value stringVal, .object matcher]
  | .wrapForValidIterator iterated nextMethod => [.object iterated, .value nextMethod]
  | .iteratorHelper underlying nextMethod callback innerIter innerNext =>
      [.object underlying, .value nextMethod, .value callback, .object innerIter, .value innerNext]
  | .getterSetter getter setter => [.value getter, .value setter]
  | .error capturedStack => [.value capturedStack]

/-- What `drain_gray` marks for an object. Elements are passed over where none is used. -/
def HObject.marks (heap : Heap) (obj : HObject) : List Mark :=
  List.flatten [
    [.object obj.prototype],
    obj.props.flatMap fun prop => [.header prop.1, .value prop.2],
    if 0 < obj.arrayUsed then (obj.arrayPart.getD []).map .value else [],
    obj.extra.marks heap]

-----------------------------------------------------------------------------------------
-- Roots
-----------------------------------------------------------------------------------------

/-- `mark_activation_envs` -/
def Activation.envMarks (act : Activation) : List Mark :=
  envChainMarks act.varEnv ++ envChainMarks act.lexEnv

/-- `mark_activation_fields` -/
def Activation.fieldMarks (heap : Heap) (act : Activation) : List Mark :=
  List.flatten [
    if act.ownsThis then [.value act.thisBinding] else [],
    [.object act.newTarget, .object act.asyncPromise],
    heap.generatorMarks act.asyncGenState,
    catcherMarks act.cat,
    act.forin.map .object]

/-- `mark_activation_regs` -/
def Activation.regMarks (valstack : List TVal) (act : Activation) (frameEnd : Nat) : List Mark :=
  if act.numRegs.isNone then []
  else ((valstack.drop act.bottom).take (frameEnd - act.bottom)).map .value

/-- The registers that a frame declares, with the margin for staged arguments. -/
def Activation.declaredEnd (act : Activation) : Nat :=
  match act.numRegs with
  | none => act.bottom
  | some numRegs => act.bottom + numRegs + 4

/-- The frames that are live. A frame reaches to the next one, and the innermost to the end of the
value stack.
-/
def activationMarks (heap : Heap) (valstack : List TVal) : List Activation → List Mark
  | [] => []
  | act :: inner =>
      let stop := (inner.head?.map Activation.bottom).getD valstack.length
      act.envMarks ++ act.fieldMarks heap ++ act.regMarks valstack (max act.declaredEnd stop)
        ++ activationMarks heap valstack inner

/-- `vm_mark_activations` -/
def Vm.marks (heap : Heap) (vm : Vm) : List Mark :=
  [.value vm.returnVal, .value vm.throwValue]
    ++ activationMarks heap vm.valstack vm.activations
    ++ vm.shadowActivations.flatMap fun act =>
      act.envMarks ++ act.fieldMarks heap ++ act.regMarks vm.valstack act.declaredEnd

/-- The inline caches of a function without constants are passed over. -/
def CompiledFunction.marks (cf : CompiledFunction) : List Mark :=
  match cf.constants with
  | none => []
  | some constants =>
      constants.map .value
        ++ cf.icEntries.flatMap (fun ie => [.header ie.1, .object ie.2])
        ++ cf.varIcEntries.flatMap (fun vie => [.header vie.1, .object vie.2])

def AtomicsWaiter.marks (waiter : AtomicsWaiter) : List Mark :=
  if waiter.active then [.object waiter.buffer, .object waiter.promise] else []

def ModuleDef.marks (mod : ModuleDef) : List Mark :=
  (mod.evalError.toList ++ mod.jsonValue.toList).map .value ++ [.object mod.importMetaObj]

/-- What `mark_roots` marks before it drains the stack. -/
def Heap.rootMarks (heap : Heap) : List Mark :=
  let roots := heap.roots
  List.flatten [
    roots.gcRoots.map fun hdr => if heap.isObject hdr then .object (some hdr) else .header (some hdr),
    (roots.capiSlots.filterMap id).map .value,
    roots.promotedBuiltins.map .object,
    roots.intrinsics.map .object,
    (roots.vm.valstack.take roots.vm.valstackTop).map .value,
    roots.microtaskQueue.map .value,
    roots.unhandledRejections.map .value,
    roots.asyncWaiters.flatMap AtomicsWaiter.marks,
    roots.symbolRegistry.flatMap fun entry => [.header entry.1, .header entry.2],
    roots.strs.map .header,
    roots.compiledFuncs.flatMap CompiledFunction.marks,
    roots.wellKnownSymbols.map .header,
    roots.checkpointKeys.map .header,
    roots.vm.marks heap,
    [.value roots.errorValue, .value roots.yieldValue],
    heap.generatorMarks roots.resumeGen,
    heap.generatorMarks roots.genInitialGs,
    [.object roots.genInitialObj],
    roots.genInitStackObj.map .object,
    roots.moduleCache.flatMap ModuleDef.marks]

-----------------------------------------------------------------------------------------
-- Marking
-----------------------------------------------------------------------------------------

/-- `mark_hobject`. An object that was not marked goes on the gray stack. -/
def Heap.markHobject (heap : Heap) (obj : Addr) : Heap :=
  if heap.reachable obj then heap.touch obj
  else { heap.setReachable obj with grayObjects := obj :: heap.grayObjects }

/-- `mark_tval` counts the values that it marks. Buffers are not marked. -/
def Heap.markTval (heap : Heap) (v : TVal) : Heap :=
  let counted := { heap with markWorkLast := heap.markWorkLast + 1 }
  match v with
  | .object obj => if obj = 0 then counted else counted.markHobject obj
  | .string s => if s = 0 then counted else counted.setReachable s
  | .bigint b => if b = 0 then counted else counted.setReachable b
  | _ => counted

def Heap.mark (heap : Heap) : Mark → Heap
  | .value v => heap.markTval v
  | .object none => heap
  | .object (some obj) => heap.markHobject obj
  | .header none => heap
  | .header (some hdr) => heap.setReachable hdr

def Heap.markAll (heap : Heap) (marks : List Mark) : Heap := marks.foldl Heap.mark heap

/-- A turn of `drain_gray`, with the stack's last object first. -/
def Heap.scanGray (heap : Heap) : Heap :=
  match heap.grayObjects with
  | [] => heap
  | a :: gray =>
      let popped := { heap with grayObjects := gray }
      match heap.nodes a with
      | some (.object obj) => popped.markAll (obj.marks heap)
      | _ => { popped with strayed := true }

def Heap.drainGray : Nat → Heap → Heap
  | 0, heap => heap
  | fuel + 1, heap => Heap.drainGray fuel heap.scanGray

/-- `mark_roots`. An object goes on the stack once, so that the allocated ones bound the turns. -/
def Heap.markRoots (heap : Heap) : Heap :=
  Heap.drainGray heap.heapAllocated.length (heap.markAll heap.rootMarks)

end Boomkat.Collector
