import Boomkat.Foundation.Replay
import Mathlib.Algebra.Group.Nat.Defs
import Mathlib.Logic.Function.Basic

/-! `Promise.all` and `Promise.allSettled`: the loop over the inputs, the functions handed to each
input, and what their callers are promised.
-/

namespace Boomkat.Promise
open Boomkat.Foundation

variable {V : Type}

inductive CombinatorKind where
  | all
  | allSettled
  deriving DecidableEq, Repr

/-- What a slot of the values array holds. `undefined` marks a hole. A JavaScript value is an
`Option V`, with `none` for `undefined`.
-/
inductive Stored (V : Type) where
  | undefined
  | value (val : V)
  | fulfilled (val : Option V)
  | rejected (reason : Option V)
  deriving DecidableEq, Repr

/-- A call of a function of the outer capability: the resolve function with the values array as
it is then, or the reject function.
-/
inductive CapabilityCall (V : Type) where
  | resolve (arrLen : Nat) (arr : Nat → Stored V)
  | reject (reason : Option V)

/-- One call of a combinator: the state object that the element functions share, their
already-called flags, the values array, and the loop. `calls` records the calls of the outer
capability.
-/
structure Combinator (V : Type) where
  kind : CombinatorKind
  remaining : Int
  rejected : Bool
  idx : Nat
  looping : Bool
  resolveCalled : Nat → Bool
  rejectCalled : Nat → Bool
  arr : Nat → Stored V
  arrLen : Nat
  calls : List (CapabilityCall V)

/-- The state before the loop. -/
def Combinator.init (kind : CombinatorKind) : Combinator V :=
  {
    kind := kind
    remaining := 1
    rejected := false
    idx := 0
    looping := true
    resolveCalled := fun _ => false
    rejectCalled := fun _ => false
    arr := fun _ => .undefined
    arrLen := 0
    calls := []
  }

/-- The answers of the allocator in an element function: for the already-called flag, for the
record of an outcome, and for the array.
-/
structure ElementMemory where
  marks : Bool
  record : Bool
  grows : Bool
  deriving DecidableEq, Repr

/-- What can happen. The loop takes the next input and calls its `then`, comes to the end of the
inputs, or is left, with a reason to reject for or without. An input calls the first or the
second of the functions handed to it.
-/
inductive CombinatorEvent (V : Type) where
  | next
  | finish
  | abrupt (reason : Option (Option V))
  | fulfil (idx : Nat) (val : Option V) (memory : ElementMemory)
  | reject (idx : Nat) (reason : Option V) (memory : ElementMemory)

/-- `set_array_idx`, and `array_set_length` where the array is too short. -/
def Combinator.setArrayIdx (combinator : Combinator V) (idx : Nat) (val : Stored V) (grows : Bool)
    : Combinator V :=
  let slot := idx % 2 ^ 32
  {
    combinator with
    arr :=
      if grows && slot < 2 ^ 31 then Function.update combinator.arr slot val
      else combinator.arr
    arrLen :=
      if combinator.arrLen < (slot + 1) % 2 ^ 32 then (slot + 1) % 2 ^ 32
      else combinator.arrLen
  }

/-- One less remains, and with none the outer capability is resolved. -/
def Combinator.countDown (combinator : Combinator V) (alreadyRejected : Bool) : Combinator V :=
  let remaining := combinator.remaining - 1
  if remaining = 0 && !alreadyRejected then
    {
      combinator with
      remaining := remaining
      calls := combinator.calls ++ [.resolve combinator.arrLen combinator.arr]
    }
  else { combinator with remaining := remaining }

/-- `builtin_promise_all_resolve_element` -/
def Combinator.allResolveElement (combinator : Combinator V) (idx : Nat) (val : Option V)
    (memory : ElementMemory) : Combinator V :=
  if combinator.resolveCalled idx then combinator
  else
    let called :=
      {
        combinator with
        resolveCalled := Function.update combinator.resolveCalled idx memory.marks
      }
    let entry := match val with
      | none => .undefined
      | some val => .value val
    (called.setArrayIdx idx entry memory.grows).countDown called.rejected

/-- `builtin_promise_allsettled_resolve_element` -/
def Combinator.allsettledResolveElement (combinator : Combinator V) (idx : Nat) (val : Option V)
    (memory : ElementMemory) : Combinator V :=
  if combinator.resolveCalled idx then combinator
  else
    let called :=
      {
        combinator with
        resolveCalled := Function.update combinator.resolveCalled idx memory.marks
      }
    let noted :=
      if memory.record then called.setArrayIdx idx (.fulfilled val) memory.grows else called
    noted.countDown false

/-- `builtin_promise_allsettled_reject_element` -/
def Combinator.allsettledRejectElement (combinator : Combinator V) (idx : Nat)
    (reason : Option V) (memory : ElementMemory) : Combinator V :=
  if combinator.rejectCalled idx then combinator
  else
    let called :=
      {
        combinator with
        rejectCalled := Function.update combinator.rejectCalled idx memory.marks
      }
    let noted :=
      if memory.record then called.setArrayIdx idx (.rejected reason) memory.grows else called
    noted.countDown false

/-- One event. The second function that `Promise.all` hands to an input is the reject function
of the outer capability itself.
-/
def Combinator.step (combinator : Combinator V) : CombinatorEvent V → Option (Combinator V)
  | .next =>
      if combinator.looping then
        some
          {
            combinator with
            idx := combinator.idx + 1
            remaining := combinator.remaining + 1
          }
      else none
  | .finish =>
      if combinator.looping then some ({ combinator with looping := false }.countDown false)
      else none
  | .abrupt reason =>
      if combinator.looping then
        some
          {
            combinator with
            looping := false
            calls := combinator.calls ++ (reason.map .reject).toList
          }
      else none
  | .fulfil idx val memory =>
      if idx < combinator.idx then
        match combinator.kind with
        | .all => some (combinator.allResolveElement idx val memory)
        | .allSettled => some (combinator.allsettledResolveElement idx val memory)
      else none
  | .reject idx reason memory =>
      if idx < combinator.idx then
        match combinator.kind with
        | .all => some { combinator with calls := combinator.calls ++ [.reject reason] }
        | .allSettled => some (combinator.allsettledRejectElement idx reason memory)
      else none

-----------------------------------------------------------------------------------------
-- What callers are promised
-----------------------------------------------------------------------------------------

/-- What an input reports by its first call. -/
inductive Outcome (V : Type) where
  | fulfilled (val : Option V)
  | rejected (reason : Option V)
  deriving DecidableEq, Repr

/-- How the outer capability is settled: with the outcomes of all inputs or rejected. -/
inductive Settlement (V : Type) where
  | fulfilled (outcomes : List (Outcome V))
  | rejected (reason : Option V)
  deriving DecidableEq, Repr

/-- What is promised to callers, from the first calls of the inputs alone. -/
structure Expected (V : Type) where
  finished : Bool
  count : Nat
  first : Nat → Option (Outcome V)
  settlement : Option (Settlement V)

def Expected.init : Expected V :=
  { finished := false, count := 0, first := fun _ => none, settlement := none }

/-- Every input has called. -/
def Expected.complete (expected : Expected V) : Bool :=
  expected.finished && (List.range expected.count).all fun idx => (expected.first idx).isSome

/-- With all inputs in, the outer capability is fulfilled. -/
def Expected.settle (expected : Expected V) : Expected V :=
  if expected.settlement.isNone && expected.complete then
    {
      expected with
      settlement :=
        some (.fulfilled ((List.range expected.count).filterMap expected.first))
    }
  else expected

/-- The first rejection settles what is not settled. -/
def Expected.rejectWith (expected : Expected V) (reason : Option V) : Expected V :=
  { expected with settlement := expected.settlement <|> some (.rejected reason) }

/-- A first call is noted. -/
def Expected.note (expected : Expected V) (idx : Nat) (outcome : Outcome V) : Expected V :=
  { expected with first := Function.update expected.first idx (expected.first idx <|> some outcome) }

/-- What each event means for the promise. -/
def Expected.step (kind : CombinatorKind) (expected : Expected V)
    : CombinatorEvent V → Expected V
  | .next => { expected with count := expected.count + 1 }
  | .finish => { expected with finished := true }.settle
  | .abrupt reason => match reason with
      | some reason => expected.rejectWith reason
      | none => expected
  | .fulfil idx val _ => (expected.note idx (.fulfilled val)).settle
  | .reject idx reason _ => match kind with
      | .all => (expected.note idx (.rejected reason)).rejectWith reason
      | .allSettled => (expected.note idx (.rejected reason)).settle

/-- The combinator beside its promise. -/
def observedStep (observed : Combinator V × Expected V) (event : CombinatorEvent V)
    : Option (Combinator V × Expected V) :=
  (observed.1.step event).map fun next => (next, observed.2.step observed.1.kind event)

/-- The element of the values array for an outcome. -/
def Outcome.entry (kind : CombinatorKind) : Outcome V → Stored V
  | .fulfilled val => match kind, val with
      | .all, none => .undefined
      | .all, some val => .value val
      | .allSettled, val => .fulfilled val
  | .rejected reason => .rejected reason

end Boomkat.Promise
