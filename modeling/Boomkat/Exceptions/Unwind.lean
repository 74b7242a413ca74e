import Boomkat.Foundation.Execution
import Boomkat.Machine.Step

/-! A throw over the frames of the activation chain and the native code between them: the search of
`vm_throw_value`, the finally blocks it stops at, and what becomes of an error that comes back from
a call of script.
-/

namespace Boomkat.Exceptions
open Boomkat.Foundation Boomkat.Bytecode Boomkat.Machine

/-- What of an activation a throw reads. -/
structure Activation where
  code : List Instruction
  cat : List Catcher
  isAsync : Bool

/-- Native code that has called script through `call_fn`, by what it does where the call leaves an
error. An instruction or a builtin that `rethrows` does so in the frame that it runs for (it clears
`has_error` and calls `vm_throw_value`, or sets `should_throw` for the `CALL` to do it). One that
`takes` the error goes on as after a call without one: `builtin_promise_constructor` rejects the
promise and returns it, `global_proto_lookup` reports a miss. `drain_microtasks` tests
`uncatchable_throw` itself behind each job.
-/
inductive NativeCall where
  | rethrows
  | takes
  | drains
  deriving DecidableEq

/-- The stack, innermost first: activations, and the native code at the bottom of each `Vm.run`. -/
inductive CallFrame where
  | script (act : Activation)
  | native (call : NativeCall)

/-- Where `vm_throw_value` leads. -/
inductive Throw where
  | handled (pc : Nat) (act : Activation) (callers : List CallFrame)
  | absorbed (callers : List CallFrame)
  | uncaught
  | crash

/-- The end of a job: an uncatchable throw ends the drain, and `Vm.execute` and the host test the
flag behind it, where a builtin that started the drain does not.
-/
def endJob (uncatchable : Bool) (callers : List CallFrame) : Throw :=
  if uncatchable && callers.isEmpty then .uncaught else .absorbed callers

/-- `vm_throw_value`: the frames above the one with the handler are popped, and an async frame
takes what is not uncatchable. The chain of a `Vm.run` ends at native code.
-/
def throwAcross (uncatchable : Bool) (thrown : Value) : List CallFrame → Throw
  | [] => .uncaught
  | .script act :: callers =>
      match throwValue uncatchable thrown act.cat with
      | .goto pc cat => .handled pc { act with cat := cat } callers
      | .leave =>
          if act.isAsync && !uncatchable then .absorbed callers
          else throwAcross uncatchable thrown callers
      | .crash => .crash
  | .native .rethrows :: callers => throwAcross uncatchable thrown callers
  | .native .takes :: .native .drains :: callers => endJob uncatchable callers
  | .native .takes :: callers => .absorbed callers
  | .native .drains :: callers => endJob uncatchable callers

/-- What the engine is about to do: throw in the top frame, execute a slot of it, or go on in it
behind a call that took an error.
-/
inductive Control where
  | raising (thrown : Value)
  | at_ (pc : Nat)
  | resumed
  | host
  | lost
  deriving DecidableEq

/-- A throw on its way. `entered` is a note of the finally blocks entered so far, each with the
number of frames below its own.
-/
structure Unwinding where
  control : Control
  frames : List CallFrame
  uncatchableThrow : Bool
  entered : List (Nat × Nat)

/-- The instruction at a slot of the top frame. A finally block that does not transfer control
itself goes from its `FINALLY` to its `ENDFINALLY` and leaves the catchers as they are.
-/
def Unwinding.dispatch (state : Unwinding) (pc : Nat) (act : Activation)
    (callers : List CallFrame) : Unwinding :=
  match (act.code[pc]?).map Instruction.op with
  | some .finally_ =>
      {
        state with
        control :=
          match findMatchingEndfinally act.code pc with
          | some ending => .at_ ending
          | none => .lost
        frames := .script { act with cat := markFinally act.code pc act.cat } :: callers
        entered := state.entered ++ [(callers.length, pc)]
      }
  | some .endfinally =>
      match endFinally (pc + 1) act.cat with
      | .rethrow thrown parents =>
          {
            state with
            control := .raising thrown
            frames := .script { act with cat := parents } :: callers
          }
      | .transfer (.goto target cat) =>
          {
            state with
            control := .at_ target
            frames := .script { act with cat := cat } :: callers
          }
      | .transfer .leave | .transfer .crash | .completed _ => { state with control := .lost }
  | _ => state

/-- One step on the way to the host. A state that is at another instruction is where the script
goes on.
-/
def Unwinding.step (state : Unwinding) : Unwinding :=
  match state.control with
  | .raising thrown =>
      match throwAcross state.uncatchableThrow thrown state.frames with
      | .handled pc act callers =>
          { state with control := .at_ pc, frames := .script act :: callers }
      | .uncaught => { state with control := .host, frames := [] }
      | .absorbed callers => { state with control := .resumed, frames := callers }
      | .crash => { state with control := .lost, frames := [] }
  | .at_ pc =>
      match state.frames with
      | .script act :: callers => state.dispatch pc act callers
      | _ => state
  | .resumed | .host | .lost => state

/-- The throw of an interrupt, whose error is an object. -/
def interrupted (frames : List CallFrame) (error : Nat) : Unwinding where
  control := .raising (.object error)
  frames := frames
  uncatchableThrow := true
  entered := []

end Boomkat.Exceptions
