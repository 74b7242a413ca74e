import Boomkat.Machine.Step

/-! The exception instructions of one frame, with the rest of the program left open: an
instruction that is not one of them goes on somewhere or throws.
-/

namespace Boomkat.Exceptions
open Boomkat.Bytecode Boomkat.Machine

/-- How a frame ends. -/
inductive Halt where
  | returned (value : Value)
  | uncaught (thrown : Value)
  | crashed
  deriving DecidableEq

inductive Position where
  | at_ (pc : Nat)
  | ended (halt : Halt)
  deriving DecidableEq

/-- A handler that was entered: a catch clause with what it caught, or a finally block. -/
inductive Handled where
  | caught (pc : Nat) (thrown : Value)
  | finally_ (pc : Nat)
  deriving DecidableEq

/-- What the program does at an instruction: it goes on, throws or returns. -/
inductive Choice where
  | proceed (target : Nat)
  | throws (thrown : Value)
  | returns (value : Value)
  deriving DecidableEq

/-- A frame with its catcher chain; `handled` notes the handlers entered so far. -/
structure Script where
  position : Position
  cat : List Catcher
  handled : List Handled
  deriving DecidableEq

/-- Follow a transfer, which may leave the frame. -/
def Script.transfer (script : Script) (leave : Halt) : Transfer → Script
  | .goto pc cat => { script with position := .at_ pc, cat := cat }
  | .leave => { script with position := .ended leave, cat := [] }
  | .crash => { script with position := .ended .crashed, cat := [] }

/-- `vm_throw_value` inside the frame. -/
def Script.throw (script : Script) (thrown : Value) (cat : List Catcher) : Script :=
  script.transfer (.uncaught thrown) (throwValue false thrown cat)

/-- `TRY` pushes a catcher; the next word holds the offset of the finally block. -/
def Script.enterTry (script : Script) (code : List Instruction) (insn : DecodedInsn)
    (next : Nat) : Option Script :=
  (code[next]?).map fun slot =>
    let base := next + 1 - 2
    let finallyPc := if slot.getBc ≠ 0 then some (base + slot.getBc) else none
    {
      script with
      position := .at_ (next + 1)
      cat := Catcher.enter insn.a (base + insn.getBc) finallyPc none :: script.cat
    }

/-- `ENDTRY` pops a catcher without a finally block. -/
def Script.endTry (script : Script) (next : Nat) : Script :=
  {
    script with
    position := .at_ next
    cat :=
      match script.cat with
      | [] => []
      | cat :: parents => if cat.finallyPc.isNone then parents else cat :: parents
  }

/-- `CATCH` reads the thrown value and pops the catcher unless a finally block needs it. -/
def Script.enterCatch (script : Script) (pc next : Nat) : Script :=
  match script.cat with
  | [] =>
      {
        script with
        position := .at_ next
        handled := script.handled ++ [.caught pc .undefined]
      }
  | cat :: parents =>
      {
        position := .at_ next
        cat :=
          if cat.finallyPc.isNone then parents
          else { cat with thrownVal := .undefined } :: parents
        handled := script.handled ++ [.caught pc cat.thrownVal]
      }

/-- `FINALLY` marks the catcher in front. -/
def Script.enterFinally (script : Script) (code : List Instruction) (pc next : Nat) : Script :=
  {
    position := .at_ next
    cat := markFinally code (next - 1) script.cat
    handled := script.handled ++ [.finally_ pc]
  }

/-- `ENDFINALLY` pops the catcher in front and resumes what it held. -/
def Script.leaveFinally (script : Script) (next : Nat) : Script :=
  match endFinally next script.cat with
  | .transfer transfer => script.transfer .crashed transfer
  | .completed value => { script with position := .ended (.returned value), cat := [] }
  | .rethrow thrown parents => script.throw thrown parents

/-- The effect of the instruction `insn` at `pc`, for what the program does there. -/
def Script.dispatch (script : Script) (code : List Instruction) (pc : Nat)
    (insn : DecodedInsn) (next : Nat) (choice : Choice) : Option Script :=
  match insn.op with
  | .try_ => script.enterTry code insn next
  | .endtry => some (script.endTry next)
  | .catch_ => some (script.enterCatch pc next)
  | .finally_ => some (script.enterFinally code pc next)
  | .endfinally => some (script.leaveFinally next)
  | .break_ | .continue_ =>
      some (script.transfer .crashed
        (breakThrough (insn.op = .break_) (branchTo next insn.getSabc) script.cat))
  | .ret | .retundef =>
      match choice with
      | .returns value =>
          some (script.transfer (.returned value) (returnThrough value false next script.cat))
      | _ => none
  | .retGen | .retundefGen =>
      match choice with
      | .returns value =>
          some (script.transfer (.returned value) (returnThrough value true next script.cat))
      | _ => none
  | _ =>
      match choice with
      | .proceed target => some { script with position := .at_ target }
      | .throws thrown => some (script.throw thrown script.cat)
      | .returns _ => none

def Script.step (code : List Instruction) (script : Script) (choice : Choice) : Option Script :=
  match script.position with
  | .ended _ => none
  | .at_ pc =>
      (fetch code pc).bind fun (insn, next) => script.dispatch code pc insn next choice

end Boomkat.Exceptions
