import Boomkat.Machine.Runtime

/-! The catcher chain of a frame: how a throw, a return, a break and the end of a finally
block choose the next instruction.
-/

namespace Boomkat.Machine
open Boomkat.Bytecode

-----------------------------------------------------------------------------------------
-- Catchers
-----------------------------------------------------------------------------------------

/-- One active `TRY`. The flags of the source are separate fields; `finallyPc` and
`endfinallyPc` are absent where the source holds a null pointer.
-/
structure Catcher where
  catchEnabled : Bool
  finallyEnabled : Bool
  pendingReturn : Bool
  pendingBreak : Bool
  pendingContinue : Bool
  inFinally : Bool
  pendingReturnGen : Bool
  thrownVal : Value
  returnVal : Value
  catchPc : Nat
  finallyPc : Option Nat
  endfinallyPc : Option Nat
  pendingPc : Nat
  savedLexEnv : Option Nat
  deriving DecidableEq

/-- The catcher pushed by `TRY` with flag field `flags`. -/
def Catcher.enter (flags catchPc : Nat) (finallyPc : Option Nat) (lexEnv : Option Nat)
    : Catcher :=
  {
    catchEnabled := flags.testBit 0
    finallyEnabled := flags.testBit 1
    pendingReturn := flags.testBit 2
    pendingBreak := flags.testBit 3
    pendingContinue := flags.testBit 4
    inFinally := flags.testBit 5
    pendingReturnGen := flags.testBit 6
    thrownVal := .undefined
    returnVal := .undefined
    catchPc := catchPc
    finallyPc := finallyPc
    endfinallyPc := none
    pendingPc := 0
    savedLexEnv := lexEnv
  }

/-- Where an abrupt completion transfers control inside a frame. `leave` means that no
catcher of the frame takes it, and `crash` that the taken handler has no address.
-/
inductive Transfer where
  | goto (pc : Nat) (catchers : List Catcher)
  | leave
  | crash
  deriving DecidableEq

-----------------------------------------------------------------------------------------
-- Throwing
-----------------------------------------------------------------------------------------

/-- The search of `vm_throw_value` inside one frame. `skipped` holds the catchers passed
without popping; they stay on the chain when a finally block is taken.
-/
def throwSearch (uncatchable : Bool) (thrown : Value)
    : List Catcher → List Catcher → Transfer
  | _, [] => .leave
  | skipped, cat :: parents =>
      if cat.catchEnabled && !uncatchable then
        .goto cat.catchPc ({ cat with thrownVal := thrown, catchEnabled := false } :: parents)
      else if cat.finallyEnabled && !cat.inFinally then
        match cat.finallyPc with
        | some pc => .goto pc (skipped ++ { cat with thrownVal := thrown } :: parents)
        | none => .crash
      else if cat.inFinally then
        throwSearch uncatchable thrown [] parents
      else
        throwSearch uncatchable thrown (skipped ++ [cat]) parents

/-- `vm_throw_value` inside one frame. -/
def throwValue (uncatchable : Bool) (thrown : Value) (catchers : List Catcher) : Transfer :=
  throwSearch uncatchable thrown [] catchers

-----------------------------------------------------------------------------------------
-- Returning through finally blocks
-----------------------------------------------------------------------------------------

/-- `find_and_unlink_finally_catcher`: drop the catchers without a finally block. -/
def unlinkToFinally (catchers : List Catcher) : List Catcher :=
  catchers.dropWhile (fun cat => cat.finallyPc.isNone)

/-- The catcher part of `RET` and its generator forms. `leave` is a completed return. -/
def returnThrough (value : Value) (fromGenerator : Bool) (nextPc : Nat)
    (catchers : List Catcher) : Transfer :=
  match unlinkToFinally catchers with
  | [] => .leave
  | cat :: parents =>
      let saved := { cat with returnVal := value }
      if !cat.pendingReturn then
        let pending :=
          {
            saved with
            pendingReturn := true
            pendingReturnGen := cat.pendingReturnGen || fromGenerator
          }
        if !cat.inFinally then
          match cat.finallyPc with
          | some pc => .goto pc (pending :: parents)
          | none => .crash
        else
          .goto (cat.endfinallyPc.getD nextPc) (pending :: parents)
      else
        match cat.inFinally, cat.endfinallyPc with
        | true, some pc =>
            .goto pc
              ({ saved with pendingReturnGen := cat.pendingReturnGen || fromGenerator }
                :: parents)
        | _, _ => .goto nextPc (saved :: parents)

-----------------------------------------------------------------------------------------
-- Breaks and the end of a finally block
-----------------------------------------------------------------------------------------

/-- `BREAK` and `CONTINUE` to `target`: a finally block that would be skipped runs first. -/
def breakThrough (isBreak : Bool) (target : Nat) (catchers : List Catcher) : Transfer :=
  let leftFinally := (catchers.head?.map (·.inFinally)).getD false
  let chain := if leftFinally then catchers.tail else catchers
  let insideOuter := leftFinally && (chain.head?.map (·.inFinally)).getD false
  match chain with
  | [] => .goto target []
  | cat :: parents =>
      match !insideOuter && cat.finallyEnabled, cat.finallyPc with
      | true, some pc =>
          .goto pc
            ({
                cat with
                pendingPc := target
                pendingBreak := cat.pendingBreak || isBreak
                pendingContinue := cat.pendingContinue || !isBreak
              }
              :: parents)
      | _, _ => .goto target chain

/-- The result of `ENDFINALLY`: control inside the frame, a completed return, or a rethrow
that starts from the popped chain.
-/
inductive FinallyEnd where
  | transfer (next : Transfer)
  | completed (value : Value)
  | rethrow (thrown : Value) (catchers : List Catcher)
  deriving DecidableEq

/-- The pending return of a popped catcher moves to an enclosing finally block. -/
def resumeReturn (cat : Catcher) (nextPc : Nat) (parents : List Catcher) : FinallyEnd :=
  match parents with
  | [] => .completed cat.returnVal
  | outer :: rest =>
      match outer.finallyEnabled, outer.finallyPc with
      | true, some pc =>
          .transfer
            (.goto (if outer.inFinally then nextPc else pc)
              ({
                  outer with
                  returnVal := cat.returnVal
                  pendingReturn := true
                  pendingReturnGen := outer.pendingReturnGen || cat.pendingReturnGen
                }
                :: rest))
      | _, _ => .completed cat.returnVal

/-- The pending break or continue of a popped catcher moves to an enclosing finally block
that is not running yet, or completes.
-/
def resumeBreak (cat : Catcher) (parents : List Catcher) : FinallyEnd :=
  match parents with
  | [] => .transfer (.goto cat.pendingPc [])
  | outer :: rest =>
      match outer.finallyEnabled && !outer.inFinally, outer.finallyPc with
      | true, some pc =>
          .transfer
            (.goto pc
              ({
                  outer with
                  pendingPc := cat.pendingPc
                  pendingBreak := outer.pendingBreak || cat.pendingBreak
                  pendingContinue := outer.pendingContinue || !cat.pendingBreak
                }
                :: rest))
      | _, _ => .transfer (.goto cat.pendingPc parents)

/-- `ENDFINALLY`: pop the finally catcher and resume what it held. -/
def endFinally (nextPc : Nat) (catchers : List Catcher) : FinallyEnd :=
  match catchers with
  | [] => .transfer (.goto nextPc [])
  | cat :: parents =>
      if !cat.finallyEnabled then
        .transfer (.goto nextPc catchers)
      else if cat.pendingReturn then
        resumeReturn cat nextPc parents
      else if cat.pendingBreak || cat.pendingContinue then
        resumeBreak cat parents
      else if cat.thrownVal ≠ .undefined then
        .rethrow cat.thrownVal parents
      else
        .transfer (.goto nextPc parents)

-----------------------------------------------------------------------------------------
-- The end of a finally block in the code
-----------------------------------------------------------------------------------------

/-- The loop of `find_matching_endfinally` from slot `p` at nesting `depth`. -/
def endfinallyFrom (code : List Instruction) : Nat → Nat → Nat → Option Nat
  | 0, _, _ => none
  | fuel + 1, p, depth =>
      match code[p]? with
      | none => none
      | some word =>
          match word.op with
          | .try_ => endfinallyFrom code fuel (p + 2) depth
          | .finally_ => endfinallyFrom code fuel (p + 1) (depth + 1)
          | .endfinally =>
              if depth = 0 then some p else endfinallyFrom code fuel (p + 1) (depth - 1)
          | _ => endfinallyFrom code fuel (p + 1) depth

/-- `find_matching_endfinally` for the `FINALLY` marker at `finallyPc`. -/
def findMatchingEndfinally (code : List Instruction) (finallyPc : Nat) : Option Nat :=
  endfinallyFrom code code.length (finallyPc + 1) 0

/-- `FINALLY` on the catcher chain: mark the catcher in front. -/
def markFinally (code : List Instruction) (finallyPc : Nat) : List Catcher → List Catcher
  | [] => []
  | cat :: parents =>
      {
        cat with
        inFinally := true
        endfinallyPc := cat.endfinallyPc.or (findMatchingEndfinally code finallyPc)
        catchEnabled := false
      }
        :: parents

/-- The scan ends at an `ENDFINALLY`. -/
theorem endfinallyFrom_op {code : List Instruction} {fuel p depth ending : Nat}
    (found : endfinallyFrom code fuel p depth = some ending)
    : (code[ending]?).map Instruction.op = some .endfinally := by
  induction fuel generalizing p depth with
  | zero => cases found
  | succ fuel ih =>
      simp only [endfinallyFrom] at found
      split at found
      · cases found
      · rename_i word at_p
        split at found
        · exact ih found
        · exact ih found
        · rename_i closes
          split at found
          · cases found
            rw [at_p, Option.map_some, closes]
          · exact ih found
        · exact ih found

theorem findMatchingEndfinally_op {code : List Instruction} {finallyPc ending : Nat}
    (found : findMatchingEndfinally code finallyPc = some ending)
    : (code[ending]?).map Instruction.op = some .endfinally :=
  endfinallyFrom_op found

end Boomkat.Machine
