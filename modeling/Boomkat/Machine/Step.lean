import Boomkat.Foundation.Execution
import Boomkat.Foundation.Overwrite
import Boomkat.Machine.Arithmetic
import Boomkat.Machine.PropertyRead

/-! One dispatch of the interpreter on the frame of one function, and runs of it. -/

namespace Boomkat.Machine
open Boomkat.Foundation Boomkat.Bytecode

variable {W : Type} (rt : Runtime W)

/-- A frame about to execute the slot `pc`. -/
structure Frame (W : Type) where
  pc : Nat
  regs : Nat → Value
  catchers : List Catcher
  world : W

/-- How a frame ends: with a value, with a throw that no catcher took, or at a slot without
an instruction.
-/
inductive Ending (W : Type) where
  | returned (value : Value) (world : W)
  | raised (value : Value) (world : W)
  | stuck
  deriving DecidableEq

/-- A frame that runs or has ended. -/
inductive Status (W : Type) where
  | running (frame : Frame W)
  | ended (ending : Ending W)

/-- The effect of one instruction: register writes in order and the next control state, or
the end of the frame.
-/
inductive Action (W : Type) where
  | go (writes : List (Nat × Value)) (pc : Nat) (catchers : List Catcher) (world : W)
  | halt (ending : Ending W)

/-- The word at `pc` with its WIDE prefix expanded, and the slot after it. -/
def fetch (code : List Instruction) (pc : Nat) : Option (DecodedInsn × Nat) :=
  match code[pc]? with
  | none => none
  | some word =>
      if word.op = .wide then
        (code[pc + 1]?).map fun payload => (word.expand payload, pc + 2)
      else
        some (word.decode, pc + 1)

/-- The slot `offset` away from `pc`. Branch targets are never negative. -/
def branchTo (pc : Nat) (offset : Int) : Nat := (pc + offset).toNat

/-- Continue where a transfer leads, or end the frame with `leave`. -/
def Transfer.act (writes : List (Nat × Value)) (world : W) (leave : Ending W)
    : Transfer → Action W
  | .goto pc catchers => .go writes pc catchers world
  | .leave => .halt leave
  | .crash => .halt .stuck

/-- Throw out of an instruction that made `writes`. -/
def Runtime.raise (writes : List (Nat × Value)) (thrown : Value) (catchers : List Catcher)
    (world : W) : Action W :=
  (throwValue (rt.uncatchable world) thrown catchers).act writes world
    (.raised thrown world)

/-- Return from an instruction that made `writes`. -/
def returnFrom (writes : List (Nat × Value)) (value : Value) (fromGenerator : Bool)
    (next : Nat) (catchers : List Catcher) (world : W) : Action W :=
  (returnThrough value fromGenerator next catchers).act writes world (.returned value world)

/-- Store a completion in register `dst`. -/
def Runtime.store (dst next : Nat) (catchers : List Catcher) : Completion W → Action W
  | .value result behind world =>
      .go (behindWrites dst behind ++ [(dst, result)]) next catchers world
  | .thrown thrown written behind world =>
      rt.raise (behindWrites dst behind ++ written.toList.map fun value => (dst, value)) thrown
        catchers world

/-- Perform the outcome of an instruction. -/
def Runtime.conclude (next : Nat) (catchers : List Catcher) (outcome : Outcome W) : Action W :=
  match outcome.exit with
  | .next => .go outcome.writes next catchers outcome.world
  | .thrown thrown => rt.raise outcome.writes thrown catchers outcome.world
  | .returned value => returnFrom outcome.writes value true next catchers outcome.world

/-- Branch by `offset` when the condition holds. -/
def Runtime.branch (offset : Int) (next : Nat) (catchers : List Catcher)
    : Coercion W Bool → Action W
  | .ok taken world => .go [] (if taken then branchTo next offset else next) catchers world
  | .thrown thrown world => rt.raise [] thrown catchers world

/-- The value a producer computes from the registers it reads. -/
def Runtime.produce (insn : DecodedInsn) (regs : Nat → Value) (world : W) : Completion W :=
  match insn.op with
  | .ldreg => .value (regs insn.b) [] world
  | .ldconst => .value ((rt.constant insn.getBc).getD .undefined) [] world
  | .ldint => .value (.fastint insn.getSbc) [] world
  | .ldundef | .void => .value .undefined [] world
  | .ldnull => .value .null [] world
  | .ldtrue => .value (.boolean true) [] world
  | .ldfalse => .value (.boolean false) [] world
  | .add => rt.addValues (regs insn.b) (regs insn.c) world
  | .sub => rt.subValues (regs insn.b) (regs insn.c) world
  | .addi => rt.addImmediate (regs insn.b) insn.icharC world
  | .subi => rt.subImmediate (regs insn.b) insn.icharC world
  | .lt | .le | .gt | .ge =>
      Coercion.complete
        ((rt.compareValues insn.op (regs insn.b) (regs insn.c) world).bind
          fun result world => .ok (.boolean result) world)
  | .seq => .value (.boolean (rt.strictEquals (regs insn.b) (regs insn.c))) [] world
  | .sneq => .value (.boolean (!rt.strictEquals (regs insn.b) (regs insn.c))) [] world
  | .getprop => rt.getProp (regs insn.b) (regs insn.c) world
  | .getpropc => rt.getPropc (regs insn.b) ((rt.constant insn.c).getD .undefined) world
  | .getglobalPrim =>
      let (value, world) := rt.getGlobalPrim insn.getBc world
      .value value [] world
  | _ => rt.compute (producerImmediates insn) ((producerReads insn).map regs) world

/-- `TRY`: push a catcher. The next word holds the offset of the finally block. -/
def Runtime.enterTry (code : List Instruction) (insn : DecodedInsn) (frame : Frame W)
    (next : Nat) : Action W :=
  match code[next]? with
  | none => .halt .stuck
  | some slot =>
      let base := next + 1 - 2
      let finallyPc := if slot.getBc ≠ 0 then some (base + slot.getBc) else none
      let cat := Catcher.enter insn.a (base + insn.getBc) finallyPc (rt.lexEnv frame.world)
      .go [] (next + 1) (cat :: frame.catchers) frame.world

/-- The environment a catcher saved replaces the current one. -/
def Runtime.rebalance (cat : Catcher) (world : W) : W :=
  match cat.savedLexEnv with
  | some env => rt.restoreLexEnv env world
  | none => world

/-- `CATCH`: read the thrown value and pop the catcher unless a finally block needs it. -/
def Runtime.enterCatch (insn : DecodedInsn) (frame : Frame W) (next : Nat) : Action W :=
  match frame.catchers with
  | [] => .go [(insn.a, .undefined)] next [] frame.world
  | cat :: parents =>
      let rest :=
        if cat.finallyPc.isNone then parents
        else { cat with thrownVal := .undefined } :: parents
      .go [(insn.a, cat.thrownVal)] next rest (rt.rebalance cat frame.world)

/-- `FINALLY`: mark the catcher whose finally block starts here. -/
def Runtime.enterFinally (code : List Instruction) (frame : Frame W) (next : Nat)
    : Action W :=
  let world :=
    match frame.catchers with
    | [] => frame.world
    | cat :: _ => rt.rebalance cat frame.world
  .go [] next (markFinally code (next - 1) frame.catchers) world

/-- `ENDFINALLY`: pop the catcher and resume what it held. -/
def Runtime.leaveFinally (frame : Frame W) (next : Nat) : Action W :=
  match endFinally next frame.catchers with
  | .transfer transfer => transfer.act [] frame.world .stuck
  | .completed value => .halt (.returned value frame.world)
  | .rethrow thrown catchers => rt.raise [] thrown catchers frame.world

/-- `GETPROPC2`: two property reads with constant keys, the second from the data word. -/
def Runtime.readChain (code : List Instruction) (insn : DecodedInsn) (frame : Frame W)
    (next : Nat) : Action W :=
  match code[next]? with
  | none => .halt .stuck
  | some data =>
      let key index := (rt.constant index).getD .undefined
      rt.conclude (next + 1) frame.catchers
        (rt.getPropc2 insn.a data.a.toNat (frame.regs insn.b) (frame.regs insn.a) (key insn.c)
          (key data.c.toNat) frame.world)

/-- The opcodes whose handlers are not spelled out. -/
def Runtime.runService (insn : DecodedInsn) (frame : Frame W) (next : Nat) : Action W :=
  let reads := executeReads rt.toCount insn frame.regs
  rt.conclude next frame.catchers (rt.execute insn (reads.map frame.regs) frame.world)

/-- The effect of a decoded instruction; `next` is the slot after it. -/
def Runtime.dispatch (code : List Instruction) (insn : DecodedInsn) (frame : Frame W)
    (next : Nat) : Action W :=
  match insn.op with
  | .nop => .go [] next frame.catchers frame.world
  | .jump => .go [] (branchTo next insn.getSabc) frame.catchers frame.world
  | .ifTrue =>
      rt.branch insn.getSbc next frame.catchers
        (.ok (frame.regs insn.a).isTruthy frame.world)
  | .ifFalse =>
      rt.branch insn.getSbc next frame.catchers
        (.ok (!(frame.regs insn.a).isTruthy) frame.world)
  | .jmpNlt | .jmpNle | .jmpNgt | .jmpNge | .jmpLt | .jmpLe | .jmpGt | .jmpGe =>
      rt.branch insn.icharA next frame.catchers
        (rt.fusedBranch insn.op (frame.regs insn.b) (frame.regs insn.c) frame.world)
  | .jmpSeq =>
      rt.branch insn.icharA next frame.catchers
        (.ok (rt.strictEquals (frame.regs insn.b) (frame.regs insn.c)) frame.world)
  | .jmpSneq =>
      rt.branch insn.icharA next frame.catchers
        (.ok (!rt.strictEquals (frame.regs insn.b) (frame.regs insn.c)) frame.world)
  | .jmpLtG =>
      match code[next]? with
      | none => .halt .stuck
      | some name =>
          let (bound, world) := rt.loadBound name.getBc frame.world
          rt.branch insn.icharA (next + 1) frame.catchers
            (rt.fusedBranch .jmpLt (frame.regs insn.b) bound world)
  | .break_ | .continue_ =>
      (breakThrough (insn.op = .break_) (branchTo next insn.getSabc) frame.catchers).act
        [] frame.world .stuck
  | .try_ => rt.enterTry code insn frame next
  | .endtry =>
      match frame.catchers with
      | cat :: parents =>
          .go [] next (if cat.finallyPc.isNone then parents else cat :: parents) frame.world
      | [] => .go [] next [] frame.world
  | .catch_ => rt.enterCatch insn frame next
  | .finally_ => rt.enterFinally code frame next
  | .endfinally => rt.leaveFinally frame next
  | .throw => rt.raise [] (frame.regs insn.a) frame.catchers frame.world
  | .ret => returnFrom [] (frame.regs insn.a) false next frame.catchers frame.world
  | .retundef => returnFrom [] .undefined false next frame.catchers frame.world
  | .retGen => returnFrom [] (frame.regs insn.a) true next frame.catchers frame.world
  | .retundefGen => returnFrom [] .undefined true next frame.catchers frame.world
  | .putglobalPrim =>
      match rt.nameConstant insn.getBc with
      | some name =>
          .go [(insn.a, .undefined)] next frame.catchers
            (rt.writeGlobal name (frame.regs insn.a) frame.world)
      | none => .go [] next frame.catchers frame.world
  | .moveGg =>
      match code[next]? with
      | none => .halt .stuck
      | some source =>
          .go [] (next + 1) frame.catchers
            (rt.moveGlobal insn.getBc source.getBc frame.world)
  | .getpropc2 => rt.readChain code insn frame next
  | .iterNextFast =>
      match rt.iterNextFast (frame.regs insn.b) (frame.regs insn.c) frame.world with
      | .refused world => .go [] next frame.catchers world
      | .done world => .go [] (next + 1) frame.catchers world
      | .element value world => .go [(insn.a, value)] (next + 2) frame.catchers world
  | op =>
      if (producerOperands op).isSome then
        rt.store insn.a next frame.catchers (rt.produce insn frame.regs frame.world)
      else
        rt.runService insn frame next

/-- The effect of the instruction a frame is about to execute. -/
def Runtime.act (code : List Instruction) (frame : Frame W) : Action W :=
  match fetch code frame.pc with
  | none => .halt .stuck
  | some (insn, next) => rt.dispatch code insn frame next

/-- Perform an action on a register file. -/
def Action.perform (regs : Nat → Value) : Action W → Status W
  | .go writes pc catchers world =>
      .running
        { pc := pc, regs := overwrite regs writes, catchers := catchers, world := world }
  | .halt ending => .ended ending

/-- One dispatch; a frame that has ended stays as it is. -/
def Runtime.step (code : List Instruction) : Status W → Status W
  | .running frame => (rt.act code frame).perform frame.regs
  | .ended ending => .ended ending

/-- How a status has ended. -/
def Status.ending? : Status W → Option (Ending W)
  | .running _ => none
  | .ended ending => some ending

/-- The interpreter on one function's code. -/
def Runtime.machine (code : List Instruction) : Execution (Status W) (Ending W) where
  step := rt.step code
  result := Status.ending?
  step_ended := by
    intro status ending ended
    cases status with
    | running frame => simp [Status.ending?] at ended
    | ended _ => rfl

/-- A call of a function: its first slot, with no catchers. -/
def Status.entry (regs : Nat → Value) (world : W) : Status W :=
  .running { pc := 0, regs := regs, catchers := [], world := world }

end Boomkat.Machine
