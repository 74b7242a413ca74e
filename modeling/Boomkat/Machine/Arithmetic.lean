import Boomkat.Machine.Operands

/-! Addition, subtraction and comparison as their handlers compute them, with the fused
immediate and branch forms beside the plain ones.
-/

namespace Boomkat.Machine
open Boomkat.Bytecode

variable {W : Type} (rt : Runtime W)

-----------------------------------------------------------------------------------------
-- Addition and subtraction
-----------------------------------------------------------------------------------------

/-- `ToPrimitive` of an operand of `+`. -/
def Runtime.toAddend (val : Value) (world : W) : Coercion W Value :=
  if val.isObject then rt.toPrimitive val 0 world else .ok val world

/-- `ADD` on two primitives. -/
def Runtime.addPrimitives (left right : Value) (world : W) : Coercion W Value :=
  if left.isString || right.isString then
    rt.concat left right world
  else if left.isBigint || right.isBigint then
    rt.bigintBinop .add left right world
  else
    (rt.toNumber left world).bind fun x world =>
      (rt.toNumber right world).bind fun y world => .ok (.number (rt.addDouble x y)) world

/-- The handler of `ADD`. -/
def Runtime.addValues (left right : Value) (world : W) : Completion W :=
  match left, right with
  | .fastint x, .fastint y => .value (rt.fastintOrNumber (x + y)) [] world
  | .string text, .fastint n => (rt.joinStrings text (toString n) world).complete
  | .fastint n, .string text => (rt.joinStrings (toString n) text world).complete
  | _, _ =>
      Coercion.complete
        ((rt.toAddend left world).bind fun x world =>
          (rt.toAddend right world).bind fun y world => rt.addPrimitives x y world)

/-- `ADDI` on a primitive. -/
def Runtime.addImmediatePrimitive (val : Value) (imm : Int) (world : W) : Coercion W Value :=
  match val with
  | .string text => rt.joinStrings text (toString imm) world
  | _ =>
      if val.isBigint then rt.bigintBinop .add val (.fastint imm) world
      else
        (rt.toNumber val world).bind fun x world =>
          .ok (.number (rt.addDouble x (rt.ofInt imm))) world

/-- The handler of `ADDI`, whose right operand is the signed immediate `imm`. -/
def Runtime.addImmediate (left : Value) (imm : Int) (world : W) : Completion W :=
  match left with
  | .fastint x => .value (rt.fastintOrNumber (x + imm)) [] world
  | .string text => (rt.joinStrings text (toString imm) world).complete
  | _ =>
      Coercion.complete
        ((rt.toAddend left world).bind fun x world => rt.addImmediatePrimitive x imm world)

/-- The handler of `SUB`. When the conversion of the right operand throws to a handler of
the same frame, A still receives the difference with the NaN the conversion returned.
-/
def Runtime.subValues (left right : Value) (world : W) : Completion W :=
  if left.isBigint || right.isBigint then
    (rt.bigintBinop .sub left right world).complete
  else
    match left, right with
    | .fastint x, .fastint y => .value (rt.fastintOrNumber (x - y)) [] world
    | _, _ =>
        match rt.toNumber left world with
        | .thrown thrown world => .thrown thrown none [] world
        | .ok x world =>
            match rt.toNumber right world with
            | .thrown thrown world =>
                .thrown thrown (some (.number (rt.subDouble x Double.nan))) [] world
            | .ok y world => .value (.number (rt.subDouble x y)) [] world

/-- The handler of `SUBI`, whose right operand is the signed immediate `imm`. -/
def Runtime.subImmediate (left : Value) (imm : Int) (world : W) : Completion W :=
  match left with
  | .fastint x => .value (rt.fastintOrNumber (x - imm)) [] world
  | _ =>
      if left.isBigint then (rt.bigintBinop .sub left (.fastint imm) world).complete
      else
        Coercion.complete
          ((rt.toNumber left world).bind fun x world =>
            .ok (.number (rt.subDouble x (rt.ofInt imm))) world)

/-- `ADDI` computes what `ADD` does with the immediate as its right operand, unless the left
operand is a symbol or converts to one.
Witness: on a string both join the digits of the immediate, and the immediate itself needs no
conversion.
-/
theorem Runtime.addImmediate_eq {left : Value} (imm : Int) {world : W}
    (noSymbol : ∀ id world', rt.toAddend left world ≠ .ok (.symbol id) world')
    : rt.addImmediate left imm world = rt.addValues left (.fastint imm) world := by
  have primitive : ∀ val world, (∀ id, val ≠ .symbol id) →
      rt.addImmediatePrimitive val imm world
        = (rt.toAddend (.fastint imm) world).bind fun y world => rt.addPrimitives val y world := by
    intro val world plain
    cases val with
    | symbol id => exact absurd rfl (plain id)
    | _ => rfl
  have generic : (rt.toAddend left world).bind
        (fun x world => rt.addImmediatePrimitive x imm world)
      = (rt.toAddend left world).bind fun x world =>
          (rt.toAddend (.fastint imm) world).bind fun y world => rt.addPrimitives x y world := by
    cases converted : rt.toAddend left world with
    | thrown value world' => rfl
    | ok val world' =>
        exact primitive val world' fun id same => noSymbol id world' (same ▸ converted)
  cases left with
  | fastint x => rfl
  | string text => rfl
  | _ => exact congrArg Coercion.complete generic

/-- `SUBI` computes what `SUB` does with the immediate as its right operand. -/
theorem Runtime.subImmediate_eq (left : Value) (imm : Int) (world : W)
    : rt.subImmediate left imm world = rt.subValues left (.fastint imm) world := by
  cases left with
  | fastint x => rfl
  | bigint x => rfl
  | _ =>
    simp only [subImmediate, subValues, Value.isBigint, Bool.or_self, Bool.false_eq_true,
      if_false]
    cases rt.toNumber _ world <;> rfl

-----------------------------------------------------------------------------------------
-- Comparisons
-----------------------------------------------------------------------------------------

/-- An order comparison of integers, for the opcodes `LT`, `LE`, `GT` and `GE`. -/
def compareInts (op : Opcode) (x y : Int) : Bool :=
  match op with
  | .lt => decide (x < y)
  | .le => decide (x ≤ y)
  | .gt => decide (x > y)
  | _ => decide (x ≥ y)

/-- An order comparison of doubles, for the opcodes `LT`, `LE`, `GT` and `GE`. -/
def compareDoubles (op : Opcode) (x y : Double) : Bool :=
  match op with
  | .lt => Double.lt x y
  | .le => Double.le x y
  | .gt => Double.lt y x
  | _ => Double.le y x

/-- The handler of `LT`, `LE`, `GT` and `GE`. -/
def Runtime.compareValues (op : Opcode) (left right : Value) (world : W)
    : Coercion W Bool :=
  match left, right with
  | .fastint x, .fastint y => .ok (compareInts op x y) world
  | _, _ =>
      if left.isNumeric && right.isNumeric then
        .ok (compareDoubles op (rt.numericToDouble left) (rt.numericToDouble right)) world
      else
        (rt.relationalCompare left right world).bind fun (cmp, isUndef) world =>
          .ok (if isUndef then false else compareInts op cmp 0) world

/-- The flags `cmp_lt`, `cmp_le` and `cmp_undef` of the fused compare-and-branch handler. -/
def Runtime.orderFlags (left right : Value) (world : W)
    : Coercion W (Bool × Bool × Bool) :=
  match left, right with
  | .fastint x, .fastint y => .ok (decide (x < y), decide (x ≤ y), false) world
  | _, _ =>
      if left.isNumeric && right.isNumeric then
        let x := rt.numericToDouble left
        let y := rt.numericToDouble right
        .ok (Double.lt x y, Double.le x y, false) world
      else
        (rt.relationalCompare left right world).bind fun (cmp, isUndef) world =>
          .ok (decide (cmp < 0), decide (cmp ≤ 0), isUndef) world

/-- The opcode's `cmp_result` and `branch_on` in the fused compare-and-branch handler. -/
def fusedResult (op : Opcode) (cmpLt cmpLe : Bool) : Bool × Bool :=
  match op with
  | .jmpNlt => (cmpLt, false)
  | .jmpNle => (cmpLe, false)
  | .jmpNgt => (!cmpLe, false)
  | .jmpNge => (!cmpLt, false)
  | .jmpLt => (cmpLt, true)
  | .jmpLe => (cmpLe, true)
  | .jmpGt => (!cmpLe, true)
  | _ => (!cmpLt, true)

/-- Whether a fused compare-and-branch jumps. -/
def Runtime.fusedBranch (op : Opcode) (left right : Value) (world : W) : Coercion W Bool :=
  (rt.orderFlags left right world).bind fun (cmpLt, cmpLe, cmpUndef) world =>
    let (result, branchOn) := fusedResult op cmpLt cmpLe
    .ok ((if cmpUndef then false else result) == branchOn) world

-----------------------------------------------------------------------------------------
-- Primitive-only globals
-----------------------------------------------------------------------------------------

/-- The name in a constant slot, when the slot exists and holds a string. -/
def Runtime.nameConstant (index : Nat) : Option Value :=
  (rt.constant index).filter Value.isString

/-- The value `GETGLOBAL_PRIM` reads. -/
def Runtime.getGlobalPrim (index : Nat) (world : W) : Value × W :=
  match rt.nameConstant index with
  | none => (.undefined, world)
  | some name =>
      match rt.readGlobal name world with
      | (.holds value, world) => (value, world)
      | (_, world) => (.undefined, world)

/-- The copy `MOVE_GG` makes. Without inline-cache storage, a name or a source slot it does
nothing.
-/
def Runtime.moveGlobal (dst src : Nat) (world : W) : W :=
  match rt.nameConstant dst, rt.nameConstant src, rt.hasVarIcs world with
  | some dstName, some srcName, true =>
      match rt.readGlobal srcName world with
      | (.holds value, world) => rt.writeGlobal dstName value world
      | (.uninitialized, world) => rt.writeGlobal dstName .undefined world
      | (.missing, world) => world
  | _, _, _ => world

/-- The right operand `JMP_LT_G` compares with. -/
def Runtime.loadBound (index : Nat) (world : W) : Value × W :=
  if rt.hasVarIcs world then rt.getGlobalPrim index world else (.undefined, world)

end Boomkat.Machine
