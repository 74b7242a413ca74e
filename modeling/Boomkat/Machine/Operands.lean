import Boomkat.Machine.Catcher

/-! The registers each instruction reads, from the handlers of the interpreter. -/

namespace Boomkat.Machine
open Boomkat.Bytecode

-----------------------------------------------------------------------------------------
-- Value producers
-----------------------------------------------------------------------------------------

/-- The operand fields of a value producer `A = f(B, C)` that its handler reads as
registers. Any other opcode has no entry.
-/
def producerOperands : Opcode → Option (Bool × Bool)
  | .ldconst | .ldint | .ldundef | .ldnull | .ldtrue | .ldfalse | .ldthis | .void | .getvar
  | .getbound | .getglobal | .getglobalPrim | .typeofident => some (false, false)
  | .ldreg | .addi | .subi | .unp | .unm | .bnot | .lnot | .typeof | .getproto
  | .getpropc => some (true, false)
  | .add | .sub | .mul | .div | .mod | .exp | .band | .bor | .bxor | .shl | .shr | .ushr
  | .eq | .neq | .seq | .sneq | .lt | .le | .gt | .ge | .instanceof | .in_
  | .getprop => some (true, true)
  | _ => none

/-- The registers a producer reads. -/
def producerReads (insn : DecodedInsn) : List Nat :=
  match producerOperands insn.op with
  | some (readsB, readsC) => (if readsB then [insn.b] else []) ++ if readsC then [insn.c] else []
  | none => []

/-- What a producer's handler sees besides the values it reads: its immediates. -/
def producerImmediates (insn : DecodedInsn) : DecodedInsn :=
  match producerOperands insn.op with
  | some (readsB, readsC) =>
      {
        insn with
        a := 0
        b := if readsB then 0 else insn.b
        c := if readsC then 0 else insn.c
      }
  | none => insn

-----------------------------------------------------------------------------------------
-- Other opcodes
-----------------------------------------------------------------------------------------

/-- Opcodes without a spelled-out handler whose field A is not read as a register: a mere
destination, an immediate, or unused.
-/
def ignoresA : Opcode → Bool
  | .getpropcCached | .getpropCache | .delprop | .newobj | .newarr | .newregexp | .call
  | .callProp | .newObj | .callUndefThis | .callVar | .callGlobal | .callS | .newObjS
  | .superCall | .superCallS | .tailcall | .resolvevar | .delvar | .closure | .nextfor
  | .getpropSuper | .getpropPrivate | .newtarget | .loadResume | .dynImport | .importMeta
  | .tonumeric | .newPrivSym | .getIterAsync | .spreadArg | .fwdArgs | .putarg | .incVar
  | .decVar | .incGlobal | .decGlobal | .csvari | .inittz | .chkgloballex | .chkglobalvar
  | .chkglobalfunc | .debugger | .endtry | .pushLex | .popLex | .pushVar | .popVar
  | .genStart | .throwRef | .throwSyntax | .wide => true
  | _ => false

/-- Opcodes without a spelled-out handler that read register B. -/
def readsB : Opcode → Bool
  | .getpropcCached | .getpropCache | .putprop | .putpropNe | .putpropSuper | .getpropSuper
  | .delprop | .arrsprd | .objrest | .setproto | .initfor | .initget | .initset | .initseti
  | .initprop | .initpropn | .classInitget | .classInitset | .classInitprop | .chkiter
  | .getIterAsync | .addBrand | .chkBrand | .hasBrand | .initpropPriv | .getpropPrivate
  | .yieldStar | .yieldStarAsync | .dynImport | .tonumeric | .putarg | .spreadArg
  | .fwdArgs => true
  | _ => false

/-- Opcodes without a spelled-out handler that read register C. -/
def readsC : Opcode → Bool
  | .getpropCache | .putprop | .putpropNe | .putpropSuper | .getpropSuper | .delprop
  | .arrsprd | .objsprd | .objrest | .initget | .initset | .initseti | .initprop
  | .initpropn | .classInitget | .classInitset | .classInitprop | .initpropPriv
  | .getpropPrivate | .putarg | .spreadArg | .fwdArgs | .nextfor | .callS | .newObjS
  | .superCallS => true
  | _ => false

/-- The argument count a spread call reads from its count register. -/
def argCount (toCount : Double → Nat) : Value → Nat
  | .fastint n => toUint n
  | .number d => toCount d
  | _ => 0

/-- The registers of the callee, receiver and arguments that a call reads besides its
operand fields. A spread call takes the number of arguments from register C.
-/
def callWindow (toCount : Double → Nat) (insn : DecodedInsn) (regs : Nat → Value)
    : List Nat :=
  match insn.op with
  | .call | .newObj | .superCall => List.range' insn.b (insn.c + 2)
  | .callUndefThis => insn.b :: List.range' (insn.b + 2) insn.c
  | .callVar | .callGlobal => List.range' (insn.a + 2) insn.b
  | .callS | .newObjS | .superCallS =>
      List.range' insn.b (argCount toCount (regs insn.c) + 2)
  | _ => []

/-- The registers read by an opcode without a spelled-out handler. -/
def executeReads (toCount : Double → Nat) (insn : DecodedInsn) (regs : Nat → Value)
    : List Nat :=
  (if ignoresA insn.op then [] else [insn.a])
    ++ (if readsB insn.op then [insn.b] else [])
    ++ (if readsC insn.op then [insn.c] else [])
    ++ callWindow toCount insn regs

/-- The registers an instruction reads. -/
def registerReads (toCount : Double → Nat) (insn : DecodedInsn) (regs : Nat → Value)
    : List Nat :=
  match insn.op with
  | .nop | .jump | .break_ | .continue_ | .try_ | .endtry | .catch_ | .finally_
  | .endfinally | .retundef | .retundefGen | .moveGg => []
  | .ifTrue | .ifFalse | .ret | .retGen | .throw | .putglobalPrim => [insn.a]
  | .jmpNlt | .jmpNle | .jmpNgt | .jmpNge | .jmpLt | .jmpLe | .jmpGt | .jmpGe | .jmpSeq
  | .jmpSneq | .iterNextFast => [insn.b, insn.c]
  | .jmpLtG => [insn.b]
  | .getpropc2 => [insn.a, insn.b]
  | op =>
      if (producerOperands op).isSome then producerReads insn
      else executeReads toCount insn regs

/-- Agreement on the registers an instruction reads fixes which registers these are.
Witness: only a spread call consults a register, and it is its own operand C.
-/
theorem registerReads_congr (toCount : Double → Nat) (insn : DecodedInsn)
    {regs other : Nat → Value}
    (agree : ∀ r ∈ registerReads toCount insn regs, regs r = other r)
    : registerReads toCount insn other = registerReads toCount insn regs := by
  have window : callWindow toCount insn other = callWindow toCount insn regs
      ∨ registerReads toCount insn other = registerReads toCount insn regs := by
    by_cases spread : insn.op = .callS ∨ insn.op = .newObjS ∨ insn.op = .superCallS
    · left
      have count : regs insn.c = other insn.c := by
        have counted : readsC insn.op = true := by
          rcases spread with op | op | op <;> rw [op] <;> rfl
        have reads : registerReads toCount insn regs = executeReads toCount insn regs := by
          unfold registerReads
          rcases spread with op | op | op <;> rw [op] <;> rfl
        apply agree
        rw [reads]
        simp [executeReads, counted]
      rcases spread with op | op | op <;> simp [callWindow, op, count]
    · left
      rw [not_or, not_or] at spread
      obtain ⟨notCall, notNew, notSuper⟩ := spread
      unfold callWindow
      split
      case h_7 op => exact absurd op notCall
      case h_8 op => exact absurd op notNew
      case h_9 op => exact absurd op notSuper
      all_goals rfl
  rcases window with same | same
  · unfold registerReads executeReads
    rw [same]
  · exact same

end Boomkat.Machine
