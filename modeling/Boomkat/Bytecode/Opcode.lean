/-! Opcodes of the bytecode and the operand layout of each. -/

namespace Boomkat.Bytecode

-----------------------------------------------------------------------------------------
-- Operation codes
-----------------------------------------------------------------------------------------

/-- The operation codes in the order of the source enumeration. A trailing underscore
marks a source word that is a Lean keyword.
-/
inductive Opcode where
  | ldreg | ldconst | setconst | ldint | ldintx | ldundef | ldnull | ldtrue | ldfalse
  | ldthis | add | sub | mul | div | mod | exp | addi | subi | unp | unm | bnot | lnot
  | typeof | void | band | bor | bxor | shl | shr | ushr | eq | neq | seq | sneq | lt | le
  | gt | ge | instanceof | in_ | jump | ifTrue | ifFalse | getprop | getpropc
  | getpropCache | putprop | putpropNe | delprop | newobj | newarr | setalen | freezeobj
  | call | callProp | newObj | tailcall | ret | retundef | getvar | resolvevar
  | throwUnresolved | putvar | putvarAssign | declvar | declvarHoist | declglobalfunc
  | getglobal | putglobal | getglobalPrim | putglobalPrim | moveGg | typeofident | delvar
  | closure | getbound | initfor | nextfor | try_ | endtry | throw | throwRef | throwSyntax
  | catch_ | finally_ | endfinally | topropkey | tostr | nop | debugger | break_
  | continue_ | initset | initget | initseti | initprop | initpropn | classInitget
  | classInitset | classInitprop | csvari | pushLex | popLex | pushVar | popVar | putlex
  | putlexC | inittz | chkgloballex | chkglobalvar | chkglobalfunc | newregexp | arrsprd
  | spreadArg | fwdArgs | callS | callUndefThis | callVar | callGlobal | objsprd | objrest
  | setproto | getproto | putpropSuper | getpropSuper | superCall | superCallS | newtarget
  | loadResume | yield | yieldStar | yieldStarAsync | retGen | retundefGen | await
  | dynImport | genStart | inc | dec | putarg | newObjS | incVar | decVar | incGlobal
  | decGlobal | jmpNlt | jmpNle | jmpNgt | jmpNge | jmpLt | jmpLe | jmpGt | jmpGe | jmpSeq
  | jmpSneq | jmpLtG | getpropc2 | getpropcCached | requireObj | chkobj | chkiter
  | iterNextFast | iterClose | getIterAsync | iterCloseAsync | chkctor | chkProt
  | newPrivSym | addBrand | chkBrand | hasBrand | initpropPriv | getpropPrivate | tonumeric
  | importMeta | wide
  deriving DecidableEq, Repr

-----------------------------------------------------------------------------------------
-- Operand layouts
-----------------------------------------------------------------------------------------

/-- The operand layout of an instruction word. -/
inductive OpFormat where
  | abc | aBc | aSbx | wideAbc | wideSabc | none
  deriving DecidableEq, Repr

/-- The operand layout of each opcode. -/
def getOpFormat : Opcode → OpFormat
  | .ldconst | .ldintx | .setalen | .getvar | .resolvevar | .throwUnresolved
  | .typeofident | .putvar | .declvar | .declvarHoist | .declglobalfunc | .getglobal
  | .putglobal | .getglobalPrim | .putglobalPrim | .moveGg | .delvar | .closure
  | .getbound | .try_ | .putlex | .putlexC | .inittz | .chkgloballex | .chkglobalvar
  | .chkglobalfunc | .newregexp | .throwRef | .throwSyntax | .newPrivSym | .incVar
  | .decVar | .incGlobal | .decGlobal => .aBc
  | .ldint | .ifTrue | .ifFalse => .aSbx
  | .jump | .break_ | .continue_ => .wideSabc
  | .wide | .nop | .retundef | .retundefGen | .genStart | .debugger | .endtry | .endfinally
  | .pushLex | .popLex | .pushVar | .popVar | .inc | .dec => .none
  | _ => .abc

end Boomkat.Bytecode
