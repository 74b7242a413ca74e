import Boomkat.Machine.Step

/-! A runtime for code that stays on the fast paths of the handlers: integers, booleans and
control flow. No service is called there, so each is a constant.
-/

namespace Boomkat.Machine
open Boomkat.Bytecode

/-- Services that always answer `undefined`, with the constants of `pool`. -/
def primitiveRuntime (pool : List Value) : Runtime Unit where
  ofInt _ := Double.nan
  addDouble _ _ := Double.nan
  subDouble _ _ := Double.nan
  mulDouble _ _ := Double.nan
  toPrimitive val _ := .ok val
  toNumberSlow _ := .ok Double.nan
  toStringSlow _ := .ok ""
  joinStrings ls rs := .ok (.string (ls ++ rs))
  bigintBinop _ _ _ := .ok .undefined
  relationalCompare _ _ := .ok (0, true)
  uncatchable _ := false
  constant index := pool[index]?
  isInterned _ _ := true
  isProxy _ _ := false
  proxyGet _ _ _ := .ok .undefined
  arrayLength _ _ := none
  isArguments _ _ := false
  isFunction _ _ := false
  hasOwn _ _ _ := false
  exoticElement _ _ _ := none
  lookup _ _ _ world := (.missing, world)
  isScripted _ _ := false
  callGetter _ _ := .ok .undefined
  frameOf _ _ _ := []
  stringProto _ := 0
  symbolProto _ := 0
  numberProto _ := 0
  boolProto _ := 0
  bigintProto _ := 0
  promotedLightfunc _ _ := none
  lightfuncProperty _ _ world := (.undefined, world)
  chainThroughAccessor _ _ _ _ _ _ world := { writes := [], world := world, exit := .next }
  charLength _ := 0
  newTypeError message world := (.string message, world)
  readPropertySlow _ _ := .value .undefined []
  iterNextFast _ _ := .refused
  hasVarIcs _ := true
  readGlobal _ world := (.missing, world)
  writeGlobal _ _ world := world
  lexEnv _ := none
  restoreLexEnv _ world := world
  toCount _ := 0
  compute _ _ := .value .undefined []
  execute _ _ world := { writes := [], world := world, exit := .next }

/-- A register file that holds the integers of a list and `undefined` elsewhere. -/
def integerRegs (values : List Int) (reg : Nat) : Value :=
  match values[reg]? with
  | some n => .fastint n
  | none => .undefined

end Boomkat.Machine
