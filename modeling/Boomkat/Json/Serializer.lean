import Boomkat.Json.Number
import Boomkat.Json.StringLiteral

/-! The serializer of JSON texts: `json_serialize_val` with its loops over elements and members,
and `JSON.stringify` with its gap.
-/

namespace Boomkat.Json

open Machine

/-- A value as the serializer reads it. The address of an array or object tells it from others. -/
inductive JsonTree
  | null
  | boolean (b : Bool)
  | number (d : Double)
  | fastint (n : Int)
  /-- A string by the bytes that store it. -/
  | string (data : List UInt8)
  /-- `undefined`, a function or a symbol. -/
  | omitted
  | array (addr : Nat) (elems : List JsonTree)
  /-- An object without own properties. -/
  | bareObject (addr : Nat)
  /-- An object with own properties, and those of them with an enumerable string key, in order. -/
  | object (addr : Nat) (members : List (List UInt8 × JsonTree))

/-- Why there is no text: an error of the class `TypeError`, or one of the class `RangeError` for
all other exits.
-/
inductive JsonFailure
  | circular
  | invalidLength
deriving DecidableEq

structure JsonSerializeCtx where
  out : List UInt8
  indentLevel : Nat
  depth : Nat
  /-- `visited_stack[:visited_count]` -/
  visited : List Nat
deriving DecidableEq

def jsonMaxDepth : Nat := 128

def nullText : List UInt8 := [0x6E, 0x75, 0x6C, 0x6C]

def trueText : List UInt8 := [0x74, 0x72, 0x75, 0x65]

def falseText : List UInt8 := [0x66, 0x61, 0x6C, 0x73, 0x65]

-----------------------------------------------------------------------------------------
-- The context
-----------------------------------------------------------------------------------------

def JsonSerializeCtx.append (ctx : JsonSerializeCtx) (bytes : List UInt8) : JsonSerializeCtx :=
  { ctx with out := ctx.out ++ bytes }

/-- The line break in front of a member and of a closing bracket, with the indentation. -/
def JsonSerializeCtx.breakLine (gap : List UInt8) (ctx : JsonSerializeCtx) : JsonSerializeCtx :=
  if 0 < gap.length then
    ctx.append (0x0A :: (List.range (ctx.indentLevel * gap.length)).map fun g =>
      gap.getD (g % gap.length) default)
  else ctx

/-- `json_stack_push`, which drops what does not fit. -/
def JsonSerializeCtx.push (ctx : JsonSerializeCtx) (addr : Nat) : JsonSerializeCtx :=
  if ctx.visited.length < jsonMaxDepth then { ctx with visited := ctx.visited ++ [addr] } else ctx

/-- `json_stack_pop` -/
def JsonSerializeCtx.pop (ctx : JsonSerializeCtx) : JsonSerializeCtx :=
  { ctx with visited := ctx.visited.dropLast }

/-- The way into an array or object. -/
def JsonSerializeCtx.enter (ctx : JsonSerializeCtx) (addr : Nat) (opening : UInt8)
    : Except JsonFailure JsonSerializeCtx :=
  if addr ∈ ctx.visited then .error .circular
  else
    let ctx := ctx.push addr
    .ok ({ ctx with indentLevel := ctx.indentLevel + 1 }.append [opening])

/-- The way out of it, behind its last element or member. -/
def JsonSerializeCtx.leave (gap : List UInt8) (ctx : JsonSerializeCtx) (closing : UInt8)
    : JsonSerializeCtx :=
  (({ ctx with indentLevel := ctx.indentLevel - 1 }.breakLine gap).append [closing]).pop

/-- The comma in front of all elements but the first, and the line break. -/
def JsonSerializeCtx.separate (gap : List UInt8) (ctx : JsonSerializeCtx) (first : Bool)
    : JsonSerializeCtx :=
  (if first then ctx else ctx.append [0x2C]).breakLine gap

def JsonSerializeCtx.writeString (ctx : JsonSerializeCtx) (data : List UInt8)
    : Except JsonFailure JsonSerializeCtx :=
  match jsonEscapeStringTo (fun _ => true) ctx.out data with
  | some out => .ok { ctx with out }
  | none => .error .invalidLength

/-- A nested value, one level deeper. -/
def JsonSerializeCtx.nested (serialize : JsonSerializeCtx → Except JsonFailure JsonSerializeCtx)
    (ctx : JsonSerializeCtx) : Except JsonFailure JsonSerializeCtx :=
  let ctx := { ctx with depth := ctx.depth + 1 }
  if ctx.depth > jsonMaxDepth then .error .invalidLength
  else (serialize ctx).map fun ctx => { ctx with depth := ctx.depth - 1 }

-----------------------------------------------------------------------------------------
-- Values
-----------------------------------------------------------------------------------------

/-- What `json_check_property` leaves out. -/
def JsonTree.omit : JsonTree → Bool
  | .omitted => true
  | _ => false

def digitBytes (n : Nat) : List UInt8 := (Nat.toDigits 10 n).map fun c => c.toNat.toUInt8

/-- `int_to_buf`, in a buffer that every integer fits into. -/
def intToBuf (n : Int) : List UInt8 :=
  if n < 0 then 0x2D :: digitBytes n.natAbs else digitBytes n.natAbs

/-- `json_serialize_array`, with the loop over its elements. -/
def jsonSerializeArray (gap : List UInt8) (addr len : Nat)
    (elements : JsonSerializeCtx → Except JsonFailure JsonSerializeCtx) (ctx : JsonSerializeCtx)
    : Except JsonFailure JsonSerializeCtx := do
  let ctx ← ctx.enter addr 0x5B
  if len = 0 then
    -- an early return, behind the increment of the indentation
    return (ctx.append [0x5D]).pop
  else
    let ctx ← elements ctx
    return ctx.leave gap 0x5D

/-- `json_serialize_object`, with the loop over its members. -/
def jsonSerializeObject (gap : List UInt8) (addr : Nat) (hasProps : Bool)
    (members : JsonSerializeCtx → Except JsonFailure JsonSerializeCtx) (ctx : JsonSerializeCtx)
    : Except JsonFailure JsonSerializeCtx := do
  let ctx ← ctx.enter addr 0x7B
  if !hasProps then
    return (ctx.append [0x7D]).pop
  else
    let ctx ← members ctx
    return ctx.leave gap 0x7D

mutual
/-- The shortest text of a finite double is left to `json_number_to_string`. -/
def jsonSerializeVal (numbers : Double → List UInt8) (gap : List UInt8)
    : JsonTree → JsonSerializeCtx → Except JsonFailure JsonSerializeCtx
  | .null, ctx | .omitted, ctx => .ok (ctx.append nullText)
  | .boolean b, ctx => .ok (ctx.append (if b then trueText else falseText))
  | .number d, ctx => .ok (ctx.append (if d.isFinite then numbers d else nullText))
  | .fastint n, ctx => .ok (ctx.append (intToBuf n))
  | .string data, ctx => ctx.writeString data
  | .array addr elems, ctx =>
      jsonSerializeArray gap addr elems.length (jsonSerializeElements numbers gap elems true) ctx
  | .bareObject addr, ctx => jsonSerializeObject gap addr false .ok ctx
  | .object addr members, ctx =>
      jsonSerializeObject gap addr true (jsonSerializeMembers numbers gap members true) ctx

/-- The loop of `json_serialize_array`. -/
def jsonSerializeElements (numbers : Double → List UInt8) (gap : List UInt8)
    : List JsonTree → Bool → JsonSerializeCtx → Except JsonFailure JsonSerializeCtx
  | [], _, ctx => .ok ctx
  | elem :: elems, first, ctx => do
      let ctx := ctx.separate gap first
      let ctx ← if elem.omit then .ok (ctx.append nullText)
        else ctx.nested (jsonSerializeVal numbers gap elem)
      jsonSerializeElements numbers gap elems false ctx

/-- The loop of `json_serialize_object`. -/
def jsonSerializeMembers (numbers : Double → List UInt8) (gap : List UInt8)
    : List (List UInt8 × JsonTree) → Bool → JsonSerializeCtx
      → Except JsonFailure JsonSerializeCtx
  | [], _, ctx => .ok ctx
  | (key, val) :: members, first, ctx =>
      if val.omit then jsonSerializeMembers numbers gap members first ctx
      else do
        let ctx ← (ctx.separate gap first).writeString key
        let ctx := ctx.append [0x3A]
        let ctx := if 0 < gap.length then ctx.append [0x20] else ctx
        let ctx ← ctx.nested (jsonSerializeVal numbers gap val)
        jsonSerializeMembers numbers gap members false ctx
end

-----------------------------------------------------------------------------------------
-- JSON.stringify
-----------------------------------------------------------------------------------------

/-- The argument for the gap: a number, without its fraction, or a string by its bytes. -/
inductive JsonSpace
  | number (n : Int)
  | string (data : List UInt8)

/-- Ten spaces or ten bytes at most. -/
def JsonSpace.gap : JsonSpace → List UInt8
  | .number n => List.replicate (min 10 (max n 0)).toNat 0x20
  | .string data => data.take 10

/-- The bytes of the document, or `undefined`. -/
def builtinJsonStringify (numbers : Double → List UInt8) (value : JsonTree)
    (space : Option JsonSpace) : Except JsonFailure (Option (List UInt8)) :=
  if value.omit then .ok none
  else
    (jsonSerializeVal numbers ((space.map JsonSpace.gap).getD []) value ⟨[], 0, 0, []⟩).map fun ctx =>
      some ctx.out

end Boomkat.Json
