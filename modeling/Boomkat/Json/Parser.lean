import Boomkat.Foundation.Members
import Boomkat.Json.Number
import Boomkat.Json.StringLiteral

/-! The parser of JSON texts: `json_parse_value` with its loops over elements and members. -/

namespace Boomkat.Json

open Machine Foundation

/-- The value that the parser builds. A string is stored by its bytes. -/
inductive JsonVal
  | null
  | boolean (b : Bool)
  | number (val : TVal)
  | string (data : List UInt8)
  | array (elems : List JsonVal)
  | object (members : List (List UInt8 × JsonVal))

/-- The value and what is left of the source behind it, or an error. The parser is stuck where its
turns do not suffice.
-/
inductive Parsed (α : Type)
  | done (value : α) (rest : List UInt8)
  | error
  | stuck

def Parsed.bind {α β : Type} (parsed : Parsed α) (next : α → List UInt8 → Parsed β) : Parsed β :=
  match parsed with
  | .done value rest => next value rest
  | .error => .error
  | .stuck => .stuck

def Parsed.ofOption {α β : Type} (make : α → β) : Option (α × List UInt8) → Parsed β
  | some (value, rest) => .done (make value) rest
  | none => .error

def isWs (c : UInt8) : Bool := c == 0x20 || c == 0x09 || c == 0x0A || c == 0x0D

def jsonSkipWs (src : List UInt8) : List UInt8 := src.dropWhile isWs

/-- What is behind the first letter of a literal name. -/
def jsonLiteral (letters : List UInt8) (val : JsonVal) (rest : List UInt8) : Parsed JsonVal :=
  if letters.isPrefixOf rest then .done val (rest.drop letters.length) else .error

/-- `json_parse_array` behind its bracket, around the loop over the elements. -/
def jsonParseArray (elements : List UInt8 → Parsed JsonVal) (src : List UInt8) : Parsed JsonVal :=
  match jsonSkipWs src with
  | [] => .error
  | c :: rest => if c = 0x5D then .done (.array []) rest else elements (c :: rest)

/-- `json_parse_object` behind its brace, around the loop over the members. -/
def jsonParseObject (members : List UInt8 → Parsed JsonVal) (src : List UInt8) : Parsed JsonVal :=
  match jsonSkipWs src with
  | [] => .error
  | c :: rest => if c = 0x7D then .done (.object []) rest else members (c :: rest)

/-- Behind an element or member: a comma, or the end. -/
def jsonSeparator (closing : UInt8) (more : List UInt8 → Parsed JsonVal) (ends : JsonVal)
    (src : List UInt8) : Parsed JsonVal :=
  match jsonSkipWs src with
  | [] => .error
  | c :: rest => if c = 0x2C then more rest else if c = closing then .done ends rest else .error

/-- The name of a member, with its colon. -/
def jsonParseName (src : List UInt8) : Parsed (List UInt8) :=
  (Parsed.ofOption id (jsonParseString (jsonSkipWs src))).bind fun name rest =>
    match jsonSkipWs rest with
    | [] => .error
    | c :: rest => if c = 0x3A then .done name rest else .error

mutual
def jsonParseValue (strtod : List UInt8 → Double) (outside : Double → Int)
    : Nat → List UInt8 → Parsed JsonVal
  | 0, _ => .stuck
  | turns + 1, src =>
      match jsonSkipWs src with
      | [] => .error
      | c :: rest =>
          if c = 0x22 then .ofOption .string (jsonParseString (c :: rest))
          else if c = 0x7B then
            jsonParseObject (jsonParseMembers strtod outside turns [] ·) rest
          else if c = 0x5B then
            jsonParseArray (jsonParseElements strtod outside turns [] ·) rest
          else if c = 0x74 then jsonLiteral [0x72, 0x75, 0x65] (.boolean true) rest
          else if c = 0x66 then jsonLiteral [0x61, 0x6C, 0x73, 0x65] (.boolean false) rest
          else if c = 0x6E then jsonLiteral [0x75, 0x6C, 0x6C] .null rest
          else if c = 0x2D ∨ isDigit c then
            .ofOption .number (jsonParseNumber strtod outside (c :: rest))
          else .error

/-- The loop of `json_parse_array`. -/
def jsonParseElements (strtod : List UInt8 → Double) (outside : Double → Int)
    : Nat → List JsonVal → List UInt8 → Parsed JsonVal
  | 0, _, _ => .stuck
  | turns + 1, elems, src =>
      (jsonParseValue strtod outside turns src).bind fun elem rest =>
        jsonSeparator 0x5D (jsonParseElements strtod outside turns (elems ++ [elem]) ·)
          (.array (elems ++ [elem])) rest

/-- The loop of `json_parse_object`. -/
def jsonParseMembers (strtod : List UInt8 → Double) (outside : Double → Int)
    : Nat → List (List UInt8 × JsonVal) → List UInt8 → Parsed JsonVal
  | 0, _, _ => .stuck
  | turns + 1, members, src =>
      (jsonParseName src).bind fun name rest =>
        (jsonParseValue strtod outside turns rest).bind fun val rest =>
          jsonSeparator 0x7D
            (jsonParseMembers strtod outside turns (updateOrAppend members name val) ·)
            (.object (updateOrAppend members name val)) rest
end

/-- The turns that suffice for a source. -/
def enoughTurns (src : List UInt8) : Nat := 2 * src.length + 1

/-- `json_parse_module_source`, without a value at `JSON_MODULE_PARSE_ERROR`. The length of the
source is a 32-bit one.
-/
def jsonParseModuleSource (strtod : List UInt8 → Double) (outside : Double → Int)
    (source : List UInt8) : Parsed JsonVal :=
  let src := source.take (source.length % 2 ^ 32)
  (jsonParseValue strtod outside (enoughTurns src) src).bind fun val rest =>
    if jsonSkipWs rest = [] then .done val [] else .error

/-- The end of a call of `JSON.parse`. -/
inductive JsonCompletion
  | returned (val : JsonVal)
  | syntaxError (message : String)
  | stuck

/-- `builtin_json_parse` of a text, without a reviver. -/
def builtinJsonParse (strtod : List UInt8 → Double) (outside : Double → Int)
    (text : List UInt8) : JsonCompletion :=
  match jsonParseValue strtod outside (enoughTurns text) text with
  | .stuck => .stuck
  | .error => .syntaxError "Unexpected token in JSON"
  | .done val rest =>
      if jsonSkipWs rest ≠ [] then .syntaxError "Unexpected token in JSON" else .returned val

end Boomkat.Json
