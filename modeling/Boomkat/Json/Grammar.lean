import Boomkat.Foundation.Members
import Boomkat.Json.Number
import Boomkat.Json.StringLiteral

/-! The grammar of JSON texts, as the trees that texts are spelled from, and what they denote. -/

namespace Boomkat.Json

open Machine Foundation

inductive SpaceChar
  | space
  | tab
  | lineFeed
  | carriageReturn
deriving DecidableEq

def SpaceChar.byte : SpaceChar → UInt8
  | .space => 0x20
  | .tab => 0x09
  | .lineFeed => 0x0A
  | .carriageReturn => 0x0D

def spaceText (space : List SpaceChar) : List UInt8 := space.map SpaceChar.byte

mutual
inductive JsonSyntax
  | null
  | boolean (b : Bool)
  | number (literal : JsonNumber)
  | string (pieces : List StringPiece)
  | emptyArray (space : List SpaceChar)
  | array (elems : ElementsSyntax)
  | emptyObject (space : List SpaceChar)
  | object (members : MembersSyntax)

/-- Elements with the space around them. -/
inductive ElementsSyntax
  | last (before : List SpaceChar) (elem : JsonSyntax) (after : List SpaceChar)
  | more (before : List SpaceChar) (elem : JsonSyntax) (after : List SpaceChar)
    (elems : ElementsSyntax)

/-- Members with the space around their names and values. -/
inductive MembersSyntax
  | last (before : List SpaceChar) (name : List StringPiece) (afterName : List SpaceChar)
    (beforeValue : List SpaceChar) (val : JsonSyntax) (after : List SpaceChar)
  | more (before : List SpaceChar) (name : List StringPiece) (afterName : List SpaceChar)
    (beforeValue : List SpaceChar) (val : JsonSyntax) (after : List SpaceChar)
    (members : MembersSyntax)
end

/-- The text of a name with its colon. -/
def nameText (before : List SpaceChar) (name : List StringPiece) (afterName : List SpaceChar)
    : List UInt8 :=
  spaceText before ++ literalText name ++ spaceText afterName ++ [0x3A]

mutual
def JsonSyntax.text : JsonSyntax → List UInt8
  | .null => [0x6E, 0x75, 0x6C, 0x6C]
  | .boolean true => [0x74, 0x72, 0x75, 0x65]
  | .boolean false => [0x66, 0x61, 0x6C, 0x73, 0x65]
  | .number literal => literal.text
  | .string pieces => literalText pieces
  | .emptyArray space => 0x5B :: (spaceText space ++ [0x5D])
  | .array elems => 0x5B :: (elems.text ++ [0x5D])
  | .emptyObject space => 0x7B :: (spaceText space ++ [0x7D])
  | .object members => 0x7B :: (members.text ++ [0x7D])

def ElementsSyntax.text : ElementsSyntax → List UInt8
  | .last before elem after => spaceText before ++ elem.text ++ spaceText after
  | .more before elem after elems =>
      spaceText before ++ elem.text ++ spaceText after ++ 0x2C :: elems.text

def MembersSyntax.text : MembersSyntax → List UInt8
  | .last before name afterName beforeValue val after =>
      nameText before name afterName ++ spaceText beforeValue ++ val.text ++ spaceText after
  | .more before name afterName beforeValue val after members =>
      nameText before name afterName ++ spaceText beforeValue ++ val.text ++ spaceText after
        ++ 0x2C :: members.text
end

/-- What a text denotes: strings are code units, and names are apart from each other. -/
inductive JsonDatum
  | null
  | boolean (b : Bool)
  | number (d : Double)
  | string (us : List Nat)
  | array (elems : List JsonDatum)
  | object (members : List (List Nat × JsonDatum))

mutual
/-- A number denotes the double that its text converts to, and of the members with one name the
last one counts, at the position of the first.
-/
def JsonSyntax.denoted (strtod : List UInt8 → Double) : JsonSyntax → JsonDatum
  | .null => .null
  | .boolean b => .boolean b
  | .number literal => .number (strtod literal.text)
  | .string pieces => .string (literalUnits pieces)
  | .emptyArray _ => .array []
  | .array elems => .array (elems.denoted strtod)
  | .emptyObject _ => .object []
  | .object members => .object (lastWins (members.denoted strtod))

def ElementsSyntax.denoted (strtod : List UInt8 → Double) : ElementsSyntax → List JsonDatum
  | .last _ elem _ => [elem.denoted strtod]
  | .more _ elem _ elems => elem.denoted strtod :: elems.denoted strtod

def MembersSyntax.denoted (strtod : List UInt8 → Double)
    : MembersSyntax → List (List Nat × JsonDatum)
  | .last _ name _ _ val _ => [(literalUnits name, val.denoted strtod)]
  | .more _ name _ _ val _ members =>
      (literalUnits name, val.denoted strtod) :: members.denoted strtod
end

mutual
/-- Every number has the property. -/
def JsonDatum.Numbers (p : Double → Prop) : JsonDatum → Prop
  | .number d => p d
  | .array elems => ElementNumbers p elems
  | .object members => MemberNumbers p members
  | .null | .boolean _ | .string _ => True

def ElementNumbers (p : Double → Prop) : List JsonDatum → Prop
  | [] => True
  | elem :: elems => elem.Numbers p ∧ ElementNumbers p elems

def MemberNumbers (p : Double → Prop) : List (List Nat × JsonDatum) → Prop
  | [] => True
  | (_, val) :: members => val.Numbers p ∧ MemberNumbers p members
end

/-- The whole text is one value with space around it. -/
def JsonSyntax.Spells (tree : JsonSyntax) (text : List UInt8) : Prop :=
  ∃ before after, text = spaceText before ++ tree.text ++ spaceText after

end Boomkat.Json
