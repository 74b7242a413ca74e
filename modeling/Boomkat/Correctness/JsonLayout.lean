import Boomkat.Correctness.SerializerSteps

/-! `JSON.stringify` with a gap against the layout of the value. An early return for an array or
object without content leaves the indentation too high, and an object without a member in the text
still gets its line break.
-/

namespace Boomkat.Correctness

open Foundation Json Machine

variable {numbers : Double → List UInt8} {gap : List UInt8} {path : List Nat}

-----------------------------------------------------------------------------------------
-- The document
-----------------------------------------------------------------------------------------

mutual
/-- The document of a value whose brackets are at a depth. -/
def documentOf (numbers : Double → List UInt8) (depth : Nat)
    : JsonTree → List (LayoutPiece UInt8)
  | .null | .omitted => [.text nullText]
  | .boolean b => [.text (if b then trueText else falseText)]
  | .number d => [.text (if d.isFinite then numbers d else nullText)]
  | .fastint n => [.text (intToBuf n)]
  | .string data => [.text (quotedText data)]
  | .array _ elems => enclosedLayout [0x5B] [0x5D] [0x2C] depth (elementItems numbers depth elems)
  | .bareObject _ => enclosedLayout [0x7B] [0x7D] [0x2C] depth []
  | .object _ members =>
      enclosedLayout [0x7B] [0x7D] [0x2C] depth (memberItems numbers depth members)

/-- The elements of an array at a depth. -/
def elementItems (numbers : Double → List UInt8) (depth : Nat)
    : List JsonTree → List (List (LayoutPiece UInt8))
  | [] => []
  | elem :: elems => documentOf numbers (depth + 1) elem :: elementItems numbers depth elems

/-- The members of an object at a depth, without those that are left out. -/
def memberItems (numbers : Double → List UInt8) (depth : Nat)
    : List (List UInt8 × JsonTree) → List (List (LayoutPiece UInt8))
  | [] => []
  | (key, val) :: members =>
      if val.omit then memberItems numbers depth members
      else
        (.text (quotedText key) :: .text [0x3A] :: .blank :: documentOf numbers (depth + 1) val)
          :: memberItems numbers depth members
end

-----------------------------------------------------------------------------------------
-- Values
-----------------------------------------------------------------------------------------

mutual
/-- No array or object is within itself or within one on the path. -/
def Acyclic (path : List Nat) : JsonTree → Prop
  | .array addr elems => addr ∉ path ∧ AcyclicElements (addr :: path) elems
  | .bareObject addr => addr ∉ path
  | .object addr members => addr ∉ path ∧ AcyclicMembers (addr :: path) members
  | _ => True

def AcyclicElements (path : List Nat) : List JsonTree → Prop
  | [] => True
  | elem :: elems => Acyclic path elem ∧ AcyclicElements path elems

def AcyclicMembers (path : List Nat) : List (List UInt8 × JsonTree) → Prop
  | [] => True
  | (_, val) :: members => Acyclic path val ∧ AcyclicMembers path members
end

mutual
/-- The number of levels below a value. -/
def nesting : JsonTree → Nat
  | .array _ elems => elementsNesting elems
  | .object _ members => membersNesting members
  | _ => 0

def elementsNesting : List JsonTree → Nat
  | [] => 0
  | elem :: elems => max (if elem.omit then 0 else nesting elem + 1) (elementsNesting elems)

def membersNesting : List (List UInt8 × JsonTree) → Nat
  | [] => 0
  | (_, val) :: members => max (if val.omit then 0 else nesting val + 1) (membersNesting members)
end

mutual
/-- Every array has an element, and every object a member in the text. -/
def filled : JsonTree → Bool
  | .array _ elems => !elems.isEmpty && elementsFilled elems
  | .bareObject _ => false
  | .object _ members => members.any (fun member => !member.2.omit) && membersFilled members
  | _ => true

def elementsFilled : List JsonTree → Bool
  | [] => true
  | elem :: elems => filled elem && elementsFilled elems

def membersFilled : List (List UInt8 × JsonTree) → Bool
  | [] => true
  | (_, val) :: members => filled val && membersFilled members
end

mutual
/-- The number of early returns for arrays and objects without content. -/
def leaks : JsonTree → Nat
  | .array _ elems => if elems.isEmpty then 1 else elementsLeaks elems
  | .bareObject _ => 1
  | .object _ members => membersLeaks members
  | _ => 0

def elementsLeaks : List JsonTree → Nat
  | [] => 0
  | elem :: elems => leaks elem + elementsLeaks elems

def membersLeaks : List (List UInt8 × JsonTree) → Nat
  | [] => 0
  | (_, val) :: members => leaks val + membersLeaks members
end

-----------------------------------------------------------------------------------------
-- What is written
-----------------------------------------------------------------------------------------

mutual
/-- The text that a value gets at an indentation. -/
def writtenVal (numbers : Double → List UInt8) (gap : List UInt8) (n : Nat) : JsonTree → List UInt8
  | .null | .omitted => nullText
  | .boolean b => if b then trueText else falseText
  | .number d => if d.isFinite then numbers d else nullText
  | .fastint k => intToBuf k
  | .string data => quotedText data
  | .array _ elems =>
      if elems.isEmpty then [0x5B, 0x5D]
      else
        0x5B :: writtenElements numbers gap (n + 1) true elems
          ++ brokenLine gap (n + elementsLeaks elems) ++ [0x5D]
  | .bareObject _ => [0x7B, 0x7D]
  | .object _ members =>
      0x7B :: writtenMembers numbers gap (n + 1) true members
        ++ brokenLine gap (n + membersLeaks members) ++ [0x7D]

def writtenElements (numbers : Double → List UInt8) (gap : List UInt8) (n : Nat)
    : Bool → List JsonTree → List UInt8
  | _, [] => []
  | first, elem :: elems =>
      separation gap first n ++ writtenVal numbers gap n elem
        ++ writtenElements numbers gap (n + leaks elem) false elems

def writtenMembers (numbers : Double → List UInt8) (gap : List UInt8) (n : Nat)
    : Bool → List (List UInt8 × JsonTree) → List UInt8
  | _, [] => []
  | first, (key, val) :: members =>
      if val.omit then writtenMembers numbers gap n first members
      else
        separation gap first n ++ (quotedText key ++ 0x3A :: if 0 < gap.length then [0x20] else [])
          ++ writtenVal numbers gap n val
          ++ writtenMembers numbers gap (n + leaks val) false members
end

/-- Only one tree is left out of an object. -/
theorem eq_omitted {v : JsonTree} (left : v.omit = true) : v = .omitted := by
  cases v with
  | omitted => rfl
  | _ => cases left

mutual
/-- The serializer writes the text of a tree without cycles, and leaves the indent that the tree
leaks. Witness: induction on the tree, with the path of the values that are being written.
-/
theorem writes_val (v : JsonTree) {path : List Nat} (acyclic : Acyclic path v)
    : Writes (jsonSerializeVal numbers gap v) path (fun n => writtenVal numbers gap n v) (leaks v)
        (nesting v) := by
  cases v with
  | null => exact Writes.ok path _ (fun ctx => ctx.append nullText) fun ctx => rfl
  | omitted => exact Writes.ok path _ (fun ctx => ctx.append nullText) fun ctx => rfl
  | boolean b =>
      exact Writes.ok path _ (fun ctx => ctx.append (if b then trueText else falseText)) fun ctx => rfl
  | number d =>
      exact Writes.ok path _
        (fun ctx => ctx.append (if d.isFinite then numbers d else nullText)) fun ctx => rfl
  | fastint n => exact Writes.ok path _ (fun ctx => ctx.append (intToBuf n)) fun ctx => rfl
  | string data =>
      exact (Writes.ok path _ (fun ctx => ctx.append (quotedText data)) fun ctx => rfl).congr
        fun ctx => writeString_eq ctx data
  | array addr elems =>
      cases elems with
      | nil => exact (Writes.empty acyclic.1).congr fun ctx => rfl
      | cons elem elems =>
          exact ((writes_elements (elem :: elems) true acyclic.2).container acyclic.1).congr
            fun ctx => rfl
  | bareObject addr => exact (Writes.empty acyclic).congr fun ctx => rfl
  | object addr members =>
      exact ((writes_members members true acyclic.2).container acyclic.1).congr fun ctx => rfl
termination_by sizeOf v

/-- The elements of an array, each at the depth that those before it have leaked to. -/
theorem writes_elements (elems : List JsonTree) (first : Bool) {path : List Nat}
    (acyclic : AcyclicElements path elems)
    : Writes (jsonSerializeElements numbers gap elems first) path
        (fun n => writtenElements numbers gap n first elems) (elementsLeaks elems)
        (elementsNesting elems) := by
  cases elems with
  | nil =>
      exact Writes.ok path _ id fun ctx => by simp [JsonSerializeCtx.append, writtenElements]
  | cons elem elems =>
      have separated := Writes.ok path (separation gap first)
        (fun ctx => ctx.separate gap first) (separate_eq first)
      have rest := writes_elements elems false acyclic.2
      cases left : elem.omit with
      | true =>
          obtain rfl := eq_omitted left
          have null := Writes.ok path (fun _ => nullText)
            (fun ctx => ctx.append nullText) fun ctx => rfl
          refine ((separated.seq (null.seq rest)).congr fun ctx => rfl).writing ?_ ?_ ?_
          · simp [writtenElements, writtenVal, leaks]
          · simp [elementsLeaks, leaks]
          · simp [elementsNesting, left]
      | false =>
          have nested := (writes_val elem acyclic.1).nested
          refine ((separated.seq (nested.seq rest)).congr fun ctx => ?_).writing ?_ ?_ ?_
          · simp only [jsonSerializeElements, left]
            rfl
          · simp [writtenElements]
          · simp [elementsLeaks]
          · simp [elementsNesting, left]
termination_by sizeOf elems

/-- The members of an object likewise. One that is left out writes nothing. -/
theorem writes_members (members : List (List UInt8 × JsonTree)) (first : Bool) {path : List Nat}
    (acyclic : AcyclicMembers path members)
    : Writes (jsonSerializeMembers numbers gap members first) path
        (fun n => writtenMembers numbers gap n first members) (membersLeaks members)
        (membersNesting members) := by
  match members, acyclic with
  | [], _ => exact Writes.ok path _ id fun ctx => by simp [JsonSerializeCtx.append, writtenMembers]
  | (key, val) :: members, acyclic =>
      cases left : val.omit with
      | true =>
          obtain rfl := eq_omitted left
          have rest := writes_members members first acyclic.2
          refine (rest.congr fun ctx => rfl).writing ?_ ?_ ?_
          · simp [writtenMembers, left]
          · simp [membersLeaks, leaks]
          · simp [membersNesting, left]
      | false =>
          have separated := Writes.ok path (separation gap first)
            (fun ctx => ctx.separate gap first) (separate_eq first)
          have rest := writes_members members false acyclic.2
          have nested := (writes_val val acyclic.1).nested
          have named := (Writes.ok path (fun _ => quotedText key)
            (fun ctx => ctx.append (quotedText key)) fun ctx => rfl).congr
            fun ctx => writeString_eq ctx key
          have colon := Writes.ok path
            (fun _ => 0x3A :: if 0 < gap.length then [0x20] else [])
            (fun ctx => if 0 < gap.length then (ctx.append [0x3A]).append [0x20]
              else ctx.append [0x3A])
            fun ctx => by split <;> simp [JsonSerializeCtx.append]
          refine ((separated.seq (named.seq (colon.seq (nested.seq rest)))).congr
            fun ctx => ?_).writing ?_ ?_ ?_
          · simp only [jsonSerializeMembers, left]
            rfl
          · simp [writtenMembers, left]
          · simp [membersLeaks]
          · simp [membersNesting, left]
termination_by sizeOf members
end

-----------------------------------------------------------------------------------------
-- The document in what is written
-----------------------------------------------------------------------------------------

/-- A document with a gap, or without one. -/
def emitted (gap : List UInt8) (pieces : List (LayoutPiece UInt8)) : List UInt8 :=
  if 0 < gap.length then printedLayout ⟨0x0A, 0x20, gap⟩ pieces else compactLayout pieces

@[simp] theorem emitted_nil : emitted gap [] = [] := by
  rw [emitted]
  split <;> rfl

@[simp] theorem emitted_append (pieces later : List (LayoutPiece UInt8))
    : emitted gap (pieces ++ later) = emitted gap pieces ++ emitted gap later := by
  simp only [emitted]
  split
  · exact printedLayout_append _ pieces later
  · exact compactLayout_append pieces later

@[simp] theorem emitted_text (content : List UInt8) (pieces : List (LayoutPiece UInt8))
    : emitted gap (.text content :: pieces) = content ++ emitted gap pieces := by
  simp only [emitted]
  split <;> simp [LayoutPiece.printed, LayoutPiece.compact]

@[simp] theorem emitted_lineBreak (depth : Nat) (pieces : List (LayoutPiece UInt8))
    : emitted gap (.lineBreak depth :: pieces) = brokenLine gap depth ++ emitted gap pieces := by
  simp only [emitted, brokenLine]
  split <;> simp [LayoutPiece.printed, LayoutPiece.compact]

@[simp] theorem emitted_blank (pieces : List (LayoutPiece UInt8))
    : emitted gap (.blank :: pieces)
      = (if 0 < gap.length then [0x20] else []) ++ emitted gap pieces := by
  simp only [emitted]
  split <;> simp [LayoutPiece.printed, LayoutPiece.compact]

/-- An item after its separation, before the others. -/
theorem emitted_items (first : Bool) (depth : Nat) (item : List (LayoutPiece UInt8))
    (items : List (List (LayoutPiece UInt8)))
    : emitted gap (itemsLayout [0x2C] depth first (item :: items))
      = separation gap first depth ++ emitted gap item
        ++ emitted gap (itemsLayout [0x2C] depth false items) := by
  cases first <;> simp [itemsLayout, separation]

/-- Brackets around items, with line breaks inside if there are any items. -/
theorem emitted_enclosed (opening closing : UInt8) (depth : Nat)
    (items : List (List (LayoutPiece UInt8)))
    : emitted gap (enclosedLayout [opening] [closing] [0x2C] depth items)
      = if items.isEmpty then [opening, closing]
        else
          opening :: emitted gap (itemsLayout [0x2C] (depth + 1) true items)
            ++ brokenLine gap depth ++ [closing] := by
  rw [enclosedLayout]
  split <;> simp

/-- An array without elements has no items. -/
theorem elementItems_isEmpty (depth : Nat) (elems : List JsonTree)
    : (elementItems numbers depth elems).isEmpty = elems.isEmpty := by
  cases elems <;> simp [elementItems]

/-- An object whose members are all left out has no items. -/
theorem memberItems_isEmpty (depth : Nat) (members : List (List UInt8 × JsonTree))
    : (memberItems numbers depth members).isEmpty = !members.any fun member => !member.2.omit := by
  induction members with
  | nil => simp [memberItems]
  | cons member members ih =>
      obtain ⟨key, val⟩ := member
      cases left : val.omit with
      | true => simpa [memberItems, left] using ih
      | false => simp [memberItems, left]

mutual
/-- A tree whose containers all have content leaks no indent. -/
theorem leaks_of_filled (v : JsonTree) (full : filled v = true) : leaks v = 0 := by
  cases v with
  | array addr elems =>
      rw [filled, Bool.and_eq_true, Bool.not_eq_true'] at full
      rw [leaks, full.1, if_neg Bool.false_ne_true]
      exact elementsLeaks_of_filled elems full.2
  | object addr members =>
      rw [filled, Bool.and_eq_true] at full
      rw [leaks]
      exact membersLeaks_of_filled members full.2
  | bareObject addr => cases full
  | _ => rfl
termination_by sizeOf v

theorem elementsLeaks_of_filled (elems : List JsonTree) (full : elementsFilled elems = true)
    : elementsLeaks elems = 0 := by
  cases elems with
  | nil => rfl
  | cons elem elems =>
      rw [elementsFilled, Bool.and_eq_true] at full
      rw [elementsLeaks, leaks_of_filled elem full.1, elementsLeaks_of_filled elems full.2]
termination_by sizeOf elems

theorem membersLeaks_of_filled (members : List (List UInt8 × JsonTree))
    (full : membersFilled members = true)
    : membersLeaks members = 0 := by
  match members, full with
  | [], _ => rfl
  | (key, val) :: members, full =>
      rw [membersFilled, Bool.and_eq_true] at full
      rw [membersLeaks, leaks_of_filled val full.1, membersLeaks_of_filled members full.2]
termination_by sizeOf members
end

/-- Without a gap all line breaks are alike. -/
theorem brokenLine_same {n m : Nat} (same : gap = [] ∨ n = m)
    : brokenLine gap n = brokenLine gap m := by
  rcases same with none | rfl
  · rw [none]
    rfl
  · rfl

theorem separation_same {n m : Nat} (same : gap = [] ∨ n = m) (first : Bool)
    : separation gap first n = separation gap first m := by
  rw [separation, separation, brokenLine_same same]

mutual
/-- Without a gap, and where every array and object has content, the text is the document. -/
theorem writtenVal_document (v : JsonTree) {n depth : Nat}
    (good : gap = [] ∨ filled v = true ∧ n = depth)
    : writtenVal numbers gap n v = emitted gap (documentOf numbers depth v) := by
  cases v with
  | array addr elems =>
      rw [writtenVal, documentOf, emitted_enclosed, elementItems_isEmpty]
      split
      · rfl
      · have inner : gap = [] ∨ elementsFilled elems = true ∧ n + 1 = depth + 1 := by
          simp only [filled, Bool.and_eq_true] at good
          exact good.imp_right fun ⟨⟨_, full⟩, same⟩ => ⟨full, congrArg (· + 1) same⟩
        have here : gap = [] ∨ n + elementsLeaks elems = depth := by
          rcases inner with none | ⟨full, same⟩
          · exact .inl none
          · have none := elementsLeaks_of_filled elems full
            exact .inr (by omega)
        rw [writtenElements_document elems true inner, brokenLine_same here]
  | bareObject addr => simp [writtenVal, documentOf, emitted_enclosed]
  | object addr members =>
      have inner : gap = [] ∨ membersFilled members = true ∧ n + 1 = depth + 1 := by
        simp only [filled, Bool.and_eq_true] at good
        exact good.imp_right fun ⟨⟨_, full⟩, same⟩ => ⟨full, congrArg (· + 1) same⟩
      have here : gap = [] ∨ n + membersLeaks members = depth := by
        rcases inner with none | ⟨full, same⟩
        · exact .inl none
        · have none := membersLeaks_of_filled members full
          exact .inr (by omega)
      rw [writtenVal, documentOf, emitted_enclosed, writtenMembers_document members true inner,
        brokenLine_same here]
      split
      · rename_i empty
        rcases good with none | ⟨full, -⟩
        · rw [List.isEmpty_iff.mp empty, none]
          rfl
        · rw [memberItems_isEmpty] at empty
          simp only [filled, Bool.and_eq_true] at full
          rw [full.1] at empty
          cases empty
      · rfl
  | _ => simp [writtenVal, documentOf]
termination_by sizeOf v

/-- Without a gap, or without leaks, the elements are written as in the document. -/
theorem writtenElements_document (elems : List JsonTree) (first : Bool) {n depth : Nat}
    (good : gap = [] ∨ elementsFilled elems = true ∧ n = depth + 1)
    : writtenElements numbers gap n first elems
      = emitted gap (itemsLayout [0x2C] (depth + 1) first (elementItems numbers depth elems)) := by
  cases elems with
  | nil => simp [writtenElements, elementItems, itemsLayout]
  | cons elem elems =>
      have here : gap = [] ∨ n = depth + 1 := good.imp_right And.right
      have inner : gap = [] ∨ filled elem = true ∧ n = depth + 1 := by
        simp only [elementsFilled, Bool.and_eq_true] at good
        exact good.imp_right fun ⟨⟨full, _⟩, same⟩ => ⟨full, same⟩
      have rest : gap = [] ∨ elementsFilled elems = true ∧ n + leaks elem = depth + 1 := by
        rcases good with none | ⟨full, same⟩
        · exact .inl none
        · rw [elementsFilled, Bool.and_eq_true] at full
          exact .inr ⟨full.2, by rw [leaks_of_filled elem full.1]; exact same⟩
      rw [writtenElements, elementItems, emitted_items, separation_same here,
        writtenVal_document elem inner, writtenElements_document elems false rest]
termination_by sizeOf elems

/-- So are the members. -/
theorem writtenMembers_document (members : List (List UInt8 × JsonTree)) (first : Bool)
    {n depth : Nat} (good : gap = [] ∨ membersFilled members = true ∧ n = depth + 1)
    : writtenMembers numbers gap n first members
      = emitted gap (itemsLayout [0x2C] (depth + 1) first (memberItems numbers depth members)) := by
  match members, good with
  | [], _ => simp [writtenMembers, memberItems, itemsLayout]
  | (key, val) :: members, good =>
      have here : gap = [] ∨ n = depth + 1 := good.imp_right And.right
      have inner : gap = [] ∨ filled val = true ∧ n = depth + 1 := by
        simp only [membersFilled, Bool.and_eq_true] at good
        exact good.imp_right fun ⟨⟨full, _⟩, same⟩ => ⟨full, same⟩
      have rest : gap = [] ∨ membersFilled members = true ∧ n + leaks val = depth + 1 := by
        rcases good with none | ⟨full, same⟩
        · exact .inl none
        · rw [membersFilled, Bool.and_eq_true] at full
          exact .inr ⟨full.2, by rw [leaks_of_filled val full.1]; exact same⟩
      cases left : val.omit with
      | true =>
          obtain rfl := eq_omitted left
          rw [writtenMembers, memberItems, if_pos left, if_pos left]
          exact writtenMembers_document members first rest
      | false =>
          rw [writtenMembers, memberItems, left, if_neg Bool.false_ne_true,
            if_neg Bool.false_ne_true, emitted_items, separation_same here,
            writtenVal_document val inner, writtenMembers_document members false rest]
          simp
termination_by sizeOf members
end

-----------------------------------------------------------------------------------------
-- Values without content
-----------------------------------------------------------------------------------------

/-- A text is at least as long as the document, and longer unless everything has content. -/
def LongerUnless (gap : List UInt8) (full : Bool) (document written : List UInt8) : Prop :=
  document.length ≤ written.length
    ∧ (0 < gap.length → written.length = document.length → full = true)

theorem LongerUnless.same (gap : List UInt8) (document : List UInt8)
    : LongerUnless gap true document document :=
  ⟨Nat.le_refl _, fun _ _ => rfl⟩

/-- Parts that are one behind the other: if either is longer, the whole is. -/
theorem LongerUnless.append {full more : Bool} {document written document' written' : List UInt8}
    (first : LongerUnless gap full document written)
    (second : LongerUnless gap more document' written')
    : LongerUnless gap (full && more) (document ++ document') (written ++ written') := by
  constructor
  · rw [List.length_append, List.length_append]
    exact Nat.add_le_add first.1 second.1
  · intro some same
    rw [List.length_append, List.length_append] at same
    have left := first.1
    have right := second.1
    rw [first.2 some (by omega), second.2 some (by omega)]
    rfl

/-- The same text on both sides. -/
theorem LongerUnless.within {full : Bool} {document written : List UInt8} (before after : List UInt8)
    (longer : LongerUnless gap full document written)
    : LongerUnless gap full (before ++ document ++ after) (before ++ written ++ after) := by
  have whole := ((LongerUnless.same gap before).append longer).append (LongerUnless.same gap after)
  rwa [Bool.true_and, Bool.and_true] at whole

mutual
/-- Where nothing leaks, a text is no shorter than the document, and longer if a value in it has no
content. Witness: induction on the tree.
-/
theorem writtenVal_longer (v : JsonTree) (n : Nat) (none : leaks v = 0)
    : LongerUnless gap (filled v) (emitted gap (documentOf numbers n v))
        (writtenVal numbers gap n v) := by
  cases v with
  | array addr elems =>
      have some : elems.isEmpty = false := by
        cases elems with
        | nil => cases none
        | cons elem elems => rfl
      rw [leaks, some, if_neg Bool.false_ne_true] at none
      rw [writtenVal, documentOf, emitted_enclosed, elementItems_isEmpty, some, filled, some,
        none, if_neg Bool.false_ne_true, if_neg Bool.false_ne_true, List.append_assoc,
        List.append_assoc]
      exact (writtenElements_longer elems true n none).within [0x5B] _
  | bareObject addr => cases none
  | object addr members =>
      rw [leaks] at none
      have longer := writtenMembers_longer members true n none
      rw [writtenVal, documentOf, emitted_enclosed, memberItems_isEmpty, none, filled]
      cases some : members.any fun member => !member.2.omit with
      | true =>
          rw [Bool.not_true, if_neg Bool.false_ne_true, List.append_assoc, List.append_assoc]
          exact longer.within [0x7B] _
      | false =>
          -- the brackets alone are shorter than those with a line break between them
          refine ⟨?_, fun gapped same => ?_⟩
          · simp
            omega
          · simp [brokenLine, gapped] at same
            omega
  | _ =>
      rw [writtenVal_document _ (.inr ⟨rfl, rfl⟩)]
      exact LongerUnless.same gap _
termination_by sizeOf v

/-- The elements of an array. -/
theorem writtenElements_longer (elems : List JsonTree) (first : Bool) (n : Nat)
    (none : elementsLeaks elems = 0)
    : LongerUnless gap (elementsFilled elems)
        (emitted gap (itemsLayout [0x2C] (n + 1) first (elementItems numbers n elems)))
        (writtenElements numbers gap (n + 1) first elems) := by
  cases elems with
  | nil =>
      simp only [elementItems, itemsLayout, writtenElements, emitted_nil]
      exact LongerUnless.same gap []
  | cons elem elems =>
      rw [elementsLeaks] at none
      have here := writtenVal_longer elem (n + 1) (by omega)
      have rest := writtenElements_longer elems false n (by omega)
      have still : leaks elem = 0 := by omega
      rw [elementItems, emitted_items, writtenElements, elementsFilled, still]
      have whole := (here.within (separation gap first (n + 1)) []).append rest
      rwa [List.append_nil, List.append_nil] at whole
termination_by sizeOf elems

/-- The members of an object. -/
theorem writtenMembers_longer (members : List (List UInt8 × JsonTree)) (first : Bool) (n : Nat)
    (none : membersLeaks members = 0)
    : LongerUnless gap (membersFilled members)
        (emitted gap (itemsLayout [0x2C] (n + 1) first (memberItems numbers n members)))
        (writtenMembers numbers gap (n + 1) first members) := by
  match members, none with
  | [], _ =>
      simp only [memberItems, itemsLayout, writtenMembers, emitted_nil]
      exact LongerUnless.same gap []
  | (key, val) :: members, none =>
      rw [membersLeaks] at none
      cases left : val.omit with
      | true =>
          have rest := writtenMembers_longer members first n (by omega)
          obtain rfl := eq_omitted left
          rw [memberItems, writtenMembers, membersFilled, if_pos left, if_pos left]
          exact rest
      | false =>
          have here := writtenVal_longer val (n + 1) (by omega)
          have rest := writtenMembers_longer members false n (by omega)
          have still : leaks val = 0 := by omega
          have whole := (here.within (separation gap first (n + 1) ++ (quotedText key
            ++ 0x3A :: if 0 < gap.length then [0x20] else [])) []).append rest
          rw [memberItems, left, if_neg Bool.false_ne_true, emitted_items, writtenMembers, left,
            if_neg Bool.false_ne_true, membersFilled, still]
          simpa using whole
termination_by sizeOf members
end

-----------------------------------------------------------------------------------------
-- JSON.stringify
-----------------------------------------------------------------------------------------

/-- The gap that the argument stands for. -/
def JsonSpace.text : JsonSpace → List UInt8
  | .number n => List.replicate n.toNat 0x20
  | .string data => data

/-- With the gap the text is the document on its lines, without one it is the document alone, and
the indentation is what it was.
-/
structure PrettyPrints (numbers : Double → List UInt8) (space : JsonSpace) (v : JsonTree)
    : Prop where
  pretty : builtinJsonStringify numbers v (some space)
    = .ok (some (printedLayout ⟨0x0A, 0x20, JsonSpace.text space⟩ (documentOf numbers 0 v)))
  compact : builtinJsonStringify numbers v none
    = .ok (some (compactLayout (documentOf numbers 0 v)))
  balanced : ∀ ctx, jsonSerializeVal numbers space.gap v ⟨[], 0, 0, []⟩ = .ok ctx →
    ctx.indentLevel = 0

/-- A gap of at most ten bytes is not cut. -/
theorem JsonSpace.gap_eq {space : JsonSpace} (kept : (JsonSpace.text space).length ≤ 10)
    : space.gap = JsonSpace.text space := by
  cases space with
  | number n =>
      rw [JsonSpace.text, List.length_replicate] at kept
      rw [JsonSpace.gap, JsonSpace.text]
      congr 1
      omega
  | string data => exact List.take_of_length_le kept

/-- The result of a call at the top. -/
theorem stringify_eq {v : JsonTree} (acyclic : Acyclic [] v) (shallow : nesting v ≤ jsonMaxDepth)
    (numbers : Double → List UInt8) (gap : List UInt8)
    : ∃ visited, jsonSerializeVal numbers gap v ⟨[], 0, 0, []⟩
      = .ok ⟨writtenVal numbers gap 0 v, leaks v, 0, visited⟩ := by
  obtain ⟨visited, -, is⟩ := (writes_val v acyclic).fits ⟨[], 0, 0, []⟩ nofun
    (by change 0 + nesting v ≤ jsonMaxDepth; omega)
  refine ⟨visited, is.trans ?_⟩
  rw [List.nil_append, Nat.zero_add]

end Boomkat.Correctness
