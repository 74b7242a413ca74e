import Mathlib.Data.List.Basic
import Mathlib.Tactic.Common

/-! Documents that are printed with line breaks and indentation, or without. -/

namespace Boomkat.Foundation

variable {α : Type*}

/-- A part of a document: text, or what only stands between texts where there is a gap. -/
inductive LayoutPiece (α : Type*)
  | text (content : List α)
  | lineBreak (depth : Nat)
  | blank

open LayoutPiece

/-- The characters of the layout, and the copy that each level of nesting adds to a line. -/
structure LayoutStyle (α : Type*) where
  newline : α
  space : α
  gap : List α

def LayoutPiece.printed (style : LayoutStyle α) : LayoutPiece α → List α
  | text content => content
  | lineBreak depth => style.newline :: (List.replicate depth style.gap).flatten
  | blank => [style.space]

def LayoutPiece.compact : LayoutPiece α → List α
  | text content => content
  | lineBreak _ | blank => []

def printedLayout (style : LayoutStyle α) (pieces : List (LayoutPiece α)) : List α :=
  pieces.flatMap (LayoutPiece.printed style)

/-- The document without line breaks, gaps and blanks. -/
def compactLayout (pieces : List (LayoutPiece α)) : List α :=
  pieces.flatMap LayoutPiece.compact

/-- Items on lines of their own, with a separator in front of all but the first. -/
def itemsLayout (separator : List α) (depth : Nat)
    : Bool → List (List (LayoutPiece α)) → List (LayoutPiece α)
  | _, [] => []
  | first, item :: items =>
      (if first then [] else [text separator]) ++ lineBreak depth :: item
        ++ itemsLayout separator depth false items

/-- Items between two brackets at a depth, and the brackets alone where there are none. -/
def enclosedLayout (opening closing separator : List α) (depth : Nat)
    (items : List (List (LayoutPiece α))) : List (LayoutPiece α) :=
  if items.isEmpty then [text (opening ++ closing)]
  else
    text opening :: itemsLayout separator (depth + 1) true items
      ++ [lineBreak depth, text closing]

variable (style : LayoutStyle α)

@[simp] theorem printedLayout_nil : printedLayout style [] = [] := rfl

@[simp] theorem printedLayout_cons (piece : LayoutPiece α) (pieces : List (LayoutPiece α))
    : printedLayout style (piece :: pieces)
      = piece.printed style ++ printedLayout style pieces := by
  rw [printedLayout, List.flatMap_cons]
  rfl

@[simp] theorem printedLayout_append (pieces later : List (LayoutPiece α))
    : printedLayout style (pieces ++ later)
      = printedLayout style pieces ++ printedLayout style later := by
  rw [printedLayout, List.flatMap_append]
  rfl

@[simp] theorem compactLayout_nil : compactLayout ([] : List (LayoutPiece α)) = [] := rfl

@[simp] theorem compactLayout_cons (piece : LayoutPiece α) (pieces : List (LayoutPiece α))
    : compactLayout (piece :: pieces) = piece.compact ++ compactLayout pieces := by
  rw [compactLayout, List.flatMap_cons]
  rfl

@[simp] theorem compactLayout_append (pieces later : List (LayoutPiece α))
    : compactLayout (pieces ++ later) = compactLayout pieces ++ compactLayout later := by
  rw [compactLayout, List.flatMap_append]
  rfl

/-- The copies of a gap, written one character after the other. -/
theorem flatten_replicate_eq_map [Inhabited α] (gap : List α) (n : Nat)
    : ((List.range (n * gap.length)).map fun i => gap.getD (i % gap.length) default)
      = (List.replicate n gap).flatten := by
  induction n with
  | zero => simp
  | succ n ih =>
      rw [Nat.succ_mul, List.range_add, List.map_append, ih, List.replicate_succ',
        List.flatten_append, List.flatten_singleton]
      congr 1
      refine List.ext_getElem (by simp) fun i here _ => ?_
      have below : i < gap.length := by simpa using here
      simp [Nat.mod_eq_of_lt below, below]

end Boomkat.Foundation
