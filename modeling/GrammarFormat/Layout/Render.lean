import GrammarFormat.Layout.Piece
import GrammarFormat.LineRange

/-!
# From pieces to text

A `Style` says how a line ends and what one level of indent looks like. The text of a list of pieces
is that of each piece behind its separator; the first piece has nothing in front of it.
-/

namespace GrammarFormat

structure Style where
  delimiter : String := "\n"
  unit : String := "\t"
  deriving DecidableEq, Repr

/-- `count` copies of a text. -/
def Text.copies (count : Nat) (text : String) : String :=
  String.join (List.replicate count text)

/-- A text without the copies of `delimiter` at its head. -/
def Text.dropCopies (delimiter text : List Char) : List Char :=
  if _h : delimiter ≠ [] ∧ delimiter <+: text then
    dropCopies delimiter (text.drop delimiter.length)
  else text
termination_by text.length
decreasing_by
  have := List.length_pos_iff.2 _h.1
  have := _h.2.length_le
  simp only [List.length_drop]
  omega

/-- A text without the copies of `delimiter` at its end. -/
def Text.dropEndCopies (delimiter text : String) : String :=
  String.ofList (dropCopies delimiter.toList.reverse text.toList.reverse).reverse

def Separator.text (style : Style) : Separator → String
  | none => ""
  | space => " "
  | lines count => Text.copies count style.delimiter

namespace Piece

/-- A piece with its indent. -/
def text (style : Style) (piece : Piece) : String :=
  Text.copies piece.level style.unit ++ piece.image

/-- Whether the source lines of a piece lie in the range. -/
def isIn (range : LineRange) (piece : Piece) : Bool :=
  range.contains piece.firstLine piece.lastLine

/-- The text of pieces in a row. -/
def textOf (style : Style) : List Piece → String
  | [] => ""
  | piece :: rest =>
    piece.text style ++
      String.join (rest.map fun next => next.separator.text style ++ next.text style)

end Piece

/-- The text of the pieces in the range, without line ends behind it. -/
def Layout.render (style : Style) (range : LineRange) (pieces : List Piece) : String :=
  Text.dropEndCopies style.delimiter (Piece.textOf style (pieces.filter (·.isIn range)))

end GrammarFormat
