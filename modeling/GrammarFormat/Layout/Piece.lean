import GrammarFormat.Layout.Gap

/-!
# Pieces

`pieces` lays a stream out: the comments and tokens in order, each with what separates it from the
piece before it and, at the start of a line, its level of indent. Nothing here knows how a line is
ended or what one level of indent looks like.

The gap rules decide from the tokens alone (`decisions`). A `Pen` then writes: it keeps the line
breaks of the source, merged with those the gaps ask for, so that there is never more than one blank
line; it ends the line of a line comment; and its indent follows the gaps one level per token.
-/

namespace GrammarFormat

/-- What stands between a piece and the one before it. -/
inductive Separator where
  | none
  | space
  | lines (count : Nat)
  deriving DecidableEq, Repr

/-- A comment or a token in its place. -/
structure Piece where
  separator : Separator
  /-- The level of indent in front of it, 0 inside a line. -/
  level : Nat
  image : String
  /-- The lines of the source on which it starts and ends. -/
  firstLine : Nat
  lastLine : Nat
  deriving DecidableEq, Repr

namespace Layout

/-! ### Decisions -/

/-- The scope after a token, and the gap behind it. -/
structure Decision where
  scope : Scope
  gap : Gap
  deriving DecidableEq, Repr

/-- The decisions for the tokens from `i` on, at most `left` of them, up to the first end mark. -/
def decisionsFrom (s : TokenStream) : (left i : Nat) → Scope → Memory → List Decision
  | 0, _, _, _ => []
  | left + 1, i, c, m =>
    if s.kind i = .endOfFile then []
    else
      let scope := c.advance s i
      let (gap, memory) := gapAfter s i scope m
      ⟨scope, gap⟩ :: decisionsFrom s left (i + 1) scope memory

def decisions (s : TokenStream) : List Decision :=
  decisionsFrom s s.size 0 {} {}

/-! ### The pen -/

structure Pen where
  /-- Line breaks that the last gap asks for and that were not written yet. -/
  pending : Nat := 0
  /-- Whether the last gap, or a comment behind it, asks for a space. -/
  spaced : Bool := false
  lineStart : Bool := true
  /-- The level at which the current line is written. -/
  lineLevel : Nat := 0
  /-- The level that the gaps ask for. -/
  level : Nat := 0
  /-- What was written since the last piece. -/
  held : Separator := .none
  deriving DecidableEq, Repr

namespace Pen

/-- Writes `count` line breaks. -/
def newlines (pen : Pen) (count : Nat) : Pen :=
  let held :=
    match pen.held with
    | .lines n => n + count
    | _ => count
  { pen with lineStart := true, held := .lines held }

/-- Writes a space, which does not count next to a line break. -/
def space (pen : Pen) : Pen :=
  match pen.held with
  | .none => { pen with held := .space }
  | _ => pen

/-- Writes the line breaks that are pending. -/
def flush (pen : Pen) : Pen :=
  { pen.newlines pen.pending with pending := 0 }

/-- Writes a piece of text that spans the given lines of the source. -/
def write (pen : Pen) (image : String) (firstLine lastLine : Nat) : Piece × Pen :=
  (⟨pen.held, if pen.lineStart then pen.lineLevel else 0, image, firstLine, lastLine⟩,
   { pen with lineStart := false, held := .none })

/-- A run of line breaks in the source: one break, or those that are pending. -/
def breakLine (pen : Pen) : Pen :=
  if 0 < pen.pending then pen.flush
  else if pen.lineStart then pen
  else pen.newlines 1

/-- A comment keeps its text. A line comment ends its line, which counts as one of the line breaks
that are pending. -/
def comment (pen : Pen) (trivia : Trivia) : Piece × Pen :=
  let pen := if pen.lineStart then pen else pen.space
  let (piece, pen) := pen.write trivia.image trivia.firstLine trivia.lastLine
  (piece,
   if trivia.kind = .lineComment then { pen.newlines 1 with pending := pen.pending - 1 }
   else { pen with spaced := true })

/-- The trivia in front of a token; `inRun` says whether a line break came right before them. -/
def trivia (pen : Pen) (inRun : Bool) : List Trivia → List Piece × Pen
  | [] => ([], pen)
  | t :: rest =>
    if t.kind.isLineBreak then (if inRun then pen else pen.breakLine).trivia true rest
    else
      let (piece, pen) := pen.comment t
      let (pieces, pen) := pen.trivia false rest
      (piece :: pieces, pen)

/-- The level of the line moves one step towards the level that is asked for. -/
def converge (pen : Pen) : Pen :=
  if pen.lineLevel < pen.level then { pen with lineLevel := pen.lineLevel + 1 }
  else if pen.level < pen.lineLevel then { pen with lineLevel := pen.lineLevel - 1 }
  else pen

/-- Separates a token from what stands in front of it. -/
def separate (pen : Pen) : Pen :=
  if 0 < pen.pending then pen.flush
  else if !pen.lineStart && pen.spaced then pen.space
  else pen

def token (pen : Pen) (token : Token) : Piece × Pen :=
  pen.converge.separate.write token.image token.first.line token.last.line

/-- Takes over what a gap asks for; the level never falls below 0. -/
def apply (pen : Pen) (gap : Gap) : Pen :=
  { pen with
    pending := gap.newlines
    spaced := gap.space
    level := (pen.level + gap.indent).toNat }

end Pen

/-! ### Whole streams -/

/-- The pieces of each token, its comments first, while there are gaps; the token behind the last
gap is the end mark, of which only the comments are written. -/
def pieceGroups (pen : Pen) : List Token → List Gap → List (List Piece)
  | [], _ => []
  | t :: _, [] => [(pen.trivia false t.trivia).1]
  | t :: tokens, gap :: gaps =>
    let (comments, pen) := pen.trivia false t.trivia
    let (piece, pen) := pen.token t
    (comments ++ [piece]) :: pieceGroups (pen.apply gap) tokens gaps

/-- The pieces of a stream, token by token. -/
def groups (s : TokenStream) : List (List Piece) :=
  pieceGroups {} s.tokens.toList ((decisions s).map Decision.gap)

/-- The pieces of a stream. -/
def pieces (s : TokenStream) : List Piece :=
  (groups s).flatten

end Layout

end GrammarFormat
