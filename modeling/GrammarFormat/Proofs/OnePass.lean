import GrammarFormat.Format
import GrammarFormat.Proofs.Margins
import GrammarFormat.Proofs.Writing

/-!
# Formatting in one pass

A `Writer` goes over the tokens once and keeps no pieces. It has the text of the range up to where it stands, the line
breaks and the space that are held back until something is written behind them, and its margins as texts. A piece
outside of the range is not written, and what was held back in front of it is dropped.

The writer stands where the pen does, and its text is that of the pieces in the range (`Writer.Follows`). Each step
keeps this up, so the pass ends with the text that the pieces of the range have (`writeRange_eq`), which is what
`format` gives (`format_eq_ok_iff`).
-/

namespace GrammarFormat.Layout

/-! ### The text of a range -/

/-- The text of a range so far. Line breaks and a space are held back until the next piece. -/
structure Output where
  text : String := ""
  newlines : Nat := 0
  space : Bool := false
  /-- Whether a piece was written. -/
  started : Bool := false
  deriving DecidableEq, Repr

namespace Output

def clear (out : Output) : Output :=
  { out with newlines := 0, space := false }

/-- Writes what is held back and a piece behind it, if the piece lies in the range; nothing stands in front of the
first one. -/
def piece (style : Style) (range : LineRange) (text : String) (firstLine lastLine : Nat) (out : Output) : Output :=
  if range.contains firstLine lastLine then
    let separator :=
      if !out.started then ""
      else if 0 < out.newlines then Text.copies out.newlines style.delimiter
      else if out.space then " "
      else ""
    { out.clear with text := out.text ++ separator ++ text, started := true }
  else out.clear

/-- What is held back, as it counts: a space does not next to a line break. -/
def held (out : Output) : Separator :=
  if 0 < out.newlines then .lines out.newlines else if out.space then .space else .none

end Output

/-! ### The writer -/

structure Writer where
  /-- Line breaks that the last gap asks for and that were not held back yet. -/
  pending : Nat := 0
  spaced : Bool := false
  lineStart : Bool := true
  margins : Margins := {}
  output : Output := {}
  deriving DecidableEq, Repr

namespace Writer

def newlines (w : Writer) (count : Nat) : Writer :=
  { w with lineStart := true, output.newlines := w.output.newlines + count }

def space (w : Writer) : Writer :=
  { w with output.space := true }

def flush (w : Writer) : Writer :=
  { w.newlines w.pending with pending := 0 }

/-- A text with the margin of its line, if it starts one. -/
def emit (style : Style) (range : LineRange) (image : String) (firstLine lastLine : Nat) (w : Writer) : Writer :=
  let text := if w.lineStart ∧ w.margins.line ≠ "" then w.margins.line ++ image else image
  { w with lineStart := false, output := w.output.piece style range text firstLine lastLine }

def breakLine (w : Writer) : Writer :=
  if 0 < w.pending then w.flush
  else if w.lineStart then w
  else w.newlines 1

def comment (style : Style) (range : LineRange) (t : Trivia) (w : Writer) : Writer :=
  let w := if w.lineStart then w else w.space
  let w := w.emit style range t.image t.firstLine t.lastLine
  if t.kind = .lineComment then { w.newlines 1 with pending := w.pending - 1 } else { w with spaced := true }

def trivia (style : Style) (range : LineRange) (inRun : Bool) : List Trivia → Writer → Writer
  | [], w => w
  | t :: rest, w =>
    if t.kind.isLineBreak then trivia style range true rest (if inRun then w else w.breakLine)
    else trivia style range false rest (w.comment style range t)

def separate (w : Writer) : Writer :=
  if 0 < w.pending then w.flush
  else if !w.lineStart && w.spaced then w.space
  else w

def token (style : Style) (range : LineRange) (t : Token) (w : Writer) : Option Writer := do
  let margins ← w.margins.converge style.unit
  let w := { w with margins := margins }
  return w.separate.emit style range t.image t.first.line t.last.line

def apply (style : Style) (gap : Gap) (w : Writer) : Option Writer := do
  let margins ← w.margins.apply style.unit gap
  return { w with pending := gap.newlines, spaced := gap.space, margins := margins }

/-- The pass over the tokens from `i` on, up to the first end mark, of which only the comments are written. There is no
result if a margin is cut in a character or by more than it has. -/
def run (s : TokenStream) (style : Style) (range : LineRange) :
    List Token → (i : Nat) → Scope → Memory → Writer → Option Writer
  | [], _, _, _, w => some w
  | t :: tokens, i, c, m, w =>
    let w := w.trivia style range false t.trivia
    if t.isEnd then some w
    else do
      let w ← w.token style range t
      let scope := c.advance s i
      let (gap, memory) := gapAfter s i scope m
      let w ← w.apply style gap
      run s style range tokens (i + 1) scope memory w

end Writer

/-- The text that the pass leaves, without line ends behind it. -/
def writeRange (s : TokenStream) (style : Style) (range : LineRange) : Option String :=
  (Writer.run s style range s.tokens.toList 0 {} {} {}).map fun w => Text.dropEndCopies style.delimiter w.output.text

/-! ### The pen and the writer -/

variable {s : TokenStream} {style : Style} {range : LineRange} {pen : Pen} {ps : List Piece}

namespace Output

variable {out : Output}

theorem text_held (out : Output) (style : Style) : out.held.text style =
    if 0 < out.newlines then Text.copies out.newlines style.delimiter else if out.space then " " else "" := by
  unfold held
  split_ifs <;> rfl

/-- The output is the text of pieces. -/
structure Holds (style : Style) (ps : List Piece) (out : Output) : Prop where
  started : out.started = !ps.isEmpty
  text : out.text = Piece.textOf style ps

/-- The next piece of the range comes behind what is held back. -/
theorem Holds.piece (h : out.Holds style (ps.filter (·.isIn range))) {p : Piece} (hheld : out.held = p.separator) :
    (out.piece style range (p.text style) p.firstLine p.lastLine).Holds style ((ps ++ [p]).filter (·.isIn range)) := by
  rw [Output.piece, List.filter_append, show range.contains p.firstLine p.lastLine = p.isIn range from rfl]
  by_cases hin : p.isIn range = true
  · have hfilter : [p].filter (·.isIn range) = [p] := by simp [hin]
    rw [if_pos hin, hfilter]
    refine ⟨by simp, ?_⟩
    dsimp only
    rw [← text_held, hheld, h.started, h.text]
    by_cases hnil : ps.filter (·.isIn range) = []
    · rw [hnil, List.nil_append, Piece.textOf_singleton]
      simp
    · rw [Piece.textOf_append hnil, Piece.textOf_singleton, String.append_assoc]
      simp [hnil]
  · have hfilter : [p].filter (·.isIn range) = [] := by simp [hin]
    rw [if_neg hin, hfilter, List.append_nil]
    exact ⟨h.started, h.text⟩

theorem held_piece (text : String) (firstLine lastLine : Nat) :
    (out.piece style range text firstLine lastLine).held = .none := by
  rw [piece]
  by_cases hin : range.contains firstLine lastLine = true
  · rw [if_pos hin]
    rfl
  · rw [if_neg hin]
    rfl

end Output

namespace Writer

/-- The writer stands where the pen does behind `ps`, and has written those of them that lie in the range. -/
structure Follows (style : Style) (range : LineRange) (pen : Pen) (ps : List Piece) (w : Writer) : Prop where
  pending : w.pending = pen.pending
  spaced : w.spaced = pen.spaced
  lineStart : w.lineStart = pen.lineStart
  margins : w.margins = pen.margins style.unit
  held : w.output.held = pen.held
  holds : w.output.Holds style (ps.filter (·.isIn range))

namespace Follows

variable {w : Writer}

theorem newlines (h : w.Follows style range pen ps) {count : Nat} (hcount : 0 < count) :
    (w.newlines count).Follows style range (pen.newlines count) ps := by
  refine ⟨h.pending, h.spaced, rfl, h.margins, ?_, h.holds.started, h.holds.text⟩
  have hheld := h.held
  unfold Output.held at hheld
  rw [Pen.newlines, Writer.newlines, Output.held, if_pos (Nat.add_pos_right _ hcount), ← hheld]
  split_ifs with hlines
  · rfl
  · simp [Nat.eq_zero_of_not_pos hlines]
  · simp [Nat.eq_zero_of_not_pos hlines]

theorem space (h : w.Follows style range pen ps) : w.space.Follows style range pen.space ps := by
  have hheld := h.held
  unfold Output.held at hheld
  rw [Pen.space, ← hheld]
  split_ifs at hheld ⊢ with hlines hspace
  · exact ⟨h.pending, h.spaced, h.lineStart, h.margins, (if_pos hlines).trans hheld, h.holds.started, h.holds.text⟩
  · exact ⟨h.pending, h.spaced, h.lineStart, h.margins, (if_neg hlines).trans hheld, h.holds.started, h.holds.text⟩
  · exact ⟨h.pending, h.spaced, h.lineStart, h.margins, if_neg hlines, h.holds.started, h.holds.text⟩

theorem flush (h : w.Follows style range pen ps) (hpending : 0 < pen.pending) :
    w.flush.Follows style range pen.flush ps := by
  have hnewlines := h.newlines hpending
  rw [← h.pending] at hnewlines
  rw [Writer.flush, Pen.flush, ← h.pending]
  exact ⟨rfl, hnewlines.spaced, rfl, hnewlines.margins, hnewlines.held, hnewlines.holds⟩

theorem emit (h : w.Follows style range pen ps) (image : String) (firstLine lastLine : Nat) :
    (w.emit style range image firstLine lastLine).Follows style range (pen.write image firstLine lastLine).2
      (ps ++ [(pen.write image firstLine lastLine).1]) := by
  have htext : (if w.lineStart ∧ w.margins.line ≠ "" then w.margins.line ++ image else image) =
      (pen.write image firstLine lastLine).1.text style := by
    rw [Pen.text_write, h.lineStart, h.margins, Pen.margins]
    by_cases hempty : Text.copies pen.lineLevel style.unit = ""
    · simp [hempty]
    · cases pen.lineStart <;> simp [hempty]
  refine ⟨h.pending, h.spaced, rfl, h.margins, Output.held_piece .., ?_⟩
  rw [Writer.emit, htext]
  exact h.holds.piece (p := (pen.write image firstLine lastLine).1) h.held

theorem breakLine (h : w.Follows style range pen ps) : w.breakLine.Follows style range pen.breakLine ps := by
  rw [Writer.breakLine, Pen.breakLine, h.pending, h.lineStart]
  split_ifs with hpending
  · exact h.flush hpending
  · exact h
  · exact h.newlines Nat.one_pos

theorem separate (h : w.Follows style range pen ps) : w.separate.Follows style range pen.separate ps := by
  rw [Writer.separate, Pen.separate, h.pending, h.lineStart, h.spaced]
  split_ifs with hpending
  · exact h.flush hpending
  · exact h.space
  · exact h

theorem comment (h : w.Follows style range pen ps) (t : Trivia) :
    (w.comment style range t).Follows style range (pen.comment t).2 (ps ++ [(pen.comment t).1]) := by
  have hstart : (if w.lineStart then w else w.space).Follows style range
      (if pen.lineStart then pen else pen.space) ps := by
    rw [h.lineStart]
    split_ifs
    · exact h
    · exact h.space
  have hemit := hstart.emit t.image t.firstLine t.lastLine
  have hnewlines := hemit.newlines Nat.one_pos
  rw [Writer.comment, Pen.comment]
  dsimp only
  by_cases hkind : t.kind = .lineComment
  · rw [if_pos hkind, if_pos hkind]
    exact ⟨by rw [hemit.pending], hnewlines.spaced, rfl, hnewlines.margins, hnewlines.held, hnewlines.holds⟩
  · rw [if_neg hkind, if_neg hkind]
    exact ⟨hemit.pending, rfl, hemit.lineStart, hemit.margins, hemit.held, hemit.holds⟩

theorem trivia (h : w.Follows style range pen ps) (inRun : Bool) (trivia : List Trivia) :
    (w.trivia style range inRun trivia).Follows style range (pen.trivia inRun trivia).2
      (ps ++ (pen.trivia inRun trivia).1) := by
  induction trivia generalizing w pen ps inRun with
  | nil =>
    rw [Pen.trivia, List.append_nil]
    exact h
  | cons t trivia ih =>
    rw [Pen.trivia, Writer.trivia]
    split_ifs
    · exact ih h true
    · exact ih h.breakLine true
    · have hrest := ih (h.comment t) false
      rw [List.append_assoc, List.singleton_append] at hrest
      exact hrest

theorem token (h : w.Follows style range pen ps) (t : Token) : ∃ w', w.token style range t = some w' ∧
    w'.Follows style range (pen.token t).2 (ps ++ [(pen.token t).1]) := by
  have hconverge : Follows style range pen.converge ps { w with margins := pen.converge.margins style.unit } :=
    ⟨by simpa using h.pending, by simpa using h.spaced, by simpa using h.lineStart, rfl, by simpa using h.held, h.holds⟩
  refine ⟨_, ?_, hconverge.separate.emit t.image t.first.line t.last.line⟩
  rw [Writer.token, h.margins, Pen.converge_margins]
  rfl

theorem apply (h : w.Follows style range pen ps) (gap : Gap) : ∃ w', w.apply style gap = some w' ∧
    w'.Follows style range (pen.apply gap) ps := by
  refine ⟨⟨gap.newlines, gap.space, w.lineStart, (pen.apply gap).margins style.unit, w.output⟩, ?_,
    ⟨rfl, rfl, h.lineStart, rfl, h.held, h.holds⟩⟩
  rw [Writer.apply, h.margins, Pen.apply_margins]
  rfl

/-- The pass writes the pieces of all tokens up to the first end mark. -/
theorem run (h : w.Follows style range pen ps) {tokens : List Token} {i : Nat}
    (htokens : s.tokens.toList.drop i = tokens) (c : Scope) (m : Memory) :
    ∃ w', Writer.run s style range tokens i c m w = some w' ∧
      w'.output.Holds style ((ps ++ (pieceGroups pen tokens
        ((decisionsFrom s tokens.length i c m).map Decision.gap)).flatten).filter (·.isIn range)) := by
  -- the gaps are decided along the way here, and beforehand for the pen: both stop at the same token
  induction tokens generalizing w pen ps i c m with
  | nil =>
    refine ⟨w, rfl, ?_⟩
    rw [pieceGroups, List.flatten_nil, List.append_nil]
    exact h.holds
  | cons t tokens ih =>
    have hget : s.tokens.toList[i]? = some t := by
      rw [← List.head?_drop, htokens]
      rfl
    have hrest : s.tokens.toList.drop (i + 1) = tokens := by
      rw [← List.tail_drop, htokens]
      rfl
    have hkind : s.kind i = t.kind := by
      rw [TokenStream.kind, TokenStream.get?, ← Array.getElem?_toList, hget]
    have htrivia := h.trivia false t.trivia
    rw [Writer.run, List.length_cons, decisionsFrom, hkind]
    by_cases hend : t.kind = .endOfFile
    · rw [if_pos (show t.isEnd = true from beq_iff_eq.2 hend), if_pos hend]
      refine ⟨_, rfl, ?_⟩
      rw [List.map_nil, pieceGroups, List.flatten_singleton]
      exact htrivia.holds
    · obtain ⟨w₁, hw₁, htoken⟩ := htrivia.token t
      obtain ⟨w₂, hw₂, happly⟩ := htoken.apply (gapAfter s i (c.advance s i) m).1
      obtain ⟨w₃, hw₃, hholds⟩ := ih happly hrest (c.advance s i) (gapAfter s i (c.advance s i) m).2
      rw [if_neg (show ¬ t.isEnd = true from fun h => hend (beq_iff_eq.1 h)), if_neg hend]
      refine ⟨w₃, ?_, ?_⟩
      · simp only [hw₁, hw₂, Option.bind_eq_bind, Option.bind_some]
        exact hw₃
      · rw [List.append_assoc, List.append_assoc] at hholds
        rw [List.map_cons, pieceGroups, List.flatten_cons, List.append_assoc]
        exact hholds

end Follows

theorem follows_start (style : Style) (range : LineRange) : Follows style range {} [] {} :=
  ⟨rfl, rfl, rfl, rfl, rfl, rfl, rfl⟩

end Writer

/-- One pass over any tokens writes the text that their pieces have in the range. No margin is cut in a character or by
more than it has. -/
theorem writeRange_eq (s : TokenStream) (style : Style) (range : LineRange) :
    writeRange s style range = some (render style range (pieces s)) := by
  obtain ⟨w, hw, hholds⟩ := (Writer.follows_start style range).run (s := s) List.drop_zero {} {}
  rw [List.nil_append, Array.length_toList] at hholds
  rw [writeRange, hw, Option.map_some, hholds.text]
  rfl

theorem format_eq_ok_iff {text : String} :
    format s style range = .ok text ↔ s.isEmpty = false ∧ writeRange s style range = some text := by
  rw [writeRange_eq, format, Option.some.injEq]
  cases s.isEmpty with
  | true => simp
  | false => simp

end GrammarFormat.Layout
