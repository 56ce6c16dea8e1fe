import GrammarFormat.Proofs.Entries
import GrammarFormat.Proofs.Marks

/-!
# Line breaks of the source

Where the source has a line break or a form feed between two neighbours among its comments and tokens, the formatted
text has one line end there or two; and so it does behind each line comment that is not the last of them
(`formatSource_keeps_breaks`). A break that is read behind a piece is written, with what is pending, unless the piece
has ended its line already: then the line end is held back, and nothing that comes before the next piece takes it away
(`Pen.Wrote.resume`).
-/

namespace GrammarFormat

open Layout

def Item.isLineComment : Item → Bool
  | trivia .lineComment _ => true
  | _ => false

namespace Layout

/-- The pen at the start of a line that is not the first. -/
structure Pen.OnNewLine (pen : Pen) : Prop where
  lineStart : pen.lineStart = true
  held : ∃ n, pen.held = .lines (n + 1)

/-- The pen right behind a piece, where `ended` says whether that ended its line. -/
def Pen.Wrote (pen : Pen) (ended : Bool) : Prop :=
  if ended then pen.OnNewLine else pen.lineStart = false

variable {pen : Pen} {broken ended : Bool}

/-- Breaks that are read behind a piece are written, and a line that was ended stays so. -/
theorem Pen.Wrote.resume (h : pen.Wrote ended) (hbreak : broken = true ∨ ended = true) :
    (pen.resume broken).OnNewLine := by
  cases broken with
  | true =>
    have hbehind : pen.lineStart = false ∨ ∃ n, pen.held = .lines (n + 1) := by
      cases ended with
      | true => exact .inr (Pen.OnNewLine.held h)
      | false => exact .inl h
    obtain ⟨hstart, hheld⟩ := Pen.lines_breakLine hbehind
    exact ⟨hstart, hheld⟩
  | false =>
    obtain rfl := hbreak.resolve_left Bool.false_ne_true
    exact h

theorem Pen.wrote_comment (pen : Pen) (t : Trivia) : (pen.comment t).2.Wrote t.item.isLineComment := by
  by_cases hkind : t.kind = .lineComment
  · have hitem : t.item.isLineComment = true := by rw [Trivia.item, hkind]; rfl
    rw [hitem]
    exact ⟨by simp [Pen.comment, hkind, newlines], 0, by simp [Pen.comment, hkind, newlines, write]⟩
  · have hitem : t.item.isLineComment = false := by
      rw [Trivia.item]
      unfold Item.isLineComment
      split
      · rename_i heq
        exact absurd (Item.trivia.inj heq).1 hkind
      · rfl
    rw [hitem]
    change (pen.comment t).2.lineStart = false
    simp [Pen.comment, hkind, write]

/-- What a mark does to the pen, and what is in front of its piece. -/
theorem layMarks_cons (pen : Pen) (mark : Mark) (marks : List Mark) (gaps : List Gap) :
    layMarks pen (mark :: marks) gaps = [] ∨ ∃ piece pen' gaps',
      layMarks pen (mark :: marks) gaps = piece :: layMarks pen' marks gaps' ∧
      pen'.Wrote mark.item.isLineComment ∧
      ∀ ended, pen.Wrote ended → mark.broken = true ∨ ended = true → ∃ n, piece.separator = .lines (n + 1) := by
  obtain ⟨item, broken⟩ := mark
  rcases item with ⟨kind, image⟩ | ⟨kind, image⟩
  · refine .inr ⟨_, _, gaps, rfl, Pen.wrote_comment _ (unplacedTrivia (kind, image)), fun ended h hbreak => ?_⟩
    obtain ⟨hstart, n, hheld⟩ := h.resume hbreak
    exact ⟨n, Pen.separator_comment_of_lines hstart hheld _⟩
  · rcases gaps with _ | ⟨gap, gaps⟩
    · exact .inl rfl
    · refine .inr ⟨_, _, gaps, rfl, rfl, fun ended h hbreak => ?_⟩
      obtain ⟨hstart, n, hheld⟩ := h.resume hbreak
      exact Pen.separator_token_of_lines hstart hheld _

theorem separator_layMarks {marks : List Mark} {gaps : List Gap} {i : Nat} {p : Piece} (hpen : pen.Wrote ended)
    (hp : (layMarks pen marks gaps)[i]? = some p)
    (hbreak : (marks.map Mark.broken)[i]? = some true ∨
      (ended :: marks.map (·.item.isLineComment))[i]? = some true) : ∃ n, p.separator = .lines (n + 1) := by
  induction marks generalizing pen ended gaps i with
  | nil => cases hp
  | cons mark marks ih =>
    rcases layMarks_cons pen mark marks gaps with hnil | ⟨piece, pen', gaps', hcons, hpen', hseparator⟩
    · rw [hnil] at hp
      cases hp
    rw [hcons] at hp
    cases i with
    | zero =>
      cases hp
      refine hseparator ended hpen (hbreak.imp ?_ ?_)
      · exact Option.some.inj
      · exact Option.some.inj
    | succ i => exact ih hpen' hp hbreak

/-- Nothing stands in front of the first piece; each other one is behind a line break if the source has one there,
or if the piece before it is a line comment. -/
theorem separator_layMarks_succ {marks : List Mark} {gaps : List Gap} {i : Nat} {p : Piece}
    (hp : (layMarks pen marks gaps)[i + 1]? = some p)
    (hbreak : (marks.map Mark.broken).tail[i]? = some true ∨
      (marks.map (·.item.isLineComment))[i]? = some true) : ∃ n, p.separator = .lines (n + 1) := by
  rcases marks with _ | ⟨mark, marks⟩
  · cases hp
  rcases layMarks_cons pen mark marks gaps with hnil | ⟨piece, pen', gaps', hcons, hpen', -⟩
  · rw [hnil] at hp
    cases hp
  rw [hcons] at hp
  exact separator_layMarks hpen' hp hbreak

end Layout

variable {source : String} {s : TokenStream}

theorem image_pieces (hs : tokenize source = .ok s) : (pieces s).map Piece.image = s.code.map Item.image := by
  have hparts : Part.texts ((pieces s).map Piece.part) = s.code.map (·.image.toList) := by
    rw [part_pieces (lexed_of_tokenize hs), TokenStream.texts_parts]
  have htexts : ((pieces s).map Piece.image).map String.toList = (s.code.map Item.image).map String.toList := by
    rw [List.map_map, List.map_map]
    rw [Part.texts, List.map_map] at hparts
    exact hparts
  exact List.map_injective_iff.2 (fun _ _ => String.toList_inj.1) htexts

theorem separator_pieces (hs : tokenize source = .ok s) {i : Nat} {p : Piece} (hp : (pieces s)[i + 1]? = some p)
    (hbreak : s.breaks[i]? = some true ∨ (s.code.map Item.isLineComment)[i]? = some true) :
    ∃ n, p.separator = .lines (n + 1) := by
  have hlay : (pieces s).map Piece.unplaced = layMarks {} s.marks ((decisions s).map Decision.gap) :=
    unplaced_pieceGroups (fits_decisions (lexed_of_tokenize hs)) {}
  have hpiece : (layMarks {} s.marks ((decisions s).map Decision.gap))[i + 1]? = some p.unplaced := by
    rw [← hlay, List.getElem?_map, hp]
    rfl
  have hcode : s.code = s.marks.map Mark.item := (item_marksOf false s.items).symm
  rw [hcode, List.map_map] at hbreak
  obtain ⟨n, hlines⟩ := separator_layMarks_succ hpiece hbreak
  exact ⟨n, hlines⟩

theorem Piece.Tidy.spacing {p : Piece} (h : p.Tidy) {n : Nat} (hlines : p.separator = .lines (n + 1)) :
    p.entry.spacing = .line ∨ p.entry.spacing = .blankLine := by
  rw [Piece.Tidy, hlines] at h
  rw [Piece.entry, hlines]
  obtain rfl | rfl : n = 0 ∨ n = 1 := by omega
  · exact .inl rfl
  · exact .inr rfl

/-- The formatted text is made of the comments and tokens in order. Between two neighbours with a break in the source,
and behind each line comment that is not the last of them, there are one or two line ends and then the indent. -/
theorem formatSource_keeps_breaks (hs : tokenize source = .ok s) (hne : s.isEmpty = false) : ∃ entries : List Entry,
    entries.map Entry.image = s.code.map Item.image ∧
    (∀ style : Style, style.EndsLines →
      formatSource source style .all = .ok (Entry.textOf style entries)) ∧
    ∀ i a b, s.code[i]? = some a → s.code[i + 1]? = some b →
      s.breaks[i]? = some true ∨ a.isLineComment = true →
        ∃ e, entries[i + 1]? = some e ∧ e.image = b.image ∧ (e.spacing = .line ∨ e.spacing = .blankLine) := by
  have himages := image_pieces hs
  refine ⟨(pieces s).map Piece.entry, ?_, fun style hstyle => ?_, fun i a b ha hb hbreak => ?_⟩
  · rw [List.map_map]
    exact himages
  · rw [formatSource_all hs hne hstyle, Piece.textOf_entries style (tidy_pieces s)]
  · have himage := congrArg (·[i + 1]?) himages
    simp only [List.getElem?_map, hb] at himage
    obtain ⟨p, hp, hpb⟩ := Option.map_eq_some_iff.1 himage
    have hcomment : a.isLineComment = true → (s.code.map Item.isLineComment)[i]? = some true := by
      intro hcomment
      rw [List.getElem?_map, ha, Option.map_some, hcomment]
    obtain ⟨n, hlines⟩ := separator_pieces hs hp (hbreak.imp_right hcomment)
    refine ⟨p.entry, ?_, hpb, (tidy_pieces s p (List.mem_of_getElem? hp)).spacing hlines⟩
    rw [List.getElem?_map, hp]
    rfl

theorem formatSource_keeps_breaks_of_formFeed : ∃ s entries, tokenize "a; // b\r\n/* c */ d\x0c\n;e" = .ok s ∧
    s.isEmpty = false ∧ s.breaks = [false, false, true, false, true, false] ∧
    (∀ style : Style, style.EndsLines →
      formatSource "a; // b\r\n/* c */ d\x0c\n;e" style .all = .ok (Entry.textOf style entries)) ∧
    ∃ e, entries[5]? = some e ∧ e.image = ";" ∧ (e.spacing = .line ∨ e.spacing = .blankLine) := by
  obtain ⟨s, hs, h⟩ := exists_tokenize_of_any "a; // b\r\n/* c */ d\x0c\n;e"
    (show Option.any (fun s => decide (s.isEmpty = false ∧ s.breaks = [false, false, true, false, true, false] ∧
      s.code[4]? = some (.token .identifier "d") ∧ s.code[5]? = some (.token .semicolon ";"))) _ = true
      by decide +kernel)
  obtain ⟨hne, hbreaks, hd, hsemicolon⟩ := of_decide_eq_true h
  obtain ⟨entries, -, htext, hkept⟩ := formatSource_keeps_breaks hs hne
  exact ⟨s, entries, hs, hne, hbreaks, htext, hkept 4 _ _ hd hsemicolon (.inl (by rw [hbreaks]; rfl))⟩

end GrammarFormat
