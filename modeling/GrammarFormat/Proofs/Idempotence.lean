import GrammarFormat.Proofs.Formatting
import GrammarFormat.Proofs.SameTokens

/-!
# Formatting twice

A formatted text is formatted to itself (`formatSource_idempotent`). The second run makes the same
decisions, since they do not look at trivia, but it meets other line breaks: those that the first run
wrote. So the pen is followed from piece to piece. In front of a piece the first run saw a line break or
none; the second sees one just if the first wrote one, and both write the same
(`Pen.Settled.comment_eq`, `Pen.Settled.token_eq`). A line comment needs care, because it ends its line
without a break being read; but one always follows it.
-/

namespace GrammarFormat

open Lexeme

namespace Layout.Pen

variable {pen : Pen} {inRun : Bool}

/-! ### The pen between pieces -/

/-- The pen when it has written a piece, or nothing yet, and read no line break since. -/
inductive Settled (pen : Pen) : Prop
  | start (hstart : pen.lineStart = true) (hheld : pen.held = .none) (hpending : pen.pending = 0)
  | inLine (hstart : pen.lineStart = false) (hheld : pen.held = .none)
  | ended {n : Nat} (hstart : pen.lineStart = true) (hheld : pen.held = .lines (n + 1))

/-- The pen in front of the next piece, where `broken` says whether line breaks were read. -/
def resume (pen : Pen) (broken : Bool) : Pen :=
  if broken then pen.breakLine else pen

theorem settled_comment (pen : Pen) (t : Trivia) : (pen.comment t).2.Settled := by
  by_cases hkind : t.kind = .lineComment
  · exact .ended (n := 0) (by simp [comment, hkind, newlines]) (by simp [comment, hkind, newlines, write])
  · exact .inLine (by simp [comment, hkind, write]) (by simp [comment, hkind, write])

theorem held_comment {t : Trivia} (h : (pen.comment t).2.held ≠ .none) : t.kind = .lineComment := by
  by_contra hkind
  exact h (by simp [comment, hkind, write])

theorem settled_token (pen : Pen) (t : Token) (gap : Gap) : ((pen.token t).2.apply gap).Settled :=
  .inLine rfl rfl

theorem flush_converge (pen : Pen) : pen.flush.converge = pen.converge.flush := by
  unfold converge flush newlines
  split_ifs <;> rfl

theorem resume_start (hstart : pen.lineStart = true) (hpending : pen.pending = 0) (broken : Bool) :
    pen.resume broken = pen := by
  cases broken <;> simp [resume, breakLine, hstart, hpending]

/-- Behind a piece, line breaks that are read are written. -/
theorem lines_breakLine (h : pen.lineStart = false ∨ ∃ n, pen.held = .lines (n + 1)) :
    pen.breakLine.lineStart = true ∧ ∃ n, pen.breakLine.held = .lines (n + 1) := by
  unfold breakLine
  split_ifs with hpending hstart
  · exact ⟨rfl, pen.held_newlines hpending⟩
  · refine ⟨hstart, h.resolve_left ?_⟩
    rw [hstart]; decide
  · exact ⟨rfl, pen.held_newlines Nat.one_pos⟩

theorem separator_comment_of_lines {n : Nat} (hstart : pen.lineStart = true)
    (hheld : pen.held = .lines (n + 1)) (t : Trivia) : (pen.comment t).1.separator = .lines (n + 1) := by
  simp [comment, hstart, write, hheld]

theorem separator_token_of_lines {n : Nat} (hstart : pen.lineStart = true)
    (hheld : pen.held = .lines (n + 1)) (t : Token) : ∃ m, (pen.token t).1.separator = .lines (m + 1) := by
  by_cases hpending : 0 < pen.pending
  · obtain ⟨m, hm⟩ := pen.converge.held_newlines hpending
    exact ⟨m, by simpa [token, separate, hpending, write, flush] using hm⟩
  · exact ⟨n, by simp [token, separate, hpending, hstart, write, hheld]⟩

namespace Settled

/-- A comment is written the same if a line break is read just where one is written. -/
theorem comment_eq (h : pen.Settled) (hended : pen.held ≠ .none → inRun = true) (t : Trivia) :
    (pen.resume (decide (0 < ((pen.resume inRun).comment t).1.separator.breaks))).comment t =
      (pen.resume inRun).comment t := by
  have hbroken (hlines : pen.lineStart = false ∨ ∃ n, pen.held = .lines (n + 1)) :
      0 < ((pen.resume true).comment t).1.separator.breaks := by
    obtain ⟨hstart, n, hheld⟩ := lines_breakLine hlines
    rw [resume, if_pos rfl, separator_comment_of_lines hstart hheld]
    exact Nat.succ_pos n
  cases h with
  | start hstart _ hpending => rw [resume_start hstart hpending, resume_start hstart hpending]
  | inLine hstart hheld =>
    cases inRun with
    | true => rw [decide_eq_true (hbroken (.inl hstart))]
    | false =>
      have hspace : (pen.comment t).1.separator = .space := by simp [comment, hstart, write, space, hheld]
      simp [resume, hspace, Separator.breaks]
  | @ended n hstart hheld =>
    obtain rfl : inRun = true := hended (by rw [hheld]; simp)
    rw [decide_eq_true (hbroken (.inr ⟨n, hheld⟩))]

/-- So is a token, although the pen writes breaks in front of it that nobody read. -/
theorem token_eq (h : pen.Settled) (hended : pen.held ≠ .none → inRun = true) (t : Token) :
    (pen.resume (decide (0 < ((pen.resume inRun).token t).1.separator.breaks))).token t =
      (pen.resume inRun).token t := by
  have hbroken (hlines : pen.lineStart = false ∨ ∃ n, pen.held = .lines (n + 1)) :
      0 < ((pen.resume true).token t).1.separator.breaks := by
    obtain ⟨hstart, n, hheld⟩ := lines_breakLine hlines
    obtain ⟨m, hm⟩ := separator_token_of_lines hstart hheld t
    rw [resume, if_pos rfl, hm]
    exact Nat.succ_pos m
  cases h with
  | start hstart _ hpending => rw [resume_start hstart hpending, resume_start hstart hpending]
  | inLine hstart hheld =>
    cases inRun with
    | true => rw [decide_eq_true (hbroken (.inl hstart))]
    | false =>
      by_cases hpending : 0 < pen.pending
      · -- the pending breaks are written in front of the token, or when a break is read
        have hflush : pen.flush.token t = pen.token t := by
          have hseparate : pen.flush.converge.separate = pen.converge.separate := by
            rw [flush_converge]
            simp [separate, hpending, flush, newlines]
          rw [token, token, hseparate]
        have hlines : 0 < (pen.token t).1.separator.breaks := by
          obtain ⟨m, hm⟩ := pen.converge.held_newlines hpending
          simp [token, separate, hpending, write, flush, hm, Separator.breaks]
        have hbreak : pen.resume true = pen.flush := by simp [resume, breakLine, hpending]
        change (pen.resume (decide (0 < (pen.token t).1.separator.breaks))).token t = pen.token t
        rw [decide_eq_true hlines, hbreak, hflush]
      · have hnone : (pen.token t).1.separator.breaks = 0 := by
          cases hspaced : pen.spaced <;>
            simp [token, separate, hpending, hstart, hspaced, write, space, hheld, Separator.breaks]
        simp [resume, hnone]
  | @ended n hstart hheld =>
    obtain rfl : inRun = true := hended (by rw [hheld]; simp)
    rw [decide_eq_true (hbroken (.inr ⟨n, hheld⟩))]

end Settled

end Layout.Pen

/-! ### Without places -/

/-- A piece without its place in the source. -/
def Piece.unplaced (p : Piece) : Piece :=
  { p with firstLine := 0, lastLine := 0 }

def unplacedTrivia (u : TriviaKind × String) : Trivia :=
  ⟨u.1, u.2, 0, 0⟩

/-- A token that has the outline and no place. -/
def Outline.token (o : Outline) : Token :=
  ⟨o.kind, o.image, ⟨0, 0⟩, ⟨0, 0⟩, o.trivia.map unplacedTrivia⟩

theorem Piece.textOf_unplaced (style : Style) (ps : List Piece) :
    textOf style (ps.map Piece.unplaced) = textOf style ps := by
  cases ps with
  | nil => rfl
  | cons p ps =>
    simp only [List.map_cons, textOf, List.map_map]
    rfl

namespace Layout

theorem Pen.comment_unplaced (pen : Pen) (t : Trivia) :
    pen.comment (unplacedTrivia t.outline) = ((pen.comment t).1.unplaced, (pen.comment t).2) := by
  simp only [Pen.comment, Pen.write]
  rfl

theorem Pen.trivia_unplaced (pen : Pen) (inRun : Bool) (trivia : List Trivia) :
    pen.trivia inRun ((trivia.map Trivia.outline).map unplacedTrivia) =
      ((pen.trivia inRun trivia).1.map Piece.unplaced, (pen.trivia inRun trivia).2) := by
  induction trivia generalizing pen inRun with
  | nil => rfl
  | cons t trivia ih =>
    simp only [List.map_cons, Pen.trivia, Pen.comment_unplaced, ih]
    have hkind : (unplacedTrivia t.outline).kind = t.kind := rfl
    rw [hkind]
    split_ifs <;> rfl

/-- Pieces keep the places of tokens and look at nothing else of them but their outlines. -/
theorem pieceGroups_unplaced (pen : Pen) (tokens : List Token) (gaps : List Gap) :
    pieceGroups pen ((tokens.map Token.outline).map Outline.token) gaps =
      (pieceGroups pen tokens gaps).map (List.map Piece.unplaced) := by
  induction tokens generalizing pen gaps with
  | nil => rfl
  | cons t tokens ih =>
    have htrivia : t.outline.token.trivia = (t.trivia.map Trivia.outline).map unplacedTrivia := rfl
    cases gaps with
    | nil => simp only [List.map_cons, pieceGroups, htrivia, Pen.trivia_unplaced, List.map_nil]
    | cons gap gaps =>
      have htoken : ∀ pen : Pen, pen.token t.outline.token = ((pen.token t).1.unplaced, (pen.token t).2) :=
        fun _ => rfl
      simp only [List.map_cons, pieceGroups, htrivia, Pen.trivia_unplaced, htoken, ih, List.map_append,
        List.map_nil]

/-! ### Relaying -/

theorem Pen.trivia_cons_of_break (pen : Pen) (inRun : Bool) {t : Trivia} (ht : t.kind.isLineBreak = true)
    (trivia : List Trivia) :
    pen.trivia inRun (t :: trivia) = (if inRun then pen else pen.breakLine).trivia true trivia := by
  rw [Pen.trivia, if_pos ht]

theorem Pen.trivia_cons_of_comment (pen : Pen) (inRun : Bool) {t : Trivia} (ht : ¬ t.kind.isLineBreak = true)
    (trivia : List Trivia) :
    pen.trivia inRun (t :: trivia) = ((pen.comment t).1 :: ((pen.comment t).2.trivia false trivia).1,
      ((pen.comment t).2.trivia false trivia).2) := by
  rw [Pen.trivia, if_neg ht]

theorem Pen.trivia_breaks (pen : Pen) (n : Nat) (text : String) (trivia : List (TriviaKind × String)) :
    pen.trivia false ((List.replicate n (TriviaKind.lineBreak, text) ++ trivia).map unplacedTrivia) =
      (pen.resume (decide (0 < n))).trivia (decide (0 < n)) (trivia.map unplacedTrivia) := by
  have hrun : ∀ (pen : Pen) n,
      pen.trivia true ((List.replicate n (TriviaKind.lineBreak, text) ++ trivia).map unplacedTrivia) =
        pen.trivia true (trivia.map unplacedTrivia) := by
    intro pen n
    induction n with
    | zero => rfl
    | succ n ih => exact ih
  cases n with
  | zero => rfl
  | succ n => exact hrun _ n

/-- Comments were `written` with `pen`, and `us` are they with the line breaks written in front of them: a
second pen that reads `us` writes the same. Behind the last comment it is `pen'`, and so was the first one,
apart from breaks read since (`broken`). `rest` are the lexemes to come. -/
structure Relayed (style : Style) (pen : Pen) (rest : List (Lexeme × List Char)) (written : List Piece × Pen)
    (us : List (TriviaKind × String)) (pen' : Pen) (broken : Bool) : Prop where
  lexemes_eq : written.1.flatMap (Piece.lexemes style) = us.map triviaLexeme
  again : ∀ vs : List (TriviaKind × String), pen.trivia false ((us ++ vs).map unplacedTrivia) =
    (written.1 ++ (pen'.trivia false (vs.map unplacedTrivia)).1,
      (pen'.trivia false (vs.map unplacedTrivia)).2)
  pen_eq : written.2 = pen'.resume broken
  settled : pen'.Settled
  ended : pen'.held ≠ .none → broken = false → ∀ u ∈ rest.head?, u.1 = .trivia .lineBreak

theorem Pen.Settled.relayed {pen : Pen} (h : pen.Settled) (style : Style) (broken : Bool)
    {trivia : List (TriviaKind × String)} (rest : List (Lexeme × List Char))
    (hreads : ∀ u ∈ trivia, Reads (.trivia u.1) u.2.toList [])
    (hchain : (trivia.map triviaLexeme ++ rest).IsChain EndsLine)
    (hended : pen.held ≠ .none → broken = false →
      ∀ u ∈ (trivia.map triviaLexeme ++ rest).head?, u.1 = .trivia .lineBreak) :
    ∃ us pen' broken', Relayed style pen rest
      ((pen.resume broken).trivia broken (trivia.map unplacedTrivia)) us pen' broken' := by
  induction trivia generalizing pen broken with
  | nil => exact ⟨[], pen, broken, rfl, fun _ => rfl, rfl, h, hended⟩
  | cons u trivia ih =>
    obtain ⟨hu, hreads⟩ := List.forall_mem_cons.1 hreads
    obtain ⟨hhead, hchain⟩ := List.isChain_cons.1 hchain
    by_cases hbreak : u.1.isLineBreak = true
    · have hstep : (pen.resume broken).trivia broken ((u :: trivia).map unplacedTrivia) =
          (pen.resume true).trivia true (trivia.map unplacedTrivia) := by
        rw [List.map_cons, Pen.trivia_cons_of_break _ _ hbreak]
        cases broken <;> rfl
      rw [hstep]
      exact ih h true hreads hchain fun _ hrun => absurd hrun (by decide)
    -- the pen is at the end of a line comment only if a break was read
    have hnone : pen.held ≠ .none → broken = true := by
      intro hheld
      by_contra hrun
      have hline : Lexeme.trivia u.1 = .trivia .lineBreak := hended hheld (by simpa using hrun) _ rfl
      rw [Lexeme.trivia.inj hline] at hbreak
      exact hbreak rfl
    have heq := h.comment_eq hnone (unplacedTrivia u)
    rw [List.map_cons, Pen.trivia_cons_of_comment _ _ hbreak]
    generalize hw : (pen.resume broken).comment (unplacedTrivia u) = w at heq
    have hheld : w.2.held ≠ .none → u.1 = .lineComment := by
      rw [← hw]
      exact Pen.held_comment
    have himage : w.1.image = u.2 := by rw [← hw]; rfl
    obtain ⟨us, pen', broken', hrelayed⟩ := ih (hw ▸ Pen.settled_comment _ _) false hreads hchain
      fun hline _ v hv => hhead v hv (congrArg Lexeme.trivia (hheld hline))
    rw [show w.2.resume false = w.2 from rfl] at hrelayed
    refine ⟨List.replicate w.1.separator.breaks (.lineBreak, style.delimiter) ++ u :: us, pen', broken', ?_,
      fun vs => ?_, hrelayed.pen_eq, hrelayed.settled, hrelayed.ended⟩
    · have hlexeme : w.1.lexeme = .trivia u.1 := by rw [Piece.lexeme, himage, hu.ofText_eq]
      rw [List.flatMap_cons, hrelayed.lexemes_eq]
      simp [Piece.lexemes, hlexeme, himage, triviaLexeme]
    · rw [List.append_assoc, Pen.trivia_breaks, List.cons_append, List.map_cons,
        Pen.trivia_cons_of_comment _ _ hbreak, heq, hrelayed.again]
      rfl

theorem outlinesOf_trivia (trivia us : List (TriviaKind × String)) (ls : List (Lexeme × List Char)) :
    outlinesOf trivia (us.map triviaLexeme ++ ls) = outlinesOf (trivia ++ us) ls := by
  induction us generalizing trivia with
  | nil => simp
  | cons u us ih =>
    rw [List.map_cons, List.cons_append, triviaLexeme, outlinesOf, ih, String.ofList_toList,
      List.append_assoc]
    rfl

theorem pieceGroups_cons (pen : Pen) (t : Token) (tokens : List Token) (gap : Gap) (gaps : List Gap) :
    pieceGroups pen (t :: tokens) (gap :: gaps) =
      ((pen.trivia false t.trivia).1 ++ [((pen.trivia false t.trivia).2.token t).1]) ::
        pieceGroups (((pen.trivia false t.trivia).2.token t).2.apply gap) tokens gaps := rfl

/-- The pieces in front of and with a token, read back as the trivia `us` and the token. -/
theorem relayed_token (style : Style) {o : Outline} (h : o.IsToken) {pen : Pen} (hpen : pen.Settled)
    (hheld : pen.held = .none) (ls : List (Lexeme × List Char)) :
    ∃ o' : Outline,
      outlinesOf [] (((pen.trivia false o.token.trivia).1 ++
        [((pen.trivia false o.token.trivia).2.token o.token).1]).flatMap (Piece.lexemes style) ++ ls) =
        o' :: outlinesOf [] ls ∧
      (pen.trivia false o'.token.trivia).1 = (pen.trivia false o.token.trivia).1 ∧
      (pen.trivia false o'.token.trivia).2.token o'.token =
        (pen.trivia false o.token.trivia).2.token o.token := by
  obtain ⟨lexeme, hreads, hlexeme, -⟩ := h.image_reads
  obtain ⟨us, pen', broken, hrelayed⟩ := hpen.relayed style false _ h.reads (h.isChain lexeme)
    fun hline => absurd hheld hline
  have hnone : pen'.held ≠ .none → broken = true := by
    intro hline
    by_contra hrun
    have := hrelayed.ended hline (by simpa using hrun) _ rfl
    rw [show lexeme = _ from this] at hlexeme
    cases hlexeme
  have htoken := hrelayed.settled.token_eq hnone o.token
  rw [show pen.resume false = pen from rfl,
    show o.trivia.map unplacedTrivia = o.token.trivia from rfl] at hrelayed
  rw [← hrelayed.pen_eq] at htoken
  generalize hq : (pen.trivia false o.token.trivia).2.token o.token = q at htoken ⊢
  have himage : q.1.image = o.image := by rw [← hq]; rfl
  have hagain : pen.trivia false ((us ++ List.replicate q.1.separator.breaks
      (TriviaKind.lineBreak, style.delimiter)).map unplacedTrivia) =
      ((pen.trivia false o.token.trivia).1, pen'.resume (decide (0 < q.1.separator.breaks))) := by
    have hbreaks := pen'.trivia_breaks q.1.separator.breaks style.delimiter []
    rw [List.append_nil] at hbreaks
    rw [hrelayed.again, hbreaks, List.map_nil, Pen.trivia, List.append_nil]
  refine ⟨⟨lexeme.classify o.image, o.image,
    us ++ List.replicate q.1.separator.breaks (.lineBreak, style.delimiter)⟩, ?_, ?_, ?_⟩
  · have hlexemes : q.1.lexemes style =
        (List.replicate q.1.separator.breaks (TriviaKind.lineBreak, style.delimiter)).map triviaLexeme ++
          [(lexeme, o.image.toList)] := by
      rw [Piece.lexemes, Piece.lexeme, himage, hreads.ofText_eq, List.map_replicate]
      rfl
    rw [List.flatMap_append, hrelayed.lexemes_eq, List.flatMap_singleton, hlexemes]
    simp only [List.append_assoc, outlinesOf_trivia, List.nil_append, List.singleton_append,
      outlinesOf_token hlexeme, String.ofList_toList]
  · change (pen.trivia false (List.map unplacedTrivia _)).1 = _
    rw [hagain]
  · change (pen.trivia false (List.map unplacedTrivia _)).2.token _ = q
    rw [hagain]
    exact htoken

/-- Tokens with the trivia that were written in front of them are laid out as before. -/
theorem pieceGroups_relayed (style : Style) {os : List Outline} {gaps : List Gap} (h : Lexed os)
    (hlength : os.length = gaps.length + 1) {pen : Pen} (hpen : pen.Settled) (hheld : pen.held = .none) :
    pieceGroups pen ((outlinesOf [] ((pieceGroups pen (os.map Outline.token) gaps).flatten.flatMap
      (Piece.lexemes style))).map Outline.token) gaps = pieceGroups pen (os.map Outline.token) gaps := by
  induction h generalizing gaps pen with
  | @last o h _ =>
    obtain rfl : gaps = [] := List.length_eq_zero_iff.1 (by simpa using hlength.symm)
    obtain ⟨us, pen', broken, hrelayed⟩ := hpen.relayed style false [] h.reads (by simpa using h.ended)
      fun hline => absurd hheld hline
    rw [show pen.resume false = pen from rfl] at hrelayed
    have hagain := hrelayed.again []
    have houtlines := outlinesOf_trivia [] us []
    rw [List.append_nil] at hagain houtlines
    change pieceGroups pen ((outlinesOf []
      ([(pen.trivia false (o.trivia.map unplacedTrivia)).1].flatten.flatMap (Piece.lexemes style))).map
        Outline.token) [] = [(pen.trivia false (o.trivia.map unplacedTrivia)).1]
    rw [List.flatten_singleton, hrelayed.lexemes_eq, houtlines]
    change [(pen.trivia false (us.map unplacedTrivia)).1] = _
    rw [hagain, List.map_nil, Pen.trivia, List.append_nil]
  | @cons o os h hos ih =>
    obtain ⟨gap, gaps, rfl⟩ : ∃ gap gaps', gaps = gap :: gaps' := by
      cases gaps with
      | nil => cases hos <;> simp at hlength
      | cons gap gaps => exact ⟨gap, gaps, rfl⟩
    rw [List.map_cons, pieceGroups_cons]
    generalize hrest : pieceGroups (((pen.trivia false o.token.trivia).2.token o.token).2.apply gap)
      (os.map Outline.token) gaps = rest
    -- behind the token the two pens are the same, and the gaps are
    obtain ⟨o', houtlines, htrivia, htoken⟩ :=
      relayed_token style h hpen hheld (rest.flatten.flatMap (Piece.lexemes style))
    rw [List.flatten_cons, List.flatMap_append, houtlines, List.map_cons, pieceGroups_cons, htrivia, htoken,
      ← hrest, ih (by simpa using hlength) (Pen.settled_token ..) rfl]

/-! ### The first piece -/

theorem Pen.head_trivia (pen : Pen) (hstart : pen.lineStart = true) (hheld : pen.held = .none)
    (hpending : pen.pending = 0) (inRun : Bool) (trivia : List Trivia) :
    (∀ p ∈ (pen.trivia inRun trivia).1.head?, p.separator = .none) ∧
      ((pen.trivia inRun trivia).1 = [] → (pen.trivia inRun trivia).2 = pen) := by
  induction trivia generalizing inRun with
  | nil => simp [Pen.trivia]
  | cons t trivia ih =>
    by_cases hbreak : t.kind.isLineBreak = true
    · have hpen : (if inRun then pen else pen.breakLine) = pen := by
        cases inRun <;> simp [Pen.breakLine, hstart, hpending]
      rw [Pen.trivia_cons_of_break _ _ hbreak, hpen]
      exact ih true
    · rw [Pen.trivia_cons_of_comment _ _ hbreak]
      refine ⟨fun p hp => ?_, fun hnil => absurd hnil (List.cons_ne_nil _ _)⟩
      cases hp
      simp [Pen.comment, hstart, Pen.write, hheld]

/-- Nothing separates the first piece from the start of the text. -/
theorem separator_head_pieces (s : TokenStream) : ∀ p ∈ (pieces s).head?, p.separator = .none := by
  intro p hp
  rw [pieces, groups] at hp
  generalize s.tokens.toList = tokens, (decisions s).map Decision.gap = gaps at hp
  cases tokens with
  | nil => cases hp
  | cons t tokens =>
    obtain ⟨hhead, hnil⟩ := Pen.head_trivia {} rfl rfl rfl false t.trivia
    cases gaps with
    | nil =>
      rw [pieceGroups, List.flatten_singleton] at hp
      exact hhead p hp
    | cons gap gaps =>
      rw [pieceGroups_cons, List.flatten_cons, List.append_assoc] at hp
      cases hcomments : (Pen.trivia {} false t.trivia).1 with
      | nil =>
        rw [hcomments, hnil hcomments] at hp
        cases hp; rfl
      | cons q comments =>
        rw [hcomments] at hp hhead
        exact hhead p hp

end Layout

theorem Piece.lexemesOf_eq_flatMap (style : Style) {ps : List Piece}
    (h : ∀ p ∈ ps.head?, p.separator = .none) :
    Piece.lexemesOf style ps = ps.flatMap (Piece.lexemes style) := by
  cases ps with
  | nil => rfl
  | cons p ps =>
    rw [Piece.lexemesOf, List.flatMap_cons, Piece.lexemes, h p rfl]
    rfl

/-! ### Two runs -/

theorem TokenStream.isEmpty_eq (s : TokenStream) : s.isEmpty = decide (s.kind 0 = .endOfFile) := by
  rw [isEmpty, first?, kind]
  cases s.get? 0 with
  | none => rfl
  | some t => cases hkind : decide (t.kind = .endOfFile) <;> simp_all [Token.isEnd]

open Layout

variable {source : String} {s : TokenStream} {style : Style}

theorem unplaced_pieces (s : TokenStream) : (pieces s).map Piece.unplaced =
    (pieceGroups {} (s.outlines.map Outline.token) ((decisions s).map Decision.gap)).flatten := by
  rw [pieces, List.map_flatten, groups, ← pieceGroups_unplaced]
  rfl

/-- The formatted text has the pieces of the source, up to their places. -/
theorem unplaced_pieces_textOf (hs : tokenize source = .ok s) (hstyle : style.IsPlain) {s' : TokenStream}
    (hs' : tokenize (Piece.textOf style (pieces s)) = .ok s') (hsame : s'.SameTokens s) :
    (pieces s').map Piece.unplaced = (pieces s).map Piece.unplaced := by
  have hlexed := lexed_of_tokenize hs
  have hlexemes := hasLexemes_textOf hstyle (isCode_pieces hs) (isChain_pieces hlexed)
  have houtlines := hlexemes.outlines_eq hs'
  have hunplaced : (pieces s).flatMap (Piece.lexemes style) =
      ((pieces s).map Piece.unplaced).flatMap (Piece.lexemes style) := by
    rw [List.flatMap_map]
    rfl
  have hlength : s.outlines.length = ((decisions s).map Decision.gap).length + 1 := by
    rw [← (fits_decisions hlexed).length_eq, TokenStream.outlines, List.length_map]
  rw [Piece.lexemesOf_eq_flatMap style (separator_head_pieces s), hunplaced, unplaced_pieces] at houtlines
  rw [unplaced_pieces, unplaced_pieces, hsame.decisions, houtlines,
    pieceGroups_relayed style hlexed hlength (.start rfl rfl rfl) rfl]

/-- Formatting a formatted text changes nothing. -/
theorem formatSource_idempotent (hs : tokenize source = .ok s) (hne : s.isEmpty = false)
    (hstyle : style.IsPlain) :
    ∃ text, formatSource source style .all = .ok text ∧ formatSource text style .all = .ok text := by
  obtain ⟨s', hs', hcontents⟩ := exists_tokenize_textOf hs hstyle
  have hsame := sameTokens_of_contents hcontents
  have hne' : s'.isEmpty = false := by
    rw [TokenStream.isEmpty_eq, hsame.kind, ← TokenStream.isEmpty_eq, hne]
  refine ⟨_, formatSource_all hs hne hstyle.endsLines, ?_⟩
  rw [formatSource_all hs' hne' hstyle.endsLines, ← Piece.textOf_unplaced,
    unplaced_pieces_textOf hs hstyle hs' hsame, Piece.textOf_unplaced]

theorem formatSource_idempotent_of_comments : ∃ s text,
    tokenize "a \x7b // b\n\n\n/* c */ \x7d // d" = .ok s ∧ s.isEmpty = false ∧
      formatSource "a \x7b // b\n\n\n/* c */ \x7d // d" ⟨"\r", "\t"⟩ .all = .ok text ∧
      formatSource text ⟨"\r", "\t"⟩ .all = .ok text := by
  obtain ⟨s, hs, hne⟩ := exists_tokenize_of_any "a \x7b // b\n\n\n/* c */ \x7d // d"
    (show Option.any (fun s => s.isEmpty == false) _ = true by decide +kernel)
  replace hne := beq_iff_eq.1 hne
  obtain ⟨text, h⟩ := formatSource_idempotent hs hne (show Style.IsPlain ⟨"\r", "\t"⟩ by decide)
  exact ⟨s, text, hs, hne, h⟩

end GrammarFormat
