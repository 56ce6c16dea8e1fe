import GrammarFormat.Proofs.Idempotence
import GrammarFormat.Proofs.Items

/-!
# What the formatted text depends on

The comments and tokens of a text, each with a note whether a line break or form feed stands in front of it,
are its marks. The pen can be led from mark to mark (`layMarks`), so what it writes depends on nothing else of
the text (`unplaced_pieces_eq`), and what stands in front of the first mark does not count either. Blanks, the
number of breaks and their kind, and places in the source therefore never show in the formatted text
(`formatSource_eq_of_breaks`).
-/

namespace GrammarFormat

open Lexeme Layout

/-! ### Marks -/

def Item.isBreak : Item → Bool
  | trivia kind _ => kind.isLineBreak
  | token .. => false

/-- A comment or a token, and whether a break stands between it and the one before it. -/
structure Mark where
  item : Item
  broken : Bool
  deriving DecidableEq, Repr

/-- The marks of items, where `broken` says whether a break came right before them. -/
def marksOf (broken : Bool) : List Item → List Mark
  | [] => []
  | item :: rest => if item.isBreak then marksOf true rest else ⟨item, broken⟩ :: marksOf false rest

namespace TokenStream

/-- The comments and tokens of a stream in order. -/
def code (s : TokenStream) : List Item :=
  s.items.filter (!·.isBreak)

def marks (s : TokenStream) : List Mark :=
  marksOf false s.items

/-- Whether a line break or form feed stands between each two neighbours among the comments and tokens. -/
def breaks (s : TokenStream) : List Bool :=
  (s.marks.map Mark.broken).tail

end TokenStream

theorem marksOf_of_break {item : Item} (h : item.isBreak = true) (broken : Bool) (items : List Item) :
    marksOf broken (item :: items) = marksOf true items := by
  rw [marksOf, if_pos h]

theorem marksOf_of_not_break {item : Item} (h : ¬ item.isBreak = true) (broken : Bool) (items : List Item) :
    marksOf broken (item :: items) = ⟨item, broken⟩ :: marksOf false items := by
  rw [marksOf, if_neg h]

theorem item_marksOf (broken : Bool) (items : List Item) :
    (marksOf broken items).map Mark.item = items.filter (!·.isBreak) := by
  induction items generalizing broken with
  | nil => rfl
  | cons item items ih =>
    by_cases h : item.isBreak = true
    · rw [marksOf_of_break h, ih, List.filter_cons_of_neg (by simp [h])]
    · rw [marksOf_of_not_break h, List.map_cons, ih, List.filter_cons_of_pos (by simp [h])]

theorem marks_eq_zipWith (marks : List Mark) :
    marks = List.zipWith Mark.mk (marks.map Mark.item) (marks.map Mark.broken) := by
  induction marks with
  | nil => rfl
  | cons m marks ih => exact congrArg (m :: ·) ih

/-! ### From mark to mark -/

namespace Layout

/-- The pieces that the pen writes for marks, with the gaps behind tokens, and without places. -/
def layMarks (pen : Pen) : List Mark → List Gap → List Piece
  | [], _ => []
  | ⟨.trivia kind image, broken⟩ :: marks, gaps =>
    let (piece, pen) := (pen.resume broken).comment (unplacedTrivia (kind, image))
    piece :: layMarks pen marks gaps
  | ⟨.token _ _, _⟩ :: _, [] => []
  | ⟨.token kind image, broken⟩ :: marks, gap :: gaps =>
    let (piece, pen) := (pen.resume broken).token (Outline.token ⟨kind, image, []⟩)
    piece :: layMarks (pen.apply gap) marks gaps

variable {pen : Pen} {tokens : List Token} {gaps : List Gap}

theorem layMarks_comment (pen : Pen) (broken : Bool) (t : Trivia) (marks : List Mark) (gaps : List Gap) :
    layMarks pen (⟨t.item, broken⟩ :: marks) gaps = ((pen.resume broken).comment t).1.unplaced ::
      layMarks ((pen.resume broken).comment t).2 marks gaps := by
  have hcomment : (pen.resume broken).comment (unplacedTrivia (t.kind, t.image)) =
      (((pen.resume broken).comment t).1.unplaced, ((pen.resume broken).comment t).2) :=
    (pen.resume broken).comment_unplaced t
  rw [Trivia.item, layMarks, hcomment]

theorem layMarks_token (pen : Pen) (broken : Bool) (t : Token) (marks : List Mark) (gap : Gap)
    (gaps : List Gap) :
    layMarks pen (⟨.token t.kind t.image, broken⟩ :: marks) (gap :: gaps) =
      ((pen.resume broken).token t).1.unplaced ::
        layMarks (((pen.resume broken).token t).2.apply gap) marks gaps := rfl

/-- Trivia are written as their marks are. Behind them the pen has come to the last comment, and `broken'` says
whether a break was read since. -/
theorem Pen.exists_layMarks_trivia (pen : Pen) (broken : Bool) (trivia : List Trivia) : ∃ pen' broken',
    ((pen.resume broken).trivia broken trivia).2 = pen'.resume broken' ∧
      ∀ items gaps, layMarks pen (marksOf broken (trivia.map Trivia.item ++ items)) gaps =
        ((pen.resume broken).trivia broken trivia).1.map Piece.unplaced ++
          layMarks pen' (marksOf broken' items) gaps := by
  induction trivia generalizing pen broken with
  | nil => exact ⟨pen, broken, rfl, fun _ _ => rfl⟩
  | cons t trivia ih =>
    by_cases hbreak : t.kind.isLineBreak = true
    · have hitem : t.item.isBreak = true := hbreak
      have hstep : (pen.resume broken).trivia broken (t :: trivia) = (pen.resume true).trivia true trivia := by
        rw [Pen.trivia_cons_of_break _ _ hbreak]
        cases broken <;> rfl
      rw [hstep]
      obtain ⟨pen', broken', hpen, hrest⟩ := ih pen true
      refine ⟨pen', broken', hpen, fun items gaps => ?_⟩
      rw [← hrest, List.map_cons, List.cons_append, marksOf_of_break hitem]
    · have hitem : ¬ t.item.isBreak = true := hbreak
      rw [Pen.trivia_cons_of_comment _ _ hbreak]
      obtain ⟨pen', broken', hpen, hrest⟩ := ih ((pen.resume broken).comment t).2 false
      refine ⟨pen', broken', hpen, fun items gaps => ?_⟩
      rw [List.map_cons, List.cons_append, marksOf_of_not_break hitem, layMarks_comment, hrest]
      rfl

/-- The pen led from mark to mark writes the pieces of the tokens. -/
theorem unplaced_pieceGroups (h : Fits tokens gaps) (pen : Pen) :
    (pieceGroups pen tokens gaps).flatten.map Piece.unplaced =
      layMarks pen (marksOf false (tokens.flatMap Token.items)) gaps := by
  induction h generalizing pen with
  | @last t _ hkind =>
    obtain ⟨pen', broken', -, hlay⟩ := pen.exists_layMarks_trivia false t.trivia
    have hend := hlay [] []
    rw [List.append_nil, marksOf, layMarks, List.append_nil] at hend
    rw [List.flatMap_singleton, Token.items_of_end hkind, hend, pieceGroups, List.flatten_singleton]
    rfl
  | @cons t next tokens gap gaps h _ _ ih =>
    obtain ⟨pen', broken', hpen, hlay⟩ := pen.exists_layMarks_trivia false t.trivia
    rw [show pen.resume false = pen from rfl] at hpen hlay
    have hitems : t.items = t.trivia.map Trivia.item ++ [.token t.kind t.image] :=
      Token.items_of_ne h.kind_ne_endOfFile
    have hbreak : ¬ (Item.token t.kind t.image).isBreak = true := Bool.false_ne_true
    rw [pieceGroups_cons, List.flatten_cons, List.map_append, ih, List.flatMap_cons (x := t), hitems,
      List.append_assoc, hlay, List.singleton_append, marksOf_of_not_break hbreak, layMarks_token, ← hpen,
      List.map_append, List.append_assoc]
    rfl

theorem layMarks_of_start (hstart : pen.lineStart = true) (hpending : pen.pending = 0) (item : Item)
    (broken broken' : Bool) (marks : List Mark) (gaps : List Gap) :
    layMarks pen (⟨item, broken⟩ :: marks) gaps = layMarks pen (⟨item, broken'⟩ :: marks) gaps := by
  rcases item with ⟨kind, image⟩ | ⟨kind, image⟩
  · rw [layMarks, layMarks, Pen.resume_start hstart hpending, Pen.resume_start hstart hpending]
  · rcases gaps with _ | ⟨gap, gaps⟩
    · rw [layMarks, layMarks]
    · rw [layMarks, layMarks, Pen.resume_start hstart hpending, Pen.resume_start hstart hpending]

/-- Breaks in front of the first mark do not count. -/
theorem layMarks_congr {marks marks' : List Mark} (hitems : marks.map Mark.item = marks'.map Mark.item)
    (hbroken : (marks.map Mark.broken).tail = (marks'.map Mark.broken).tail) (gaps : List Gap) :
    layMarks {} marks gaps = layMarks {} marks' gaps := by
  rcases marks with _ | ⟨⟨item, broken⟩, marks⟩ <;> rcases marks' with _ | ⟨⟨item', broken'⟩, marks'⟩
  · rfl
  · cases hitems
  · cases hitems
  · obtain ⟨hitem, htail⟩ := List.cons.inj hitems
    obtain rfl : item = item' := hitem
    replace hbroken : marks.map Mark.broken = marks'.map Mark.broken := hbroken
    obtain rfl : marks = marks' := by
      rw [marks_eq_zipWith marks, marks_eq_zipWith marks', htail, hbroken]
    exact layMarks_of_start rfl rfl item broken broken' marks gaps

end Layout

/-! ### Two texts -/

variable {source source' : String} {s s' : TokenStream}

theorem Token.texts_parts (t : Token) :
    Part.texts t.parts = (t.items.filter (!·.isBreak)).map (·.image.toList) := by
  have htrivia : Part.texts (Trivia.comments t.trivia) =
      ((t.trivia.map Trivia.item).filter (!·.isBreak)).map (·.image.toList) := by
    rw [List.filter_map, List.map_map, Trivia.comments, Part.texts, List.map_map]
    rfl
  rw [Token.parts, Token.items, List.filter_append, List.map_append, ← htrivia]
  cases t.isEnd <;> simp [Part.texts, Token.part, Item.isBreak, Item.image]

theorem TokenStream.texts_parts (s : TokenStream) : Part.texts s.parts = s.code.map (·.image.toList) := by
  rw [code, items, parts, Part.texts, List.map_flatMap, List.filter_flatMap, List.map_flatMap]
  exact congrArg (List.flatMap · _) (funext Token.texts_parts)

theorem sameTokens_of_code (hs : tokenize source = .ok s) (hs' : tokenize source' = .ok s')
    (hcode : s.code = s'.code) : s.SameTokens s' := by
  have hhas := hasCode_source hs
  have hhas' := hasCode_source hs'
  rw [TokenStream.texts_parts] at hhas hhas'
  refine sameTokens_of_contents ?_
  rw [hhas.contents_eq hs, hhas'.contents_eq hs', hcode]

/-- Texts with the same comments and tokens, and breaks between the same of them, have the same pieces. -/
theorem unplaced_pieces_eq (hs : tokenize source = .ok s) (hs' : tokenize source' = .ok s')
    (hcode : s.code = s'.code) (hbreaks : s.breaks = s'.breaks) :
    (pieces s).map Piece.unplaced = (pieces s').map Piece.unplaced := by
  have hgaps := congrArg (List.map Decision.gap) (sameTokens_of_code hs hs' hcode).decisions
  have hlay : ∀ {source s}, tokenize source = .ok s →
      (pieces s).map Piece.unplaced = layMarks {} s.marks ((decisions s).map Decision.gap) := fun h =>
    unplaced_pieceGroups (fits_decisions (lexed_of_tokenize h)) {}
  rw [hlay hs, hlay hs', hgaps]
  refine layMarks_congr ?_ hbreaks _
  rw [TokenStream.marks, TokenStream.marks, item_marksOf, item_marksOf]
  exact hcode

/-- Of a text, its formatted text shows only the comments and tokens and between which of them there are line
breaks or form feeds. -/
theorem formatSource_eq_of_breaks (hs : tokenize source = .ok s) (hs' : tokenize source' = .ok s')
    (hcode : s.code = s'.code) (hbreaks : s.breaks = s'.breaks) (style : Style) :
    formatSource source style .all = formatSource source' style .all := by
  have hempty : s.isEmpty = s'.isEmpty := by
    rw [TokenStream.isEmpty_eq, TokenStream.isEmpty_eq, (sameTokens_of_code hs hs' hcode).kind]
  have htext : Piece.textOf style (pieces s) = Piece.textOf style (pieces s') := by
    rw [← Piece.textOf_unplaced, unplaced_pieces_eq hs hs' hcode hbreaks, Piece.textOf_unplaced]
  simp only [formatSource, hs, hs', format, hempty, render, filter_all_pieces hs, filter_all_pieces hs', htext]

theorem formatSource_eq_of_breaks_of_formFeed : ∃ s s',
    tokenize "\n\x0c f (1) /* c */\r\n\n// d\n\t\tb ;" = .ok s ∧
      tokenize "f(  1 )/* c */\x0c// d\r\r b;\n\n" = .ok s' ∧ s.code = s'.code ∧ s.breaks = s'.breaks ∧
      s.breaks = [false, false, false, false, true, true, false] ∧
      formatSource "\n\x0c f (1) /* c */\r\n\n// d\n\t\tb ;" ⟨"\r", ""⟩ .all =
        formatSource "f(  1 )/* c */\x0c// d\r\r b;\n\n" ⟨"\r", ""⟩ .all := by
  obtain ⟨s, hs, hboth⟩ := exists_tokenize_of_any "\n\x0c f (1) /* c */\r\n\n// d\n\t\tb ;"
    (show Option.any (fun s => (tokenize "f(  1 )/* c */\x0c// d\r\r b;\n\n").toOption.any fun s' =>
      decide (s.code = s'.code ∧ s.breaks = s'.breaks ∧
        s.breaks = [false, false, false, false, true, true, false])) _ = true by decide +kernel)
  obtain ⟨s', hs', h⟩ := exists_tokenize_of_any _ hboth
  obtain ⟨hcode, hbreaks, hlist⟩ := of_decide_eq_true h
  exact ⟨s, s', hs, hs', hcode, hbreaks, hlist, formatSource_eq_of_breaks hs hs' hcode hbreaks _⟩

end GrammarFormat
