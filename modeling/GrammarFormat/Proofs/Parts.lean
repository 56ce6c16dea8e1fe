import GrammarFormat.Layout.Piece
import GrammarFormat.Proofs.LexedTokens

/-!
# The parts of a text

Comments and tokens are the parts of a text; blanks, line breaks and form feeds stand between them. What
a stream holds apart from breaks (`contents`) depends on the texts of its parts alone, since each is
read the same way wherever it stands (`exists_tokenize_contents`). The parts of a stream are those of
the text it was made from, in their order (`exists_cut_parts`).
-/

namespace GrammarFormat

open Lexeme

/-! ### Code and contents -/

/-- Line breaks and form feeds. -/
def Lexeme.isBreak (lexeme : Lexeme) : Bool :=
  lexeme.trivia?.any TriviaKind.isLineBreak

/-- The lexeme that a text is read as. -/
def Lexeme.ofText (x : List Char) : Lexeme :=
  ((at? x).map Prod.fst).getD (trivia .lineBreak)

/-- The texts of the comments and tokens among lexemes. -/
def code (ls : List (Lexeme × List Char)) : List (List Char) :=
  (ls.filter (!·.1.isBreak)).map Prod.snd

/-- The text is cut into lexemes, and `texts` are its comments and tokens. -/
def HasCode (s : List Char) (texts : List (List Char)) : Prop :=
  ∃ ls, HasLexemes s ls ∧ code ls = texts

def Outline.withoutBreaks (o : Outline) : Outline :=
  { o with trivia := o.trivia.filter (·.1.isComment) }

/-- The tokens of a stream, each by its kind, its image and its comments. -/
def TokenStream.contents (s : TokenStream) : List Outline :=
  s.outlines.map Outline.withoutBreaks

variable {s x r trailing : List Char} {l : List Span} {lexeme : Lexeme} {source text : String}

theorem Lexeme.Reads.ofText_eq (h : Reads lexeme x r) : ofText x = lexeme := by
  have h := h.alone
  rw [Reads, List.append_nil] at h
  rw [ofText, h]
  rfl

theorem withoutBreaks_outlinesOf (trivia : List (TriviaKind × String)) (ls : List (Lexeme × List Char)) :
    (outlinesOf trivia ls).map Outline.withoutBreaks =
      outlinesOf (trivia.filter (·.1.isComment)) (ls.filter (!·.1.isBreak)) := by
  induction ls generalizing trivia with
  | nil => rfl
  | cons u ls ih =>
    obtain ⟨lexeme, x⟩ := u
    match lexeme with
    | .trivia kind =>
      rw [outlinesOf, ih, List.filter_append]
      cases kind <;> simp [TriviaKind.isComment, TriviaKind.isLineBreak, isBreak, trivia?, outlinesOf]
    | .word | .token kind => simp [outlinesOf, ih, isBreak, trivia?, Outline.withoutBreaks]

theorem HasLexemes.reads {ls : List (Lexeme × List Char)} (h : HasLexemes s ls) :
    ∀ u ∈ ls, Reads u.1 u.2 [] := by
  obtain ⟨l, trailing, hcut, rfl⟩ := h
  exact hcut.reads

theorem HasCode.contents_eq {texts : List (List Char)} {st : TokenStream} (h : HasCode source.toList texts)
    (hst : tokenize source = .ok st) : st.contents = outlinesOf [] (texts.map fun x => (ofText x, x)) := by
  obtain ⟨ls, hls, rfl⟩ := h
  have hcode : (code ls).map (fun x => (ofText x, x)) = ls.filter (!·.1.isBreak) := by
    rw [code, List.map_map]
    refine (List.map_congr_left fun u hu => ?_).trans (List.map_id _)
    exact Prod.ext (hls.reads u (List.mem_filter.1 hu).1).ofText_eq rfl
  rw [TokenStream.contents, hls.outlines_eq hst, withoutBreaks_outlinesOf, hcode]
  rfl

/-- Texts with the same code have the same tokens and comments. -/
theorem exists_tokenize_contents {texts : List (List Char)} {st : TokenStream} (h : tokenize source = .ok st)
    (hsource : HasCode source.toList texts) (htext : HasCode text.toList texts) :
    ∃ st', tokenize text = .ok st' ∧ st'.contents = st.contents := by
  obtain ⟨st', hst'⟩ : ∃ st', tokenize text = .ok st' := by
    obtain ⟨ls, hls, -⟩ := htext
    exact hls.exists_tokenize
  exact ⟨st', hst', by rw [htext.contents_eq hst', hsource.contents_eq h]⟩

/-! ### Parts -/

/-- A comment or a token, and the lines on which it starts and ends. -/
structure Part where
  image : String
  firstLine : Nat
  lastLine : Nat
  deriving DecidableEq, Repr

def Part.texts (parts : List Part) : List (List Char) :=
  parts.map (·.image.toList)

def Trivia.part (t : Trivia) : Part :=
  ⟨t.image, t.firstLine, t.lastLine⟩

def Token.part (t : Token) : Part :=
  ⟨t.image, t.first.line, t.last.line⟩

def Trivia.comments (trivia : List Trivia) : List Part :=
  (trivia.filter (·.kind.isComment)).map Trivia.part

/-- The comments of a token and the token itself, unless it is an end mark. -/
def Token.parts (t : Token) : List Part :=
  Trivia.comments t.trivia ++ if t.isEnd then [] else [t.part]

/-- The comments and tokens of a stream in order. -/
def TokenStream.parts (st : TokenStream) : List Part :=
  st.tokens.toList.flatMap Token.parts

def Piece.part (p : Piece) : Part :=
  ⟨p.image, p.firstLine, p.lastLine⟩

/-- The parts of a text cut into spans that starts at `pos`. -/
def partsOf (pos : Position) : List Span → List Part
  | [] => []
  | span :: rest =>
    let first := pos.advance span.blanks
    let following := partsOf (first.advance span.text) rest
    if span.lexeme?.all isBreak then following
    else ⟨String.ofList span.text, first.line, (first.last span.text).line⟩ :: following

theorem texts_partsOf (pos : Position) (l : List Span) : Part.texts (partsOf pos l) = code (lexemes l) := by
  induction l generalizing pos with
  | nil => rfl
  | cons span l ih =>
    obtain ⟨blanks, lexeme?, x⟩ := span
    match lexeme? with
    | none => exact ih _
    | some lexeme =>
      cases hbreak : lexeme.isBreak <;> simp [Part.texts, partsOf, code, lexemes, hbreak] <;>
        simpa [Part.texts, code, lexemes] using ih _

theorem Cut.hasCode (h : Cut s l trailing) (pos : Position) : HasCode s (Part.texts (partsOf pos l)) :=
  ⟨lexemes l, ⟨l, trailing, h, rfl⟩, (texts_partsOf pos l).symm⟩

/-- No lexeme makes an end mark. -/
theorem Lexeme.Reads.classify_ne_endOfFile (h : Reads lexeme x r) (hlexeme : lexeme.trivia? = none)
    (image : String) : lexeme.classify image ≠ .endOfFile := by
  match lexeme with
  | .trivia kind => cases hlexeme
  | .word =>
    rw [classify]
    cases Keyword.ofWord? image <;> simp
  | .token kind =>
    obtain ⟨p, hp, -⟩ := h.exists_rule (by simp) (by simp)
    have hrules : ∀ rule ∈ rules, rule.1 ≠ .token .endOfFile := by decide
    rintro rfl
    exact hrules _ (mem_rules.2 hp) rfl

theorem Scans.parts_eq {pos : Position} {trivia : List Trivia} {tokens : List Token}
    (h : Scans trailing pos trivia l tokens) (hreads : ∀ u ∈ lexemes l, Reads u.1 u.2 []) :
    tokens.flatMap Token.parts = Trivia.comments trivia ++ partsOf pos l := by
  induction h with
  | nil => simp [Token.parts, Token.endOfFile, Token.isEnd, partsOf]
  | @trivia _ _ kind _ _ _ _ _ ih =>
    rw [ih (List.forall_mem_cons.1 hreads).2]
    cases kind <;>
      simp [Trivia.comments, Trivia.part, TriviaKind.isComment, TriviaKind.isLineBreak, partsOf, isBreak,
        trivia?, lastPosition]
  | @token _ _ lexeme _ x _ _ hlexeme _ ih =>
    obtain ⟨hx, hreads⟩ := List.forall_mem_cons.1 hreads
    have hkind : lexeme.classify (String.ofList x) ≠ .endOfFile := hx.classify_ne_endOfFile hlexeme _
    rw [List.flatMap_cons, ih hreads]
    simp [Token.parts, Token.isEnd, Token.part, Trivia.comments, partsOf, isBreak, hlexeme, hkind,
      lastPosition_token hlexeme]

theorem exists_cut_parts {st : TokenStream} (h : tokenize source = .ok st) :
    ∃ l trailing, Cut source.toList l trailing ∧ st.parts = partsOf .start l := by
  obtain ⟨l, trailing, hcut, hscans⟩ := tokenize_eq_ok_iff.1 h
  exact ⟨l, trailing, hcut, hscans.parts_eq hcut.reads⟩

theorem hasCode_source {st : TokenStream} (h : tokenize source = .ok st) :
    HasCode source.toList (Part.texts st.parts) := by
  obtain ⟨l, trailing, hcut, hparts⟩ := exists_cut_parts h
  rw [hparts]
  exact hcut.hasCode .start

end GrammarFormat
