import GrammarFormat.Proofs.Items
import GrammarFormat.Proofs.LineSpans

/-!
# Where trivia and tokens stand

The elements of a stream are its trivia and tokens in the order of the text, the end mark among them. Each one has
the position behind the text before it, counted in lines and in characters, and every position on the way is found
in the table of line starts (`tokenize_positions`).
-/

namespace GrammarFormat

open Lexeme

inductive Element where
  | trivia (t : Trivia)
  | token (t : Token)

namespace Element

def image : Element → String
  | trivia t => t.image
  | token t => t.image

def firstLine : Element → Nat
  | trivia t => t.firstLine
  | token t => t.first.line

def lastLine : Element → Nat
  | trivia t => t.lastLine
  | token t => t.last.line

def isLineBreak : Element → Bool
  | trivia t => decide (t.kind = .lineBreak)
  | token _ => false

/-- What stands before the last character of an element behind `before`. A line break ends where it starts. -/
def upToLast (before : List Char) (e : Element) : List Char :=
  if e.isLineBreak then before else before ++ e.image.toList.dropLast

/-- The lines of an element, and the columns of a token, are those of its first and its last character. -/
def Stands (before : List Char) (e : Element) : Prop :=
  match e with
  | trivia t => t.firstLine = (Position.behind before).line ∧ t.lastLine = (Position.behind (e.upToLast before)).line
  | token t => t.first = .behind before ∧ t.last = .behind (e.upToLast before)

/-- An element in a text. -/
structure IsAt (source : String) (before : List Char) (e : Element) : Prop where
  exists_behind : ∃ behind, source.toList = before ++ (e.image.toList ++ behind)
  stands : e.Stands before
  found : ∀ text ∈ [before, e.upToLast before],
    (LineTable.ofText source).position? source (Text.byteSize text) = some (.behind text)

variable {e : Element} {before : List Char}

theorem Stands.firstLine_eq (h : e.Stands before) : e.firstLine = (Position.behind before).line := by
  cases e with
  | trivia t => exact h.1
  | token t => exact congrArg Position.line h.1

theorem Stands.lastLine_eq (h : e.Stands before) : e.lastLine = (Position.behind (e.upToLast before)).line := by
  cases e with
  | trivia t => exact h.2
  | token t => exact congrArg Position.line h.2

end Element

def Token.elements (t : Token) : List Element :=
  t.trivia.map .trivia ++ [.token t]

def TokenStream.elements (s : TokenStream) : List Element :=
  s.tokens.toList.flatMap Token.elements

/-! ### Lines in order -/

theorem Position.line_behind_le (x y : List Char) : (behind x).line ≤ (behind (x ++ y)).line :=
  Nat.add_le_add_left (Text.lineEnds_le_append x y) 1

namespace Element.Stands

variable {e e' : Element} {before : List Char}

theorem firstLine_le_lastLine (h : e.Stands before) : e.firstLine ≤ e.lastLine := by
  rw [h.firstLine_eq, h.lastLine_eq, upToLast]
  split
  · exact Nat.le_refl _
  · exact Position.line_behind_le ..

theorem lastLine_le_firstLine {blanks : List Char} (h : e.Stands before)
    (h' : e'.Stands (before ++ e.image.toList ++ blanks)) : e.lastLine ≤ e'.firstLine := by
  rw [h.lastLine_eq, h'.firstLine_eq, upToLast, List.append_assoc]
  split
  · exact Position.line_behind_le ..
  · have himage : e.image.toList = e.image.toList.dropLast ++ e.image.toList.drop (e.image.toList.length - 1) := by
      rw [List.dropLast_eq_take, List.take_append_drop]
    have := Position.line_behind_le (before ++ e.image.toList.dropLast)
      (e.image.toList.drop (e.image.toList.length - 1) ++ blanks)
    rwa [List.append_assoc, ← List.append_assoc (e.image.toList.dropLast), ← himage] at this

end Element.Stands

/-! ### Elements in a row -/

/-- Behind `before` the text goes on with these elements, with blanks in front of each, up to its end. -/
inductive Standing (source : String) : List Char → List Element → Prop
  | nil {before : List Char} (h : before = source.toList) : Standing source before []
  | cons {before blanks : List Char} {e : Element} {es : List Element} (hb : ∀ c ∈ blanks, isBlank c = true)
      (he : e.IsAt source (before ++ blanks)) (h : Standing source (before ++ blanks ++ e.image.toList) es) :
      Standing source before (e :: es)

/-- The text is these texts with blanks around them. -/
def Woven (texts : List (List Char)) (text : List Char) : Prop :=
  ∃ front behind, behind.length = texts.length ∧ (∀ blanks ∈ front :: behind, ∀ c ∈ blanks, isBlank c = true) ∧
    text = front ++ weave texts behind

theorem Woven.cons {blanks x text : List Char} {texts : List (List Char)} (hb : ∀ c ∈ blanks, isBlank c = true)
    (h : Woven texts text) : Woven (x :: texts) (blanks ++ x ++ text) := by
  obtain ⟨front, behind, hlength, hblanks, rfl⟩ := h
  refine ⟨blanks, front :: behind, congrArg (· + 1) hlength, List.forall_mem_cons.2 ⟨hb, hblanks⟩, ?_⟩
  simp [weave]

namespace Standing

variable {source : String} {before : List Char} {e : Element} {es front back : List Element}

/-- Each element is where the ones before it, with blanks, end. -/
theorem split (h : Standing source before (front ++ e :: back)) :
    ∃ between, Woven (front.map (·.image.toList)) between ∧ e.IsAt source (before ++ between) ∧
      Standing source (before ++ between ++ e.image.toList) back := by
  induction front generalizing before with
  | nil =>
    cases h with
    | @cons _ blanks _ _ hb he h => exact ⟨blanks, ⟨blanks, [], rfl, by simpa using hb, by simp [weave]⟩, he, h⟩
  | cons f front ih =>
    cases h with
    | @cons _ blanks _ _ hb hf h =>
      obtain ⟨between, hwoven, he, hback⟩ := ih h
      have hbefore : before ++ (blanks ++ f.image.toList ++ between) =
          before ++ blanks ++ f.image.toList ++ between := by simp
      refine ⟨blanks ++ f.image.toList ++ between, hwoven.cons hb, ?_, ?_⟩
      · rwa [hbefore]
      · rwa [hbefore]

theorem firstLine_le_lastLine (h : Standing source before es) : ∀ e ∈ es, e.firstLine ≤ e.lastLine := by
  induction h with
  | nil => exact List.forall_mem_nil _
  | cons _ he _ ih => exact List.forall_mem_cons.2 ⟨he.stands.firstLine_le_lastLine, ih⟩

theorem isChain (h : Standing source before es) : es.IsChain fun a b => a.lastLine ≤ b.firstLine := by
  induction h with
  | nil => exact .nil
  | cons hb he h ih =>
    cases h with
    | nil => exact .singleton _
    | cons hb' he' h => exact .cons_cons (he.stands.lastLine_le_firstLine he'.stands) ih

end Standing

/-! ### The elements of a text that is cut -/

/-- What stands before the last character of a lexeme behind `before`. -/
def Lexeme.upToLast (lexeme : Lexeme) (before x : List Char) : List Char :=
  if lexeme = trivia .lineBreak then before else before ++ x.dropLast

theorem Element.upToLast_trivia (t : Trivia) (before : List Char) :
    (trivia t).upToLast before = (Lexeme.trivia t.kind).upToLast before t.image.toList := by
  simp [upToLast, Lexeme.upToLast, isLineBreak, image]

theorem Element.upToLast_token {lexeme : Lexeme} (hlexeme : lexeme.trivia? = none) (t : Token)
    (before : List Char) : (token t).upToLast before = lexeme.upToLast before t.image.toList := by
  have hbreak : lexeme ≠ .trivia .lineBreak := by
    rintro rfl
    cases hlexeme
  simp [upToLast, Lexeme.upToLast, isLineBreak, image, hbreak]

section

variable {source : String} {s r trailing front blanks x : List Char} {l : List Span} {lexeme : Lexeme}

/-- The positions of a lexeme, and that the table has them. -/
theorem Lexeme.Reads.positions (hsource : source.toList = front ++ (blanks ++ (x ++ r)))
    (hwhole : front.getLast? = some '\r' → (blanks ++ (x ++ r)).head? ≠ some '\n')
    (hb : ∀ c ∈ blanks, isBlank c = true) (hx : Reads lexeme x r) :
    (Position.start.advance front).advance blanks = .behind (front ++ blanks) ∧
      lexeme.lastPosition ((Position.start.advance front).advance blanks) x =
        .behind (lexeme.upToLast (front ++ blanks) x) ∧
      ((Position.start.advance front).advance blanks).advance x = Position.start.advance (front ++ blanks ++ x) ∧
      ∀ text ∈ [front ++ blanks, lexeme.upToLast (front ++ blanks) x],
        (LineTable.ofText source).position? source (Text.byteSize text) = some (.behind text) := by
  have hplaces := places_ofText source
  rw [hsource] at hplaces
  obtain ⟨hfirst, hlast, hnext⟩ := hplaces.lexeme hwhole hb hx
  have hbefore : (Position.start.advance front).advance blanks = .behind (front ++ blanks) := by
    rw [← Position.advance_start]
    simpa [Position.advance] using (hnext [] List.nil_prefix).symm
  have hend : lexeme.lastPosition ((Position.start.advance front).advance blanks) x =
      .behind (lexeme.upToLast (front ++ blanks) x) := by
    rw [lastPosition, upToLast]
    split
    · exact hbefore
    · rw [Position.last, ← hnext _ (List.dropLast_prefix x), Position.advance_start]
  have hoffset : lexeme.lastOffset (Text.byteSize front + Text.byteSize blanks) x =
      Text.byteSize (lexeme.upToLast (front ++ blanks) x) := by
    rw [lastOffset, upToLast, ← Text.byteSize_append]
    split
    · rfl
    · rw [Text.byteSize_append _ x.dropLast]
  rw [hoffset, hend] at hlast
  rw [← Text.byteSize_append, hbefore] at hfirst
  exact ⟨hbefore, hend, (hnext x (List.prefix_refl x)).symm,
    List.forall_mem_cons.2 ⟨hfirst, List.forall_mem_singleton.2 hlast⟩⟩

/-- The elements that spans behind `front` make. -/
theorem Cut.standing (front : List Char) {trivia : List Trivia} {tokens : List Token} (h : Cut s l trailing)
    (hsource : source.toList = front ++ s) (hwhole : front.getLast? = some '\r' → s.head? ≠ some '\n')
    (hscans : Scans trailing (Position.start.advance front) trivia l tokens) :
    ∃ es, tokens.flatMap Token.elements = trivia.map .trivia ++ es ∧ Standing source front es := by
  induction h generalizing front trivia tokens with
  | @nil blanks hb =>
    cases hscans
    have hend : (Position.start.advance front).advance blanks = .behind (front ++ blanks) := by
      rw [← Position.advance_start, Position.advance_append_blanks _ _ hb]
    refine ⟨_, List.append_nil _, .cons hb ⟨⟨[], ?_⟩, ⟨hend, ?_⟩, ?_⟩ (.nil ?_)⟩
    · simpa [Element.image, Token.endOfFile] using hsource
    · simpa [Element.upToLast, Element.isLineBreak, Element.image, Token.endOfFile] using hend
    · have hfound := LineTable.position?_eq (x := front ++ blanks) (y := []) (by simpa using hsource) (by simp)
      simpa [Element.upToLast, Element.isLineBreak, Element.image, Token.endOfFile] using hfound
    · simpa [Element.image, Token.endOfFile] using hsource.symm
  | @cons blanks x r trailing lexeme l hb hx h ih =>
    obtain ⟨hfirst, hlast, hnext, hfound⟩ := hx.positions hsource hwhole hb
    have hsource' : source.toList = front ++ blanks ++ x ++ r := by simpa using hsource
    have hwhole' : (front ++ blanks ++ x).getLast? = some '\r' → r.head? ≠ some '\n' := by
      rw [List.getLast?_append_of_ne_nil _ hx.ne_nil]
      exact hx.not_lineFeed
    have hcons : ∀ {e es}, e.image = String.ofList x →
        e.upToLast (front ++ blanks) = lexeme.upToLast (front ++ blanks) x → e.Stands (front ++ blanks) →
          Standing source (front ++ blanks ++ x) es → Standing source front (e :: es) := by
      intro e es himage hlast hstands hes
      refine .cons hb ⟨⟨r, ?_⟩, hstands, ?_⟩ ?_
      · simpa [himage] using hsource
      · rwa [hlast]
      · simpa [himage] using hes
    cases hscans with
    | @trivia _ _ kind _ _ _ _ hscans =>
      rw [hnext, hlast, hfirst] at hscans
      obtain ⟨es, htokens, hes⟩ := ih _ hsource' hwhole' hscans
      rw [List.map_append, List.append_assoc] at htokens
      have hlast := Element.upToLast_trivia ⟨kind, String.ofList x, (Position.behind (front ++ blanks)).line,
        (Position.behind ((Lexeme.trivia kind).upToLast (front ++ blanks) x)).line⟩ (front ++ blanks)
      rw [String.toList_ofList] at hlast
      exact ⟨_, htokens, hcons rfl hlast ⟨rfl, by rw [hlast]⟩ hes⟩
    | @token _ trivia _ _ _ _ _ hlexeme hscans =>
      rw [hnext] at hscans
      obtain ⟨es, htokens, hes⟩ := ih _ hsource' hwhole' hscans
      rw [List.flatMap_cons, htokens, Token.elements, List.append_assoc, hlast, hfirst]
      have hlast := Element.upToLast_token hlexeme ⟨lexeme.classify (String.ofList x), String.ofList x,
        .behind (front ++ blanks), .behind (lexeme.upToLast (front ++ blanks) x), trivia⟩ (front ++ blanks)
      rw [String.toList_ofList] at hlast
      exact ⟨_, rfl, hcons rfl hlast ⟨rfl, by rw [hlast]⟩ hes⟩

end

theorem standing_elements {source : String} {st : TokenStream} (hst : tokenize source = .ok st) :
    Standing source [] st.elements := by
  obtain ⟨l, trailing, hcut, hscans⟩ := tokenize_eq_ok_iff.1 hst
  obtain ⟨es, helements, hes⟩ := hcut.standing [] rfl (by simp) hscans
  rwa [TokenStream.elements, helements]

/-- The end mark stands at the end of the text. -/
theorem exists_end_behind {source : String} {st : TokenStream} (hst : tokenize source = .ok st) :
    ∃ tokens last, st.tokens.toList = tokens ++ [last] ∧ last.kind = .endOfFile ∧
      (∀ t ∈ tokens, t.kind ≠ .endOfFile) ∧ last.first = .behind source.toList ∧
        last.last = .behind source.toList := by
  obtain ⟨l, trailing, hcut, hscans⟩ := tokenize_eq_ok_iff.1 hst
  obtain ⟨tokens, last, htokens, hkind, himage, hends⟩ := hscans.exists_end hcut.reads
  have hstanding := standing_elements hst
  have helements : st.elements = (tokens.flatMap Token.elements ++ last.trivia.map .trivia) ++ [.token last] := by
    rw [TokenStream.elements, htokens]
    simp [Token.elements]
  rw [helements] at hstanding
  obtain ⟨before, -, ⟨-, ⟨hfirst, hlast⟩, -⟩, hback⟩ := hstanding.split
  cases hback with
  | nil hsource =>
    have hbefore : [] ++ before = source.toList := by simpa [Element.image, himage] using hsource
    have hend : (Element.token last).upToLast ([] ++ before) = [] ++ before := by
      simp [Element.upToLast, Element.isLineBreak, Element.image, himage]
    exact ⟨tokens, last, htokens, hkind, hends, by rw [hfirst, hbefore], by rw [hlast, hend, hbefore]⟩

/-- Each element of a text stands behind the elements before it and the blanks around them, at the position that is
counted there; the table of line starts has this position, and no other is asked for. -/
theorem tokenize_positions {source : String} {st : TokenStream} (hst : tokenize source = .ok st) :
    (∀ front e back, st.elements = front ++ e :: back →
      ∃ before, Woven (front.map (·.image.toList)) before ∧ e.IsAt source before) ∧
    (∃ tokens last, st.tokens.toList = tokens ++ [last] ∧ last.kind = .endOfFile ∧
      (∀ t ∈ tokens, t.kind ≠ .endOfFile) ∧ last.first = .behind source.toList ∧
        last.last = .behind source.toList) ∧
    (∀ e ∈ st.elements, e.firstLine ≤ e.lastLine) ∧
    st.elements.IsChain (fun a b => a.lastLine ≤ b.firstLine) ∧
    ∀ place : Nat → Position,
      (∀ offset pos, (LineTable.ofText source).position? source offset = some pos → place offset = pos) →
        tokensOfSpans place 0 [] (spans source.toList).2 (spans source.toList).1 = .ok st.tokens.toList := by
  have hstanding := standing_elements hst
  refine ⟨?_, exists_end_behind hst, hstanding.firstLine_le_lastLine, hstanding.isChain, ?_⟩
  · intro front e back helements
    rw [helements] at hstanding
    obtain ⟨before, hwoven, he, -⟩ := hstanding.split
    exact ⟨before, hwoven, he⟩
  · intro place hknown
    obtain ⟨l, trailing, hcut, hscans⟩ := tokenize_eq_ok_iff.1 hst
    rw [hcut.spans_eq]
    exact (hcut.tokensOfSpans_eq_ok_iff [] (places_ofText source) hknown (by simp)).2 hscans

theorem tokenize_positions_of_lines : ∃ st, tokenize "é /*a\r\n\rü*/ß\r\n =" = .ok st ∧
    st.elements.map (fun e => (e.image, e.firstLine, e.lastLine)) = [("é", 1, 1), ("/*a\r\n\rü*/", 1, 3), ("ß", 3, 3),
      ("\r\n", 3, 3), ("=", 4, 4), ("", 4, 4)] ∧
    st.tokens.toList.map Token.first = [⟨1, 1⟩, ⟨3, 4⟩, ⟨4, 2⟩, ⟨4, 3⟩] ∧
    ∀ front e back, st.elements = front ++ e :: back →
      ∃ before, Woven (front.map (·.image.toList)) before ∧ e.IsAt "é /*a\r\n\rü*/ß\r\n =" before := by
  obtain ⟨st, hst, hlines⟩ := exists_tokenize_of_any "é /*a\r\n\rü*/ß\r\n ="
    (show Option.any (fun st => st.elements.map (fun e => (e.image, e.firstLine, e.lastLine)) ==
      [("é", 1, 1), ("/*a\r\n\rü*/", 1, 3), ("ß", 3, 3), ("\r\n", 3, 3), ("=", 4, 4), ("", 4, 4)] &&
        st.tokens.toList.map Token.first == [⟨1, 1⟩, ⟨3, 4⟩, ⟨4, 2⟩, ⟨4, 3⟩]) _ = true by decide +kernel)
  rw [Bool.and_eq_true, beq_iff_eq, beq_iff_eq] at hlines
  exact ⟨st, hst, hlines.1, hlines.2, (tokenize_positions hst).1⟩

end GrammarFormat
