import GrammarFormat.Proofs.Parts

/-!
# Nothing is lost in reading

The items of a stream are its trivia and tokens in the order of the text, the end mark left out. They are the
lexemes of the text (`HasLexemes.items_eq`), so the text is its items with blanks between them, and each item
is read back from its image alone (`tokenize_items`).
-/

namespace GrammarFormat

open Lexeme

inductive Item where
  | trivia (kind : TriviaKind) (image : String)
  | token (kind : TokenKind) (image : String)
  deriving DecidableEq, Repr

namespace Item

def image : Item → String
  | trivia _ image => image
  | token _ image => image

/-- The item that a lexeme makes. -/
def ofLexeme (u : Lexeme × List Char) : Item :=
  match u.1 with
  | .trivia kind => trivia kind (String.ofList u.2)
  | lexeme => token (lexeme.classify (String.ofList u.2)) (String.ofList u.2)

@[simp] theorem image_ofLexeme (u : Lexeme × List Char) : (ofLexeme u).image = String.ofList u.2 := by
  unfold ofLexeme
  split <;> rfl

theorem ofLexeme_token {lexeme : Lexeme} (h : lexeme.trivia? = none) (x : List Char) :
    ofLexeme (lexeme, x) = token (lexeme.classify (String.ofList x)) (String.ofList x) := by
  rcases lexeme with kind | _ | kind
  · cases h
  · rfl
  · rfl

end Item

def Trivia.item (t : Trivia) : Item :=
  .trivia t.kind t.image

/-- The trivia of a token and the token itself, unless it is an end mark. -/
def Token.items (t : Token) : List Item :=
  t.trivia.map Trivia.item ++ if t.isEnd then [] else [.token t.kind t.image]

def TokenStream.items (s : TokenStream) : List Item :=
  s.tokens.toList.flatMap Token.items

theorem Token.items_of_ne {t : Token} (h : t.kind ≠ .endOfFile) :
    t.items = t.trivia.map Trivia.item ++ [.token t.kind t.image] := by
  simp [items, isEnd, h]

theorem Token.items_of_end {t : Token} (h : t.kind = .endOfFile) : t.items = t.trivia.map Trivia.item := by
  simp [items, isEnd, h]

/-! ### Items and lexemes -/

variable {s trailing : List Char} {l : List Span} {ls : List (Lexeme × List Char)}

theorem Scans.items_eq {pos : Position} {trivia : List Trivia} {tokens : List Token}
    (h : Scans trailing pos trivia l tokens) (hreads : ∀ u ∈ lexemes l, Reads u.1 u.2 []) :
    tokens.flatMap Token.items = trivia.map Trivia.item ++ (lexemes l).map Item.ofLexeme := by
  induction h with
  | nil => simp [Token.items, Token.isEnd, Token.endOfFile, lexemes]
  | @trivia _ _ kind _ x l _ _ ih =>
    rw [ih (List.forall_mem_cons.1 hreads).2, List.map_append, List.append_assoc]
    rfl
  | @token _ _ lexeme _ x l _ hlexeme _ ih =>
    obtain ⟨hx, hreads⟩ := List.forall_mem_cons.1 hreads
    have hitem := Item.ofLexeme_token hlexeme x
    rw [List.flatMap_cons, ih hreads, Token.items_of_ne (hx.classify_ne_endOfFile hlexeme _), ← hitem,
      List.append_assoc]
    rfl

theorem HasLexemes.items_eq {source : String} {st : TokenStream} (h : HasLexemes source.toList ls)
    (hst : tokenize source = .ok st) : st.items = ls.map Item.ofLexeme := by
  obtain ⟨l, trailing, hcut, hscans⟩ := tokenize_eq_ok_iff.1 hst
  rw [h.unique ⟨l, trailing, hcut, rfl⟩]
  exact hscans.items_eq hcut.reads

/-- A lexeme alone is read as its item. -/
theorem exists_tokenize_lexeme {u : Lexeme × List Char} (h : Reads u.1 u.2 []) :
    ∃ st, tokenize (String.ofList u.2) = .ok st ∧ st.items = [Item.ofLexeme u] := by
  have hlexemes : HasLexemes (String.ofList u.2).toList [u] := by
    rw [String.toList_ofList, ← List.append_nil u.2]
    exact .cons h .nil
  obtain ⟨st, hst⟩ := hlexemes.exists_tokenize
  exact ⟨st, hst, hlexemes.items_eq hst⟩

/-! ### Blanks and the end mark -/

/-- Texts with blanks behind each of them, in a row. -/
def weave (texts blanks : List (List Char)) : List Char :=
  (List.zipWith (· ++ ·) texts blanks).flatten

theorem Cut.exists_blanks (h : Cut s l trailing) : ∃ front behind, behind.length = (lexemes l).length ∧
    (∀ blanks ∈ front :: behind, ∀ c ∈ blanks, isBlank c = true) ∧
      s = front ++ weave ((lexemes l).map Prod.snd) behind := by
  induction h with
  | @nil blanks hb => exact ⟨blanks, [], rfl, by simpa using hb, by simp [weave, lexemes]⟩
  | @cons blanks x r _ lexeme l hb _ _ ih =>
    obtain ⟨front, behind, hlength, hblanks, rfl⟩ := ih
    refine ⟨blanks, front :: behind, congrArg (· + 1) hlength, List.forall_mem_cons.2 ⟨hb, hblanks⟩, ?_⟩
    change _ = blanks ++ (x ++ front ++ weave ((lexemes l).map Prod.snd) behind)
    rw [List.append_assoc]

/-- Tokens and the end mark behind them. -/
theorem Scans.exists_end {pos : Position} {trivia : List Trivia} {tokens : List Token}
    (h : Scans trailing pos trivia l tokens) (hreads : ∀ u ∈ lexemes l, Reads u.1 u.2 []) :
    ∃ front last, tokens = front ++ [last] ∧ last.kind = .endOfFile ∧ last.image = "" ∧
      ∀ t ∈ front, t.kind ≠ .endOfFile := by
  induction h with
  | nil => exact ⟨[], _, rfl, rfl, rfl, List.forall_mem_nil _⟩
  | trivia _ ih => exact ih (List.forall_mem_cons.1 hreads).2
  | token hlexeme _ ih =>
    obtain ⟨hx, hreads⟩ := List.forall_mem_cons.1 hreads
    obtain ⟨front, last, rfl, hkind, himage, hfront⟩ := ih hreads
    refine ⟨_ :: front, last, rfl, hkind, himage, List.forall_mem_cons.2 ⟨?_, hfront⟩⟩
    exact hx.classify_ne_endOfFile hlexeme _

/-- A text is its items with blanks around them, its tokens end with the only end mark, and each item is what
its image is read as. -/
theorem tokenize_items {source : String} {st : TokenStream} (hst : tokenize source = .ok st) :
    (∃ front behind, behind.length = st.items.length ∧
      (∀ blanks ∈ front :: behind, ∀ c ∈ blanks, isBlank c = true) ∧
        source.toList = front ++ weave (st.items.map (·.image.toList)) behind) ∧
    (∃ tokens last, st.tokens.toList = tokens ++ [last] ∧ last.kind = .endOfFile ∧ last.image = "" ∧
      ∀ t ∈ tokens, t.kind ≠ .endOfFile) ∧
    ∀ item ∈ st.items, ∃ st', tokenize item.image = .ok st' ∧ st'.items = [item] := by
  obtain ⟨l, trailing, hcut, hscans⟩ := tokenize_eq_ok_iff.1 hst
  have hitems : st.items = (lexemes l).map Item.ofLexeme := hscans.items_eq hcut.reads
  refine ⟨?_, hscans.exists_end hcut.reads, ?_⟩
  · obtain ⟨front, behind, hlength, hblanks, hsource⟩ := hcut.exists_blanks
    refine ⟨front, behind, by rw [hlength, hitems, List.length_map], hblanks, ?_⟩
    have himages : st.items.map (·.image.toList) = (lexemes l).map Prod.snd := by
      simp [hitems, Function.comp_def]
    rw [himages, hsource]
  · intro item hitem
    rw [hitems] at hitem
    obtain ⟨u, hu, rfl⟩ := List.mem_map.1 hitem
    rw [Item.image_ofLexeme]
    exact exists_tokenize_lexeme (hcut.reads u hu)

theorem tokenize_items_of_numbers : ∃ st, tokenize " 1e+\t..5 /**/>>>=// b\r\n" = .ok st ∧
    st.items.map Item.image = ["1", "e", "+", ".", ".5", "/**/", ">>>=", "// b", "\r\n"] ∧
    (∃ front behind, behind.length = st.items.length ∧
      (∀ blanks ∈ front :: behind, ∀ c ∈ blanks, isBlank c = true) ∧
        " 1e+\t..5 /**/>>>=// b\r\n".toList = front ++ weave (st.items.map (·.image.toList)) behind) ∧
    (∃ tokens last, st.tokens.toList = tokens ++ [last] ∧ last.kind = .endOfFile ∧ last.image = "" ∧
      ∀ t ∈ tokens, t.kind ≠ .endOfFile) ∧
    ∀ item ∈ st.items, ∃ st', tokenize item.image = .ok st' ∧ st'.items = [item] := by
  obtain ⟨st, hst, himages⟩ := exists_tokenize_of_any " 1e+\t..5 /**/>>>=// b\r\n"
    (show Option.any (fun st => st.items.map Item.image ==
      ["1", "e", "+", ".", ".5", "/**/", ">>>=", "// b", "\r\n"]) _ = true by decide +kernel)
  exact ⟨st, hst, beq_iff_eq.1 himages, tokenize_items hst⟩

end GrammarFormat
