import Mathlib.Data.List.TakeWhile
import GrammarFormat.Proofs.LineTables
import GrammarFormat.Proofs.Reading
import GrammarFormat.Token.Lexer

/-!
# Texts that are cut into lexemes

`Cut s l trailing`: the text `s` is the spans `l` and blanks behind them, every span being blanks and a
text that is read as a lexeme. It is what `spans` finds in a text without stray parts (`Cut.spans_eq`,
`Cut.of_spans`).
`Scans` says which tokens the spans make; `tokenize` succeeds exactly on the texts that are cut, and has
these tokens (`tokenize_eq_ok_iff`).
-/

namespace GrammarFormat

open Lexeme

inductive Cut : List Char → List Span → List Char → Prop
  | nil {blanks : List Char} (hb : ∀ c ∈ blanks, isBlank c = true) : Cut blanks [] blanks
  | cons {blanks x r trailing : List Char} {lexeme : Lexeme} {l : List Span}
      (hb : ∀ c ∈ blanks, isBlank c = true) (hx : Reads lexeme x r) (h : Cut r l trailing) :
      Cut (blanks ++ (x ++ r)) (⟨blanks, some lexeme, x⟩ :: l) trailing

variable {s r trailing : List Char} {l : List Span}

namespace Cut

theorem spans_eq (h : Cut s l trailing) : spans s = (l, trailing) := by
  induction h with
  | @nil blanks hb =>
    rw [spans]
    split
    · rfl
    · rename_i c rest h
      rw [List.dropWhile_eq_nil_iff.2 hb] at h; cases h
  | @cons blanks x r trailing lexeme l hb hx _ ih =>
    obtain ⟨c, x, rfl⟩ := List.exists_cons_of_ne_nil hx.ne_nil
    have hc : ¬ isBlank c = true := by simp [hx.head_not_blank]
    have hdrop : (blanks ++ (c :: x ++ r)).dropWhile isBlank = c :: (x ++ r) := by
      rw [List.dropWhile_append_of_pos hb, List.cons_append, List.dropWhile_cons_of_neg hc]
    have htake : (blanks ++ (c :: x ++ r)).takeWhile isBlank = blanks := by
      rw [List.takeWhile_append_of_pos hb, List.cons_append, List.takeWhile_cons_of_neg hc,
        List.append_nil]
    have hhead : head (c :: (x ++ r)) = (some lexeme, (c :: x).length) := by
      rw [head, show at? (c :: (x ++ r)) = some (lexeme, (c :: x).length) from hx]
    rw [spans]
    split
    · rename_i h
      rw [hdrop] at h; cases h
    · rename_i d rest h
      rw [hdrop] at h; cases h
      dsimp only
      rw [hhead, ← List.cons_append, List.drop_left, List.take_left, ih, htake]

theorem lexeme?_isSome (h : Cut s l trailing) : ∀ span ∈ l, span.lexeme?.isSome = true := by
  induction h with
  | nil => simp
  | cons _ _ _ ih => simpa using ih

theorem of_spans (h : ∀ span ∈ (spans s).1, span.lexeme?.isSome = true) :
    Cut s (spans s).1 (spans s).2 := by
  fun_induction spans s with
  | case1 s hs => exact .nil (List.dropWhile_eq_nil_iff.1 hs)
  | case2 s c rest hs found following ih =>
    obtain ⟨lexeme, hlexeme⟩ := Option.isSome_iff_exists.1 (h _ (List.mem_cons_self ..))
    have hat : at? (c :: rest) = some (lexeme, found.2) := by
      simp only [found, head] at hlexeme ⊢
      split at hlexeme
      · rename_i h; rw [h]; cases hlexeme; simp
      · cases hlexeme
    have hreads : Reads lexeme ((c :: rest).take found.2) ((c :: rest).drop found.2) := by
      rw [Reads, List.take_append_drop, hat, List.length_take, Nat.min_eq_left (at?_le_length hat)]
    have hcut := Cut.cons (l := following.1) (fun c hc => List.mem_takeWhile_imp (l := s) hc) hreads
      (ih fun span hspan => h span (List.mem_cons_of_mem _ hspan))
    rw [List.take_append_drop, ← hs, List.takeWhile_append_dropWhile, hs] at hcut
    rw [show found.1 = some lexeme from hlexeme]
    exact hcut

end Cut

/-! ### Tokens of a cut text -/

/-- The lexemes of a text with their own texts. -/
def lexemes (l : List Span) : List (Lexeme × List Char) :=
  l.filterMap fun span => span.lexeme?.map (·, span.text)

/-- The text is these lexemes in a row, with blanks around them. -/
def HasLexemes (s : List Char) (ls : List (Lexeme × List Char)) : Prop :=
  ∃ l trailing, Cut s l trailing ∧ lexemes l = ls

namespace HasLexemes

variable {ls ls' : List (Lexeme × List Char)}

theorem nil : HasLexemes [] [] :=
  ⟨[], [], .nil (by simp), rfl⟩

theorem cons {lexeme : Lexeme} {x : List Char} (hx : Reads lexeme x r) (h : HasLexemes r ls) :
    HasLexemes (x ++ r) ((lexeme, x) :: ls) := by
  obtain ⟨l, trailing, hcut, rfl⟩ := h
  exact ⟨⟨[], some lexeme, x⟩ :: l, trailing, .cons (List.forall_mem_nil _) hx hcut, rfl⟩

theorem blanks {blanks : List Char} (hb : ∀ c ∈ blanks, isBlank c = true) (h : HasLexemes s ls) :
    HasLexemes (blanks ++ s) ls := by
  obtain ⟨l, trailing, hcut, rfl⟩ := h
  cases hcut with
  | nil hb' => exact ⟨[], _, .nil (List.forall_mem_append.2 ⟨hb, hb'⟩), rfl⟩
  | @cons blanks' x r _ lexeme l hb' hx hcut =>
    rw [← List.append_assoc]
    exact ⟨_, trailing, .cons (List.forall_mem_append.2 ⟨hb, hb'⟩) hx hcut, rfl⟩

theorem unique (h : HasLexemes s ls) (h' : HasLexemes s ls') : ls = ls' := by
  obtain ⟨l, _, hcut, rfl⟩ := h
  obtain ⟨l', _, hcut', rfl⟩ := h'
  cases hcut.spans_eq.symm.trans hcut'.spans_eq
  rfl

end HasLexemes

/-- A token without its place: kind, image, and the trivia in front of it. -/
structure Outline where
  kind : TokenKind
  image : String
  trivia : List (TriviaKind × String)
  deriving DecidableEq, Repr

def Trivia.outline (t : Trivia) : TriviaKind × String :=
  (t.kind, t.image)

def Token.outline (t : Token) : Outline :=
  ⟨t.kind, t.image, t.trivia.map Trivia.outline⟩

def TokenStream.outlines (s : TokenStream) : List Outline :=
  s.tokens.toList.map Token.outline

/-- The tokens that lexemes make, `trivia` waiting for the first of them. -/
def outlinesOf (trivia : List (TriviaKind × String)) : List (Lexeme × List Char) → List Outline
  | [] => [⟨.endOfFile, "", trivia⟩]
  | (.trivia kind, x) :: rest => outlinesOf (trivia ++ [(kind, String.ofList x)]) rest
  | (lexeme, x) :: rest =>
    ⟨lexeme.classify (String.ofList x), String.ofList x, trivia⟩ :: outlinesOf [] rest

theorem outlinesOf_token {lexeme : Lexeme} (hlexeme : lexeme.trivia? = none)
    (trivia : List (TriviaKind × String)) (x : List Char) (ls : List (Lexeme × List Char)) :
    outlinesOf trivia ((lexeme, x) :: ls) =
      ⟨lexeme.classify (String.ofList x), String.ofList x, trivia⟩ :: outlinesOf [] ls := by
  cases lexeme with
  | trivia kind => cases hlexeme
  | word | token => rfl

/-- Where a lexeme ends: at its last character, but a line break ends where it starts. -/
def Lexeme.lastPosition (lexeme : Lexeme) (first : Position) (text : List Char) : Position :=
  if lexeme = trivia .lineBreak then first else first.last text

theorem Lexeme.lastPosition_token {lexeme : Lexeme} (hlexeme : lexeme.trivia? = none) (first : Position)
    (x : List Char) : lexeme.lastPosition first x = first.last x := by
  rw [lastPosition, if_neg]
  rintro rfl
  cases hlexeme

/-- The tokens that spans make from `pos` on, `trivia` waiting for the first of them. -/
inductive Scans (trailing : List Char) : Position → List Trivia → List Span → List Token → Prop
  | nil {pos : Position} {trivia : List Trivia} :
      Scans trailing pos trivia [] [.endOfFile (pos.advance trailing) trivia]
  | trivia {pos : Position} {trivia : List Trivia} {kind : TriviaKind} {blanks x : List Char}
      {l : List Span} {tokens : List Token}
      (h : Scans trailing ((pos.advance blanks).advance x)
        (trivia ++ [⟨kind, String.ofList x, (pos.advance blanks).line,
          (lastPosition (.trivia kind) (pos.advance blanks) x).line⟩]) l tokens) :
      Scans trailing pos trivia (⟨blanks, some (.trivia kind), x⟩ :: l) tokens
  | token {pos : Position} {trivia : List Trivia} {lexeme : Lexeme} {blanks x : List Char} {l : List Span}
      {tokens : List Token} (hlexeme : lexeme.trivia? = none)
      (h : Scans trailing ((pos.advance blanks).advance x) [] l tokens) :
      Scans trailing pos trivia (⟨blanks, some lexeme, x⟩ :: l)
        (⟨lexeme.classify (String.ofList x), String.ofList x, pos.advance blanks,
          lexeme.lastPosition (pos.advance blanks) x, trivia⟩ :: tokens)

section

variable {pos : Position} {trivia : List Trivia} {tokens : List Token}

theorem Scans.trivia_iff {kind : TriviaKind} {blanks x : List Char} :
    Scans trailing pos trivia (⟨blanks, some (.trivia kind), x⟩ :: l) tokens ↔
      Scans trailing ((pos.advance blanks).advance x) (trivia ++ [⟨kind, String.ofList x,
        (pos.advance blanks).line, (lastPosition (.trivia kind) (pos.advance blanks) x).line⟩]) l tokens := by
  refine ⟨fun h => ?_, .trivia⟩
  cases h with
  | trivia h => exact h
  | token hlexeme => cases hlexeme

theorem Scans.token_iff {lexeme : Lexeme} (hlexeme : lexeme.trivia? = none) {blanks x : List Char} :
    Scans trailing pos trivia (⟨blanks, some lexeme, x⟩ :: l) tokens ↔
      ∃ rest, Scans trailing ((pos.advance blanks).advance x) [] l rest ∧
        tokens = ⟨lexeme.classify (String.ofList x), String.ofList x, pos.advance blanks,
          lexeme.lastPosition (pos.advance blanks) x, trivia⟩ :: rest := by
  constructor
  · intro h
    cases h with
    | trivia => cases hlexeme
    | token _ h => exact ⟨_, h, rfl⟩
  · rintro ⟨rest, h, rfl⟩
    exact .token hlexeme h

section

variable {place : Nat → Position} {offset : Nat}

theorem tokensOfSpans_token {lexeme : Lexeme} (hlexeme : lexeme.trivia? = none) {blanks x : List Char} :
    tokensOfSpans place offset trivia trailing (⟨blanks, some lexeme, x⟩ :: l) = .ok tokens ↔
      ∃ rest, tokensOfSpans place (offset + Text.byteSize blanks + Text.byteSize x) [] trailing l = .ok rest ∧
        tokens = ⟨lexeme.classify (String.ofList x), String.ofList x, place (offset + Text.byteSize blanks),
          place (lexeme.lastOffset (offset + Text.byteSize blanks) x), trivia⟩ :: rest := by
  cases lexeme with
  | trivia kind => cases hlexeme
  | word | token =>
    simp only [tokensOfSpans]
    cases tokensOfSpans place (offset + Text.byteSize blanks + Text.byteSize x) [] trailing l with
    | error e => exact ⟨fun h => (by cases h), fun ⟨_, h, _⟩ => (by cases h)⟩
    | ok rest =>
      constructor
      · intro h
        cases h
        exact ⟨rest, rfl, rfl⟩
      · rintro ⟨_, hrest, rfl⟩
        cases hrest
        rfl

/-- A stray text has no tokens. -/
theorem lexeme?_isSome_of_tokensOfSpans
    (h : tokensOfSpans place offset trivia trailing l = .ok tokens) : ∀ span ∈ l, span.lexeme?.isSome = true := by
  induction l generalizing offset trivia tokens with
  | nil => simp
  | cons span l ih =>
    obtain ⟨blanks, lexeme?, x⟩ := span
    match lexeme? with
    | none => cases h
    | some (.trivia kind) => exact List.forall_mem_cons.2 ⟨rfl, ih h⟩
    | some .word | some (.token kind) =>
      obtain ⟨rest, hrest, -⟩ := (tokensOfSpans_token rfl).1 h
      exact List.forall_mem_cons.2 ⟨rfl, ih hrest⟩

end

/-- The positions in `source` of all places but the middle of a line end. -/
def Places (place? : Nat → Option Position) (source : List Char) : Prop :=
  ∀ x y, source = x ++ y → (x.getLast? = some '\r' → y.head? ≠ some '\n') →
    place? (Text.byteSize x) = some (Position.start.advance x)

theorem places_ofText (source : String) : Places ((LineTable.ofText source).position? source) source.toList := by
  intro x y hsource hwhole
  rw [LineTable.position?_eq hsource hwhole, Position.advance_start]

variable {place? : Nat → Option Position}

theorem Position.advance_append_blanks (pos : Position) (front : List Char) {blanks : List Char}
    (hb : ∀ c ∈ blanks, isBlank c = true) : pos.advance (front ++ blanks) = (pos.advance front).advance blanks :=
  Position.advance_append pos fun _ => head_ne_of_line fun c hc => not_terminator_of_blank (hb c hc)

/-- The places that are looked up for one lexeme. -/
theorem Places.lexeme {lexeme : Lexeme} {front blanks x : List Char}
    (hplace : Places place? (front ++ (blanks ++ (x ++ r))))
    (hwhole : front.getLast? = some '\r' → (blanks ++ (x ++ r)).head? ≠ some '\n')
    (hb : ∀ c ∈ blanks, isBlank c = true) (hx : Reads lexeme x r) :
    place? (Text.byteSize front + Text.byteSize blanks) = some ((Position.start.advance front).advance blanks) ∧
      place? (lexeme.lastOffset (Text.byteSize front + Text.byteSize blanks) x) =
        some (lexeme.lastPosition ((Position.start.advance front).advance blanks) x) ∧
      ∀ y, y <+: x → Position.start.advance (front ++ blanks ++ y) =
        ((Position.start.advance front).advance blanks).advance y := by
  have hstart := Position.start.advance_append_blanks front hb
  have hwhole' : (front ++ blanks).getLast? = some '\r' → (x ++ r).head? ≠ some '\n' := by
    cases blanks with
    | nil => simpa using hwhole
    | cons b blanks =>
      intro hlast
      rw [List.getLast?_append_of_ne_nil _ (by simp)] at hlast
      cases not_terminator_of_blank (hb _ (List.mem_of_getLast? hlast))
  have hnext : ∀ y, y <+: x → Position.start.advance (front ++ blanks ++ y) =
      ((Position.start.advance front).advance blanks).advance y := by
    rintro y ⟨z, rfl⟩
    rw [← hstart]
    refine Position.advance_append _ fun hlast hhead => hwhole' hlast ?_
    rw [List.append_assoc, List.head?_append, hhead]
    rfl
  rw [← Text.byteSize_append]
  refine ⟨?_, ?_, hnext⟩
  · rw [hplace (front ++ blanks) (x ++ r) (by simp) hwhole', hstart]
  · rw [lastOffset, lastPosition]
    split_ifs with hbreak
    · rw [hplace (front ++ blanks) (x ++ r) (by simp) hwhole', hstart]
    · -- the last character does not end a line
      have hsplit := List.dropLast_append_getLast hx.ne_nil
      have hlast := hx.getLast_not_terminator hbreak _ (List.getLast?_eq_some_getLast hx.ne_nil)
      rw [← Text.byteSize_append, hplace (front ++ blanks ++ x.dropLast) (x.getLast hx.ne_nil :: r), Position.last,
        hnext _ (List.dropLast_prefix x)]
      · conv_lhs => rw [← hsplit]
        simp
      · intro _ hhead
        rw [Option.some.inj hhead] at hlast
        cases hlast

/-- What spans become, by the positions that are looked up and by those that are followed. Only places that
`place?` knows are looked up. -/
theorem Cut.tokensOfSpans_eq_ok_iff (front : List Char) {place : Nat → Position} (h : Cut s l trailing)
    (hplace : Places place? (front ++ s)) (hknown : ∀ offset pos, place? offset = some pos → place offset = pos)
    (hwhole : front.getLast? = some '\r' → s.head? ≠ some '\n') :
    tokensOfSpans place (Text.byteSize front) trivia trailing l = .ok tokens ↔
      Scans trailing (Position.start.advance front) trivia l tokens := by
  induction h generalizing front trivia tokens with
  | @nil blanks hb =>
    rw [tokensOfSpans, ← Text.byteSize_append, hknown _ _ (hplace (front ++ blanks) [] (by simp) (by simp)),
      Position.advance_append_blanks _ _ hb]
    constructor
    · intro htokens
      cases htokens
      exact .nil
    · intro hscans
      cases hscans
      rfl
  | @cons blanks x r trailing lexeme l hb hx h ih =>
    obtain ⟨hfirst, hlast, hnext⟩ := hplace.lexeme hwhole hb hx
    replace hfirst := hknown _ _ hfirst
    replace hlast := hknown _ _ hlast
    have hsource : front ++ (blanks ++ (x ++ r)) = front ++ blanks ++ x ++ r := by simp
    rw [hsource] at hplace
    have hwhole' : (front ++ blanks ++ x).getLast? = some '\r' → r.head? ≠ some '\n' := by
      rw [List.getLast?_append_of_ne_nil _ hx.ne_nil]
      exact hx.not_lineFeed
    have hrest : ∀ {trivia tokens},
        tokensOfSpans place (Text.byteSize front + Text.byteSize blanks + Text.byteSize x) trivia trailing l = .ok tokens ↔
          Scans trailing (((Position.start.advance front).advance blanks).advance x) trivia l tokens := by
      rw [← Text.byteSize_append, ← Text.byteSize_append, ← hnext x (List.prefix_refl x)]
      exact ih _ hplace hwhole'
    match hlexeme : lexeme with
    | .trivia kind =>
      rw [Scans.trivia_iff, ← hrest, tokensOfSpans]
      simp only [hfirst, hlast]
    | .word | .token kind =>
      rw [Scans.token_iff rfl, tokensOfSpans_token rfl, hfirst, hlast]
      simp only [hrest]

theorem exists_scans (hl : ∀ span ∈ l, span.lexeme?.isSome = true) (pos : Position)
    (trivia : List Trivia) : ∃ tokens, Scans trailing pos trivia l tokens := by
  induction l generalizing pos trivia with
  | nil => exact ⟨_, .nil⟩
  | cons span l ih =>
    obtain ⟨blanks, lexeme?, x⟩ := span
    obtain ⟨hlexeme, hrest⟩ := List.forall_mem_cons.1 hl
    match lexeme? with
    | none => cases hlexeme
    | some (.trivia kind) =>
      obtain ⟨tokens, htokens⟩ := ih hrest _ _
      exact ⟨tokens, .trivia htokens⟩
    | some .word | some (.token kind) =>
      obtain ⟨tokens, htokens⟩ := ih hrest ((pos.advance blanks).advance x) []
      exact ⟨_, .token rfl htokens⟩

namespace Scans

theorem outlines_eq (h : Scans trailing pos trivia l tokens) :
    tokens.map Token.outline = outlinesOf (trivia.map Trivia.outline) (lexemes l) := by
  induction h with
  | nil => rfl
  | trivia _ ih =>
    rw [ih, List.map_append]
    rfl
  | @token _ _ lexeme _ x l _ hlexeme _ ih =>
    rw [List.map_cons, ih]
    exact (outlinesOf_token hlexeme _ x (lexemes l)).symm

/-- Tokens end with an end mark. -/
theorem getLast?_kind (h : Scans trailing pos trivia l tokens) :
    tokens.getLast?.map Token.kind = some .endOfFile := by
  induction h with
  | nil => rfl
  | trivia _ ih => exact ih
  | @token _ _ _ _ _ _ tokens _ _ ih =>
    cases tokens with
    | nil => cases ih
    | cons t tokens => rwa [List.getLast?_cons_cons]

end Scans

end

theorem TokenStream.toList_ofTokens {tokens : List Token}
    (h : tokens.getLast?.map Token.kind = some .endOfFile) :
    (TokenStream.ofTokens tokens).tokens.toList = tokens := by
  rw [TokenStream.ofTokens, dif_pos (by simpa using h)]

theorem TokenStream.ofTokens_toList (s : TokenStream) : TokenStream.ofTokens s.tokens.toList = s := by
  obtain ⟨tokens, closed⟩ := s
  simp [TokenStream.ofTokens, closed]

/-- The texts that `tokenize` accepts, and its tokens. -/
theorem tokenize_eq_ok_iff {source : String} {s : TokenStream} : tokenize source = .ok s ↔
    ∃ l trailing, Cut source.toList l trailing ∧ Scans trailing .start [] l s.tokens.toList := by
  have hscans : ∀ {l trailing tokens}, Cut source.toList l trailing →
      (tokensOfSpans (fun offset => ((LineTable.ofText source).position? source offset).getD .start) 0 []
        trailing l = .ok tokens ↔ Scans trailing .start [] l tokens) :=
    fun hcut => hcut.tokensOfSpans_eq_ok_iff [] (places_ofText source) (fun _ _ hpos => by rw [hpos]; rfl) (by simp)
  rw [tokenize]
  constructor
  · intro h
    cases htokens : tokensOfSpans (fun offset => ((LineTable.ofText source).position? source offset).getD .start) 0
        [] (spans source.toList).2 (spans source.toList).1 with
    | error e => simp [htokens, bind, Except.bind] at h
    | ok tokens =>
      simp only [htokens, bind, Except.bind, pure, Except.pure, Except.ok.injEq] at h
      subst h
      have hcut := Cut.of_spans (lexeme?_isSome_of_tokensOfSpans htokens)
      have hscans := (hscans hcut).1 htokens
      refine ⟨_, _, hcut, ?_⟩
      rwa [TokenStream.toList_ofTokens hscans.getLast?_kind]
  · rintro ⟨l, trailing, hcut, htokens⟩
    simp only [hcut.spans_eq, (hscans hcut).2 htokens, bind, Except.bind, pure, Except.pure,
      TokenStream.ofTokens_toList]

theorem exists_tokenize_of_any (source : String) {P : TokenStream → Bool}
    (h : (tokenize source).toOption.any P = true) : ∃ s, tokenize source = .ok s ∧ P s = true := by
  cases hs : tokenize source with
  | error e => rw [hs] at h; cases h
  | ok s =>
    rw [hs] at h
    exact ⟨s, rfl, h⟩

section

variable {source : String} {ls : List (Lexeme × List Char)}

theorem HasLexemes.exists_tokenize (h : HasLexemes source.toList ls) : ∃ st, tokenize source = .ok st := by
  obtain ⟨l, trailing, hcut, -⟩ := h
  obtain ⟨tokens, hscans⟩ := exists_scans hcut.lexeme?_isSome .start []
  refine ⟨.ofTokens tokens, tokenize_eq_ok_iff.2 ⟨l, trailing, hcut, ?_⟩⟩
  rwa [TokenStream.toList_ofTokens hscans.getLast?_kind]

/-- The outlines of the tokens depend on the lexemes only. -/
theorem HasLexemes.outlines_eq {st : TokenStream} (h : HasLexemes source.toList ls)
    (hst : tokenize source = .ok st) : st.outlines = outlinesOf [] ls := by
  obtain ⟨l, trailing, hcut, hscans⟩ := tokenize_eq_ok_iff.1 hst
  rw [h.unique ⟨l, trailing, hcut, rfl⟩]
  exact hscans.outlines_eq

end

end GrammarFormat
