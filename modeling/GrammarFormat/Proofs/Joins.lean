import GrammarFormat.Layout.Piece
import GrammarFormat.Proofs.Parts

/-!
# Tokens without a space between them

Where the gap behind a token asks neither for a line break nor for a space, a rule joins the token to
the next one, and it was checked that the two are read apart. With more text behind them they still are:
dots are never joined, and a number only to a symbol of one character that does not go on with it
(`reads_of_joined`).

`Fits`: tokens as the lexer makes them, with gaps that are safe in this sense. The decisions of the
layout are such gaps (`fits_decisions`).
-/

namespace GrammarFormat

open Lexeme Layout

/-! ### Images of tokens -/

theorem Outline.IsToken.kind_ne_endOfFile {o : Outline} (h : o.IsToken) : o.kind ≠ .endOfFile := by
  obtain ⟨lexeme, hreads, htrivia, hkind⟩ := h.image_reads
  rw [hkind]
  exact hreads.classify_ne_endOfFile htrivia _

theorem Lexeme.eq_token_of_classify {lexeme : Lexeme} {image : String} {kind : TokenKind}
    (htrivia : lexeme.trivia? = none) (h : kind = lexeme.classify image) (hname : kind ≠ .identifier)
    (hkeyword : kind.keyword? = none) : lexeme = .token kind := by
  cases lexeme with
  | trivia kind => cases htrivia
  | token kind => rw [h]; rfl
  | word =>
    rw [classify] at h
    cases hword : Keyword.ofWord? image with
    | none => rw [hword] at h; exact absurd h hname
    | some k => rw [hword] at h; subst h; cases hkeyword

/-- A symbol has its spelling as image. -/
theorem Outline.IsToken.image_eq {o : Outline} {spelling : String} (h : o.IsToken)
    (hs : (o.kind, spelling) ∈ symbols) (hkind : o.kind ≠ .compoundAssign) : o.image = spelling := by
  have hsymbols : ∀ symbol ∈ symbols, symbol.1 ≠ .identifier ∧ symbol.1.keyword? = none := by decide
  obtain ⟨lexeme, hreads, htrivia, hclassify⟩ := h.image_reads
  obtain ⟨hname, hkeyword⟩ := hsymbols _ hs
  rw [eq_token_of_classify htrivia hclassify hname hkeyword] at hreads
  exact String.toList_inj.1 (hreads.eq_spelling hs hkind)

/-! ### Joined tokens -/

/-- The kinds to which a number is joined. -/
def joinedKinds : List TokenKind :=
  [.closeParen, .semicolon, .comma, .dot, .closeBracket, .minus, .greater]

variable {s : TokenStream} {i : Nat} {c : Scope}

theorem not_dots_of_joined (h : joined s i c = true) : ¬ (s.kind i = .dot ∧ s.kind (i + 1) = .dot) := by
  rintro ⟨hi, hnext⟩
  simp [joined, hi, hnext] at h

theorem joinedKinds_of_joined (h : joined s i c = true) (hi : s.kind i ∈ [.integer, .floating]) :
    s.kind (i + 1) ∈ joinedKinds := by
  simp only [joined, Bool.and_eq_true, Bool.or_eq_true] at h
  generalize s.kind (i + 1) = next, s.kind i = current at h hi ⊢
  have hcurrent : current = .integer ∨ current = .floating := by simpa using hi
  simp only [joinedKinds, List.mem_cons, List.not_mem_nil, or_false]
  obtain ⟨-, h | h⟩ := h
  · rcases hcurrent with rfl | rfl <;>
      simp [joinedAnywhere, TokenKind.isCallLike, TokenKind.isPrimitive] at h <;> tauto
  split at h
  · have hgrammar : next = .minus ∨ next = .greater := by
      rcases hcurrent with rfl | rfl <;> cases hangle : c.innermost? <;>
        simp +decide [joinedInGrammar, TokenKind.isClosing, hangle] at h <;> tauto
    tauto
  · have hjava : next = .closeBracket := by
      rcases hcurrent with rfl | rfl <;> simpa [joinedInJava] using h
    tauto

theorem spaced_eq_false_iff {t next : Token} (hi : s.get? i = some t) (hi' : s.get? (i + 1) = some next) :
    spaced s i c = false ↔ joined s i c = true ∧ splitsCleanly t.image.toList next.image.toList = true := by
  simp only [spaced, hi, hi', Bool.or_eq_false_iff, Bool.not_eq_false']

/-- Tokens that a rule joins and that are read apart by themselves are read apart in every text. -/
theorem reads_of_joined {t next : Outline} (ht : t.IsToken) (hnext : next.IsToken) (hi : s.kind i = t.kind)
    (hi' : s.kind (i + 1) = next.kind) (hjoined : joined s i c = true)
    (hsplit : splitsCleanly t.image.toList next.image.toList = true) (r : List Char) :
    Reads (ofText t.image.toList) t.image.toList (next.image.toList ++ r) := by
  obtain ⟨lexeme, hreads, htrivia, hkind⟩ := ht.image_reads
  obtain ⟨_, hreads', -, -⟩ := hnext.image_reads
  rw [hreads.ofText_eq]
  refine hreads.before_joined hreads'.ne_nil hsplit ?_ fun hnumber => ?_
  · rintro ⟨hdot, hdot'⟩
    have hdots : ∀ {o : Outline}, o.IsToken → o.image.toList = ['.'] → o.kind = .dot := by
      intro o ho himage
      obtain ⟨lexeme, hreads, -, hkind⟩ := ho.image_reads
      have hread : Reads (.token .dot) ['.'] [] := by unfold Reads; decide +kernel
      rw [himage] at hreads
      rw [hkind, hreads.unique hread]
      rfl
    exact not_dots_of_joined hjoined ⟨hi.trans (hdots ht hdot), hi'.trans (hdots hnext hdot')⟩
  · have hkinds := joinedKinds_of_joined hjoined (by
      rw [hi, hkind]
      unfold isNumber at hnumber
      split at hnumber <;> simp_all [classify, tokenKind])
    have hsymbols : ∀ kind ∈ joinedKinds, kind ≠ .compoundAssign ∧
        ∃ c ∈ joinedToNumber, (kind, String.ofList [c]) ∈ symbols := by decide
    rw [hi'] at hkinds
    obtain ⟨hcompound, d, hd, hs⟩ := hsymbols _ hkinds
    exact ⟨d, hd, by rw [hnext.image_eq hs hcompound, String.toList_ofList]⟩

/-! ### Tokens and gaps -/

/-- Without a line break and a space between them, `t` is read the same with `next` behind it. -/
def Gap.Safe (gap : Gap) (t next : Token) : Prop :=
  next.kind ≠ .endOfFile → gap.newlines = 0 → gap.space = false →
    ∀ r, Reads (ofText t.image.toList) t.image.toList (next.image.toList ++ r)

/-- Tokens with the gaps between them. -/
inductive Fits : List Token → List Gap → Prop
  | last {t : Token} (h : t.outline.TriviaLexed) (hkind : t.kind = .endOfFile) : Fits [t] []
  | cons {t next : Token} {tokens : List Token} {gap : Gap} {gaps : List Gap} (h : t.outline.IsToken)
      (hgap : gap.Safe t next) (hrest : Fits (next :: tokens) gaps) :
      Fits (t :: next :: tokens) (gap :: gaps)

theorem Fits.length_eq {tokens : List Token} {gaps : List Gap} (h : Fits tokens gaps) :
    tokens.length = gaps.length + 1 := by
  induction h with
  | last => rfl
  | cons _ _ _ ih => rw [List.length_cons, ih, List.length_cons]

theorem space_gapAfter (m : Memory) : (gapAfter s i c m).1.space =
    ((gapAfter s i c m).1.newlines == 0 && spaced s i c) := rfl

theorem safe_gapAfter {t next : Token} (ht : t.outline.IsToken) (hi : s.get? i = some t)
    (hi' : s.get? (i + 1) = some next) (hnext : next.kind ≠ .endOfFile → next.outline.IsToken) (m : Memory) :
    (gapAfter s i c m).1.Safe t next := by
  intro hend hbreaks hspace r
  rw [space_gapAfter, hbreaks] at hspace
  obtain ⟨hjoined, hsplit⟩ := (spaced_eq_false_iff hi hi').1 hspace
  refine reads_of_joined ht (hnext hend) ?_ ?_ hjoined hsplit r
  · simp [TokenStream.kind, hi, Token.outline]
  · simp [TokenStream.kind, hi', Token.outline]

theorem fits_decisionsFrom (left i : Nat) (c : Scope) (m : Memory) (hleft : i + left = s.size)
    (h : Lexed ((s.tokens.toList.drop i).map Token.outline)) :
    Fits (s.tokens.toList.drop i) ((decisionsFrom s left i c m).map Decision.gap) := by
  have hsize : s.tokens.toList.length = s.size := by simp [TokenStream.size]
  have hget : ∀ j, s.get? j = s.tokens.toList[j]? := fun j => by simp [TokenStream.get?]
  -- the tokens left are those from `i` on; the end mark is among them, so fuel does not run out
  induction left generalizing i c m with
  | zero =>
    rw [List.drop_eq_nil_of_le (by omega)] at h
    cases h
  | succ left ih =>
    have hi : i < s.tokens.toList.length := by omega
    rw [List.drop_eq_getElem_cons hi] at h ⊢
    rw [List.map_cons] at h
    generalize ht : s.tokens.toList[i] = t at h ⊢
    have hti : s.get? i = some t := by rw [hget, List.getElem?_eq_getElem hi, ht]
    have hkind : s.kind i = t.kind := by rw [TokenStream.kind, hti]
    generalize hrest : (s.tokens.toList.drop (i + 1)).map Token.outline = rest at h
    rw [decisionsFrom, hkind]
    cases h with
    | last h hend =>
      obtain hrest := List.map_eq_nil_iff.1 hrest
      rw [if_pos (show t.kind = _ from hend), hrest]
      exact .last h hend
    | cons h hlexed =>
      rw [if_neg (show t.kind ≠ _ from h.kind_ne_endOfFile), List.map_cons]
      subst hrest
      have ih := ih (i + 1) (c.advance s i) (gapAfter s i (c.advance s i) m).2 (by omega) hlexed
      cases hdrop : s.tokens.toList.drop (i + 1) with
      | nil => rw [hdrop] at hlexed; cases hlexed
      | cons next tokens =>
        have hnext : s.get? (i + 1) = some next := by
          rw [hget, ← List.head?_drop, hdrop]; rfl
        rw [hdrop] at ih hlexed
        exact .cons h (safe_gapAfter h hti hnext hlexed.isToken_head m) ih

theorem fits_decisions (h : Lexed s.outlines) :
    Fits s.tokens.toList ((decisions s).map Decision.gap) :=
  fits_decisionsFrom s.size 0 {} {} (Nat.zero_add _) h

end GrammarFormat
