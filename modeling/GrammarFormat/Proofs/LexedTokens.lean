import Mathlib.Data.List.Chain
import GrammarFormat.Proofs.Cut

/-!
# Tokens as the lexer makes them

`Lexed`: what is known of the tokens of every text. Each but the last is read from its image alone,
and so are the trivia in front of it; the last one is the end mark. A line comment has a line break
behind it, unless the text ends there.
-/

namespace GrammarFormat

open Lexeme

variable {s trailing : List Char} {l : List Span}

/-- Behind a line comment there is a line break. -/
def EndsLine (u v : Lexeme × List Char) : Prop :=
  u.1 = .trivia .lineComment → v.1 = .trivia .lineBreak

namespace Cut

theorem reads (h : Cut s l trailing) : ∀ u ∈ lexemes l, Reads u.1 u.2 [] := by
  induction h with
  | nil => simp [lexemes]
  | cons _ hx _ ih => exact List.forall_mem_cons.2 ⟨hx.alone, ih⟩

theorem eq_nil (h : Cut [] l trailing) : l = [] := by
  generalize hs : [] = t at h
  cases h with
  | nil => rfl
  | cons _ hx _ =>
    have := hx.ne_nil
    simp_all

/-- A text that starts with the end of a line has a line break first. -/
theorem of_terminator {c : Char} (h : Cut (c :: s) l trailing) (hc : isTerminator c = true) :
    ∃ x r l', Reads (.trivia .lineBreak) x r ∧ Cut r l' trailing ∧ x ++ r = c :: s ∧
      l = ⟨[], some (.trivia .lineBreak), x⟩ :: l' := by
  have hblank : ¬ isBlank c = true := fun hb => by
    rw [not_terminator_of_blank hb] at hc
    cases hc
  generalize hs : c :: s = t at h
  cases h with
  | nil hb =>
    subst hs
    exact absurd (hb c (List.mem_cons_self ..)) hblank
  | @cons blanks x r _ lexeme l hb hx h =>
    cases blanks with
    | cons d blanks =>
      cases hs
      exact absurd (hb c (List.mem_cons_self ..)) hblank
    | nil =>
      obtain ⟨d, x, rfl⟩ := List.exists_cons_of_ne_nil hx.ne_nil
      cases hs
      obtain rfl := hx.of_terminator_head hc
      exact ⟨_, r, l, hx, h, rfl, rfl⟩

theorem isChain_lexemes (h : Cut s l trailing) : (lexemes l).IsChain EndsLine := by
  induction h with
  | nil => exact .nil
  | @cons blanks x r trailing lexeme l _ hx h ih =>
    refine List.isChain_cons.2 ⟨fun v hv hcomment => ?_, ih⟩
    obtain rfl : lexeme = _ := hcomment
    cases r with
    | nil =>
      rw [h.eq_nil] at hv
      cases hv
    | cons c r =>
      obtain ⟨x', r', l', -, -, -, rfl⟩ := h.of_terminator hx.lineComment_end
      cases hv
      rfl

end Cut

/-! ### Outlines -/

def triviaLexeme (u : TriviaKind × String) : Lexeme × List Char :=
  (.trivia u.1, u.2.toList)

namespace Outline

/-- The trivia of an outline are what the lexer makes. -/
structure TriviaLexed (o : Outline) : Prop where
  reads : ∀ u ∈ o.trivia, Reads (.trivia u.1) u.2.toList []
  ended : (o.trivia.map triviaLexeme).IsChain EndsLine

structure IsToken (o : Outline) : Prop extends o.TriviaLexed where
  image_reads : ∃ lexeme, Reads lexeme o.image.toList [] ∧ lexeme.trivia? = none ∧
    o.kind = lexeme.classify o.image
  /-- The token is not on the line of a line comment. -/
  closed : ∀ u ∈ o.trivia.getLast?, u.1 ≠ .lineComment

theorem IsToken.isChain {o : Outline} (h : o.IsToken) (lexeme : Lexeme) :
    (o.trivia.map triviaLexeme ++ [(lexeme, o.image.toList)]).IsChain EndsLine := by
  refine List.isChain_append.2 ⟨h.ended, .singleton _, fun u hu v _ hcomment => ?_⟩
  rw [List.getLast?_map] at hu
  obtain ⟨w, hw, rfl⟩ := Option.map_eq_some_iff.1 hu
  exact absurd (Lexeme.trivia.inj hcomment) (h.closed w hw)

end Outline

/-- Tokens and the end mark behind them. -/
inductive Lexed : List Outline → Prop
  | last {o : Outline} (h : o.TriviaLexed) (hkind : o.kind = .endOfFile) : Lexed [o]
  | cons {o : Outline} {os : List Outline} (h : o.IsToken) (hos : Lexed os) : Lexed (o :: os)

theorem Lexed.isToken_head {o : Outline} {os : List Outline} (h : Lexed (o :: os))
    (hkind : o.kind ≠ .endOfFile) : o.IsToken := by
  cases h with
  | last _ hend => exact absurd hend hkind
  | cons h _ => exact h

theorem lexed_outlinesOf (trivia : List (TriviaKind × String)) {ls : List (Lexeme × List Char)}
    (hreads : ∀ u ∈ trivia.map triviaLexeme ++ ls, Reads u.1 u.2 [])
    (hchain : (trivia.map triviaLexeme ++ ls).IsChain EndsLine) : Lexed (outlinesOf trivia ls) := by
  have htrivia : ∀ {trivia : List (TriviaKind × String)} {ls : List (Lexeme × List Char)},
      (∀ u ∈ trivia.map triviaLexeme ++ ls, Reads u.1 u.2 []) →
      ∀ u ∈ trivia, Reads (.trivia u.1) u.2.toList [] := fun h u hu =>
    h (triviaLexeme u) (List.mem_append_left _ (List.mem_map_of_mem hu))
  -- the chain goes through the trivia waiting and the lexemes to come
  induction ls generalizing trivia with
  | nil => exact .last ⟨htrivia hreads, by simpa using hchain⟩ rfl
  | cons u ls ih =>
    obtain ⟨lexeme, x⟩ := u
    cases hlexeme : lexeme.trivia? with
    | some kind =>
      obtain rfl : lexeme = .trivia kind := by
        cases lexeme with
        | trivia kind => cases hlexeme; rfl
        | word | token => cases hlexeme
      have hlist : (trivia ++ [(kind, String.ofList x)]).map triviaLexeme ++ ls =
          trivia.map triviaLexeme ++ (.trivia kind, x) :: ls := by simp [triviaLexeme]
      exact ih _ (hlist ▸ hreads) (hlist ▸ hchain)
    | none =>
      rw [outlinesOf_token hlexeme]
      obtain ⟨hleft, hright, hseam⟩ := List.isChain_append.1 hchain
      refine .cons ⟨⟨htrivia hreads, hleft⟩, ⟨lexeme, ?_, hlexeme, rfl⟩, fun u hu hcomment => ?_⟩
        (ih [] (fun u hu => hreads u (by simp at hu ⊢; tauto)) hright.tail)
      · simpa using hreads (lexeme, x) (by simp)
      · have := hseam (triviaLexeme u) (by rw [List.getLast?_map, hu]; rfl) (lexeme, x) rfl
          (congrArg Lexeme.trivia hcomment)
        cases this; cases hlexeme

theorem lexed_of_tokenize {source : String} {s : TokenStream} (h : tokenize source = .ok s) :
    Lexed s.outlines := by
  obtain ⟨l, trailing, hcut, -⟩ := tokenize_eq_ok_iff.1 h
  rw [HasLexemes.outlines_eq ⟨l, trailing, hcut, rfl⟩ h]
  exact lexed_outlinesOf [] (by simpa using hcut.reads) (by simpa using hcut.isChain_lexemes)

end GrammarFormat
