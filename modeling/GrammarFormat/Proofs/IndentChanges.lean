import GrammarFormat.Proofs.GroupEnds
import Mathlib.Algebra.Ring.Int.Defs

/-!
# Changes of the indent

In nested tokens every change of the indent is taken back. The sum of the changes up to a token is read off
from the state of the pass there (`indentAt`): the ends of groups to come, the open braces, and whether the
token is the bar of a choice. In front of a bracket and of its partner this is the same, so over the gaps
between them the changes cancel (`sum_indent_pair`).
-/

namespace GrammarFormat.Layout

open TokenStream TokenKind

variable {s : TokenStream} {i o c : Nat}

/-! ### Demands -/

theorem Demand.indent_append (a b : Demand) : (a ++ b).indent = a.indent + b.indent := rfl

theorem Demand.indent_when (condition : Bool) (demand : Demand) :
    (Demand.when condition demand).indent = if condition then demand.indent else 0 := by
  cases condition <;> rfl

open Demand (indent_append indent_when)

theorem indent_frameDemand (kind : TokenKind) (c : Scope) (m : Memory) :
    (frameDemand kind c m).indent = 0 := by
  unfold frameDemand
  split
  · rw [indent_when]
    split <;> rfl
  · rfl

theorem indent_quantifierDemand (i : Nat) (current next : TokenKind) (m : Memory) :
    (quantifierDemand i current next m).indent = 0 := by
  rw [quantifierDemand, indent_append, indent_when, indent_when]
  split_ifs <;> rfl

theorem indent_generalDemand (current next : TokenKind) (c : Scope) : (generalDemand current next c).indent =
    (if current = .openBrace then 1 else 0) - (if next = .closeBrace then 1 else 0) := by
  simp only [generalDemand, indent_append, indent_when]
  by_cases hopen : current = .openBrace <;> by_cases hclose : next = .closeBrace <;> simp [hopen, hclose]

theorem indent_grammarDemand (s : TokenStream) (i : Nat) (c : Scope) : (grammarDemand s i c).indent =
    (if (declarationEnd? s i c <|> unitEnd? s i).isSome then 1 else 0) -
      (if s.kind (i + 1) = .bar then 1 else 0) + (if s.kind i = .bar then 1 else 0) := by
  have hone : declarationEnd? s i c = none ∨ unitEnd? s i = none := by
    by_cases hcolon : s.kind i = .colon
    · right
      rw [unitEnd?, hcolon]
      rfl
    · left
      rw [declarationEnd?, if_neg]
      simp [hcolon]
  simp only [grammarDemand, indent_append, indent_when]
  rcases hone with hnone | hnone
  · cases hunit : unitEnd? s i <;> simp [hnone] <;> split_ifs <;> omega
  · cases hdeclaration : declarationEnd? s i c <;> simp [hnone] <;> split_ifs <;> omega

/-! ### The indent of a token -/

/-- The braces around the token at `i`; a closing one stands outside of its group. -/
def braceLevel (s : TokenStream) (i : Nat) : Int :=
  (scopeAt s i).braces - if s.kind i = .closeBrace ∧ (scopeAt s i).inLookahead = false then 1 else 0

/-- Whether the token at `i` is the bar of a choice, which stands one level further out. -/
def barAt (s : TokenStream) (i : Nat) : Int :=
  if s.kind i = .bar ∧ (scopeAt s i).inGrammar = true then 1 else 0

/-- The sum of all changes in front of the token at `i`. -/
def indentAt (s : TokenStream) (i : Nat) : Int :=
  (memoryAt s i).closers.length + braceLevel s i - barAt s i

theorem inLookahead_brace (h : s.kind i = .openBrace ∨ s.kind i = .closeBrace) :
    (scopeAt s (i + 1)).inLookahead = (scopeAt s i).inLookahead := by
  rcases h with h | h <;> exact inLookahead_succ (by simp [h]) (by simp [h])

/-- In nested tokens no closing brace is missing an open one. -/
theorem braces_pos (hs : s.IsNested) (hi : s.kind i = .closeBrace)
    (hlookahead : (scopeAt s i).inLookahead = false) :
    0 < (scopeAt s i).braces := by
  obtain ⟨o, hpair⟩ := hs.exists_open (i := i) (by rw [hi]; rfl)
  have ho : s.kind o = .openBrace := closer?_inj hpair.closer (by rw [hi]; rfl)
  rw [hpair.inner.inLookahead, inLookahead_brace (.inl ho)] at hlookahead
  rw [hpair.inner.braces, braces_succ, ho, Scope.bracesAfter, hlookahead]
  exact Nat.succ_pos _

/-- The braces in front of the next token: a closing one falls away, if there is one to close, and an opening one is
added. Those in a lookahead constraint do not count. -/
theorem braces_succ_eq (s : TokenStream) (i : Nat) : (scopeAt s (i + 1)).braces =
    (scopeAt s i).braces - (if s.kind i = .closeBrace ∧ (scopeAt s i).inLookahead = false then 1 else 0) +
      if s.kind i = .openBrace ∧ (scopeAt s (i + 1)).inLookahead = false then 1 else 0 := by
  by_cases hopen : s.kind i = .openBrace
  · rw [braces_succ, hopen, Scope.bracesAfter, inLookahead_brace (.inl hopen)]
    cases (scopeAt s i).inLookahead <;> simp
  by_cases hclose : s.kind i = .closeBrace
  · rw [braces_succ, hclose, Scope.bracesAfter]
    cases (scopeAt s i).inLookahead <;> simp
  · rw [braces_of_ne hopen hclose, if_neg fun h => hclose h.1, if_neg fun h => hopen h.1]
    rfl

theorem braceLevel_eq (hs : s.IsNested) (i : Nat) : braceLevel s i = ((scopeAt s i).braces -
    (if s.kind i = .closeBrace ∧ (scopeAt s i).inLookahead = false then 1 else 0) : Nat) := by
  rw [braceLevel]
  split_ifs with hclose
  · have hpos := braces_pos hs hclose.1 hclose.2
    omega
  · omega

theorem braceLevel_succ (hs : s.IsNested) (i : Nat) : braceLevel s (i + 1) - braceLevel s i =
    if (scopeAt s (i + 1)).inLookahead then 0
    else (if s.kind i = .openBrace then 1 else 0) - (if s.kind (i + 1) = .closeBrace then 1 else 0) := by
  rw [braceLevel_eq hs i, braceLevel, braces_succ_eq]
  cases (scopeAt s (i + 1)).inLookahead
  · simp only [and_true, Bool.false_eq_true, if_false]
    split_ifs <;> omega
  · simp only [Bool.true_eq_false, and_false, if_true, if_false]
    omega

theorem barAt_succ (s : TokenStream) (i : Nat) : barAt s i - barAt s (i + 1) =
    if (scopeAt s (i + 1)).inGrammar then
      (if s.kind i = .bar then 1 else 0) - (if s.kind (i + 1) = .bar then 1 else 0)
    else 0 := by
  rw [barAt, barAt]
  by_cases hbar : s.kind i = .bar
  · have hin : (scopeAt s (i + 1)).inGrammar = (scopeAt s i).inGrammar := inGrammar_succ (by simp [hbar])
    rw [← hin]
    cases (scopeAt s (i + 1)).inGrammar <;> simp [hbar]
  · cases (scopeAt s (i + 1)).inGrammar <;> simp [hbar]

/-- Each gap changes the indent from that of its token to that of the next one. -/
theorem indent_gapAt (hs : s.IsNested) (hcolons : s.SingleColons) (i : Nat) :
    (gapAt s i).indent = indentAt s (i + 1) - indentAt s i := by
  have hends := ((waitsFor_closers hs hcolons i).gapAfter hs hcolons).2
  have hbraces := braceLevel_succ hs i
  have hbars := barAt_succ s i
  have hmemory : memoryAt s (i + 1) = (gapAfter s i (scopeAt s (i + 1)) (memoryAt s i)).2 := rfl
  rw [gapAt, indent_gapAfter, demandAfter, indentAt, indentAt, hmemory]
  cases hlookahead : (scopeAt s (i + 1)).inLookahead with
  | true =>
    have hout := inGrammar_of_inLookahead hlookahead
    rw [hlookahead, if_pos rfl] at hends hbraces
    rw [hout, if_neg Bool.false_ne_true] at hbars
    rw [if_pos rfl, indent_frameDemand]
    omega
  | false =>
    rw [hlookahead, if_neg Bool.false_ne_true] at hends hbraces
    rw [if_neg Bool.false_ne_true]
    simp only [indent_append, indent_when, indent_frameDemand, indent_quantifierDemand, indent_generalDemand,
      indent_grammarDemand]
    have hclosing : (if closesNext s i (scopeAt s (i + 1)) (memoryAt s i) then -1 else 0 : Int) =
        -if closesNext s i (scopeAt s (i + 1)) (memoryAt s i) then 1 else 0 := by split <;> rfl
    rw [hclosing]
    rw [groupEnd?] at hends
    cases hin : (scopeAt s (i + 1)).inGrammar with
    | true =>
      rw [hin, if_pos rfl] at hends hbars
      rw [if_pos rfl]
      omega
    | false =>
      rw [hin, if_neg Bool.false_ne_true] at hends hbars
      rw [if_neg Bool.false_ne_true]
      simp only [Option.isSome_none, Bool.false_eq_true, if_false] at hends
      omega

/-! ### Pairs of brackets -/

theorem barAt_eq_zero (hi : (s.kind i).nesting ≠ 0) : barAt s i = 0 := by
  refine if_neg ?_
  rintro ⟨hbar, -⟩
  rw [hbar] at hi
  exact hi rfl

theorem braceLevel_pair (h : s.IsPair o c) : braceLevel s o = braceLevel s c := by
  have hbraces := h.inner.braces
  have hlookahead := h.inner.inLookahead
  rw [braceLevel, braceLevel, hbraces, hlookahead]
  rcases closer?_cases h.closer with ⟨ho, hc⟩ | ⟨ho, hc⟩ | ⟨ho, hc⟩ | ⟨ho, hc⟩
  case inr.inr.inl =>
    rw [braces_succ, ho, hc, Scope.bracesAfter, inLookahead_brace (.inl ho)]
    cases (scopeAt s o).inLookahead <;> simp
  all_goals
    rw [braces_of_ne (by simp [ho]) (by simp [ho]), ho, hc]
    simp

theorem indentAt_pair (hs : s.IsNested) (hcolons : s.SingleColons) (h : s.IsPair o c) :
    indentAt s o = indentAt s c := by
  obtain ⟨ho, hc⟩ := nesting_of_closer? h.closer
  rw [indentAt, indentAt, closers_pair hs hcolons h, braceLevel_pair h, barAt_eq_zero (by omega),
    barAt_eq_zero (by omega)]

theorem sum_indent (hs : s.IsNested) (hcolons : s.SingleColons) (o n : Nat) :
    ((List.range' o n).map fun k => (gapAt s k).indent).sum = indentAt s (o + n) - indentAt s o := by
  induction n generalizing o with
  | zero => simp
  | succ n ih =>
    rw [List.range'_succ, List.map_cons, List.sum_cons, ih, indent_gapAt hs hcolons,
      show o + 1 + n = o + (n + 1) by omega]
    omega

/-- Between a bracket and its partner the changes of the indent cancel. -/
theorem sum_indent_pair (hs : s.IsNested) (hcolons : s.SingleColons) (h : s.IsPair o c) :
    (((decisions s).drop o).take (c - o)).length = c - o ∧
      ((((decisions s).drop o).take (c - o)).map fun decision => decision.gap.indent).sum = 0 := by
  have hlt := h.lt
  have hsize := lt_size_of_kind h.kind_ne_endOfFile
  rw [decisions_slice hs.only_end hsize, List.length_map, List.length_range', List.map_map]
  refine ⟨rfl, ?_⟩
  have hsum := sum_indent hs hcolons o (c - o)
  rw [show o + (c - o) = c by omega, indentAt_pair hs hcolons h] at hsum
  exact hsum.trans (Int.sub_self _)

/-- A section with one regular expression that has a choice. -/
def choiceTokens : TokenStream :=
  .ofLines [(.keyword .parserEnd, "PARSER_END", 1), (.openParen, "(", 1), (.identifier, "P", 1),
    (.closeParen, ")", 1), (.keyword .token, "TOKEN", 1), (.colon, ":", 1), (.openBrace, "\x7b", 1),
    (.less, "<", 1), (.identifier, "A", 1), (.colon, ":", 1), (.openParen, "(", 1),
    (.string, "\"a\"", 1), (.bar, "|", 1), (.string, "\"b\"", 1), (.closeParen, ")", 1),
    (.greater, ">", 1), (.closeBrace, "\x7d", 1)]

theorem isPair_choiceTokens : choiceTokens.IsPair 7 15 where
  closer := rfl
  inner :=
    have hunit : choiceTokens.Balanced 11 14 := .token rfl (.token rfl (.token rfl .nil))
    .token rfl (.token rfl (.group rfl hunit .nil))

theorem isNested_choiceTokens : choiceTokens.IsNested where
  only_end := by
    have hkinds : ∀ i < 17, choiceTokens.kind i ≠ .endOfFile := by decide
    intro i hi
    change i + 1 < 18 at hi
    exact hkinds i (by omega)
  balanced := by
    have hbraces : choiceTokens.Balanced 7 16 := .group rfl isPair_choiceTokens.inner .nil
    have hsection : choiceTokens.Balanced 4 17 := .token rfl (.token rfl (.group rfl hbraces .nil))
    exact .token rfl (.group rfl (.token rfl .nil) hsection)

theorem singleColons_choiceTokens : choiceTokens.SingleColons := by
  have hcolons : ∀ i < 18, choiceTokens.kind i = .colon → i = 5 ∨ i = 9 := by decide
  have hangles : ∀ i < 18, choiceTokens.kind i = .less → i = 7 := by decide
  have hsize : ∀ {kind i}, choiceTokens.kind i = kind → kind ≠ .endOfFile → i < 18 :=
    fun hkind hne => lt_size_of_kind (hkind ▸ hne)
  intro first last _ hless i j hi hj
  have hfirst := hangles first (hsize hless (by decide)) hless
  have hifirst := hi.first_lt
  have hjfirst := hj.first_lt
  have hi' := hcolons i (hsize hi.colon (by decide)) hi.colon
  have hj' := hcolons j (hsize hj.colon (by decide)) hj.colon
  omega

theorem sum_indent_pair_of_choice :
    choiceTokens.IsPair 7 15 ∧
      ((((decisions choiceTokens).drop 7).take 8).map fun decision => decision.gap.indent) =
        [0, 0, 1, 1, -1, 1, -1, -1] ∧
      ((((decisions choiceTokens).drop 7).take 8).map fun decision => decision.gap.indent).sum = 0 :=
  ⟨isPair_choiceTokens, by decide +kernel,
    (sum_indent_pair isNested_choiceTokens singleColons_choiceTokens isPair_choiceTokens).2⟩

end GrammarFormat.Layout
