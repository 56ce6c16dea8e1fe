import GrammarFormat.Proofs.GroupEnds
import Mathlib.Data.List.TakeWhile

/-!
# Between the constructs of a file

Where no bracket of nested tokens is open, the pass is as it was at the start of the file: nothing counts as
open, and no closing token is waited for (`AtRest`). What follows is laid out on its own. Counters and angle
groups are at rest since balanced tokens keep them. Closing tokens that were missed, as happens in an angle
group with two colons, are behind that place, and so they are dropped there.
-/

namespace GrammarFormat.Layout

open TokenStream TokenKind

/-- Nothing is open, and nothing is waited for. -/
structure AtRest (c : Scope) (m : Memory) : Prop where
  braces : c.braces = 0
  parens : c.parens = 0
  angles : c.angles = []
  closers : m.closers = []
  lookahead : c.lookahead.isInside = false
  forHeader : c.forHeader.isInside = false
  node : c.node.isInside = false

variable {s : TokenStream} {a b i : Nat}

/-! ### Closing tokens -/

theorem mem_closersAfter {m : Memory} (h : b ∈ closersAfter s i (scopeAt s (i + 1)) m) :
    groupEnd? s i = some b ∨ b ∈ m.closers := by
  rw [closersAfter_eq] at h
  rcases List.mem_append.1 ((List.dropWhile_sublist _).subset h) with hopened | hwaiting
  · exact .inl (Option.mem_toList.1 hopened)
  · exact .inr hwaiting

/-- Only ends of groups are waited for. -/
theorem exists_groupEnd?_of_mem (h : b ∈ (memoryAt s i).closers) : ∃ a < i, groupEnd? s a = some b := by
  induction i with
  | zero => cases h
  | succ i ih =>
    have hstep : groupEnd? s i = some b ∨ b ∈ (memoryAt s i).closers := by
      rw [memoryAt, closers_gapAfter] at h
      split_ifs at h
      · exact .inr h
      · exact mem_closersAfter (List.mem_of_mem_tail h)
      · exact mem_closersAfter h
    rcases hstep with hopened | hwaiting
    · exact ⟨i, Nat.lt_succ_self i, hopened⟩
    · obtain ⟨a, ha, hab⟩ := ih hwaiting
      exact ⟨a, by omega, hab⟩

/-- Ends that were all passed are forgotten, outside of a lookahead constraint. -/
theorem closers_eq_nil (hlookahead : (scopeAt s (i + 1)).inLookahead = false)
    (hends : ∀ a b, a ≤ i → groupEnd? s a = some b → b ≤ i) : (memoryAt s (i + 1)).closers = [] := by
  have hnil : closersAfter s i (scopeAt s (i + 1)) (memoryAt s i) = [] := by
    rw [closersAfter_eq, List.dropWhile_eq_nil_iff]
    intro b hb
    have hle : b ≤ i := by
      rcases List.mem_append.1 hb with hopened | hwaiting
      · exact hends i b (Nat.le_refl i) (Option.mem_toList.1 hopened)
      · obtain ⟨a, ha, hab⟩ := exists_groupEnd?_of_mem hwaiting
        exact hends a b (by omega) hab
    simpa using Nat.lt_succ_of_le hle
  rw [memoryAt, closers_gapAfter, hlookahead, if_neg Bool.false_ne_true, hnil]
  split_ifs <;> rfl

/-- Groups over several lines do not reach over a place where no bracket is open. -/
theorem groupEnd?_le (hs : s.IsNested) (hclosed : ∀ o c, s.IsPair o c → o ≤ i → c ≤ i) (ha : a ≤ i)
    (h : groupEnd? s a = some b) : b ≤ i := by
  rw [groupEnd?] at h
  split at h
  case isFalse => cases h
  rcases (Option.orElse_eq_some ..).1 h with hdeclaration | ⟨-, hunit⟩
  · obtain ⟨hcolon, hb, first, last, hangle, -⟩ := declarationEnd?_inAngle hs hdeclaration
    have hfirst := hangle.lt
    have hlast := hclosed first last hangle.pair (by omega)
    have hle := hangle.pair.anglePartner?_le hangle.less hfirst hangle.le (by simp [hcolon]) hb
    omega
  · exact hclosed a b (unitEnd?_spec hs hunit).1 ha

/-! ### The pass -/

/-- Tokens after which no bracket is open are balanced. -/
theorem balanced_of_closed (hs : s.IsNested) (hi : i + 1 < s.size)
    (hclosed : ∀ o c, s.IsPair o c → o ≤ i → c ≤ i) : s.Balanced 0 (i + 1) := by
  rcases hs.balanced.enclosing (k := i + 1) (Nat.zero_le _) (by omega) with
    hfront | ⟨o, c, -, -, hpair, ho, hc, -⟩
  · exact hfront
  · have := hclosed o c hpair (by omega)
    omega

theorem atRest_of_closed (hs : s.IsNested) (hi : i + 1 < s.size)
    (hclosed : ∀ o c, s.IsPair o c → o ≤ i → c ≤ i) :
    (decisions s).drop (i + 1) =
        decisionsFrom s (s.size - (i + 1)) (i + 1) (scopeAt s (i + 1)) (memoryAt s (i + 1)) ∧
      AtRest (scopeAt s (i + 1)) (memoryAt s (i + 1)) := by
  have hfront := balanced_of_closed hs hi hclosed
  have hlookahead : (scopeAt s (i + 1)).lookahead.isInside = false :=
    (Reach.isInside_eq_false_iff _).2 hfront.lookahead
  refine ⟨drop_decisions hs.only_end hi, ?_⟩
  exact {
    braces := hfront.braces
    parens := hfront.parens
    angles := hfront.angles (.inl rfl)
    closers := closers_eq_nil hlookahead fun _ _ ha hab => groupEnd?_le hs hclosed ha hab
    lookahead := hlookahead
    forHeader := (Reach.isInside_eq_false_iff _).2 hfront.forHeader
    node := (Reach.isInside_eq_false_iff _).2 hfront.node }

/-- A regular expression with two colons, and a name behind its section. -/
def twoColonTokens : TokenStream :=
  .ofLines [(.keyword .parserEnd, "PARSER_END", 1), (.openParen, "(", 1), (.identifier, "P", 1),
    (.closeParen, ")", 1), (.keyword .token, "TOKEN", 1), (.colon, ":", 1), (.openBrace, "\x7b", 1),
    (.less, "<", 1), (.identifier, "A", 1), (.colon, ":", 1), (.openBracket, "[", 1), (.identifier, "B", 1),
    (.colon, ":", 1), (.openParen, "(", 1), (.string, "\"a\"", 1), (.bar, "|", 1), (.string, "\"b\"", 1),
    (.closeParen, ")", 1), (.closeBracket, "]", 1), (.greater, ">", 1), (.closeBrace, "\x7d", 1),
    (.identifier, "x", 1)]

theorem isNested_twoColonTokens : twoColonTokens.IsNested where
  only_end := by
    have hkinds : ∀ i < 22, twoColonTokens.kind i ≠ .endOfFile := by decide
    intro i hi
    change i + 1 < 23 at hi
    exact hkinds i (by omega)
  balanced := by
    have hunit : twoColonTokens.Balanced 14 17 := .token rfl (.token rfl (.token rfl .nil))
    have hoption : twoColonTokens.Balanced 11 18 := .token rfl (.token rfl (.group rfl hunit .nil))
    have hangle : twoColonTokens.Balanced 8 19 := .token rfl (.token rfl (.group rfl hoption .nil))
    have hbehind : twoColonTokens.Balanced 21 22 := .token rfl .nil
    have hsection : twoColonTokens.Balanced 4 22 :=
      .token rfl (.token rfl (.group rfl (.group rfl hangle .nil) hbehind))
    exact .token rfl (.group rfl (.token rfl .nil) hsection)

/-- The second colon hides the end of the option, which is still waited for right before the end. -/
theorem atRest_of_closed_of_twoColons :
    (∀ o c, twoColonTokens.IsPair o c → o ≤ 20 → c ≤ 20) ∧
      (memoryAt twoColonTokens 19).closers = [18, 19] ∧
      (decisions twoColonTokens).drop 21 =
        decisionsFrom twoColonTokens 2 21 (scopeAt twoColonTokens 21) (memoryAt twoColonTokens 21) ∧
      AtRest (scopeAt twoColonTokens 21) (memoryAt twoColonTokens 21) := by
  have hclosed : ∀ o c, twoColonTokens.IsPair o c → o ≤ 20 → c ≤ 20 := by
    intro o c hpair ho
    by_contra hc
    have hzero : twoColonTokens.depth 21 = 0 := by decide
    have hpos := isNested_twoColonTokens.balanced.depth_le (k := o) (Nat.zero_le o) (Nat.le_trans ho (by decide))
    have hin := hpair.depth_le (k := 21) (by omega) (by omega)
    change 0 ≤ _ at hpos
    omega
  exact ⟨hclosed, by decide +kernel, atRest_of_closed isNested_twoColonTokens (by decide) hclosed⟩

end GrammarFormat.Layout
