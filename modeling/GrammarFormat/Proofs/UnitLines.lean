import GrammarFormat.Proofs.IndentChanges
import Mathlib.Data.List.TakeWhile

/-!
# Units over several lines

A unit that holds a choice or another unit is laid out over several lines: lines end in front of it, behind its opening
bracket, and on both sides of its closing one, where a quantifier stays with it (`breaks_of_multiChoice`). Its end is
waited for from its opening bracket on, and all groups that open inside of it end there, so it comes to the top of
`closers` right in front of its closing bracket (`closesNext_of_unit`).

An angle group has its end on the stack from its colon on, which is any colon with the same number of parentheses
around it. A second one in square brackets puts the end above that of the brackets, and their closing token is missed
(`not_breaks_of_bracketed_colon`).
-/

namespace GrammarFormat

namespace Layout

open TokenStream TokenKind
open Demand (le_breaks_left le_breaks_right)

variable {s : TokenStream} {o c i b : Nat}

/-! ### Groups inside of a unit -/

theorem groupEnd?_lt_of_unit (hs : s.IsNested) (hcolons : s.SingleOwnColons) (hpair : s.IsPair o c)
    (ho : (s.kind o).isOpening = true) (hoi : o < i) (hic : i < c) (h : groupEnd? s i = some b) : b < c := by
  rcases groupEnd?_cases hs hcolons h with ⟨hunit, -⟩ | ⟨first, hangle, hless, hcolon, hfront⟩
  · exact hpair.close_lt_of_open_lt hunit hoi hic
  · have hfirst := hcolon.first_lt
    rcases Nat.lt_trichotomy first o with hfo | rfl | hof
    · exact absurd hic (hfront.not_lt_close hpair hfo hoi)
    · exact absurd hless (ne_of_isOpening ho rfl)
    · exact hpair.close_lt_of_open_lt hangle hof (by omega)

/-! ### Waiting for the end of a unit -/

/-- `c` is waited for, and all ends above it come before it. -/
def IsAwaited (c : Nat) (ends : List Nat) : Prop :=
  ∃ above below, ends = above ++ c :: below ∧ ∀ b ∈ above, b < c

theorem IsAwaited.push {ends opened : List Nat} (h : IsAwaited c ends) (hopened : ∀ b ∈ opened, b < c) :
    IsAwaited c (opened ++ ends) := by
  obtain ⟨above, below, rfl, habove⟩ := h
  refine ⟨opened ++ above, below, (List.append_assoc ..).symm, fun b hb => ?_⟩
  rcases List.mem_append.1 hb with hb | hb
  · exact hopened b hb
  · exact habove b hb

theorem IsAwaited.dropWhile {ends : List Nat} {x : Nat} (h : IsAwaited c ends) (hx : x ≤ c) :
    IsAwaited c (ends.dropWhile (· < x)) := by
  obtain ⟨above, below, rfl, habove⟩ := h
  refine ⟨above.dropWhile (· < x), below, ?_, fun b hb => habove b ((List.dropWhile_sublist _).subset hb)⟩
  have hc : (c :: below).dropWhile (· < x) = c :: below := List.dropWhile_cons_of_neg (by simpa using hx)
  rw [List.dropWhile_append, hc]
  split
  · rename_i hempty
    rw [List.isEmpty_iff.1 hempty]
    rfl
  · rfl

theorem IsAwaited.tail {ends : List Nat} (h : IsAwaited c ends) (hhead : ends.head? ≠ some c) :
    IsAwaited c ends.tail := by
  obtain ⟨above, below, rfl, habove⟩ := h
  cases above with
  | nil => exact absurd rfl hhead
  | cons b above => exact ⟨above, below, rfl, (List.forall_mem_cons.1 habove).2⟩

/-- Where all ends in front of `c` were passed, `c` is the next one. -/
theorem IsAwaited.head?_dropWhile {ends : List Nat} (h : IsAwaited c ends) :
    (ends.dropWhile (· < c)).head? = some c := by
  obtain ⟨above, below, rfl, habove⟩ := h
  have hdrop : above.dropWhile (· < c) = [] := List.dropWhile_eq_nil_iff.2 (by simpa using habove)
  rw [List.dropWhile_append, hdrop]
  simp

section

variable (hs : s.IsNested) (hcolons : s.SingleOwnColons) (hpair : s.IsPair o c) (ho : (s.kind o).isOpening = true)

include hs hcolons hpair ho

theorem IsAwaited.opened (hoi : o < i) (hic : i < c) (h : IsAwaited c (memoryAt s i).closers) :
    IsAwaited c ((groupEnd? s i).toList ++ (memoryAt s i).closers) :=
  h.push fun _ hb => groupEnd?_lt_of_unit hs hcolons hpair ho hoi hic (Option.mem_toList.1 hb)

/-- The gap after a token inside of a unit does not lose its end. -/
theorem IsAwaited.gapAfter (hoi : o < i) (hic : i + 1 < c) (h : IsAwaited c (memoryAt s i).closers) :
    IsAwaited c (memoryAt s (i + 1)).closers := by
  have hclosers : IsAwaited c (closersAfter s i (scopeAt s (i + 1)) (memoryAt s i)) := by
    rw [closersAfter_eq]
    exact (h.opened hs hcolons hpair ho hoi (by omega)).dropWhile hic.le
  rw [memoryAt, closers_gapAfter]
  split_ifs with hlookahead hnext
  · exact h
  · refine hclosers.tail fun hhead => ?_
    rw [closesNext, hhead, beq_iff_eq] at hnext
    cases hnext
    omega
  · exact hclosers

theorem isAwaited_of_unit (hunit : groupEnd? s o = some c) (hoi : o < i) (hic : i < c) :
    IsAwaited c (memoryAt s i).closers := by
  induction i, hoi using Nat.le_induction with
  | base =>
    have hlookahead : (scopeAt s (o + 1)).inLookahead = false := by
      rw [groupEnd?] at hunit
      split at hunit
      · exact not_inLookahead_of_inGrammar ‹_›
      · cases hunit
    have hclosers : closersAfter s o (scopeAt s (o + 1)) (memoryAt s o) = c :: (memoryAt s o).closers := by
      rw [closersAfter_eq, hunit]
      exact List.dropWhile_cons_of_neg (by simpa using Nat.succ_le_of_lt hpair.lt)
    rw [memoryAt, closers_gapAfter, hlookahead, if_neg Bool.false_ne_true, if_neg, hclosers]
    · exact ⟨[], _, rfl, List.forall_mem_nil _⟩
    · rw [closesNext, hclosers, beq_iff_eq]
      intro hhead
      cases hhead
      omega
  | succ i hoi ih => exact (ih (by omega)).gapAfter hs hcolons hpair ho hoi hic

/-- The token in front of the closing bracket of a unit finds it next. -/
theorem closesNext_of_unit (hunit : groupEnd? s o = some c) (hoi : o < i) (hi : i + 1 = c) :
    closesNext s i (scopeAt s (i + 1)) (memoryAt s i) = true := by
  have h := isAwaited_of_unit hs hcolons hpair ho hunit hoi (by omega)
  rw [closesNext, closersAfter_eq, hi, (h.opened hs hcolons hpair ho hoi (by omega)).head?_dropWhile]
  exact beq_self_eq_true _

end

/-! ### Lines -/

/-- The pass ends a line in the gap after the token at `i`. -/
def BreaksAfter (s : TokenStream) (i : Nat) : Prop :=
  ∃ decision, (decisions s)[i]? = some decision ∧ 1 ≤ decision.gap.newlines

theorem breaksAfter (hs : s.IsNested) (hi : s.kind i ≠ .endOfFile) (hlookahead : (scopeAt s (i + 1)).inLookahead = false)
    (h : 1 ≤ (quantifierDemand i (s.kind i) (s.kind (i + 1)) (memoryAt s i)).breaks ∨
      (scopeAt s (i + 1)).inGrammar = true ∧ 1 ≤ (grammarDemand s i (scopeAt s (i + 1))).breaks ∨
      closesNext s i (scopeAt s (i + 1)) (memoryAt s i) = true) : BreaksAfter s i := by
  refine ⟨_, getElem?_decisions (lt_size_of_kind hi) fun k hk => ?_, ?_⟩
  · rcases Nat.eq_or_lt_of_le hk with rfl | hlt
    · exact hi
    · exact kind_ne_endOfFile_of_lt hs.only_end hlt hi
  · change 1 ≤ (gapAfter ..).1.newlines
    rw [newlines_gapAfter, demandAfter, hlookahead, if_neg Bool.false_ne_true]
    rcases h with hquantifier | ⟨hin, hgrammar⟩ | hnext
    · exact le_breaks_left (le_breaks_left (le_breaks_right hquantifier _) _) _
    · rw [hin]
      exact le_breaks_left (le_breaks_right hgrammar _) _
    · rw [hnext]
      exact le_breaks_right (Nat.le_refl 1) _

section

variable (hs : s.IsNested) (ho : (s.kind o).isOpening = true) (hunit : unitEnd? s o = some c)

include hs ho hunit

theorem breaksAfter_open (hin : (scopeAt s (o + 1)).inGrammar = true) : BreaksAfter s o := by
  refine breaksAfter hs (ne_of_isOpening ho rfl) (not_inLookahead_of_inGrammar hin) (.inr (.inl ⟨hin, ?_⟩))
  rw [grammarDemand, hunit]
  exact le_breaks_left (le_breaks_left (le_breaks_right (Nat.le_refl 1) _) _) _

/-- A unit of the grammar starts in the grammar, behind some token of the body. -/
theorem inGrammar_open (hin : (scopeAt s (o + 1)).inGrammar = true) : (scopeAt s o).inGrammar = true := by
  obtain ⟨hpair, -⟩ := unitEnd?_spec hs hunit
  have hbody : ((scopeAt s o).body || s.kind o == .keyword .parserEnd) = true := body_of_inGrammar hin
  rw [beq_false_of_ne (ne_of_isOpening ho rfl), Bool.or_false] at hbody
  exact inGrammar_of_closer? hpair.closer (ne_of_isOpening ho rfl) hbody hin

theorem breaksAfter_before (hin : (scopeAt s o).inGrammar = true) :
    ∃ before, before + 1 = o ∧ (s.kind before ≠ .bar → BreaksAfter s before) := by
  cases o with
  | zero => cases hin
  | succ before =>
    refine ⟨before, rfl, fun hbar => ?_⟩
    have hne : s.kind before ≠ .endOfFile :=
      kind_ne_endOfFile_of_lt hs.only_end (Nat.lt_succ_self before) (ne_of_isOpening ho rfl)
    refine breaksAfter hs hne (not_inLookahead_of_inGrammar hin) (.inr (.inl ⟨hin, ?_⟩))
    rw [unitEnd?] at hunit
    split at hunit
    case isFalse => cases hunit
    rename_i hcall
    have hcall : (!(s.kind before).isCallLike) = true := (Bool.and_eq_true_iff.1 hcall).2
    rw [grammarDemand, hunit, ho, hcall, bne_iff_ne.2 hbar]
    exact le_breaks_left (le_breaks_left (le_breaks_left (le_breaks_right (Nat.le_refl 1) _) _) _) _

/-- The end of a unit is on a line of its own, a quantifier that follows being on it as well. -/
theorem breaksAfter_close (hcolons : s.SingleOwnColons) (hin : (scopeAt s (o + 1)).inGrammar = true)
    (hlt : o + 1 < c) : BreaksAfter s (c - 1) ∧
      (BreaksAfter s c ∨ (s.kind (c + 1)).isQuantifier = true ∧ BreaksAfter s (c + 1)) := by
  obtain ⟨hpair, -⟩ := unitEnd?_spec hs hunit
  have hgroup : groupEnd? s o = some c := by
    rw [groupEnd?, if_pos hin, declarationEnd?, beq_false_of_ne (ne_of_isOpening ho rfl)]
    exact hunit
  obtain ⟨i, rfl⟩ : ∃ i, c = i + 1 := ⟨c - 1, by omega⟩
  have hnext := closesNext_of_unit hs hcolons hpair ho hgroup (i := i) (by omega) rfl
  have hlookahead : (scopeAt s (i + 1)).inLookahead = false := by
    rw [hpair.inner.inLookahead]
    exact not_inLookahead_of_inGrammar hin
  have hlookahead' : (scopeAt s (i + 2)).inLookahead = false := by
    rw [hpair.balanced.inLookahead]
    exact not_inLookahead_of_inGrammar (inGrammar_open hs ho hunit hin)
  -- the gap in front of the closing bracket leaves a mark for the one behind it
  have hcloses : closesUnit (i + 1) (s.kind (i + 1)) (memoryAt s (i + 1)) = true := by
    have hclosing : (s.kind (i + 1)).isClosing = true := by
      rcases closer?_cases hpair.closer with ⟨-, hc⟩ | ⟨-, hc⟩ | ⟨hbrace, -⟩ | ⟨hless, -⟩
      · rw [hc]
        rfl
      · rw [hc]
        rfl
      · exact absurd hbrace (ne_of_isOpening ho rfl)
      · exact absurd hless (ne_of_isOpening ho rfl)
    rw [closesUnit, memoryAt, closed_gapAfter s i (memoryAt s i) hlookahead, hnext, hclosing]
    simp
  have hclose := hpair.kind_ne_endOfFile
  refine ⟨breaksAfter hs (kind_ne_endOfFile_of_lt hs.only_end (Nat.lt_succ_self i) hclose) hlookahead
    (.inr (.inr hnext)), ?_⟩
  cases hquantifier : (s.kind (i + 2)).isQuantifier with
  | false =>
    refine .inl (breaksAfter hs hclose hlookahead' (.inl ?_))
    rw [quantifierDemand, hcloses, hquantifier]
    exact le_breaks_right (Nat.le_refl 1) _
  | true =>
    -- the mark is handed on to the quantifier
    have hpostponed : (memoryAt s (i + 2)).postponed = true := by
      rw [memoryAt, postponed_gapAfter s (i + 1) (memoryAt s (i + 1)) hlookahead', hcloses, hquantifier]
      rfl
    have hne : ∀ {kind}, s.kind (i + 2) = kind → kind.isQuantifier = true := fun h => h ▸ hquantifier
    have hlookahead'' : (scopeAt s (i + 3)).inLookahead = false := by
      rw [inLookahead_succ (fun h => by cases hne h) (fun h => by cases hne h), hlookahead']
    refine .inr ⟨rfl, breaksAfter hs (fun h => by cases hne h) hlookahead'' (.inl ?_)⟩
    rw [quantifierDemand, hpostponed, hquantifier]
    exact le_breaks_left (Nat.le_refl 1) _

end

/-- A unit with anything that asks for several lines in it is not empty. -/
theorem lt_of_multiChoice? (h : s.multiChoice? o = some c) : o + 1 < c := by
  obtain ⟨-, hunit⟩ := Option.filter_eq_some_iff.1 h
  by_contra hle
  rw [show c - (o + 1) = 0 by omega] at hunit
  cases hunit

/-- A unit that holds a choice or another unit is laid out over several lines, if each angle group has at most one
colon outside of its parentheses and of the angle groups in it. -/
theorem breaks_of_multiChoice (hs : s.IsNested) (hcolons : s.SingleOwnColons) (ho : (s.kind o).isOpening = true)
    (hin : (scopeAt s (o + 1)).inGrammar = true) (hcall : (s.kindBefore o).isCallLike = false)
    (hunit : s.multiChoice? o = some c) : BreaksAfter s o ∧ BreaksAfter s (c - 1) ∧
      (∃ before, before + 1 = o ∧ (s.kind before ≠ .bar → BreaksAfter s before)) ∧
      (BreaksAfter s c ∨ (s.kind (c + 1)).isQuantifier = true ∧ BreaksAfter s (c + 1)) := by
  have hlt := lt_of_multiChoice? hunit
  have hend : unitEnd? s o = some c := by
    rw [unitEnd?, ho, hcall]
    exact hunit
  obtain ⟨hclose, hbehind⟩ := breaksAfter_close hs ho hend hcolons hin hlt
  exact ⟨breaksAfter_open hs ho hend hin, hclose,
    breaksAfter_before hs ho hend (inGrammar_open hs ho hend hin), hbehind⟩

theorem breaks_of_multiChoice_of_choice : choiceTokens.multiChoice? 10 = some 14 ∧
    BreaksAfter choiceTokens 10 ∧ BreaksAfter choiceTokens 13 ∧
      (∃ before, before + 1 = 10 ∧ (choiceTokens.kind before ≠ .bar → BreaksAfter choiceTokens before)) ∧
      (BreaksAfter choiceTokens 14 ∨ (choiceTokens.kind 15).isQuantifier = true ∧ BreaksAfter choiceTokens 15) :=
  have hunit : choiceTokens.multiChoice? 10 = some 14 := by decide
  ⟨hunit, breaks_of_multiChoice isNested_choiceTokens singleColons_choiceTokens.own rfl (by decide +kernel) rfl hunit⟩

/-- A regular expression with a colon of its own, and another one in square brackets. -/
def bracketedColonTokens : TokenStream :=
  .ofLines [(.keyword .parserEnd, "PARSER_END", 1), (.openParen, "(", 1), (.identifier, "P", 1),
    (.closeParen, ")", 1), (.keyword .token, "TOKEN", 1), (.colon, ":", 1), (.openBrace, "\x7b", 1),
    (.less, "<", 1), (.identifier, "A", 1), (.colon, ":", 1), (.openBracket, "[", 1), (.string, "\"x\"", 1),
    (.colon, ":", 1), (.string, "\"y\"", 1), (.bar, "|", 1), (.string, "\"z\"", 1), (.closeBracket, "]", 1),
    (.greater, ">", 1), (.closeBrace, "\x7d", 1)]

theorem isNested_bracketedColonTokens : bracketedColonTokens.IsNested where
  only_end := by
    have hkinds : ∀ i < 19, bracketedColonTokens.kind i ≠ .endOfFile := by decide
    intro i hi
    change i + 1 < 20 at hi
    exact hkinds i (by omega)
  balanced := by
    have hoption : bracketedColonTokens.Balanced 11 16 :=
      .token rfl (.token rfl (.token rfl (.token rfl (.token rfl .nil))))
    have hangle : bracketedColonTokens.Balanced 8 17 := .token rfl (.token rfl (.group rfl hoption .nil))
    have hsection : bracketedColonTokens.Balanced 4 19 :=
      .token rfl (.token rfl (.group rfl (.group rfl hangle .nil) .nil))
    exact .token rfl (.group rfl (.token rfl .nil) hsection)

theorem direct_bracketedColonTokens {first last i : Nat} (hless : bracketedColonTokens.kind first = .less)
    (h : bracketedColonTokens.IsDirectColon first last i) : i = 9 := by
  have hangles : ∀ i < 20, bracketedColonTokens.kind i = .less → i = 7 := by decide
  have hcolons : ∀ i < 20, bracketedColonTokens.kind i = .colon → i = 5 ∨ i = 9 ∨ i = 12 := by decide
  have hsize : ∀ {kind i}, bracketedColonTokens.kind i = kind → kind ≠ .endOfFile → i < 20 :=
    fun hkind hne => lt_size_of_kind (hkind ▸ hne)
  obtain rfl := hangles first (hsize hless (by decide)) hless
  have hle := h.front.le
  rcases hcolons i (hsize h.colon (by decide)) h.colon with rfl | rfl | rfl
  · omega
  · rfl
  · have hdepth := h.front.depth_eq
    exact absurd hdepth (by decide)

/-- The second colon, though not directly in the angle group, hides the end of the square brackets: their closing
token stays on the line of the token before it. -/
theorem not_breaks_of_bracketed_colon : bracketedColonTokens.IsNested ∧
    (∀ first last, bracketedColonTokens.IsPair first last → bracketedColonTokens.kind first = .less →
      ∀ i j, bracketedColonTokens.IsDirectColon first last i → bracketedColonTokens.IsDirectColon first last j → i = j) ∧
    (bracketedColonTokens.kind 10).isOpening = true ∧ (scopeAt bracketedColonTokens 11).inGrammar = true ∧
    (bracketedColonTokens.kindBefore 10).isCallLike = false ∧ bracketedColonTokens.multiChoice? 10 = some 16 ∧
    ¬ BreaksAfter bracketedColonTokens 15 := by
  refine ⟨isNested_bracketedColonTokens, fun first last _ hless i j hi hj => ?_, by decide, by decide +kernel,
    by decide, by decide, ?_⟩
  · rw [direct_bracketedColonTokens hless hi, direct_bracketedColonTokens hless hj]
  · rintro ⟨decision, hdecision, hbreaks⟩
    have hgap : (decisions bracketedColonTokens)[15]?.all (fun decision => decision.gap.newlines == 0) = true := by
      decide +kernel
    rw [hdecision] at hgap
    have hzero : decision.gap.newlines = 0 := beq_iff_eq.1 hgap
    omega

end Layout

end GrammarFormat
