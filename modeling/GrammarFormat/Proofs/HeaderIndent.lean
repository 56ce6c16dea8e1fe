import GrammarFormat.Layout.Render
import GrammarFormat.Proofs.AtRest
import GrammarFormat.Proofs.IndentChanges

/-!
# The indent of the header

In front of `PARSER_END` the line of a token is indented by the braces that are open before it, one less for a closing
brace, whether the braces match or not (`lineLevel_header`). The gaps move the level that is asked for by one at a
time, so the pen, which follows by one level for each token, is never behind when it writes a token.
-/

namespace GrammarFormat.Layout

open TokenStream

/-! ### The levels of the pen -/

namespace Pen

/-- The level of the current line, and the one that the gaps ask for. -/
def levels (pen : Pen) : Nat × Nat :=
  (pen.lineLevel, pen.level)

variable (pen : Pen)

@[simp] theorem levels_newlines (count : Nat) : (pen.newlines count).levels = pen.levels := rfl

@[simp] theorem levels_flush : pen.flush.levels = pen.levels := rfl

@[simp] theorem levels_write (image : String) (firstLine lastLine : Nat) :
    (pen.write image firstLine lastLine).2.levels = pen.levels := rfl

@[simp] theorem levels_space : pen.space.levels = pen.levels := by
  unfold space
  split <;> rfl

@[simp] theorem levels_breakLine : pen.breakLine.levels = pen.levels := by
  unfold breakLine
  split_ifs
  · exact pen.levels_flush
  · rfl
  · exact pen.levels_newlines 1

@[simp] theorem levels_separate : pen.separate.levels = pen.levels := by
  unfold separate
  split_ifs
  · exact pen.levels_flush
  · exact pen.levels_space
  · rfl

@[simp] theorem levels_comment (t : Trivia) : (pen.comment t).2.levels = pen.levels := by
  have hpen : (if pen.lineStart then pen else pen.space).levels = pen.levels := by
    split_ifs
    · rfl
    · exact pen.levels_space
  rw [← hpen]
  unfold comment
  dsimp only
  split_ifs <;> rfl

@[simp] theorem levels_trivia (inRun : Bool) (trivia : List Trivia) :
    (pen.trivia inRun trivia).2.levels = pen.levels := by
  induction trivia generalizing pen inRun with
  | nil => rfl
  | cons t trivia ih =>
    rw [Pen.trivia]
    split_ifs
    · exact ih pen true
    · rw [ih, levels_breakLine]
    · rw [ih, levels_comment]

/-- The level of the line is at most one step away from the one that is asked for. -/
def IsNear : Prop :=
  pen.lineLevel ≤ pen.level + 1 ∧ pen.level ≤ pen.lineLevel + 1

variable {pen}

theorem IsNear.levels_converge (h : pen.IsNear) : pen.converge.levels = (pen.level, pen.level) := by
  obtain ⟨hline, hlevel⟩ := h
  unfold converge levels
  split_ifs with hlt hgt
  · exact Prod.ext (by dsimp only; omega) rfl
  · exact Prod.ext (by dsimp only; omega) rfl
  · exact Prod.ext (by dsimp only; omega) rfl

/-- A token in whose front the pen is near its level is written at this level. -/
theorem IsNear.levels_writer (h : pen.IsNear) (trivia : List Trivia) :
    (pen.trivia false trivia).2.converge.separate.levels = (pen.level, pen.level) := by
  obtain ⟨hline, hlevel⟩ := Prod.mk.inj (pen.levels_trivia false trivia)
  have hnear : (pen.trivia false trivia).2.IsNear := by
    rw [IsNear, hline, hlevel]
    exact h
  rw [levels_separate, hnear.levels_converge, hlevel]

theorem isNear_apply {gap : Gap} {level : Nat} (h : pen.levels = (level, level)) (hgap : gap.indent.natAbs ≤ 1) :
    (pen.apply gap).IsNear ∧ (pen.apply gap).level = (level + gap.indent).toNat := by
  obtain ⟨hline, hlevel⟩ := Prod.mk.inj h
  refine ⟨⟨?_, ?_⟩, ?_⟩
  · change pen.lineLevel ≤ (pen.level + gap.indent).toNat + 1
    omega
  · change (pen.level + gap.indent).toNat ≤ pen.lineLevel + 1
    omega
  · rw [← hlevel]
    rfl

end Pen

/-- The pens with which tokens are written, comments and separators being written before. -/
def writers (pen : Pen) : List Token → List Gap → List Pen
  | t :: tokens, gap :: gaps =>
    let writer := (pen.trivia false t.trivia).2.converge.separate
    writer :: writers ((writer.write t.image t.first.line t.last.line).2.apply gap) tokens gaps
  | _, _ => []

section

variable {pen : Pen} {tokens : List Token} {gaps : List Gap} {i : Nat}

/-- The piece of a token is written by its pen, behind its comments. -/
theorem getElem?_pieceGroups {writer : Pen} {t : Token} (hwriter : (writers pen tokens gaps)[i]? = some writer)
    (ht : tokens[i]? = some t) : ∃ comments, (pieceGroups pen tokens gaps)[i]? =
      some (comments ++ [(writer.write t.image t.first.line t.last.line).1]) := by
  induction tokens generalizing pen gaps i with
  | nil => cases ht
  | cons u tokens ih =>
    cases gaps with
    | nil => cases hwriter
    | cons gap gaps =>
      cases i with
      | zero =>
        cases hwriter
        cases ht
        exact ⟨_, rfl⟩
      | succ i => exact ih hwriter ht

/-- A pen that starts near its level stays so, while the gaps change the level by one. -/
theorem exists_writer (level : Nat → Nat) (hpen : pen.IsNear) (hlevel : pen.level = level 0)
    (hgaps : ∀ k < i, ∃ gap, gaps[k]? = some gap ∧ gap.indent.natAbs ≤ 1 ∧
      level (k + 1) = (level k + gap.indent).toNat)
    (htokens : i < tokens.length) (hi : i < gaps.length) :
    ∃ writer, (writers pen tokens gaps)[i]? = some writer ∧ writer.lineLevel = level i := by
  induction i generalizing pen tokens gaps level with
  | zero =>
    obtain ⟨t, tokens, rfl⟩ := List.exists_cons_of_length_pos htokens
    obtain ⟨gap, gaps, rfl⟩ := List.exists_cons_of_length_pos hi
    refine ⟨_, rfl, ?_⟩
    rw [← hlevel]
    exact congrArg Prod.fst (hpen.levels_writer t.trivia)
  | succ i ih =>
    obtain ⟨t, tokens, rfl⟩ := List.exists_cons_of_length_pos (Nat.zero_lt_of_lt htokens)
    obtain ⟨gap, gaps, rfl⟩ := List.exists_cons_of_length_pos (Nat.zero_lt_of_lt hi)
    obtain ⟨_, hgap, hindent, hnext⟩ := hgaps 0 (Nat.succ_pos i)
    cases hgap
    have hwriter := hpen.levels_writer t.trivia
    rw [hlevel] at hwriter
    rw [← Pen.levels_write _ t.image t.first.line t.last.line] at hwriter
    obtain ⟨hpen', hlevel'⟩ := Pen.isNear_apply hwriter hindent
    exact ih (fun k => level (k + 1)) hpen' (hlevel'.trans hnext.symm)
      (fun k hk => hgaps (k + 1) (Nat.succ_lt_succ hk)) (Nat.lt_of_succ_lt_succ htokens) (Nat.lt_of_succ_lt_succ hi)

end

/-! ### Braces in the header -/

variable {s : TokenStream} {i : Nat}

theorem body_eq_false (h : ∀ k < i, s.kind k ≠ .keyword .parserEnd) : (scopeAt s i).body = false := by
  induction i with
  | zero => rfl
  | succ i ih =>
    change ((scopeAt s i).body || s.kind i == .keyword .parserEnd) = false
    rw [ih fun k hk => h k (Nat.lt_succ_of_lt hk), beq_false_of_ne (h i (Nat.lt_succ_self i))]
    rfl

theorem body_eq_false_of_le {j : Nat} (h : i ≤ j) (hbody : (scopeAt s j).body = false) :
    (scopeAt s i).body = false := by
  rw [Bool.eq_false_iff] at hbody ⊢
  exact fun htrue => hbody (body_of_le h htrue)

/-- No group over several lines opens in the header. -/
theorem groupEnd?_eq_none (hbody : (scopeAt s (i + 1)).body = false) : groupEnd? s i = none := by
  rw [groupEnd?, if_neg]
  intro hin
  rw [((inGrammar_iff _).1 hin).1] at hbody
  cases hbody

theorem closers_of_header (hbody : (scopeAt s i).body = false) : (memoryAt s i).closers = [] := by
  rw [List.eq_nil_iff_forall_not_mem]
  intro b hb
  obtain ⟨a, ha, hgroup⟩ := exists_groupEnd?_of_mem hb
  rw [groupEnd?_eq_none (body_eq_false_of_le ha hbody)] at hgroup
  cases hgroup

/-- In the header only braces change the indent. -/
theorem indent_gapAt_of_header (hbody : (scopeAt s (i + 1)).body = false) : (gapAt s i).indent =
    if (scopeAt s (i + 1)).inLookahead then 0
    else (if s.kind i = .openBrace then 1 else 0) - (if s.kind (i + 1) = .closeBrace then 1 else 0) := by
  have hgrammar : (scopeAt s (i + 1)).inGrammar = false := by
    rw [Scope.inGrammar, hbody]
    rfl
  have hbody' := body_eq_false_of_le (Nat.le_succ i) hbody
  have hclosing : closesNext s i (scopeAt s (i + 1)) (memoryAt s i) = false := by
    rw [closesNext, closersAfter_eq, groupEnd?_eq_none hbody, closers_of_header hbody']
    rfl
  rw [gapAt, indent_gapAfter, demandAfter, hgrammar, hclosing]
  split_ifs with hlookahead
  · exact indent_frameDemand ..
  all_goals
    simp only [Demand.indent_append, Demand.indent_when, indent_frameDemand, indent_quantifierDemand,
      indent_generalDemand]
    simp [*]

/-- The braces that are open in front of the token at `i`; a closing one stands outside of its group. -/
def headerLevel (s : TokenStream) (i : Nat) : Nat :=
  (scopeAt s i).braces - if s.kind i = .closeBrace ∧ (scopeAt s i).inLookahead = false then 1 else 0

/-- The gap behind a token of the header leads from its level to that of the next one, also where the level cannot
fall any further. -/
theorem headerLevel_succ (hbody : (scopeAt s (i + 1)).body = false) : (gapAt s i).indent.natAbs ≤ 1 ∧
    headerLevel s (i + 1) = (headerLevel s i + (gapAt s i).indent).toNat := by
  rw [headerLevel, headerLevel, indent_gapAt_of_header hbody]
  refine ⟨by split_ifs <;> decide, ?_⟩
  rw [braces_succ_eq]
  cases (scopeAt s (i + 1)).inLookahead
  · simp only [and_true, Bool.false_eq_true, if_false]
    split_ifs <;> omega
  · simp only [Bool.true_eq_false, and_false, if_true, if_false]
    omega

theorem Pen.text_write (style : Style) (pen : Pen) (image : String) (firstLine lastLine : Nat) :
    (pen.write image firstLine lastLine).1.text style =
      (if pen.lineStart then Text.copies pen.lineLevel style.unit else "") ++ image := by
  rw [Pen.write, Piece.text]
  cases pen.lineStart <;> rfl

/-- In front of `PARSER_END` the indent of the line on which a token is written has one unit for each open brace. -/
theorem lineLevel_header (hheader : ∀ k < i, s.kind k ≠ .keyword .parserEnd)
    (hend : ∀ k ≤ i, s.kind k ≠ .endOfFile) (style : Style) : ∃ t writer comments, s.get? i = some t ∧
      (writers {} s.tokens.toList ((decisions s).map Decision.gap))[i]? = some writer ∧
      writer.lineLevel = headerLevel s i ∧
      (groups s)[i]? = some (comments ++ [(writer.write t.image t.first.line t.last.line).1]) ∧
      (writer.write t.image t.first.line t.last.line).1.text style =
        (if writer.lineStart then Text.copies (headerLevel s i) style.unit else "") ++ t.image := by
  have hsize : i < s.size := lt_size_of_kind (hend i (Nat.le_refl i))
  have hgaps : ∀ k ≤ i, ((decisions s).map Decision.gap)[k]? = some (gapAt s k) := by
    intro k hk
    rw [List.getElem?_map, getElem?_decisions (hk.trans_lt hsize) fun j hj => hend j (hj.trans hk)]
    rfl
  obtain ⟨writer, hwriter, hlevel⟩ : ∃ writer, (writers {} s.tokens.toList
      ((decisions s).map Decision.gap))[i]? = some writer ∧ writer.lineLevel = headerLevel s i := by
    refine exists_writer (headerLevel s) ⟨by decide, by decide⟩ (Nat.zero_sub _).symm (fun k hk => ?_) hsize ?_
    · have hbody : (scopeAt s (k + 1)).body = false := body_eq_false fun j hj => hheader j (by omega)
      obtain ⟨hindent, hnext⟩ := headerLevel_succ hbody
      exact ⟨gapAt s k, hgaps k hk.le, hindent, hnext⟩
    · exact (List.getElem?_eq_some_iff.1 (hgaps i (Nat.le_refl i))).1
  obtain ⟨t, ht⟩ : ∃ t, s.tokens[i]? = some t := ⟨_, Array.getElem?_eq_getElem hsize⟩
  obtain ⟨comments, hgroup⟩ := getElem?_pieceGroups hwriter (by rwa [Array.getElem?_toList])
  refine ⟨t, writer, comments, ht, hwriter, hlevel, hgroup, ?_⟩
  rw [Pen.text_write, hlevel]

/-- Braces that do not match, some of them in a lookahead constraint. -/
def looseBraces : TokenStream :=
  .ofLines [(.closeBrace, "\x7d", 1), (.openBrace, "\x7b", 1), (.openBrace, "\x7b", 1),
    (.keyword .lookahead, "LOOKAHEAD", 1), (.openParen, "(", 1), (.closeBrace, "\x7d", 1), (.closeParen, ")", 1),
    (.closeBrace, "\x7d", 2)]

theorem lineLevel_header_of_looseBraces : headerLevel looseBraces 7 = 1 ∧
    ∃ t writer comments, looseBraces.get? 7 = some t ∧
      (writers {} looseBraces.tokens.toList ((decisions looseBraces).map Decision.gap))[7]? = some writer ∧
      writer.lineLevel = headerLevel looseBraces 7 ∧
      (groups looseBraces)[7]? = some (comments ++ [(writer.write t.image t.first.line t.last.line).1]) ∧
      (writer.write t.image t.first.line t.last.line).1.text {} =
        (if writer.lineStart then Text.copies (headerLevel looseBraces 7) "\t" else "") ++ t.image :=
  ⟨by decide, lineLevel_header (by decide) (by decide) {}⟩

end GrammarFormat.Layout
