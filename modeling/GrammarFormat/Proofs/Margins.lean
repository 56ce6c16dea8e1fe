import GrammarFormat.Proofs.HeaderIndent
import GrammarFormat.Proofs.Relexing

/-!
# Margins as texts

Two texts that are taken along through the pass and only ever grow and shrink at their ends say the same as the levels
of the pen (`run_margins`): each is copies of the unit, also of one with characters of several bytes, so no cut is
longer than the text or goes through a character. A gap changes the indent by one level at most, for it depends on the
token in front whether it is raised and on the one behind whether it is lowered, once each. So the line of a token is
never behind the indent that is asked for (`margins_of_decisions`).
-/

namespace GrammarFormat

/-! ### Cutting copies off a text -/

/-- The first `size` bytes of a text, if they are whole characters; a text that is not longer stays as it is. -/
def Text.truncate? (text : String) (size : Nat) : Option String :=
  if text.utf8ByteSize ≤ size then some text else slice? text 0 size

namespace Text

theorem truncate?_append (x y : String) : truncate? (x ++ y) x.utf8ByteSize = some x := by
  unfold truncate?
  split_ifs with hle
  · rw [String.utf8ByteSize_append] at hle
    obtain rfl : y = "" := String.utf8ByteSize_eq_zero_iff.1 (by omega)
    rw [String.append_empty]
  · have happend : (x ++ y).toList = [] ++ (x.toList ++ y.toList) := String.toList_append
    have hslice := slice?_eq happend
    rw [List.nil_append, byteSize_eq, byteSize_eq, String.ofList_toList] at hslice
    exact hslice

theorem copies_succ (count : Nat) (text : String) : copies (count + 1) text = copies count text ++ text := by
  rw [← String.toList_inj, String.toList_append, toList_copies, toList_copies, List.replicate_succ',
    List.flatten_append, List.flatten_singleton]

theorem copies_empty (count : Nat) : copies count "" = "" := by
  induction count with
  | zero => rfl
  | succ count ih => rw [copies_succ, ih, String.append_empty]

theorem copies_add (n m : Nat) (text : String) : copies n text ++ copies m text = copies (n + m) text := by
  induction m with
  | zero => exact String.append_empty
  | succ m ih => rw [copies_succ, ← String.append_assoc, ih, ← Nat.add_assoc, copies_succ]

theorem size_copies (count : Nat) (text : String) :
    (copies count text).utf8ByteSize = count * text.utf8ByteSize := by
  induction count with
  | zero => rw [Nat.zero_mul]; rfl
  | succ count ih => rw [copies_succ, String.utf8ByteSize_append, ih, Nat.succ_mul]

theorem truncate?_copies (count : Nat) (text : String) :
    truncate? (copies count text) ((copies count text).utf8ByteSize - text.utf8ByteSize) =
      some (copies (count - 1) text) := by
  cases count with
  | zero => exact if_pos (Nat.zero_le _)
  | succ count =>
    rw [copies_succ, String.utf8ByteSize_append, Nat.add_sub_cancel, truncate?_append, Nat.add_sub_cancel]

end Text

namespace Layout

open TokenStream

/-! ### Margins -/

/-- The indent in front of the current line and the one that the gaps ask for. -/
structure Margins where
  line : String := ""
  target : String := ""
  deriving DecidableEq, Repr

namespace Margins

/-- The line moves one unit towards the target; there is none if it would have to lose more than it has, or a part of
a character. -/
def converge (unit : String) (m : Margins) : Option Margins :=
  if unit.utf8ByteSize = 0 then some m
  else if m.line.utf8ByteSize < m.target.utf8ByteSize then some { m with line := m.line ++ unit }
  else if m.target.utf8ByteSize < m.line.utf8ByteSize then
    if unit.utf8ByteSize ≤ m.line.utf8ByteSize then
      (Text.truncate? m.line (m.line.utf8ByteSize - unit.utf8ByteSize)).map ({ m with line := · })
    else none
  else some m

/-- Cuts a unit off `count` times; nothing is left of a text that is shorter. -/
def lower (unit : String) : Nat → String → Option String
  | 0, text => some text
  | count + 1, text => do
    let rest ← Text.truncate? text (text.utf8ByteSize - unit.utf8ByteSize)
    lower unit count rest

/-- The target takes over what a gap asks for. -/
def apply (unit : String) (gap : Gap) (m : Margins) : Option Margins :=
  (lower unit (-gap.indent).toNat (m.target ++ Text.copies gap.indent.toNat unit)).map ({ m with target := · })

/-- The margins of a pass: for each token those with which it is written, and those behind its gap. -/
def run (unit : String) (m : Margins) : List Gap → Option (List (Margins × Margins))
  | [] => some []
  | gap :: gaps => do
    let converged ← m.converge unit
    let applied ← converged.apply unit gap
    let rest ← applied.run unit gaps
    return (converged, applied) :: rest

-- a text that is not made of the unit may be cut in a character
example : converge "é" ⟨"→", ""⟩ = none := by decide +kernel

/-- Both are copies of the unit. -/
def IsWhole (unit : String) (m : Margins) : Prop :=
  ∃ n k, m = ⟨Text.copies n unit, Text.copies k unit⟩

theorem lower_copies (unit : String) (count n : Nat) :
    lower unit count (Text.copies n unit) = some (Text.copies (n - count) unit) := by
  induction count generalizing n with
  | zero => rfl
  | succ count ih =>
    rw [lower, Text.truncate?_copies, Option.bind_eq_bind, Option.bind_some, ih, Nat.sub_sub, Nat.add_comm 1]

end Margins

variable {s : TokenStream} {pen : Pen} {unit : String} {tokens : List Token} {gaps : List Gap} {i : Nat} {c : Scope}

namespace Pen

/-- The levels of the pen as texts. -/
def margins (unit : String) (pen : Pen) : Margins :=
  ⟨Text.copies pen.lineLevel unit, Text.copies pen.level unit⟩

theorem margins_congr {pen' : Pen} (h : pen.levels = pen'.levels) : pen.margins unit = pen'.margins unit := by
  obtain ⟨hline, hlevel⟩ := Prod.mk.inj h
  rw [margins, margins, hline, hlevel]

theorem converge_margins (unit : String) (pen : Pen) :
    (pen.margins unit).converge unit = some (pen.converge.margins unit) := by
  unfold Margins.converge
  split_ifs with hunit hlt hgt hle
  · rw [String.utf8ByteSize_eq_zero_iff.1 hunit]
    simp only [margins, Text.copies_empty]
  all_goals
    simp only [margins, Text.size_copies] at *
  · have hlt := Nat.lt_of_mul_lt_mul_right hlt
    rw [converge, if_pos hlt, Text.copies_succ]
  · have hgt := Nat.lt_of_mul_lt_mul_right hgt
    rw [← Text.size_copies, Text.truncate?_copies, converge, if_neg (Nat.lt_asymm hgt), if_pos hgt]
    rfl
  · have hgt := Nat.lt_of_mul_lt_mul_right hgt
    exact absurd (Nat.le_mul_of_pos_left _ (Nat.zero_lt_of_lt hgt)) hle
  · have hpos := Nat.pos_of_ne_zero hunit
    rw [converge, if_neg fun h => hlt (Nat.mul_lt_mul_of_pos_right h hpos),
      if_neg fun h => hgt (Nat.mul_lt_mul_of_pos_right h hpos)]

theorem apply_margins (unit : String) (pen : Pen) (gap : Gap) :
    (pen.margins unit).apply unit gap = some ((pen.apply gap).margins unit) := by
  have hlevel : pen.level + gap.indent.toNat - (-gap.indent).toNat = (pen.apply gap).level := by
    change _ = (pen.level + gap.indent).toNat
    omega
  rw [Margins.apply, margins, Text.copies_add, Margins.lower_copies, hlevel]
  rfl

end Pen

/-- The texts follow the pen from token to token. -/
theorem run_margins (unit : String) (pen : Pen) (h : gaps.length ≤ tokens.length) :
    (pen.margins unit).run unit gaps = some (List.zipWith
      (fun writer gap => (writer.margins unit, (writer.apply gap).margins unit)) (writers pen tokens gaps) gaps) := by
  induction gaps generalizing pen tokens with
  | nil => rw [Margins.run, List.zipWith_nil_right]
  | cons gap gaps ih =>
    obtain ⟨t, tokens, rfl⟩ := List.exists_cons_of_length_pos (Nat.zero_lt_of_lt h)
    let writer := (pen.trivia false t.trivia).2.converge.separate
    have hconverge : (pen.margins unit).converge unit = some (writer.margins unit) := by
      rw [← Pen.margins_congr (pen.levels_trivia false t.trivia), Pen.converge_margins,
        Pen.margins_congr (Pen.levels_separate _)]
    have hrest := ih ((writer.write t.image t.first.line t.last.line).2.apply gap) (Nat.le_of_succ_le_succ h)
    simp only [Margins.run, hconverge, Option.bind_eq_bind, Option.bind_some, Pen.apply_margins]
    change ((writer.apply gap).margins unit).run unit gaps = _ at hrest
    rw [hrest]
    rfl

theorem length_writers (h : gaps.length ≤ tokens.length) : (writers pen tokens gaps).length = gaps.length := by
  induction gaps generalizing pen tokens with
  | nil => cases tokens <;> rfl
  | cons gap gaps ih =>
    obtain ⟨t, tokens, rfl⟩ := List.exists_cons_of_length_pos (Nat.zero_lt_of_lt h)
    rw [writers, List.length_cons, ih (Nat.le_of_succ_le_succ h), List.length_cons]

/-- While the gaps change the level by one at most, each token is written at the level that is asked for. -/
theorem lineLevel_writers (hpen : pen.IsNear) (hgaps : ∀ gap ∈ gaps, gap.indent.natAbs ≤ 1) :
    ∀ writer ∈ writers pen tokens gaps, writer.lineLevel = writer.level := by
  induction tokens generalizing pen gaps with
  | nil => exact List.forall_mem_nil _
  | cons t tokens ih =>
    cases gaps with
    | nil => exact List.forall_mem_nil _
    | cons gap gaps =>
      obtain ⟨hgap, hgaps⟩ := List.forall_mem_cons.1 hgaps
      have hwriter := hpen.levels_writer t.trivia
      obtain ⟨hline, hlevel⟩ := Prod.mk.inj hwriter
      rw [← Pen.levels_write _ t.image t.first.line t.last.line] at hwriter
      refine List.forall_mem_cons.2 ⟨?_, ih (Pen.isNear_apply hwriter hgap).1 hgaps⟩
      rw [hline, hlevel]

/-! ### One level for each gap -/

theorem kind_groupEnd? {a b : Nat} (h : groupEnd? s a = some b) : s.kind b ≠ .closeBrace ∧ s.kind b ≠ .bar := by
  have hclosing : (s.kind b).isClosing = true ∨ s.kind b = .greater := by
    rw [groupEnd?] at h
    split at h
    case isFalse => cases h
    rcases (Option.orElse_eq_some ..).1 h with hdeclaration | ⟨-, hunit⟩
    · rw [declarationEnd?] at hdeclaration
      split at hdeclaration
      · exact .inr (beq_iff_eq.1 (closes_of_partnerFrom (Option.filter_eq_some_iff.1 hdeclaration).1))
      · cases hdeclaration
    · rw [unitEnd?] at hunit
      split at hunit
      · exact .inl (closes_of_partnerFrom (Option.filter_eq_some_iff.1 hunit).1)
      · cases hunit
  rcases hclosing with hclosing | hgreater
  · constructor
    all_goals
      intro hkind
      rw [hkind] at hclosing
      cases hclosing
  · rw [hgreater]
    decide

theorem kind_of_groupEnd? (h : (declarationEnd? s i c <|> unitEnd? s i).isSome = true) :
    s.kind i ≠ .openBrace ∧ s.kind i ≠ .bar := by
  constructor
  all_goals
    intro hkind
    simp [declarationEnd?, unitEnd?, hkind, TokenKind.isOpening] at h

/-- The ends that are waited for are no closing braces and no bars. -/
theorem kind_of_closesNext (h : closesNext s i (scopeAt s (i + 1)) (memoryAt s i) = true) :
    s.kind (i + 1) ≠ .closeBrace ∧ s.kind (i + 1) ≠ .bar := by
  have hmem := List.mem_of_mem_head? (beq_iff_eq.1 h)
  rcases mem_closersAfter hmem with hopened | hwaiting
  · exact kind_groupEnd? hopened
  · obtain ⟨a, -, hgroup⟩ := exists_groupEnd?_of_mem hwaiting
    exact kind_groupEnd? hgroup

theorem natAbs_indent_gapAt_le (s : TokenStream) (i : Nat) : (gapAt s i).indent.natAbs ≤ 1 := by
  have hcloses := kind_of_closesNext (s := s) (i := i)
  have hgroup := kind_of_groupEnd? (s := s) (i := i) (c := scopeAt s (i + 1))
  rw [gapAt, indent_gapAfter, demandAfter]
  split_ifs
  · rw [indent_frameDemand]
    decide
  · simp only [Demand.indent_append, Demand.indent_when, indent_frameDemand, indent_quantifierDemand,
      indent_generalDemand, indent_grammarDemand]
    generalize (declarationEnd? s i (scopeAt s (i + 1)) <|> unitEnd? s i).isSome = group at hgroup ⊢
    generalize closesNext s i (scopeAt s (i + 1)) (memoryAt s i) = closing at hcloses ⊢
    -- the first token raises the indent once at most, the second one lowers it once at most
    have hup : (if s.kind i = .openBrace then 1 else 0 : Int) + (if group then 1 else 0) +
        (if s.kind i = .bar then 1 else 0) ≤ 1 := by
      split_ifs <;> first | omega | simp_all
    have hdown : (if s.kind (i + 1) = .closeBrace then 1 else 0 : Int) + (if s.kind (i + 1) = .bar then 1 else 0) +
        (if closing then 1 else 0) ≤ 1 := by
      split_ifs <;> first | omega | simp_all
    split_ifs at hup hdown ⊢ <;> omega

theorem indent_decisions_le (s : TokenStream) : ∀ gap ∈ (decisions s).map Decision.gap, gap.indent.natAbs ≤ 1 := by
  intro gap hgap
  obtain ⟨decision, hdecision, rfl⟩ := List.mem_map.1 hgap
  obtain ⟨k, rfl⟩ := exists_of_mem_decisionsFrom (i := 0) hdecision
  exact natAbs_indent_gapAt_le s k

/-- Along every pass gaps ask for one level and two line breaks at most, the margins stay copies of the unit, and the
line on which a token is written has the margin that is asked for. -/
theorem margins_of_decisions (s : TokenStream) (style : Style) :
    (∀ decision ∈ decisions s, decision.gap.indent ∈ [-1, 0, 1] ∧ decision.gap.newlines ∈ [0, 1, 2]) ∧
    ∃ steps, Margins.run style.unit {} ((decisions s).map Decision.gap) = some steps ∧
      steps.length = (decisions s).length ∧
      (∀ step ∈ steps, step.1.IsWhole style.unit ∧ step.2.IsWhole style.unit ∧ step.1.line = step.1.target) ∧
      ∀ i step, steps[i]? = some step → ∃ t writer comments, s.get? i = some t ∧
        (writers {} s.tokens.toList ((decisions s).map Decision.gap))[i]? = some writer ∧
        writer.margins style.unit = step.1 ∧
        (groups s)[i]? = some (comments ++ [(writer.write t.image t.first.line t.last.line).1]) ∧
        (writer.write t.image t.first.line t.last.line).1.text style =
          (if writer.lineStart then step.1.line else "") ++ t.image := by
  have hindent := indent_decisions_le s
  have hnewlines := newlines_decisions_le s
  have hlength : ((decisions s).map Decision.gap).length ≤ s.tokens.toList.length := by
    rw [List.length_map]
    exact Nat.le_of_lt (length_decisions_lt s)
  have hsteps := run_margins style.unit {} hlength
  generalize hwriters : writers {} s.tokens.toList ((decisions s).map Decision.gap) = pens at hsteps
  have hpens : pens.length = ((decisions s).map Decision.gap).length := by rw [← hwriters, length_writers hlength]
  have hlevels : ∀ writer ∈ pens, writer.lineLevel = writer.level := by
    rw [← hwriters]
    exact lineLevel_writers ⟨by decide, by decide⟩ hindent
  refine ⟨fun decision hdecision => ?_, _, hsteps, ?_, fun step hstep => ?_, fun i step hstep => ?_⟩
  · have hgap := List.mem_map_of_mem (f := Decision.gap) hdecision
    have hup := hindent _ hgap
    have hbreaks := hnewlines _ hgap
    simp only [List.mem_cons, List.not_mem_nil, or_false]
    omega
  · rw [List.length_zipWith, hpens, Nat.min_self, List.length_map]
  · obtain ⟨i, hi⟩ := List.mem_iff_getElem?.1 hstep
    obtain ⟨writer, gap, hwriter, -, rfl⟩ := List.getElem?_zipWith_eq_some.1 hi
    refine ⟨⟨_, _, rfl⟩, ⟨_, _, rfl⟩, ?_⟩
    rw [Pen.margins, hlevels writer (List.mem_of_getElem? hwriter)]
  · obtain ⟨writer, gap, hwriter, -, rfl⟩ := List.getElem?_zipWith_eq_some.1 hstep
    have hi := (List.getElem?_eq_some_iff.1 hwriter).1
    obtain ⟨t, ht⟩ : ∃ t, s.tokens.toList[i]? = some t := ⟨_, List.getElem?_eq_getElem (by omega)⟩
    obtain ⟨comments, hgroup⟩ := getElem?_pieceGroups (hwriters ▸ hwriter) ht
    rw [Array.getElem?_toList] at ht
    refine ⟨t, writer, comments, ht, hwriter, rfl, hgroup, ?_⟩
    rw [Pen.text_write]
    rfl

end Layout

end GrammarFormat
