import GrammarFormat.Proofs.Formatting

/-!
# Formatting a range of lines

The parts of a text are sorted by their lines, so those that lie in a range follow one another
(`exists_run`). Formatting the range writes them as they stand in the whole formatted text, from the
first to the last (`formatSource_range`).
-/

namespace GrammarFormat

open Layout

variable {source : String} {s : TokenStream} {style : Style}

/-! ### Runs -/

theorem forall_mem_dropWhile {α : Type} {P : α → Bool} {l : List α}
    (h : l.Pairwise fun a b => P b = true → P a = true) : ∀ x ∈ l.dropWhile P, P x = false := by
  induction l with
  | nil => simp
  | cons a l ih =>
    obtain ⟨ha, hl⟩ := List.pairwise_cons.1 h
    by_cases hP : P a = true
    · rw [List.dropWhile_cons_of_pos hP]
      exact ih hl
    · rw [List.dropWhile_cons_of_neg hP]
      refine List.forall_mem_cons.2 ⟨by simpa using hP, fun x hx => ?_⟩
      by_contra hPx
      exact hP (ha x hx (by simpa using hPx))

theorem filter_run {α : Type} {P : α → Bool} {before run after : List α} (hrun : ∀ x ∈ run, P x = true)
    (hout : ∀ x ∈ before ++ after, P x = false) : (before ++ run ++ after).filter P = run := by
  have hbefore : before.filter P = [] :=
    List.filter_eq_nil_iff.2 fun x hx => by simp [hout x (List.mem_append_left _ hx)]
  have hafter : after.filter P = [] :=
    List.filter_eq_nil_iff.2 fun x hx => by simp [hout x (List.mem_append_right _ hx)]
  rw [List.filter_append, List.filter_append, hbefore, hafter, List.filter_eq_self.2 hrun, List.nil_append,
    List.append_nil]

/-- Pieces that are sorted by their lines: those in a range are a run of them. -/
theorem exists_run {ps : List Piece} (hlines : ∀ p ∈ ps, p.firstLine ≤ p.lastLine)
    (hsorted : ps.Pairwise fun p q => p.lastLine ≤ q.firstLine) (range : LineRange) :
    ∃ before run after, ps = before ++ run ++ after ∧ (∀ p ∈ run, p.isIn range = true) ∧
      ∀ p ∈ before ++ after, p.isIn range = false := by
  have hfirst : ps.Pairwise fun p q =>
      decide (q.firstLine < range.first) = true → decide (p.firstLine < range.first) = true := by
    refine hsorted.imp_of_mem fun {p q} hp _ hpq hq => ?_
    have := hlines p hp
    simp only [decide_eq_true_eq] at hq ⊢
    omega
  have hlast : ps.Pairwise fun p q =>
      range.last?.all (q.lastLine ≤ ·) = true → range.last?.all (p.lastLine ≤ ·) = true := by
    refine hsorted.imp_of_mem fun {p q} _ hq hpq hlast => ?_
    have := hlines q hq
    cases hrange : range.last? with
    | none => rfl
    | some last =>
      rw [hrange] at hlast
      simp only [Option.all_some, decide_eq_true_eq] at hlast ⊢
      omega
  -- what starts before the range comes first, then what ends in it
  refine ⟨ps.takeWhile fun p => p.firstLine < range.first,
    (ps.dropWhile fun p => p.firstLine < range.first).takeWhile fun p => range.last?.all (p.lastLine ≤ ·),
    (ps.dropWhile fun p => p.firstLine < range.first).dropWhile fun p => range.last?.all (p.lastLine ≤ ·),
    ?_, fun p hp => ?_, fun p hp => ?_⟩
  · rw [List.append_assoc, List.takeWhile_append_dropWhile, List.takeWhile_append_dropWhile]
  · have hge := forall_mem_dropWhile hfirst p ((List.takeWhile_sublist _).subset hp)
    have hle := List.mem_takeWhile_imp hp
    simp_all [Piece.isIn, LineRange.contains]
  · rcases List.mem_append.1 hp with hp | hp
    · have hlt := List.mem_takeWhile_imp hp
      simp_all [Piece.isIn, LineRange.contains]
    · have hgt := forall_mem_dropWhile (hlast.sublist (List.dropWhile_sublist _)) p hp
      simp_all [Piece.isIn, LineRange.contains]

/-! ### Lines of pieces -/

/-- The end mark stands behind all parts. -/
theorem Scans.le_line_end {pos : Position} {trivia : List Trivia} {trailing : List Char} {l : List Span}
    {tokens : List Token} (h : Scans trailing pos trivia l tokens) : ∀ t ∈ tokens.getLast?,
    pos.line ≤ t.first.line ∧ ∀ part ∈ partsOf pos l, part.lastLine ≤ t.first.line := by
  have hstep : ∀ {pos : Position} {blanks x : List Char} {lexeme : Lexeme} {l : List Span} {line : Nat},
      (((pos.advance blanks).advance x).line ≤ line ∧
        ∀ part ∈ partsOf ((pos.advance blanks).advance x) l, part.lastLine ≤ line) →
      pos.line ≤ line ∧ ∀ part ∈ partsOf pos (⟨blanks, some lexeme, x⟩ :: l), part.lastLine ≤ line := by
    rintro pos blanks x lexeme l line ⟨hline, hparts⟩
    have hblanks := pos.le_line_advance blanks
    have hx := (pos.advance blanks).le_line_advance x
    have hlast := (pos.advance blanks).line_last_le x
    refine ⟨by omega, ?_⟩
    simp only [partsOf]
    split_ifs
    · exact hparts
    · exact List.forall_mem_cons.2 ⟨hlast.trans hline, hparts⟩
  induction h with
  | @nil pos trivia =>
    intro t ht
    cases ht
    exact ⟨pos.le_line_advance trailing, by simp [partsOf]⟩
  | trivia _ ih => exact fun t ht => hstep (ih t ht)
  | @token _ _ _ _ _ _ tokens _ h ih =>
    intro t ht
    cases tokens with
    | nil => cases h.getLast?_kind
    | cons u tokens =>
      rw [List.getLast?_cons_cons] at ht
      exact hstep (ih t ht)

theorem exists_end (hs : tokenize source = .ok s) :
    ∃ t ∈ s.tokens.back?, ∀ part ∈ s.parts, part.lastLine ≤ t.first.line := by
  obtain ⟨l, trailing, hcut, hscans⟩ := tokenize_eq_ok_iff.1 hs
  obtain ⟨t, ht, -⟩ := Option.map_eq_some_iff.1 s.closed
  have hlast : t ∈ s.tokens.toList.getLast? := by rw [Array.getLast?_toList]; exact ht
  refine ⟨t, ht, ?_⟩
  rw [TokenStream.parts, hscans.parts_eq hcut.reads]
  exact (hscans.le_line_end t hlast).2

/-! ### Text around a run -/

/-- The text in front of `q` where it is written behind `before`. -/
def Piece.lead (style : Style) (before : List Piece) (q : Piece) : String :=
  if before = [] then "" else Piece.textOf style before ++ q.separator.text style

/-- The text of pieces behind others. -/
def Piece.trail (style : Style) : List Piece → String
  | [] => ""
  | q :: qs => q.separator.text style ++ Piece.textOf style (q :: qs)

theorem Piece.textOf_run (style : Style) (before after : List Piece) (q : Piece) (run : List Piece) :
    Piece.textOf style (before ++ q :: run ++ after) =
      Piece.lead style before q ++ Piece.textOf style (q :: run) ++ Piece.trail style after := by
  have hafter : Piece.textOf style (q :: run ++ after) =
      Piece.textOf style (q :: run) ++ Piece.trail style after := by
    cases after with
    | nil => simp [Piece.trail]
    | cons p after => rw [Piece.textOf_append (List.cons_ne_nil q run), Piece.trail]
  rw [List.append_assoc, Piece.lead]
  split_ifs with hbefore
  · rw [hbefore, List.nil_append, hafter, String.empty_append]
  · rw [List.cons_append, Piece.textOf_append hbefore, ← List.cons_append, hafter]
    simp only [String.append_assoc]

theorem Piece.Apart.level_eq_zero {p q : Piece} (h : p.Apart q) (hbreaks : q.separator.breaks = 0) :
    q.level = 0 := by
  unfold Piece.Apart at h
  split at h
  · exact h.1
  · exact h.1
  · rename_i n hn
    rw [hn] at hbreaks
    exact absurd hbreaks (Nat.pos_iff_ne_zero.1 h)

/-! ### Gating -/

theorem exists_run_pieces (hs : tokenize source = .ok s) (range : LineRange) :
    ∃ before run after, pieces s = before ++ run ++ after ∧ (∀ p ∈ run, p.isIn range = true) ∧
      ∀ p ∈ before ++ after, p.isIn range = false := by
  obtain ⟨hlines, hsorted⟩ := lines_parts hs
  rw [← part_pieces (lexed_of_tokenize hs)] at hlines hsorted
  exact exists_run (fun p hp => (hlines p.part (List.mem_map_of_mem hp)).2) (List.pairwise_map.1 hsorted)
    range

/-- The pieces in a range are apart from their neighbours there. -/
theorem isChain_filter_pieces (hs : tokenize source = .ok s) (range : LineRange) :
    ((pieces s).filter (·.isIn range)).IsChain Piece.Apart := by
  obtain ⟨before, run, after, hpieces, hrun, hout⟩ := exists_run_pieces hs range
  have hchain := isChain_pieces (lexed_of_tokenize hs)
  rw [hpieces] at hchain ⊢
  rw [filter_run hrun hout]
  exact (List.isChain_append.1 (List.isChain_append.1 hchain).1).2.1

theorem formatSource_upTo (hs : tokenize source = .ok s) (hne : s.isEmpty = false) (hstyle : style.EndsLines)
    {last : Nat} (hlast : ∀ t ∈ s.tokens.back?, t.first.line ≤ last) :
    formatSource source style (.clamped 1 (some last)) = formatSource source style .all := by
  obtain ⟨t, ht, hend⟩ := exists_end hs
  rw [formatSource_eq hs hne hstyle, formatSource_all hs hne hstyle, List.filter_eq_self.2 fun p hp => ?_]
  have hpart := part_mem_parts hs hp
  have hfirst := ((lines_parts hs).1 p.part hpart).1
  have hle : p.lastLine ≤ max last 1 := ((hend _ hpart).trans (hlast t ht)).trans (Nat.le_max_left ..)
  exact Bool.and_eq_true_iff.2 ⟨decide_eq_true hfirst, decide_eq_true hle⟩

/-- Formatting a range only withholds what lies outside of it. The pieces of the whole document are the
parts of the source, and those in the range are a run of them; the text for the range is that of the whole
document from the first piece of the run to the last, the first with its indent if it begins a line. A
range from the first line to the end mark or beyond is the whole document. -/
theorem formatSource_range (hs : tokenize source = .ok s) (hne : s.isEmpty = false) (hstyle : style.EndsLines)
    (range : LineRange) :
    (pieces s).map Piece.part = s.parts ∧
    formatSource source style .all = .ok (Piece.textOf style (pieces s)) ∧
    (∃ before run after, pieces s = before ++ run ++ after ∧
      (∀ p ∈ run, p.isIn range = true) ∧ (∀ p ∈ before ++ after, p.isIn range = false) ∧
      (run = [] → formatSource source style range = .ok "") ∧
      ∀ q ∈ run.head?, formatSource source style range = .ok (Piece.textOf style run) ∧
        Piece.textOf style (pieces s) =
          Piece.lead style before q ++ Piece.textOf style run ++ Piece.trail style after ∧
        (before ≠ [] → q.separator.breaks = 0 → q.level = 0)) ∧
    ∀ last, (∀ t ∈ s.tokens.back?, t.first.line ≤ last) →
      formatSource source style (.clamped 1 (some last)) = formatSource source style .all := by
  refine ⟨part_pieces (lexed_of_tokenize hs), formatSource_all hs hne hstyle, ?_, fun last =>
    formatSource_upTo hs hne hstyle⟩
  obtain ⟨before, run, after, hpieces, hrun, hout⟩ := exists_run_pieces hs range
  have hrange : formatSource source style range = .ok (Piece.textOf style run) := by
    rw [formatSource_eq hs hne hstyle, hpieces, filter_run hrun hout]
  refine ⟨before, run, after, hpieces, hrun, hout, fun hnil => ?_, fun q hq => ⟨hrange, ?_⟩⟩
  · rw [hrange, hnil, Piece.textOf_nil]
  · obtain ⟨run, rfl⟩ := List.head?_eq_some_iff.1 hq
    have hchain := isChain_pieces (lexed_of_tokenize hs)
    rw [hpieces] at hchain ⊢
    refine ⟨Piece.textOf_run style before after q run, fun hbefore hbreaks => ?_⟩
    rw [List.append_assoc] at hchain
    obtain ⟨-, -, hapart⟩ := List.isChain_append.1 hchain
    exact (hapart _ (List.getLast?_eq_some_getLast hbefore) q rfl).level_eq_zero hbreaks

theorem formatSource_range_of_comment : ∃ s lead trail,
    tokenize "a \x7b\nb /* c\n */ ; \x7d" = .ok s ∧ s.isEmpty = false ∧
    formatSource "a \x7b\nb /* c\n */ ; \x7d" ⟨"\r\n", ".."⟩ ⟨2, some 2⟩ = .ok "..b" ∧
    formatSource "a \x7b\nb /* c\n */ ; \x7d" ⟨"\r\n", ".."⟩ .all = .ok (lead ++ "..b" ++ trail) := by
  obtain ⟨s, hs, hne⟩ := exists_tokenize_of_any "a \x7b\nb /* c\n */ ; \x7d"
    (show Option.any (fun s => s.isEmpty == false) _ = true by decide +kernel)
  replace hne := beq_iff_eq.1 hne
  obtain ⟨-, hall, ⟨before, run, after, -, -, -, hnil, hrun⟩, -⟩ :=
    formatSource_range hs hne (show Style.EndsLines ⟨"\r\n", ".."⟩ by decide) ⟨2, some 2⟩
  have htext : (formatSource "a \x7b\nb /* c\n */ ; \x7d" ⟨"\r\n", ".."⟩ ⟨2, some 2⟩).toOption =
      some "..b" := by
    decide +kernel
  cases run with
  | nil =>
    rw [hnil rfl] at htext
    exact absurd htext (by decide)
  | cons q run =>
    obtain ⟨hrange, hwhole, -⟩ := hrun q rfl
    rw [hrange] at htext
    replace htext := Option.some.inj htext
    exact ⟨s, _, _, hs, hne, by rw [hrange, htext], by rw [hall, hwhole, htext]⟩

end GrammarFormat
