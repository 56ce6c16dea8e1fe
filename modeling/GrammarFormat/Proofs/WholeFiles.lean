import GrammarFormat.Proofs.Slices
import GrammarFormat.Settings.Load

/-!
# Formatting whole files

A whole file is formatted with a line end behind it, and with `auto` the line end is the first one of the
file. Formatting changes what comes first: line breaks in front of the first piece are dropped, and then a
comment may hold the first line end. So the text may be formatted to another one, with the line ends of
that comment (`wholeText_again`); but the text after that stays, since the comment does.
-/

namespace GrammarFormat

open Lexeme Layout

/-! ### The first line terminator -/

namespace LineEnding

variable {x : List Char}

theorem firstTerminator_append_of_forall (hx : ∀ c ∈ x, isTerminator c = false) (y : List Char) :
    firstTerminator (x ++ y) = firstTerminator y := by
  induction x with
  | nil => rfl
  | cons c x ih =>
    obtain ⟨hc, hx⟩ := List.forall_mem_cons.1 hx
    have hne : c ≠ '\r' ∧ c ≠ '\n' := by simpa [isTerminator] using hc
    rw [List.cons_append, firstTerminator, ih hx]
    · intro rest hr
      exact absurd hr hne.1
    · exact hne.1
    · exact hne.2

theorem firstTerminator_append_of_mem {c : Char} (hc : c ∈ x) (hterminator : isTerminator c = true)
    (hlast : x.getLast? ≠ some '\r') (y : List Char) : firstTerminator (x ++ y) = firstTerminator x := by
  fun_induction firstTerminator x with
  | case1 => cases hc
  | case2 => rfl
  | case3 rest hne =>
    cases rest with
    | nil => exact absurd rfl hlast
    | cons d rest =>
      rw [List.cons_append, List.cons_append, firstTerminator]
      intro z hz
      cases hz
      exact hne rest rfl
  | case4 => rfl
  | case5 d rest _ hr hn ih =>
    have hmem : c ∈ rest := by
      refine (List.mem_cons.1 hc).resolve_left ?_
      rintro rfl
      simp only [isTerminator, Bool.or_eq_true, beq_iff_eq] at hterminator
      exact hterminator.elim hr hn
    have hne : rest ≠ [] := List.ne_nil_of_mem hmem
    rw [List.cons_append, firstTerminator, ih hmem]
    · rwa [← List.singleton_append, List.getLast?_append_of_ne_nil _ hne] at hlast
    · intro z h _
      exact hr h
    · exact hr
    · exact hn

theorem firstTerminator_terminator {t : String} (ht : t ∈ ["\n", "\r\n", "\r"]) {y : List Char}
    (hy : t = "\r" → y.head? ≠ some '\n') : firstTerminator (t.toList ++ y) = t := by
  simp only [List.mem_cons, List.not_mem_nil, or_false] at ht
  rcases ht with rfl | rfl | rfl
  · rfl
  · rfl
  · change firstTerminator ('\r' :: y) = "\r"
    rw [firstTerminator]
    rintro z rfl
    exact hy rfl rfl

theorem firstTerminator_mem (x : List Char) : firstTerminator x ∈ ["\n", "\r\n", "\r"] := by
  fun_induction firstTerminator x with
  | case1 | case2 | case3 | case4 => decide
  | case5 _ _ _ _ _ ih => exact ih

theorem resolve_mem (ending : LineEnding) (source : String) :
    ending.resolve source ∈ ["\n", "\r\n", "\r"] := by
  cases ending with
  | auto => exact firstTerminator_mem _
  | lf | crlf | cr => simp [resolve]

theorem resolve_eq_of_ne_auto {ending : LineEnding} (h : ending ≠ auto) (source source' : String) :
    ending.resolve source = ending.resolve source' := by
  cases ending with
  | auto => exact absurd rfl h
  | lf | crlf | cr => rfl

end LineEnding

open LineEnding

/-! ### The first line terminator of pieces -/

namespace Piece

variable {style : Style} {p : Piece} {ps : List Piece}

/-- The first line terminator inside of a piece, if the text has none in front of that piece. -/
def innerTerminator? : List Piece → Option String
  | [] => none
  | p :: ps =>
    if 0 < p.separator.breaks then none
    else if p.image.toList.any isTerminator then some (firstTerminator p.image.toList)
    else innerTerminator? ps

theorem firstTerminator_trail (hstyle : style.IsPlain) (hcode : ∀ p ∈ ps, p.IsCode) :
    firstTerminator ((trail style ps).toList ++ style.delimiter.toList) =
      (innerTerminator? ps).getD style.delimiter := by
  induction ps with
  | nil =>
    have := firstTerminator_terminator hstyle.endsLines (y := []) (by simp)
    rwa [List.append_nil] at this
  | cons p ps ih =>
    obtain ⟨hp, hcode⟩ := List.forall_mem_cons.1 hcode
    obtain ⟨b, htext, hblank⟩ := toList_trail_cons hstyle p ps
    have hblank' : ∀ c ∈ b, isTerminator c = false := fun c hc => not_terminator_of_blank (hblank c hc)
    rw [htext, innerTerminator?]
    cases hbreaks : p.separator.breaks with
    | succ n =>
      rw [List.replicate_succ, List.flatten_cons]
      simp only [List.append_assoc]
      rw [firstTerminator_terminator hstyle.endsLines, if_pos (Nat.succ_pos n)]
      · rfl
      · intro hdelimiter
        cases n with
        | zero =>
          intro hhead
          have := hp.head_blanks hblank ((trail style ps).toList ++ style.delimiter.toList) _ (by simpa using hhead)
          cases this
        | succ n => simp [List.replicate_succ, hdelimiter]
    | zero =>
      rw [if_neg (Nat.lt_irrefl 0), List.replicate_zero, List.flatten_nil, List.nil_append]
      simp only [List.append_assoc]
      rw [firstTerminator_append_of_forall hblank']
      split_ifs with hinner
      · obtain ⟨c, hc, hterminator⟩ := List.any_eq_true.1 hinner
        rw [firstTerminator_append_of_mem hc hterminator]
        · rfl
        · intro hlast
          have := hp.reads.getLast_not_terminator hp.ne_lineBreak _ hlast
          cases this
      · rw [firstTerminator_append_of_forall (by simpa using hinner), ih hcode]

end Piece

/-! ### A line end behind the text -/

variable {style : Style} {ls : List (Lexeme × List Char)}

theorem HasLexemes.append_delimiter (hstyle : style.EndsLines) {x : List Char} (h : HasLexemes x ls)
    (hlast : ∀ c ∈ x.getLast?, isTerminator c = false) :
    HasLexemes (x ++ style.delimiter.toList) (ls ++ [(.trivia .lineBreak, style.delimiter.toList)]) := by
  obtain ⟨c, d, hdelimiter, hc⟩ := hstyle.delimiter_eq
  obtain ⟨l, trailing, hcut, rfl⟩ := h
  induction hcut with
  | @nil b hb =>
    have hbreak := HasLexemes.nil.cons (reads_lineBreak hstyle.toList_mem (r := []) (by simp))
    rw [List.append_nil] at hbreak
    exact hbreak.blanks hb
  | @cons b y r _ lexeme l hb hy _ ih =>
    have hlast' : ∀ c ∈ r.getLast?, isTerminator c = false := by
      intro c hc
      have hr : r ≠ [] := by
        rintro rfl
        cases hc
      rw [← List.append_assoc, List.getLast?_append_of_ne_nil _ hr] at hlast
      exact hlast c hc
    have hreads : Reads lexeme y (r ++ style.delimiter.toList) := by
      rw [hdelimiter]
      refine hy.append_terminator hc ?_
      rintro ⟨rfl, rfl, -⟩
      cases hlast '\r' (by simp)
    rw [List.append_assoc, List.append_assoc]
    exact ((ih hlast').cons hreads).blanks hb

namespace Layout

/-- A line break behind the last comment is not seen. -/
theorem Pen.trivia_append_break (pen : Pen) (inRun : Bool) (trivia : List Trivia) {t : Trivia}
    (ht : t.kind.isLineBreak = true) :
    (pen.trivia inRun (trivia ++ [t])).1 = (pen.trivia inRun trivia).1 := by
  induction trivia generalizing pen inRun with
  | nil => rw [List.nil_append, Pen.trivia_cons_of_break _ _ ht, Pen.trivia, Pen.trivia]
  | cons u trivia ih =>
    by_cases hu : u.kind.isLineBreak = true
    · rw [List.cons_append, Pen.trivia_cons_of_break _ _ hu, Pen.trivia_cons_of_break _ _ hu, ih]
    · rw [List.cons_append, Pen.trivia_cons_of_comment _ _ hu, Pen.trivia_cons_of_comment _ _ hu, ih]

theorem outlinesOf_ne_nil (trivia : List (TriviaKind × String)) (ls : List (Lexeme × List Char)) :
    outlinesOf trivia ls ≠ [] := by
  fun_induction outlinesOf trivia ls with
  | case1 => exact List.cons_ne_nil _ _
  | case2 _ _ _ _ ih => exact ih
  | case3 => exact List.cons_ne_nil _ _

theorem pieceGroups_append_break (pen : Pen) (trivia : List (TriviaKind × String))
    (ls : List (Lexeme × List Char)) (x : List Char) {gaps : List Gap}
    (hlength : (outlinesOf trivia ls).length = gaps.length + 1) :
    pieceGroups pen ((outlinesOf trivia (ls ++ [(.trivia .lineBreak, x)])).map Outline.token) gaps =
      pieceGroups pen ((outlinesOf trivia ls).map Outline.token) gaps := by
  induction ls generalizing pen trivia gaps with
  | nil =>
    obtain rfl : gaps = [] := List.length_eq_zero_iff.1 (by simpa [outlinesOf] using hlength.symm)
    have hbreak : (pen.trivia false ((trivia ++ [(TriviaKind.lineBreak, String.ofList x)]).map unplacedTrivia)).1 =
        (pen.trivia false (trivia.map unplacedTrivia)).1 := by
      rw [List.map_append, List.map_singleton]
      exact pen.trivia_append_break false _ rfl
    simp only [List.nil_append, outlinesOf, List.map_cons, pieceGroups, Outline.token, hbreak]
  | cons u ls ih =>
    obtain ⟨lexeme, y⟩ := u
    cases hlexeme : lexeme.trivia? with
    | some kind =>
      obtain rfl : lexeme = .trivia kind := by cases lexeme <;> cases hlexeme; rfl
      exact ih pen _ hlength
    | none =>
      rw [outlinesOf_token hlexeme] at hlength
      cases gaps with
      | nil =>
        exact absurd (List.length_eq_zero_iff.1 (by simpa using hlength)) (outlinesOf_ne_nil [] ls)
      | cons gap gaps =>
        rw [List.cons_append, outlinesOf_token hlexeme, outlinesOf_token hlexeme, List.map_cons,
          List.map_cons, pieceGroups_cons, pieceGroups_cons, ih _ [] (by simpa using hlength)]

end Layout

variable {source : String} {s : TokenStream}

theorem getLast_textOf_pieces (hs : tokenize source = .ok s) (style : Style) :
    ∀ c ∈ (Piece.textOf style (pieces s)).toList.getLast?, isTerminator c = false := by
  rw [Piece.textOf_eq_trail style (separator_head_pieces s)]
  exact Piece.InPlace.getLast_trail style (isCode_pieces hs)

/-- With a line end behind it, the formatted text still has the tokens and the pieces of the source. -/
theorem exists_tokenize_line (hs : tokenize source = .ok s) (hstyle : style.IsPlain) :
    ∃ s', tokenize (Piece.textOf style (pieces s) ++ style.delimiter) = .ok s' ∧ s'.SameTokens s ∧
      (pieces s').map Piece.unplaced = (pieces s).map Piece.unplaced := by
  have hlexed := lexed_of_tokenize hs
  obtain ⟨st, hst, hcontents⟩ := exists_tokenize_textOf hs hstyle
  have hlexemes := hasLexemes_textOf hstyle (isCode_pieces hs) (isChain_pieces hlexed)
  have hline := hlexemes.append_delimiter hstyle.endsLines (getLast_textOf_pieces hs style)
  rw [← String.toList_append] at hline
  obtain ⟨s', hs'⟩ := hline.exists_tokenize
  generalize Piece.lexemesOf style (pieces s) = ls at hlexemes hline
  have hcontents' : s'.contents = st.contents := by
    have hbreak : (trivia .lineBreak).isBreak = true := rfl
    rw [TokenStream.contents, TokenStream.contents, hline.outlines_eq hs', hlexemes.outlines_eq hst,
      withoutBreaks_outlinesOf, withoutBreaks_outlinesOf, List.filter_append]
    simp [hbreak]
  have hsame := sameTokens_of_contents (hcontents'.trans hcontents)
  have hlength : st.outlines.length = ((decisions s).map Decision.gap).length + 1 := by
    rw [← (fits_decisions hlexed).length_eq, TokenStream.outlines, List.length_map]
    exact (sameTokens_of_contents hcontents).size
  refine ⟨s', hs', hsame, ?_⟩
  rw [← unplaced_pieces_textOf hs hstyle hst (sameTokens_of_contents hcontents), unplaced_pieces,
    unplaced_pieces, hsame.decisions, (sameTokens_of_contents hcontents).decisions, hline.outlines_eq hs',
    pieceGroups_append_break, hlexemes.outlines_eq hst]
  rw [← hlexemes.outlines_eq hst, hlength]

/-! ### Whole files -/

/-- Two texts that end inside of a line and their line ends. -/
theorem delimiter_eq_of_append_eq {style' : Style} (hstyle : style.EndsLines) (hstyle' : style'.EndsLines)
    {x y : List Char} (hx : ∀ c ∈ x.getLast?, isTerminator c = false)
    (hy : ∀ c ∈ y.getLast?, isTerminator c = false)
    (h : x ++ style.delimiter.toList = y ++ style'.delimiter.toList) :
    style.delimiter = style'.delimiter := by
  have hall : ∀ t ∈ terminators, t.all isTerminator = true := by decide
  have hlonger : ∀ {x y t t' : List Char}, t ∈ terminators → (∀ c ∈ y.getLast?, isTerminator c = false) →
      ∀ w, y = x ++ w → t = w ++ t' → w = [] := by
    rintro x y t t' ht hy w rfl rfl
    rcases List.eq_nil_or_concat w with rfl | ⟨w, c, rfl⟩
    · rfl
    · have hc := List.all_eq_true.1 (hall _ ht) c (by simp)
      rw [hy c (by simp)] at hc
      cases hc
  rw [← String.toList_inj]
  rcases List.append_eq_append_iff.1 h with ⟨w, hw, ht⟩ | ⟨w, hw, ht⟩
  · rw [hlonger hstyle.toList_mem hy w hw ht, List.nil_append] at ht
    exact ht
  · rw [hlonger hstyle'.toList_mem hx w hw ht, List.nil_append] at ht
    exact ht.symm

namespace Settings

def styleOf (settings : Settings) (source : String) : Style :=
  ⟨settings.lineEnding.resolve source, settings.indentUnit⟩

/-- A whole file, formatted: its text and a line end. -/
def wholeText (settings : Settings) (source : String) : Except FormatError String :=
  (formatSource source (settings.styleOf source) .all).map (· ++ (settings.styleOf source).delimiter)

/-- The pieces of a stream as a whole file, with the line ends for `source`. -/
def fileOf (settings : Settings) (source : String) (s : TokenStream) : String :=
  Piece.textOf (settings.styleOf source) (pieces s) ++ (settings.styleOf source).delimiter

variable {settings : Settings}

theorem endsLines_styleOf (settings : Settings) (source : String) : (settings.styleOf source).EndsLines :=
  resolve_mem _ _

theorem wholeText_eq_ok_iff {text : String} : settings.wholeText source = .ok text ↔
    ∃ s, tokenize source = .ok s ∧ s.isEmpty = false ∧ text = settings.fileOf source s := by
  have hstyle := endsLines_styleOf settings source
  constructor
  · intro h
    cases hs : tokenize source with
    | error e => simp [wholeText, formatSource, hs, Except.map] at h
    | ok s =>
      cases hne : s.isEmpty with
      | true => simp [wholeText, formatSource, hs, format, hne, Except.map] at h
      | false =>
        rw [wholeText, formatSource_all hs hne hstyle] at h
        exact ⟨s, rfl, hne, (Except.ok.inj h).symm⟩
  · rintro ⟨s, hs, hne, rfl⟩
    rw [wholeText, formatSource_all hs hne hstyle]
    rfl

theorem isPlain_styleOf (hblank : ∀ c ∈ settings.indentUnit.toList, isBlank c = true) (source : String) :
    (settings.styleOf source).IsPlain :=
  ⟨endsLines_styleOf settings source, hblank⟩

theorem fileOf_eq_iff (hs : tokenize source = .ok s) (text text' : String) :
    settings.fileOf text s = settings.fileOf text' s ↔
      settings.lineEnding.resolve text = settings.lineEnding.resolve text' := by
  constructor
  · intro h
    rw [fileOf, fileOf, ← String.toList_inj, String.toList_append, String.toList_append] at h
    exact delimiter_eq_of_append_eq (endsLines_styleOf ..) (endsLines_styleOf ..)
      (getLast_textOf_pieces hs _) (getLast_textOf_pieces hs _) h
  · intro h
    rw [fileOf, fileOf, styleOf, styleOf, h]

section

variable (hblank : ∀ c ∈ settings.indentUnit.toList, isBlank c = true) (hs : tokenize source = .ok s)

include hblank hs

theorem wholeText_fileOf (hne : s.isEmpty = false) (source' : String) :
    settings.wholeText (settings.fileOf source' s) = .ok (settings.fileOf (settings.fileOf source' s) s) := by
  obtain ⟨s', hs', hsame, hpieces⟩ := exists_tokenize_line hs (isPlain_styleOf hblank source')
  refine wholeText_eq_ok_iff.2 ⟨s', hs', ?_, ?_⟩
  · rw [TokenStream.isEmpty_eq, hsame.kind, ← TokenStream.isEmpty_eq, hne]
  · generalize settings.fileOf source' s = text
    rw [fileOf, fileOf, ← Piece.textOf_unplaced, ← hpieces, Piece.textOf_unplaced]

/-- What is found as the first line end of a formatted file is found there again. -/
theorem resolve_fileOf_fileOf (source' : String) :
    settings.lineEnding.resolve (settings.fileOf (settings.fileOf source' s) s) =
      settings.lineEnding.resolve (settings.fileOf source' s) := by
  by_cases hauto : settings.lineEnding = .auto
  · have hfirst : ∀ text, settings.lineEnding.resolve (settings.fileOf text s) =
        (Piece.innerTerminator? (pieces s)).getD (settings.lineEnding.resolve text) := by
      intro text
      have htrail := Piece.firstTerminator_trail (isPlain_styleOf hblank text) (isCode_pieces hs)
      rw [fileOf, Piece.textOf_eq_trail _ (separator_head_pieces s)]
      rw [← String.toList_append] at htrail
      conv_lhs => rw [hauto]
      exact htrail
    rw [hfirst, hfirst source']
    cases Piece.innerTerminator? (pieces s) <;> rfl
  · exact resolve_eq_of_ne_auto hauto _ _

end

/-- Formatting a formatted file changes it if and only if its first line end is another one than that of
the source. The result is not changed any more. -/
theorem wholeText_again (hblank : ∀ c ∈ settings.indentUnit.toList, isBlank c = true) {text : String}
    (h : settings.wholeText source = .ok text) :
    ∃ text', settings.wholeText text = .ok text' ∧
      (text' = text ↔ settings.lineEnding.resolve text = settings.lineEnding.resolve source) ∧
      settings.wholeText text' = .ok text' := by
  obtain ⟨s, hs, hne, rfl⟩ := wholeText_eq_ok_iff.1 h
  have hagain := wholeText_fileOf hblank hs hne (settings.fileOf source s)
  have hstays := (fileOf_eq_iff hs _ _).2 (resolve_fileOf_fileOf hblank hs source)
  refine ⟨_, wholeText_fileOf hblank hs hne source, fileOf_eq_iff hs _ _, ?_⟩
  rwa [hstays] at hagain

end Settings

end GrammarFormat
