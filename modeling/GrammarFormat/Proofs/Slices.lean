import GrammarFormat.Proofs.Idempotence
import GrammarFormat.Proofs.Splicing

/-!
# Ranges of a formatted text

Formatting some lines of a formatted text gives these lines (`formatSource_slice`), if the first and the
last of them are not empty and no comment reaches over their ends.

The pieces of a formatted text are written again as they stand in it, so each of them lies as many lines
below the one before it as its separator has line breaks (`Piece.Placed`). Line numbers then say where the
pieces of the range start and end in the text: of two ways to cut it, one along the lines and one between
pieces, neither can be ahead of the other (`Piece.InPlace.eq_of_line_start`, `Piece.InPlace.eq_of_line_end`).
-/

namespace GrammarFormat

open Lexeme Layout
open Text (lineEnds)

variable {x y z r b trailing : List Char} {l : List Span} {lexeme : Lexeme} {style : Style}

/-! ### Reading on from the middle of a text -/

theorem takeWhile_blanks (hb : ∀ c ∈ b, isBlank c = true) (hx : Reads lexeme x r) :
    (b ++ (x ++ r)).takeWhile isBlank = b := by
  obtain ⟨c, x, rfl⟩ := List.exists_cons_of_ne_nil hx.ne_nil
  have hc : ¬ isBlank c = true := by simp [hx.head_not_blank]
  rw [List.takeWhile_append_of_pos hb, List.cons_append, List.takeWhile_cons_of_neg hc, List.append_nil]

theorem Cut.cons_inv (h : Cut (b ++ (x ++ r)) l trailing) (hb : ∀ c ∈ b, isBlank c = true)
    (hx : Reads lexeme x r) : ∃ l', l = ⟨b, some lexeme, x⟩ :: l' ∧ Cut r l' trailing := by
  generalize hs : b ++ (x ++ r) = s at h
  cases h with
  | nil hblank =>
    obtain ⟨c, x, rfl⟩ := List.exists_cons_of_ne_nil hx.ne_nil
    have hc := hblank c (by rw [← hs]; simp)
    rw [hx.head_not_blank] at hc
    cases hc
  | @cons b' x' r' _ lexeme' l' hb' hx' h =>
    have hblanks : b = b' := by
      have htake := takeWhile_blanks hb hx
      rwa [hs, takeWhile_blanks hb' hx', eq_comm] at htake
    subst hblanks
    obtain ⟨rfl, rfl, rfl⟩ := hx.eq_of_append_eq hx' (List.append_cancel_left hs)
    exact ⟨l', rfl, h⟩

theorem Cut.delimiters_inv (hstyle : style.EndsLines) (hz : ∀ c ∈ z.head?, isTerminator c = false) {n : Nat}
    (h : Cut ((List.replicate n style.delimiter.toList).flatten ++ z) l trailing) (pos : Position) :
    ∃ l' pos', Cut z l' trailing ∧ Position.line pos' = pos.line + n ∧ partsOf pos l = partsOf pos' l' := by
  induction n generalizing l pos with
  | zero => exact ⟨l, pos, h, rfl, rfl⟩
  | succ n ih =>
    rw [List.replicate_succ, List.flatten_cons, List.append_assoc] at h
    -- behind `\r` there is another delimiter, or the text
    have hreads : Reads (.trivia .lineBreak) style.delimiter.toList
        ((List.replicate n style.delimiter.toList).flatten ++ z) := by
      refine reads_lineBreak hstyle.toList_mem fun hdelimiter hhead => ?_
      cases n with
      | zero => cases hz _ hhead
      | succ n => simp [List.replicate_succ, hdelimiter] at hhead
    obtain ⟨l, rfl, hrest⟩ := Cut.cons_inv (b := []) h (by simp) hreads
    obtain ⟨l', pos', hcut, hline, hparts⟩ := ih hrest (pos.advance style.delimiter.toList)
    refine ⟨l', pos', hcut, ?_, hparts⟩
    rw [hline, Position.line_advance, (Text.lineEnds_terminator _ hstyle.toList_mem).2.1]
    omega

theorem Text.lineEnds_pos_of_mem {c : Char} (hc : c ∈ x) (hterminator : isTerminator c = true) :
    0 < lineEnds x := by
  fun_induction lineEnds x with
  | case1 => cases hc
  | case2 | case3 | case4 => exact Nat.succ_pos _
  | case5 d rest _ hr hn ih =>
    refine ih ((List.mem_cons.1 hc).resolve_left ?_)
    rintro rfl
    simp only [isTerminator, Bool.or_eq_true, beq_iff_eq] at hterminator
    exact hterminator.elim hr hn

/-! ### Texts of pieces and their separators -/

theorem Separator.toList_text (style : Style) (separator : Separator) : ∃ b : List Char,
    (separator.text style).toList = (List.replicate separator.breaks style.delimiter.toList).flatten ++ b ∧
      (∀ c ∈ b, isBlank c = true) ∧ (0 < separator.breaks → b = []) := by
  cases separator with
  | none => exact ⟨[], rfl, by simp, fun _ => rfl⟩
  | space => exact ⟨[' '], toList_text_space, by simp [isBlank], fun h => absurd h (by decide)⟩
  | lines n => exact ⟨[], by simp [text, breaks], by simp, fun _ => rfl⟩

namespace Piece

variable {p q : Piece} {ps qs : List Piece}

theorem textOf_cons (style : Style) (p : Piece) (ps : List Piece) :
    textOf style (p :: ps) = p.text style ++ trail style ps := by
  cases ps with
  | nil => rw [textOf_singleton, trail, String.append_empty]
  | cons q ps => rw [textOf_cons_cons, trail]

theorem trail_cons (style : Style) (p : Piece) (ps : List Piece) :
    trail style (p :: ps) = p.separator.text style ++ (p.text style ++ trail style ps) := by
  rw [trail, textOf_cons]

theorem trail_append (style : Style) (ps qs : List Piece) :
    trail style (ps ++ qs) = trail style ps ++ trail style qs := by
  induction ps with
  | nil => rw [List.nil_append, trail, String.empty_append]
  | cons p ps ih => simp only [List.cons_append, trail_cons, ih, String.append_assoc]

theorem textOf_eq_trail (style : Style) (h : ∀ p ∈ ps.head?, p.separator = .none) :
    textOf style ps = trail style ps := by
  cases ps with
  | nil => rfl
  | cons p ps => rw [trail, h p rfl, Separator.text, String.empty_append]

/-- A piece behind its separator: line breaks, blanks, and its image. -/
theorem toList_trail_cons (hstyle : style.IsPlain) (p : Piece) (ps : List Piece) : ∃ b : List Char,
    (trail style (p :: ps)).toList =
      (List.replicate p.separator.breaks style.delimiter.toList).flatten ++
        (b ++ (p.image.toList ++ (trail style ps).toList)) ∧
    ∀ c ∈ b, isBlank c = true := by
  obtain ⟨b, hb, hblank, -⟩ := p.separator.toList_text style
  refine ⟨b ++ (Text.copies p.level style.unit).toList, ?_,
    List.forall_mem_append.2 ⟨hblank, hstyle.blank_copies p.level⟩⟩
  rw [trail_cons, Piece.text]
  simp only [String.toList_append, hb, List.append_assoc]

theorem IsCode.head_blanks (h : p.IsCode) (hb : ∀ c ∈ b, isBlank c = true) (r : List Char) :
    ∀ c ∈ (b ++ (p.image.toList ++ r)).head?, isTerminator c = false := by
  intro c hc
  cases b with
  | nil => exact h.head_not_terminator r c hc
  | cons d b =>
    cases hc
    exact not_terminator_of_blank (hb c (List.mem_cons_self ..))

theorem reads_trail (hstyle : style.EndsLines) (hp : p.IsCode) (hps : (p :: ps).IsChain Apart) :
    Reads p.lexeme p.image.toList (trail style ps).toList := by
  cases ps with
  | nil => exact hp.reads
  | cons q ps =>
    rw [trail, String.toList_append]
    exact (List.isChain_cons_cons.1 hps).1.reads hstyle hp ps

/-! ### Lines of a text and of its pieces -/

/-- The pieces stand on the lines on which their text has them, behind a text that ends on `line`. -/
def Placed (line : Nat) : List Piece → Prop
  | [] => True
  | p :: ps => p.firstLine = line + p.separator.breaks ∧
      p.lastLine = p.firstLine + lineEnds p.image.toList ∧ Placed p.lastLine ps

theorem IsCode.lineEnds_dropLast (h : p.IsCode) :
    lineEnds p.image.toList.dropLast = lineEnds p.image.toList := by
  have hne := h.reads.ne_nil
  have hlast := h.reads.getLast_not_terminator h.ne_lineBreak _ (List.getLast?_eq_some_getLast hne)
  have hsplit : lineEnds (p.image.toList.dropLast ++ [p.image.toList.getLast hne]) =
      lineEnds p.image.toList.dropLast + lineEnds [p.image.toList.getLast hne] := by
    refine Text.lineEnds_append fun _ hhead => ?_
    rw [Option.some.inj hhead] at hlast
    cases hlast
  rw [List.dropLast_append_getLast, Text.lineEnds_eq_zero (x := [_]) (by simpa using hlast)] at hsplit
  exact hsplit.symm

/-- Pieces whose places are those of the lexemes in their text. -/
theorem placed_of_cut (hstyle : style.IsPlain) (hcode : ∀ p ∈ ps, p.IsCode) (hapart : ps.IsChain Apart)
    (h : Cut (trail style ps).toList l trailing) (pos : Position)
    (hparts : partsOf pos l = ps.map Piece.part) : Placed pos.line ps := by
  induction ps generalizing l pos with
  | nil => trivial
  | cons p ps ih =>
    obtain ⟨hp, hcode⟩ := List.forall_mem_cons.1 hcode
    obtain ⟨b, htext, hblank⟩ := toList_trail_cons hstyle p ps
    rw [htext] at h
    obtain ⟨l, pos', h, hline, hsame⟩ := h.delimiters_inv hstyle.endsLines (hp.head_blanks hblank _) pos
    obtain ⟨l, rfl, hrest⟩ := h.cons_inv hblank (reads_trail hstyle.endsLines hp hapart)
    have hpart : (p.lexeme.isBreak) = false := hp.not_break
    rw [hsame] at hparts
    simp only [partsOf, Option.all_some, hpart, Bool.false_eq_true, if_false, List.map_cons,
      List.cons.injEq] at hparts
    obtain ⟨hp', hparts⟩ := hparts
    have hfirst : (pos'.advance b).line = p.firstLine := congrArg Part.firstLine hp'
    have hlast : ((pos'.advance b).last p.image.toList).line = p.lastLine := congrArg Part.lastLine hp'
    rw [Position.last, Position.line_advance, hfirst, hp.lineEnds_dropLast] at hlast
    rw [Position.line_advance, lineEnds_of_blanks hblank, hline, Nat.add_zero] at hfirst
    refine ⟨hfirst.symm, hlast.symm, ?_⟩
    have hnext := ih hcode hapart.tail hrest _ hparts
    rwa [Position.line_advance, Position.line_advance, lineEnds_of_blanks hblank, hline, Nat.add_zero,
      hfirst, hlast] at hnext

theorem lineEnds_delimiters (hstyle : style.EndsLines) (hz : ∀ c ∈ z.head?, isTerminator c = false)
    (n : Nat) : lineEnds ((List.replicate n style.delimiter.toList).flatten ++ z) = n + lineEnds z := by
  obtain ⟨-, hone, hlast⟩ := Text.lineEnds_terminator _ hstyle.toList_mem
  induction n with
  | zero => simp
  | succ n ih =>
    rw [List.replicate_succ, List.flatten_cons, List.append_assoc, Text.lineEnds_append fun hend hhead => ?_,
      ih, hone]
    · omega
    · cases n with
      | zero => cases hz _ hhead
      | succ n => simp [List.replicate_succ, hlast hend] at hhead

theorem lineEnds_replicate (hstyle : style.EndsLines) (n : Nat) :
    lineEnds (List.replicate n style.delimiter.toList).flatten = n := by
  have hends := lineEnds_delimiters hstyle (z := []) (by simp) n
  rwa [List.append_nil] at hends

theorem lineEnds_trail_cons (hstyle : style.IsPlain) (hp : p.IsCode) (hps : (p :: ps).IsChain Apart) :
    lineEnds (trail style (p :: ps)).toList =
      p.separator.breaks + lineEnds p.image.toList + lineEnds (trail style ps).toList := by
  obtain ⟨b, htext, hblank⟩ := toList_trail_cons hstyle p ps
  rw [htext, lineEnds_delimiters hstyle.endsLines (hp.head_blanks hblank _), lineEnds_blanks_append hblank,
    (reads_trail hstyle.endsLines hp hps).lineEnds_append, Nat.add_assoc]

theorem Placed.append (hstyle : style.IsPlain) (hcode : ∀ p ∈ ps ++ qs, p.IsCode)
    (hapart : (ps ++ qs).IsChain Apart) {line : Nat} (h : Placed line (ps ++ qs)) :
    Placed line ps ∧ Placed (line + lineEnds (trail style ps).toList) qs := by
  induction ps generalizing line with
  | nil => exact ⟨trivial, h⟩
  | cons p ps ih =>
    obtain ⟨hp, hcode⟩ := List.forall_mem_cons.1 hcode
    obtain ⟨hfirst, hlast, hrest⟩ := h
    have hchain : (p :: ps).IsChain Apart := (List.isChain_append.1 hapart).1
    obtain ⟨hps, hqs⟩ := ih hcode hapart.tail hrest
    refine ⟨⟨hfirst, hlast, hps⟩, ?_⟩
    rwa [hlast, hfirst, Nat.add_assoc, Nat.add_assoc, ← Nat.add_assoc (Separator.breaks _),
      ← lineEnds_trail_cons hstyle hp hchain] at hqs

theorem Placed.lineEnds_le (hstyle : style.IsPlain) (hcode : ∀ p ∈ ps, p.IsCode) (hapart : ps.IsChain Apart)
    {line n : Nat} (h : Placed line ps) (hline : line ≤ n) (hlast : ∀ p ∈ ps, p.lastLine ≤ n) :
    line + lineEnds (trail style ps).toList ≤ n := by
  induction ps generalizing line with
  | nil => exact hline
  | cons p ps ih =>
    obtain ⟨hp, hcode⟩ := List.forall_mem_cons.1 hcode
    obtain ⟨hple, hlast⟩ := List.forall_mem_cons.1 hlast
    obtain ⟨hfirst, heq, hrest⟩ := h
    have hnext := ih hcode hapart.tail hrest hple hlast
    rw [lineEnds_trail_cons hstyle hp hapart]
    omega

/-- The pieces of a formatted text, on the lines that they have there. -/
structure InPlace (style : Style) (ps : List Piece) : Prop where
  plain : style.IsPlain
  code : ∀ p ∈ ps, p.IsCode
  apart : ps.IsChain Apart
  placed : Placed 1 ps
  separator_head : ∀ p ∈ ps.head?, p.separator = .none

namespace InPlace

variable {before after : List Piece} {n : Nat}

theorem firstLine_eq (h : InPlace style (before ++ q :: after)) :
    q.firstLine = lineEnds (trail style before).toList + q.separator.breaks + 1 := by
  have := (h.placed.append h.plain h.code h.apart).2.1
  omega

theorem lineEnds_lt (h : InPlace style (before ++ after)) (hn : 0 < n)
    (hbefore : ∀ p ∈ before, p.lastLine ≤ n) :
    lineEnds (trail style before).toList < n := by
  have := (h.placed.append h.plain h.code h.apart).1.lineEnds_le h.plain
    (List.forall_mem_append.1 h.code).1 (List.isChain_append.1 h.apart).1 hn hbefore
  omega

/-- Where the next piece stands on a later line, line breaks separate it. -/
theorem toList_trail (h : InPlace style (before ++ q :: after)) (hn : 0 < n)
    (hbefore : ∀ p ∈ before, p.lastLine ≤ n) (hq : n < q.firstLine) :
    (trail style (q :: after)).toList =
      (List.replicate q.separator.breaks style.delimiter.toList).flatten ++
        (textOf style (q :: after)).toList := by
  have hlt := h.lineEnds_lt hn hbefore
  have hline := h.firstLine_eq
  obtain ⟨b, hb, -, hnil⟩ := q.separator.toList_text style
  rw [trail, String.toList_append, hb, hnil (by omega), List.append_nil]

theorem terminator_of_mem_delimiters (hstyle : style.EndsLines) {k : Nat} {c : Char}
    (hc : c ∈ (List.replicate k style.delimiter.toList).flatten) : isTerminator c = true := by
  have hall : ∀ t ∈ terminators, t.all isTerminator = true := by decide
  obtain ⟨t, ht, hc⟩ := List.mem_flatten.1 hc
  rw [List.eq_of_mem_replicate ht] at hc
  exact List.all_eq_true.1 (hall _ hstyle.toList_mem) c hc

theorem getLast_trail (style : Style) (hcode : ∀ p ∈ ps, p.IsCode) :
    ∀ c ∈ (trail style ps).toList.getLast?, isTerminator c = false := by
  rcases List.eq_nil_or_concat ps with rfl | ⟨ps, q, rfl⟩
  · simp [trail]
  · have hq := hcode q (by simp)
    intro c hc
    rw [List.concat_eq_append, trail_append, trail_cons, trail, Piece.text, String.append_empty] at hc
    simp only [String.toList_append, ← List.append_assoc] at hc
    rw [List.getLast?_append_of_ne_nil _ hq.reads.ne_nil] at hc
    exact hq.reads.getLast_not_terminator hq.ne_lineBreak c hc

theorem lineEnds_trail_append (style : Style) (hcode : ∀ p ∈ ps, p.IsCode) (z : List Char) :
    lineEnds ((trail style ps).toList ++ z) = lineEnds (trail style ps).toList + lineEnds z :=
  Text.lineEnds_append fun hlast => by cases getLast_trail style hcode _ hlast

/-- The text up to the end of a line is that of the pieces that end up to there. -/
theorem eq_of_line_end (h : InPlace style (before ++ after))
    (htext : (trail style (before ++ after)).toList = x ++ y)
    (hline : EndsLineAt x y) (hx : ∀ c ∈ x.getLast?, isTerminator c = false)
    (hbefore : ∀ p ∈ before, p.lastLine ≤ lineEnds x + 1)
    (hafter : ∀ p ∈ after, lineEnds x + 1 < p.firstLine) : x = (trail style before).toList := by
  rw [trail_append, String.toList_append] at htext
  have hlt := h.lineEnds_lt (Nat.succ_pos _) hbefore
  have hcode := (List.forall_mem_append.1 h.code).1
  rcases List.append_eq_append_iff.1 htext with ⟨w, hw, htrail⟩ | ⟨w, hw, hy⟩
  · by_cases hnil : w = []
    · rw [hw, hnil, List.append_nil]
    cases after with
    | nil => exact absurd (List.append_eq_nil_iff.1 htrail.symm).1 hnil
    | cons q after =>
      have hq := hafter q (List.mem_cons_self ..)
      have hfirst := h.firstLine_eq
      rw [h.toList_trail (Nat.succ_pos _) hbefore hq] at htrail
      rcases List.append_eq_append_iff.1 htrail with ⟨v, hv, -⟩ | ⟨v, hv, -⟩
      · -- with all line breaks in front of `q`, the text would reach its line
        have hle := Text.lineEnds_le_append
          (List.replicate q.separator.breaks style.delimiter.toList).flatten v
        have hsum := lineEnds_trail_append style hcode w
        rw [lineEnds_replicate h.plain.endsLines, ← hv] at hle
        rw [← hw] at hsum
        omega
      · -- with some of them, it would end with the end of a line
        have hlast : w.getLast hnil ∈ (List.replicate q.separator.breaks style.delimiter.toList).flatten := by
          rw [hv]
          exact List.mem_append_left _ (List.getLast_mem hnil)
        have hterminator := terminator_of_mem_delimiters h.plain.endsLines hlast
        rw [hx (w.getLast hnil) (by rw [hw, List.getLast?_append_of_ne_nil _ hnil,
          List.getLast?_eq_some_getLast hnil]; rfl)] at hterminator
        cases hterminator
  · cases w with
    | nil => rw [hw, List.append_nil]
    | cons c w =>
      have hc := hline.starts c (by rw [hy]; rfl)
      have hsum : lineEnds (x ++ c :: w) = lineEnds x + lineEnds (c :: w) :=
        Text.lineEnds_append fun hlast hhead => hline.whole hlast (by rw [hy]; exact hhead)
      have hpos := Text.lineEnds_pos hc w
      rw [hw] at hlt
      omega

/-- Two ways to cut a text behind its first line ends are the same, if neither rest starts with another one. -/
theorem eq_delimiters (hstyle : style.EndsLines) {n : Nat} {w t : List Char}
    (h : (List.replicate n style.delimiter.toList).flatten ++ t = w ++ y)
    (ht : ∀ c ∈ t.head?, isTerminator c = false) (hy : ∀ c ∈ y.head?, isTerminator c = false)
    (hw : ∀ c ∈ w.getLast?, isTerminator c = true) (hle : lineEnds w ≤ n) :
    w = (List.replicate n style.delimiter.toList).flatten ∧ y = t := by
  rcases List.append_eq_append_iff.1 h with ⟨v, rfl, htv⟩ | ⟨v, hv, hyv⟩
  · cases v with
    | nil => exact ⟨List.append_nil _, htv.symm⟩
    | cons c v =>
      -- the first part would end behind the start of `t`, with one line end more
      rw [htv] at ht
      have hbreaks := lineEnds_delimiters hstyle (z := c :: v) (by simpa using ht) n
      have hend : isTerminator ((c :: v).getLast (by simp)) = true := by
        refine hw _ ?_
        rw [List.getLast?_append_of_ne_nil _ (by simp), List.getLast?_eq_some_getLast (by simp)]
        rfl
      have hpos := Text.lineEnds_pos_of_mem (List.getLast_mem (by simp)) hend
      omega
  · cases v with
    | nil =>
      rw [List.append_nil] at hv
      exact ⟨hv.symm, hyv⟩
    | cons c v =>
      have hc := terminator_of_mem_delimiters (k := n) (c := c) hstyle (by rw [hv]; simp)
      rw [hy c (by rw [hyv]; rfl)] at hc
      cases hc

theorem eq_of_first_line (h : InPlace style (before ++ after)) (hbefore : ∀ p ∈ before, p.lastLine ≤ 0) :
    trail style (before ++ after) = textOf style after ∧ ∀ q ∈ after.head?, q.firstLine = 1 := by
  cases before with
  | cons p before =>
    obtain ⟨hfirst, hlast, -⟩ := h.placed
    have hzero := hbefore p (List.mem_cons_self ..)
    omega
  | nil =>
    rw [List.nil_append] at h ⊢
    refine ⟨(textOf_eq_trail style h.separator_head).symm, fun q hq => ?_⟩
    obtain ⟨after, rfl⟩ := List.head?_eq_some_iff.1 hq
    rw [h.placed.1, h.separator_head q rfl]
    rfl

/-- The text from the start of a line that is not empty is that of the pieces that start from there on. -/
theorem eq_of_line_start (h : InPlace style (before ++ after))
    (htext : (trail style (before ++ after)).toList = x ++ y) (hx : ∀ c ∈ x.getLast?, isTerminator c = true)
    (hy : ∀ c ∈ y.head?, isTerminator c = false)
    (hbefore : ∀ p ∈ before, p.lastLine ≤ lineEnds x) (hafter : ∀ p ∈ after, lineEnds x < p.firstLine) :
    y = (textOf style after).toList ∧ ∀ q ∈ after.head?, q.firstLine = lineEnds x + 1 := by
  by_cases hnil : x = []
  · subst hnil
    obtain ⟨hall, hline⟩ := h.eq_of_first_line hbefore
    rw [hall, List.nil_append] at htext
    exact ⟨htext.symm, hline⟩
  have hpos : 0 < lineEnds x :=
    Text.lineEnds_pos_of_mem (List.getLast_mem hnil) (hx _ (List.getLast?_eq_some_getLast hnil))
  have hlt := h.lineEnds_lt hpos hbefore
  rw [trail_append, String.toList_append] at htext
  rcases List.append_eq_append_iff.1 htext with ⟨w, hw, htrail⟩ | ⟨w, hw, -⟩
  · have hsum := lineEnds_trail_append style (List.forall_mem_append.1 h.code).1 w
    rw [← hw] at hsum
    cases after with
    | nil =>
      rw [(List.append_eq_nil_iff.1 htrail.symm).1] at hsum
      simp only [lineEnds] at hsum
      omega
    | cons q after =>
      have hq := hafter q (List.mem_cons_self ..)
      have hfirst := h.firstLine_eq
      have hhead := (h.code q (by simp)).head_textOf h.plain after
      have hlast : ∀ c ∈ w.getLast?, isTerminator c = true := by
        intro c hc
        refine hx c ?_
        rw [hw, List.getLast?_append, hc]
        rfl
      rw [h.toList_trail hpos hbefore hq] at htrail
      obtain ⟨rfl, hrest⟩ := eq_delimiters h.plain.endsLines htrail hhead hy hlast (by omega)
      rw [lineEnds_replicate h.plain.endsLines] at hsum
      refine ⟨hrest, fun _ hq => ?_⟩
      cases hq
      omega
  · have hle := Text.lineEnds_le_append x w
    rw [← hw] at hle
    omega

end InPlace

theorem textOf_append_trail (style : Style) (hps : ps ≠ []) (qs : List Piece) :
    textOf style (ps ++ qs) = textOf style ps ++ trail style qs := by
  cases qs with
  | nil => rw [List.append_nil, trail, String.append_empty]
  | cons q qs => rw [textOf_append hps, trail]

/-- The text from the start of a line to the end of a line is that of the pieces in between. -/
theorem InPlace.textOf_eq {before run after : List Piece} (h : InPlace style (before ++ run ++ after))
    (htext : (trail style (before ++ run ++ after)).toList = x ++ (y ++ z)) (hne : y ≠ [])
    (hx : ∀ c ∈ x.getLast?, isTerminator c = true) (hyz : ∀ c ∈ (y ++ z).head?, isTerminator c = false)
    (hline : EndsLineAt (x ++ y) z) (hxy : ∀ c ∈ (x ++ y).getLast?, isTerminator c = false)
    (hbefore : ∀ p ∈ before, p.lastLine ≤ lineEnds x) (hfirst : ∀ p ∈ run ++ after, lineEnds x < p.firstLine)
    (hlast : ∀ p ∈ before ++ run, p.lastLine ≤ lineEnds (x ++ y) + 1)
    (hafter : ∀ p ∈ after, lineEnds (x ++ y) + 1 < p.firstLine) : (textOf style run).toList = y := by
  have hend := h.eq_of_line_end (by rw [htext, List.append_assoc]) hline hxy hlast hafter
  rw [List.append_assoc] at h htext
  obtain ⟨hstart, hhead⟩ := h.eq_of_line_start htext hx hyz hbefore hfirst
  have hrun : run ≠ [] := by
    rintro rfl
    cases after with
    | nil => exact hne (List.append_eq_nil_iff.1 hstart).1
    | cons q after =>
      have hq := hhead q rfl
      have hlt := hafter q (List.mem_cons_self ..)
      have hle := Text.lineEnds_le_append x y
      omega
  have hz : z = (trail style after).toList := by
    rw [← List.append_assoc, ← List.append_assoc, trail_append, String.toList_append, ← hend] at htext
    exact (List.append_cancel_left htext).symm
  rw [textOf_append_trail style hrun, String.toList_append, ← hz] at hstart
  exact (List.append_cancel_right hstart).symm

end Piece

/-! ### Slices -/

/-- The text of lines, without what ends the last of them. -/
def Text.withoutEnd : List Text.Line → List Char
  | [] => []
  | [line] => line.content
  | line :: ls => line.content ++ (line.terminator ++ withoutEnd ls)

/-- The lines from `first` to `last` of a text, without what ends the last of them. -/
def Text.sliceLines (first last : Nat) (text : String) : String :=
  String.ofList (withoutEnd (((lines text.toList).take last).drop (first - 1)))

theorem Text.withoutEnd_append (ls : List Text.Line) (line : Text.Line) :
    withoutEnd (ls ++ [line]) = ofLines ls ++ line.content := by
  induction ls with
  | nil => rfl
  | cons first ls ih =>
    obtain ⟨next, ls', hls⟩ := List.exists_cons_of_ne_nil (show ls ++ [line] ≠ [] by simp)
    rw [List.cons_append, hls, withoutEnd, ← hls, ih, ofLines_cons]
    · simp only [List.append_assoc]
    · simp

theorem Text.sliceLines_eq {text : String} {pre mid post : List Text.Line} {line : Text.Line}
    (h : lines text.toList = pre ++ (mid ++ line :: post)) :
    sliceLines (pre.length + 1) ((pre ++ mid).length + 1) text =
      String.ofList (ofLines mid ++ line.content) := by
  have hall : pre ++ (mid ++ line :: post) = (pre ++ (mid ++ [line])) ++ post := by simp
  have hlength : (pre ++ mid).length + 1 = (pre ++ (mid ++ [line])).length := by
    simp only [List.length_append, List.length_cons, List.length_nil]
    omega
  rw [sliceLines, h, hall, hlength, List.take_left, Nat.add_sub_cancel, List.drop_left, withoutEnd_append]

theorem Text.AreLines.line_start {pre post : List Text.Line} {line : Text.Line}
    (h : AreLines (pre ++ line :: post)) (hne : line.content ≠ []) :
    lineEnds (ofLines pre) = pre.length ∧ (∀ c ∈ (ofLines pre).getLast?, isTerminator c = true) ∧
      ∀ c ∈ (ofLines (line :: post)).head?, isTerminator c = false := by
  have hcontent := h.of_append.content_not_terminator
  obtain ⟨d, content, hd⟩ := List.exists_cons_of_ne_nil hne
  have hhead : isTerminator d = false := hcontent d (by simp [hd])
  refine ⟨?_, fun c hc => ?_, fun c hc => ?_⟩
  · have hsum : lineEnds (ofLines pre ++ line.content) = lineEnds (ofLines pre) + lineEnds line.content := by
      refine lineEnds_append fun _ hn => ?_
      rw [hd] at hn
      rw [Option.some.inj hn] at hhead
      cases hhead
    rw [h.endsLineAt.2, lineEnds_eq_zero hcontent] at hsum
    exact hsum.symm
  · rcases List.eq_nil_or_concat pre with rfl | ⟨pre, first, rfl⟩
    · cases hc
    rw [List.concat_eq_append] at h hc
    rw [List.append_assoc, List.singleton_append] at h
    obtain ⟨hterminator, -, -⟩ := h.of_append.cons_inv (by simp)
    have hends : ∀ t ∈ terminators, t ≠ [] ∧ t.getLast?.all isTerminator = true := by decide
    obtain ⟨hterm, hall⟩ := hends _ hterminator
    rw [ofLines_append, ofLines_cons, show ofLines [] = [] from rfl, List.append_nil, ← List.append_assoc,
      List.getLast?_append_of_ne_nil _ hterm] at hc
    rw [hc] at hall
    exact hall
  · rw [ofLines_cons, hd] at hc
    cases hc
    exact hhead

variable {source text : String} {s st : TokenStream}

/-- The pieces that are read from their own text stand in it. -/
theorem inPlace_pieces (hstyle : style.IsPlain) (hst : tokenize text = .ok st)
    (htext : Piece.textOf style (pieces st) = text) : Piece.InPlace style (pieces st) := by
  have hlexed := lexed_of_tokenize hst
  obtain ⟨l, trailing, hcut, hparts⟩ := exists_cut_parts hst
  rw [← htext, Piece.textOf_eq_trail style (separator_head_pieces st)] at hcut
  refine ⟨hstyle, isCode_pieces hst, isChain_pieces hlexed, ?_, separator_head_pieces st⟩
  exact Piece.placed_of_cut hstyle (isCode_pieces hst) (isChain_pieces hlexed) hcut .start
    (by rw [part_pieces hlexed, hparts])

section

variable {first last : Nat} (hfirst : 1 ≤ first) (hle : first ≤ last)
  (hlast : last ≤ (Text.lines text.toList).length)
  (hstart : ∀ t ∈ st.comments, ¬ (t.firstLine < first ∧ first ≤ t.lastLine))
  (hend : ∀ t ∈ st.comments, ¬ (t.firstLine ≤ last ∧ last < t.lastLine))

include hfirst hle hlast hstart hend

/-- The pieces in front of a range of lines, in it and behind it. -/
theorem exists_pieces_split (hst : tokenize text = .ok st) : ∃ before run after,
    pieces st = before ++ run ++ after ∧ (∀ p ∈ before, p.lastLine < first) ∧
      (∀ p ∈ run, first ≤ p.firstLine) ∧ (∀ p ∈ run, p.lastLine ≤ last) ∧ (∀ p ∈ after, last < p.firstLine) ∧
      (pieces st).filter (·.isIn (.clamped first (some last))) = run := by
  obtain ⟨front, middle, back, hparts, hfront, hmiddle, hback, -⟩ :=
    exists_parts_split hst hfirst hle hlast hstart hend
  have hlines := (lines_parts hst).1
  rw [← part_pieces (lexed_of_tokenize hst)] at hparts hlines
  obtain ⟨_, after, hpieces, hrest, rfl⟩ := List.map_eq_append_iff.1 hparts
  obtain ⟨before, run, rfl, rfl, rfl⟩ := List.map_eq_append_iff.1 hrest
  have hbefore : ∀ p ∈ before, p.lastLine < first := fun p hp => hfront _ (List.mem_map_of_mem hp)
  have hrun : ∀ p ∈ run, first ≤ p.firstLine ∧ p.lastLine ≤ last := fun p hp =>
    hmiddle _ (List.mem_map_of_mem hp)
  have hafter : ∀ p ∈ after, last < p.firstLine := fun p hp => hback _ (List.mem_map_of_mem hp)
  refine ⟨before, run, after, hpieces, hbefore, fun p hp => (hrun p hp).1, fun p hp => (hrun p hp).2,
    hafter, ?_⟩
  rw [filter_clamped hfirst hle, hpieces]
  refine filter_run (fun p hp => decide_eq_true (hrun p hp)) fun p hp => decide_eq_false fun hin => ?_
  have hline : p.firstLine ≤ p.lastLine := (hlines p.part (List.mem_map_of_mem (by
    rw [hpieces]
    rcases List.mem_append.1 hp with hp | hp <;> simp [hp]))).2
  have hin : first ≤ p.firstLine ∧ p.lastLine ≤ last := hin
  rcases List.mem_append.1 hp with hp | hp
  · have := hbefore p hp
    omega
  · have := hafter p hp
    omega

theorem textOf_slice (hstyle : style.IsPlain) (hst : tokenize text = .ok st)
    (htext : Piece.textOf style (pieces st) = text)
    (hfirstLine : ∀ line ∈ (Text.lines text.toList)[first - 1]?, line.content ≠ [])
    (hlastLine : ∀ line ∈ (Text.lines text.toList)[last - 1]?, line.content ≠ []) :
    Piece.textOf style ((pieces st).filter (·.isIn (.clamped first (some last)))) =
      Text.sliceLines first last text := by
  have hplace := inPlace_pieces hstyle hst htext
  obtain ⟨before, run, after, hpieces, hbefore, hrunFirst, hrunLast, hafter, hfilter⟩ :=
    exists_pieces_split hfirst hle hlast hstart hend hst
  obtain ⟨pre, mid, line, post, hls, rfl, rfl⟩ := exists_lines_split hfirst hle hlast
  obtain ⟨line₀, post₀, hmid⟩ := List.exists_cons_of_ne_nil (show mid ++ line :: post ≠ [] by simp)
  have hfirst' : line₀.content ≠ [] := hfirstLine line₀ (by simp [hls, hmid])
  have hlast' : line.content ≠ [] := hlastLine line (by simp [hls, ← List.append_assoc])
  have hlines := Text.areLines_lines text.toList
  rw [hls] at hlines
  obtain ⟨hcount, hterminator, hhead⟩ := (hmid ▸ hlines).line_start hfirst'
  rw [← List.append_assoc] at hlines
  obtain ⟨hends, hcountEnd⟩ := hlines.endsLineAt
  have htext' : (Piece.trail style (before ++ run ++ after)).toList =
      Text.ofLines pre ++ ((Text.ofLines mid ++ line.content) ++ Text.afterContent (line :: post)) := by
    rw [← hpieces, ← Piece.textOf_eq_trail style (separator_head_pieces st), htext,
      ← Text.ofLines_lines text.toList, hls]
    simp [Text.ofLines_append, Text.ofLines_cons, Text.afterContent]
  have hrest : Text.ofLines (line₀ :: post₀) =
      (Text.ofLines mid ++ line.content) ++ Text.afterContent (line :: post) := by
    simp [← hmid, Text.ofLines_append, Text.ofLines_cons, Text.afterContent]
  rw [hrest] at hhead
  rw [Text.ofLines_append, List.append_assoc] at hends hcountEnd
  rw [hfilter, Text.sliceLines_eq hls, ← String.toList_inj, String.toList_ofList]
  refine (hpieces ▸ hplace).textOf_eq htext' (by simp [hlast']) hterminator hhead hends ?_ ?_ ?_ ?_ ?_
  · intro c hc
    rw [← List.append_assoc, List.getLast?_append_of_ne_nil _ hlast'] at hc
    exact hlines.of_append.content_not_terminator c (List.mem_of_getLast? hc)
  · intro p hp
    have := hbefore p hp
    omega
  · intro p hp
    rcases List.mem_append.1 hp with hp | hp
    · have := hrunFirst p hp
      omega
    · have := hafter p hp
      omega
  · intro p hp
    rcases List.mem_append.1 hp with hp | hp
    · have := hbefore p hp
      omega
    · have := hrunLast p hp
      omega
  · intro p hp
    have := hafter p hp
    omega

end

theorem exists_tokenize_again (hs : tokenize source = .ok s) (hne : s.isEmpty = false)
    (hstyle : style.IsPlain) :
    ∃ st, tokenize (Piece.textOf style (pieces s)) = .ok st ∧ st.isEmpty = false ∧
      Piece.textOf style (pieces st) = Piece.textOf style (pieces s) := by
  obtain ⟨st, hst, hcontents⟩ := exists_tokenize_textOf hs hstyle
  have hsame := sameTokens_of_contents hcontents
  refine ⟨st, hst, by rw [TokenStream.isEmpty_eq, hsame.kind, ← TokenStream.isEmpty_eq, hne], ?_⟩
  rw [← Piece.textOf_unplaced, unplaced_pieces_textOf hs hstyle hst hsame, Piece.textOf_unplaced]

/-- Formatting a range of lines of a formatted text gives these lines as they stand there, if neither the
first nor the last of them is empty and no comment reaches over an end of the range. -/
theorem formatSource_slice (hs : tokenize source = .ok s) (hne : s.isEmpty = false) (hstyle : style.IsPlain) :
    ∃ text st, formatSource source style .all = .ok text ∧ tokenize text = .ok st ∧
      ∀ first last, 1 ≤ first → first ≤ last → last ≤ (Text.lines text.toList).length →
        (∀ line ∈ (Text.lines text.toList)[first - 1]?, line.content ≠ []) →
        (∀ line ∈ (Text.lines text.toList)[last - 1]?, line.content ≠ []) →
        (∀ t ∈ st.comments, ¬ (t.firstLine < first ∧ first ≤ t.lastLine)) →
        (∀ t ∈ st.comments, ¬ (t.firstLine ≤ last ∧ last < t.lastLine)) →
        formatSource text style (.clamped first (some last)) = .ok (Text.sliceLines first last text) := by
  obtain ⟨st, hst, hne', htext⟩ := exists_tokenize_again hs hne hstyle
  refine ⟨_, st, formatSource_all hs hne hstyle.endsLines, hst, ?_⟩
  intro first last hfirst hle hlast hfirstLine hlastLine hstart hend
  rw [formatSource_eq hst hne' hstyle.endsLines,
    textOf_slice hfirst hle hlast hstart hend hstyle hst htext hfirstLine hlastLine]

theorem formatSource_slice_of_comments : ∃ s text,
    tokenize "a \x7b b; // c\n/* d\r e */ void f; \x7d g" = .ok s ∧ s.isEmpty = false ∧
      formatSource "a \x7b b; // c\n/* d\r e */ void f; \x7d g" ⟨"\r\n", "  "⟩ .all = .ok text ∧
      text = "a \x7b\r\n  b; // c\r\n\r\n  /* d\r e */ void f;\r\n\x7d\r\n\r\ng" ∧
      formatSource text ⟨"\r\n", "  "⟩ (.clamped 2 (some 5)) =
        .ok "  b; // c\r\n\r\n  /* d\r e */ void f;" := by
  obtain ⟨s, hs, hne⟩ := exists_tokenize_of_any "a \x7b b; // c\n/* d\r e */ void f; \x7d g"
    (show Option.any (fun s => s.isEmpty == false) _ = true by decide +kernel)
  replace hne := beq_iff_eq.1 hne
  obtain ⟨text, st, htext, hst, hslice⟩ :=
    formatSource_slice hs hne (show Style.IsPlain ⟨"\r\n", "  "⟩ by decide)
  have hvalue : (formatSource "a \x7b b; // c\n/* d\r e */ void f; \x7d g" ⟨"\r\n", "  "⟩ .all).toOption =
      some "a \x7b\r\n  b; // c\r\n\r\n  /* d\r e */ void f;\r\n\x7d\r\n\r\ng" := by
    decide +kernel
  rw [htext] at hvalue
  obtain rfl := Option.some.inj hvalue
  obtain ⟨st', hst', hcomments⟩ := exists_tokenize_of_any
    "a \x7b\r\n  b; // c\r\n\r\n  /* d\r e */ void f;\r\n\x7d\r\n\r\ng"
    (show Option.any (fun st => decide ((∀ t ∈ st.comments, ¬ (t.firstLine < 2 ∧ 2 ≤ t.lastLine)) ∧
      ∀ t ∈ st.comments, ¬ (t.firstLine ≤ 5 ∧ 5 < t.lastLine))) _ = true by decide +kernel)
  obtain rfl : st = st' := Except.ok.inj (hst.symm.trans hst')
  obtain ⟨hstart, hend⟩ := of_decide_eq_true hcomments
  refine ⟨s, _, hs, hne, htext, rfl, ?_⟩
  rw [hslice 2 5 (by decide) (by decide) (by decide +kernel) (by decide +kernel)
    (by decide +kernel) hstart hend]
  exact congrArg Except.ok (by decide +kernel)

end GrammarFormat
