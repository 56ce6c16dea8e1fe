import GrammarFormat.Layout.Render
import GrammarFormat.Proofs.Parts

/-!
# Reading the text of pieces

The text of pieces is cut into the pieces again, with line breaks where their separators have them, if
each piece is *apart* from the one before it (`hasLexemes_textOf`). Being apart concerns two neighbours
only: without a separator the first must be read the same with the second behind it, whatever follows.
-/

namespace GrammarFormat

open Lexeme

/-! ### Styles -/

/-- Lines are ended by `\n`, `\r\n` or `\r`. -/
def Style.EndsLines (style : Style) : Prop :=
  style.delimiter ∈ ["\n", "\r\n", "\r"]

/-- Lines are ended by a line terminator and indented by spaces and tabs. -/
structure Style.IsPlain (style : Style) : Prop where
  endsLines : style.EndsLines
  blank : ∀ c ∈ style.unit.toList, isBlank c = true

instance (style : Style) : Decidable style.EndsLines :=
  inferInstanceAs (Decidable (_ ∈ _))

instance (style : Style) : Decidable style.IsPlain :=
  decidable_of_iff (style.EndsLines ∧ style.unit.toList.all isBlank = true)
    ⟨fun h => ⟨h.1, List.all_eq_true.1 h.2⟩, fun h => ⟨h.1, List.all_eq_true.2 h.2⟩⟩

variable {style : Style}

theorem Style.EndsLines.toList_mem (h : style.EndsLines) : style.delimiter.toList ∈ terminators := by
  have hdelimiters : ∀ delimiter ∈ ["\n", "\r\n", "\r"], delimiter.toList ∈ terminators := by decide
  exact hdelimiters _ h

theorem Style.EndsLines.delimiter_eq (h : style.EndsLines) :
    ∃ c d, style.delimiter.toList = c :: d ∧ isTerminator c = true := by
  have hheads : ∀ x ∈ terminators, x.head?.any isTerminator = true := by decide
  obtain ⟨c, hhead, hc⟩ := (Option.any_eq_true ..).1 (hheads _ h.toList_mem)
  obtain ⟨d, hd⟩ := List.head?_eq_some_iff.1 hhead
  exact ⟨c, d, hd, hc⟩

/-! ### Texts of pieces -/

@[simp] theorem Text.toList_copies (count : Nat) (text : String) :
    (Text.copies count text).toList = (List.replicate count text.toList).flatten := by
  rw [Text.copies, String.toList_join, List.flatMap_replicate]

theorem Separator.toList_text_space : (Separator.space.text style).toList = [' '] := by
  rw [Separator.text]
  decide

namespace Piece

@[simp] theorem textOf_nil : textOf style [] = "" := rfl

theorem textOf_singleton (p : Piece) : textOf style [p] = p.text style := by
  simp [textOf, String.join]

/-- Behind the first piece the text goes on with a separator and the text of the others. -/
theorem textOf_cons_cons (p q : Piece) (ps : List Piece) :
    textOf style (p :: q :: ps) =
      p.text style ++ (q.separator.text style ++ textOf style (q :: ps)) := by
  simp [textOf, String.join_cons, String.append_assoc]

/-- What `p` is read as. -/
def lexeme (p : Piece) : Lexeme :=
  ofText p.image.toList

/-- A comment or a token: by itself, its image is read as a lexeme that is no break. -/
structure IsCode (p : Piece) : Prop where
  reads : Reads p.lexeme p.image.toList []
  not_break : p.lexeme.isBreak = false

/-- `q` can be written behind `p`; only at the start of a line is it indented. -/
def Apart (p q : Piece) : Prop :=
  match q.separator with
  | .none => q.level = 0 ∧ ∀ r, Reads p.lexeme p.image.toList (q.image.toList ++ r)
  | .space => q.level = 0 ∧ p.lexeme ≠ trivia .lineComment
  | .lines n => 0 < n

end Piece

/-- The number of line breaks in a separator. -/
def Separator.breaks : Separator → Nat
  | lines n => n
  | _ => 0

/-- A piece with the line breaks in front of it. -/
def Piece.lexemes (style : Style) (p : Piece) : List (Lexeme × List Char) :=
  List.replicate p.separator.breaks (.trivia .lineBreak, style.delimiter.toList) ++
    [(p.lexeme, p.image.toList)]

/-- The lexemes in the text of pieces. -/
def Piece.lexemesOf (style : Style) : List Piece → List (Lexeme × List Char)
  | [] => []
  | p :: ps => (p.lexeme, p.image.toList) :: ps.flatMap (Piece.lexemes style)

section

variable {p q : Piece} {ps : List Piece} {s r : List Char} {ls : List (Lexeme × List Char)}

theorem Piece.lexemesOf_cons_cons : Piece.lexemesOf style (p :: q :: ps) =
    (p.lexeme, p.image.toList) ::
      (List.replicate q.separator.breaks (.trivia .lineBreak, style.delimiter.toList) ++
        Piece.lexemesOf style (q :: ps)) := by
  simp [Piece.lexemesOf, Piece.lexemes]

theorem code_lexemesOf (hcode : ∀ p ∈ ps, p.IsCode) :
    code (Piece.lexemesOf style ps) = ps.map (·.image.toList) := by
  have hbreak : (trivia .lineBreak).isBreak = true := rfl
  induction ps with
  | nil => rfl
  | cons p ps ih =>
    obtain ⟨hp, hcode⟩ := List.forall_mem_cons.1 hcode
    cases ps with
    | nil => simp [Piece.lexemesOf, code, hp.not_break]
    | cons q ps =>
      rw [Piece.lexemesOf_cons_cons, List.map_cons, ← ih hcode]
      simp [code, hp.not_break, hbreak]

theorem Piece.IsCode.ne_lineBreak (h : p.IsCode) : p.lexeme ≠ trivia .lineBreak := by
  intro hp
  have := h.not_break
  rw [hp] at this
  cases this

theorem Piece.IsCode.head_not_terminator (h : p.IsCode) (r : List Char) :
    ∀ c ∈ (p.image.toList ++ r).head?, isTerminator c = false := by
  intro c hc
  obtain ⟨d, x, hx⟩ := List.exists_cons_of_ne_nil h.reads.ne_nil
  rw [hx] at hc
  cases hc
  by_contra hterminator
  have hreads := h.reads
  rw [hx] at hreads
  exact h.ne_lineBreak (hreads.of_terminator_head (by simpa using hterminator))

/-! ### Reading them back -/

theorem Style.IsPlain.blank_copies (hstyle : style.IsPlain) (level : Nat) :
    ∀ c ∈ (Text.copies level style.unit).toList, isBlank c = true := by
  intro c hc
  rw [Text.toList_copies] at hc
  obtain ⟨unit, hunit, hc⟩ := List.mem_flatten.1 hc
  rw [List.eq_of_mem_replicate hunit] at hc
  exact hstyle.blank c hc

theorem Piece.toList_textOf_cons (style : Style) (p : Piece) (ps : List Piece) : ∃ r,
    (textOf style (p :: ps)).toList = (Text.copies p.level style.unit).toList ++ (p.image.toList ++ r) :=
  ⟨_, by rw [textOf, String.toList_append, Piece.text, String.toList_append, List.append_assoc]⟩

theorem Piece.IsCode.head_textOf (hstyle : style.IsPlain) (h : p.IsCode) (ps : List Piece) :
    ∀ c ∈ (Piece.textOf style (p :: ps)).toList.head?, isTerminator c = false := by
  obtain ⟨r, hr⟩ := Piece.toList_textOf_cons style p ps
  have hblank := hstyle.blank_copies p.level
  intro c hc
  rw [hr] at hc
  cases hunit : (Text.copies p.level style.unit).toList with
  | nil =>
    rw [hunit, List.nil_append] at hc
    exact h.head_not_terminator r c hc
  | cons d unit =>
    rw [hunit] at hc hblank
    cases hc
    have := hblank c (List.mem_cons_self ..)
    simp only [isBlank, Bool.or_eq_true, beq_iff_eq] at this
    rcases this with rfl | rfl <;> rfl

/-- Copies of the delimiter are line breaks, unless the text behind them completes the last one. -/
theorem HasLexemes.delimiters (hstyle : style.EndsLines) (h : HasLexemes s ls)
    (hs : ∀ c ∈ s.head?, isTerminator c = false) (n : Nat) :
    HasLexemes ((List.replicate n style.delimiter.toList).flatten ++ s)
      (List.replicate n (.trivia .lineBreak, style.delimiter.toList) ++ ls) := by
  induction n with
  | zero => exact h
  | succ n ih =>
    rw [List.replicate_succ, List.flatten_cons, List.append_assoc, List.replicate_succ]
    -- behind `\r` there is another delimiter, or the text
    refine .cons (reads_lineBreak hstyle.toList_mem fun hdelimiter => ?_) ih
    cases n with
    | zero =>
      intro hhead
      cases hs _ hhead
    | succ n => simp [List.replicate_succ, hdelimiter]

theorem Piece.Apart.reads (hstyle : style.EndsLines) (hp : p.IsCode) (h : p.Apart q) (ps : List Piece) :
    Reads p.lexeme p.image.toList
      ((q.separator.text style).toList ++ (Piece.textOf style (q :: ps)).toList) := by
  obtain ⟨r, hr⟩ := Piece.toList_textOf_cons style q ps
  unfold Piece.Apart at h
  cases hsep : q.separator with
  | none =>
    rw [hsep] at h
    simpa [hr, h.1, Separator.text, Text.copies] using h.2 r
  | space =>
    rw [hsep] at h
    rw [Separator.toList_text_space]
    exact hp.reads.before_space (.inl rfl) hp.ne_lineBreak fun hcomment => absurd hcomment h.2
  | lines n =>
    rw [hsep] at h
    obtain ⟨c, d, hdelimiter, hc⟩ := hstyle.delimiter_eq
    obtain ⟨n, rfl⟩ := Nat.exists_eq_add_one.2 h
    simp only [Separator.text, Text.toList_copies, List.replicate_succ, List.flatten_cons, hdelimiter,
      List.cons_append]
    exact hp.reads.before_space (.inr hc) hp.ne_lineBreak fun _ => hc

theorem HasLexemes.separator (hstyle : style.EndsLines) (h : HasLexemes s ls)
    (hs : ∀ c ∈ s.head?, isTerminator c = false) (separator : Separator) :
    HasLexemes ((separator.text style).toList ++ s)
      (List.replicate separator.breaks (.trivia .lineBreak, style.delimiter.toList) ++ ls) := by
  cases separator with
  | none => exact h
  | space =>
    rw [Separator.toList_text_space]
    exact h.blanks (by simp [isBlank])
  | lines n =>
    rw [Separator.text, Text.toList_copies]
    exact h.delimiters hstyle hs n

/-- Pieces that are apart from their neighbours are read back from their text. -/
theorem hasLexemes_textOf (hstyle : style.IsPlain) (hcode : ∀ p ∈ ps, p.IsCode)
    (hapart : ps.IsChain Piece.Apart) :
    HasLexemes (Piece.textOf style ps).toList (Piece.lexemesOf style ps) := by
  induction ps with
  | nil => exact .nil
  | cons p ps ih =>
    obtain ⟨hp, hcode⟩ := List.forall_mem_cons.1 hcode
    have hblank := hstyle.blank_copies p.level
    cases ps with
    | nil =>
      rw [Piece.textOf_singleton, Piece.text, String.toList_append]
      have := HasLexemes.nil.cons hp.reads
      rw [List.append_nil] at this
      exact this.blanks hblank
    | cons q ps =>
      obtain ⟨hpq, hapart⟩ := List.isChain_cons_cons.1 hapart
      obtain ⟨hq, -⟩ := List.forall_mem_cons.1 hcode
      have hrest := (ih hcode hapart).separator hstyle.endsLines (hq.head_textOf hstyle ps) q.separator
      rw [Piece.textOf_cons_cons, Piece.lexemesOf_cons_cons, Piece.text]
      simp only [String.toList_append, List.append_assoc]
      exact (hrest.cons (hpq.reads hstyle.endsLines hp ps)).blanks hblank

theorem hasCode_textOf (hstyle : style.IsPlain) (hcode : ∀ p ∈ ps, p.IsCode)
    (hapart : ps.IsChain Piece.Apart) :
    HasCode (Piece.textOf style ps).toList (Part.texts (ps.map Piece.part)) := by
  refine ⟨_, hasLexemes_textOf hstyle hcode hapart, ?_⟩
  rw [code_lexemesOf hcode, Part.texts, List.map_map]
  rfl

/-! ### The end of a text -/

/-- The text of pieces in two parts, of which the first is not empty. -/
theorem Piece.textOf_append (hps : ps ≠ []) (q : Piece) (qs : List Piece) :
    textOf style (ps ++ q :: qs) =
      textOf style ps ++ (q.separator.text style ++ textOf style (q :: qs)) := by
  obtain ⟨p, ps, rfl⟩ := List.exists_cons_of_ne_nil hps
  simp [textOf, String.join_append, String.join_cons, String.append_assoc]

theorem Piece.exists_textOf_concat (style : Style) (ps : List Piece) (q : Piece) :
    ∃ u, textOf style (ps ++ [q]) = u ++ q.image := by
  by_cases hps : ps = []
  · exact ⟨_, by rw [hps, List.nil_append, textOf_singleton, Piece.text]⟩
  · exact ⟨textOf style ps ++ (q.separator.text style ++ Text.copies q.level style.unit), by
      rw [textOf_append hps, textOf_singleton, Piece.text]; simp only [String.append_assoc]⟩

theorem Style.EndsLines.not_suffix_textOf (hstyle : style.EndsLines) (hcode : ∀ p ∈ ps, p.IsCode) :
    ¬ style.delimiter.toList <:+ (Piece.textOf style ps).toList := by
  have hends : ∀ x ∈ terminators, x.getLast?.any isTerminator = true := by decide
  obtain ⟨c, hc, hterminator⟩ := (Option.any_eq_true ..).1 (hends _ hstyle.toList_mem)
  rintro ⟨u, hu⟩
  have hlast : (Piece.textOf style ps).toList.getLast? = some c := by
    rw [← hu, List.getLast?_append, hc]; rfl
  rcases List.eq_nil_or_concat ps with rfl | ⟨ps, q, rfl⟩
  · cases hlast
  · have hq := hcode q (by simp)
    obtain ⟨v, hv⟩ := Piece.exists_textOf_concat style ps q
    rw [List.concat_eq_append, hv, String.toList_append,
      List.getLast?_append_of_ne_nil _ hq.reads.ne_nil] at hlast
    have := hq.reads.getLast_not_terminator hq.ne_lineBreak c hlast
    rw [this] at hterminator
    cases hterminator

theorem Text.dropEndCopies_of_not_suffix {delimiter text : String}
    (h : ¬ delimiter.toList <:+ text.toList) : Text.dropEndCopies delimiter text = text := by
  rw [Text.dropEndCopies, Text.dropCopies, dif_neg fun hprefix => h (List.reverse_prefix.1 hprefix.2),
    List.reverse_reverse, String.ofList_toList]

/-- Nothing is cut off behind comments and tokens. -/
theorem Layout.render_eq (hstyle : style.EndsLines) (hcode : ∀ p ∈ ps, p.IsCode) (range : LineRange) :
    Layout.render style range ps = Piece.textOf style (ps.filter (·.isIn range)) :=
  Text.dropEndCopies_of_not_suffix
    (hstyle.not_suffix_textOf fun p hp => hcode p (List.mem_filter.1 hp).1)

end

end GrammarFormat
