import GrammarFormat.Proofs.Formatting
import GrammarFormat.Proofs.Gaps

/-!
# Layout without a style

What is written is a list of entries that no style has a part in: images, each with its level of indent and
one of four spacings in front of it (`format_entries`). So there is never more than one blank line between two
pieces. The invariant is that of the pen, `Pen.Bounded`: the line breaks that it holds and those that it owes
are two at most, and it is at the start of a line only behind a line break or in front of everything.
-/

namespace GrammarFormat

/-- What stands in front of an entry. -/
inductive Spacing where
  | none | space | line | blankLine
  deriving DecidableEq, Repr

structure Entry where
  image : String
  spacing : Spacing
  level : Nat
  deriving DecidableEq, Repr

def Spacing.text (style : Style) : Spacing → String
  | none => ""
  | space => " "
  | line => style.delimiter
  | blankLine => style.delimiter ++ style.delimiter

def Spacing.isBreak : Spacing → Bool
  | line | blankLine => true
  | _ => false

/-- An entry with its indent. -/
def Entry.text (style : Style) (e : Entry) : String :=
  Text.copies e.level style.unit ++ e.image

/-- The text of entries in a row; nothing stands in front of the first. -/
def Entry.textOf (style : Style) : List Entry → String
  | [] => ""
  | e :: es => e.text style ++ String.join (es.map fun e => e.spacing.text style ++ e.text style)

/-! ### Pieces and entries -/

def Separator.spacing : Separator → Spacing
  | none => .none
  | space => .space
  | lines 0 => .none
  | lines 1 => .line
  | lines _ => .blankLine

def Piece.entry (p : Piece) : Entry :=
  ⟨p.image, p.separator.spacing, p.level⟩

/-- A piece in a line is not indented, and at most one blank line is in front of one that starts a line. -/
def Piece.Tidy (p : Piece) : Prop :=
  match p.separator with
  | .lines n => n = 1 ∨ n = 2
  | _ => p.level = 0

namespace Piece.Tidy

variable {p : Piece}

theorem text_spacing (h : p.Tidy) (style : Style) : p.entry.spacing.text style = p.separator.text style := by
  unfold Piece.Tidy at h
  rw [entry]
  cases hseparator : p.separator with
  | none | space => rfl
  | lines n =>
    rw [hseparator] at h
    rcases h with rfl | rfl
    · simp [Separator.spacing, Spacing.text, Separator.text, Text.copies, String.join]
    · simp [Separator.spacing, Spacing.text, Separator.text, Text.copies, String.join]

theorem isBreak (h : p.Tidy) (hlevel : p.entry.level ≠ 0) : p.entry.spacing.isBreak = true := by
  unfold Piece.Tidy at h
  rw [entry]
  cases hseparator : p.separator with
  | none | space =>
    rw [hseparator] at h
    exact absurd h hlevel
  | lines n =>
    rw [hseparator] at h
    rcases h with rfl | rfl <;> rfl

end Piece.Tidy

theorem Piece.textOf_entries (style : Style) {ps : List Piece} (h : ∀ p ∈ ps, p.Tidy) :
    Entry.textOf style (ps.map Piece.entry) = Piece.textOf style ps := by
  cases ps with
  | nil => rfl
  | cons p ps =>
    have hrest : ps.map (fun p => p.entry.spacing.text style ++ p.entry.text style) =
        ps.map fun p => p.separator.text style ++ p.text style := by
      refine List.map_congr_left fun q hq => ?_
      rw [(h q (List.mem_cons_of_mem p hq)).text_spacing]
      rfl
    rw [List.map_cons, Entry.textOf, Piece.textOf, List.map_map, Function.comp_def, hrest]
    rfl

/-! ### The pen -/

namespace Layout

/-- The pen between pieces: in front of everything, in a line, or at the start of one. -/
inductive Pen.Bounded (pen : Pen) : Prop
  | start (hstart : pen.lineStart = true) (hheld : pen.held = .none) (hpending : pen.pending = 0)
      (hline : pen.lineLevel = 0) (hlevel : pen.level = 0)
  | inLine (hstart : pen.lineStart = false) (hheld : pen.held = .none) (hpending : pen.pending ≤ 2)
  | ended {n : Nat} (hstart : pen.lineStart = true) (hheld : pen.held = .lines (n + 1))
      (hpending : n + 1 + pen.pending ≤ 2)

namespace Pen.Bounded

variable {pen : Pen}

theorem held_flush (h : pen.Bounded) (hpending : 0 < pen.pending) :
    ∃ n, pen.flush.held = .lines (n + 1) ∧ n + 1 ≤ 2 := by
  cases h with
  | start _ _ hnone => omega
  | inLine _ hheld hle =>
    obtain ⟨k, hk⟩ := Nat.exists_eq_add_one.2 hpending
    refine ⟨k, ?_, by omega⟩
    simp [flush, newlines, hheld, hk]
  | @ended n _ hheld hle =>
    refine ⟨n + pen.pending, ?_, by omega⟩
    simp only [flush, newlines, hheld]
    congr 1
    omega

theorem breakLine (h : pen.Bounded) : pen.breakLine.Bounded := by
  unfold Pen.breakLine
  split_ifs with hpending hstart
  · obtain ⟨n, hheld, hle⟩ := h.held_flush hpending
    exact .ended rfl hheld hle
  · exact h
  · cases h with
    | start hstart' | ended hstart' => exact absurd hstart' hstart
    | inLine _ hheld _ =>
      refine .ended (n := 0) rfl (by simp [newlines, hheld]) ?_
      change 0 + 1 + pen.pending ≤ 2
      omega

/-- Whatever the pen holds, the next piece is tidy with it in front. -/
theorem tidy_write (h : pen.Bounded) (image : String) (firstLine lastLine : Nat) :
    (pen.write image firstLine lastLine).1.Tidy ∧ (pen.space.write image firstLine lastLine).1.Tidy := by
  cases h with
  | start hstart hheld _ hline _ => simp [Piece.Tidy, write, space, hheld, hstart, hline]
  | inLine hstart hheld _ => simp [Piece.Tidy, write, space, hheld, hstart]
  | ended _ hheld hle =>
    simp only [Piece.Tidy, write, space, hheld]
    omega

theorem comment (h : pen.Bounded) (t : Trivia) : (pen.comment t).1.Tidy ∧ (pen.comment t).2.Bounded := by
  obtain ⟨hheld, hspace⟩ := h.tidy_write t.image t.firstLine t.lastLine
  refine ⟨?_, ?_⟩
  · cases hstart : pen.lineStart
    · simpa [Pen.comment, hstart] using hspace
    · simpa [Pen.comment, hstart] using hheld
  · have hpending : (if pen.lineStart then pen else pen.space).pending = pen.pending := by
      unfold space
      split_ifs
      · rfl
      · split <;> rfl
    have hle : pen.pending ≤ 2 := by
      cases h <;> omega
    by_cases hkind : t.kind = .lineComment
    · refine .ended (n := 0) (by simp [Pen.comment, hkind, newlines])
        (by simp [Pen.comment, hkind, newlines, write]) ?_
      simp only [Pen.comment, hkind, if_true, write, hpending]
      omega
    · refine .inLine (by simp [Pen.comment, hkind, write]) (by simp [Pen.comment, hkind, write]) ?_
      simp only [Pen.comment, hkind, if_false, write, hpending]
      exact hle

theorem trivia (h : pen.Bounded) (inRun : Bool) (trivia : List Trivia) :
    (∀ p ∈ (pen.trivia inRun trivia).1, p.Tidy) ∧ (pen.trivia inRun trivia).2.Bounded := by
  induction trivia generalizing pen inRun with
  | nil => exact ⟨List.forall_mem_nil _, h⟩
  | cons t trivia ih =>
    rw [Pen.trivia]
    split_ifs with hbreak hrun
    · exact ih h true
    · exact ih h.breakLine true
    · obtain ⟨hpiece, hpen⟩ := h.comment t
      obtain ⟨hpieces, hpen'⟩ := ih hpen false
      exact ⟨List.forall_mem_cons.2 ⟨hpiece, hpieces⟩, hpen'⟩

theorem converge (h : pen.Bounded) : pen.converge.Bounded := by
  cases h with
  | start hstart hheld hpending hline hlevel =>
    have hconverge : pen.converge = pen := by simp [Pen.converge, hline, hlevel]
    rw [hconverge]
    exact .start hstart hheld hpending hline hlevel
  | inLine hstart hheld hpending => exact .inLine (by simpa) (by simpa) (by simpa)
  | ended hstart hheld hpending => exact .ended (by simpa) (by simpa) (by simpa)

theorem token (h : pen.Bounded) (t : Token) : (pen.token t).1.Tidy := by
  have h := h.converge
  obtain ⟨hheld, hspace⟩ := h.tidy_write t.image t.first.line t.last.line
  rw [Pen.token, separate]
  split_ifs with hpending
  · obtain ⟨n, hflush, hle⟩ := h.held_flush hpending
    simp only [Piece.Tidy, write, hflush]
    omega
  · exact hspace
  · exact hheld

end Pen.Bounded

theorem Pen.bounded_apply (pen : Pen) (t : Token) {gap : Gap} (hgap : gap.newlines ≤ 2) :
    ((pen.token t).2.apply gap).Bounded :=
  .inLine rfl rfl hgap

theorem tidy_pieceGroups {pen : Pen} (h : pen.Bounded) (tokens : List Token) {gaps : List Gap}
    (hgaps : ∀ gap ∈ gaps, gap.newlines ≤ 2) : ∀ p ∈ (pieceGroups pen tokens gaps).flatten, p.Tidy := by
  induction tokens generalizing pen gaps with
  | nil => exact List.forall_mem_nil _
  | cons t tokens ih =>
    obtain ⟨hcomments, hpen⟩ := h.trivia false t.trivia
    cases gaps with
    | nil =>
      rw [pieceGroups, List.flatten_singleton]
      exact hcomments
    | cons gap gaps =>
      obtain ⟨hgap, hgaps⟩ := List.forall_mem_cons.1 hgaps
      rw [pieceGroups, List.flatten_cons]
      refine List.forall_mem_append.2 ⟨List.forall_mem_append.2 ⟨hcomments, ?_⟩, ?_⟩
      · exact List.forall_mem_singleton.2 (hpen.token t)
      · exact ih (Pen.bounded_apply _ t hgap) hgaps

theorem tidy_pieces (s : TokenStream) : ∀ p ∈ pieces s, p.Tidy :=
  tidy_pieceGroups (.start rfl rfl rfl rfl rfl) _ (newlines_decisions_le s)

end Layout

/-! ### The end of the text -/

theorem Text.exists_dropCopies (delimiter text : List Char) : ∃ n,
    text = (List.replicate n delimiter).flatten ++ dropCopies delimiter text ∧
      (delimiter = [] → n = 0) ∧ (delimiter ≠ [] → ¬ delimiter <+: dropCopies delimiter text) := by
  fun_induction dropCopies delimiter text with
  | case1 text h ih =>
    obtain ⟨n, hn, -, hrest⟩ := ih
    obtain ⟨hne, hprefix⟩ := h
    refine ⟨n + 1, ?_, fun hnil => absurd hnil hne, hrest⟩
    rw [List.replicate_succ, List.flatten_cons, List.append_assoc, ← hn]
    exact (List.prefix_iff_eq_append.1 hprefix).symm
  | case2 text h => exact ⟨0, rfl, fun _ => rfl, fun hne hprefix => h ⟨hne, hprefix⟩⟩

theorem Text.exists_dropEndCopies (delimiter text : String) : ∃ n,
    text = dropEndCopies delimiter text ++ copies n delimiter ∧ (delimiter = "" → n = 0) ∧
      (delimiter ≠ "" → ¬ delimiter.toList <:+ (dropEndCopies delimiter text).toList) := by
  obtain ⟨n, hn, hnil, hrest⟩ := exists_dropCopies delimiter.toList.reverse text.toList.reverse
  refine ⟨n, ?_, fun hempty => hnil (by rw [hempty]; rfl), fun hne hsuffix => ?_⟩
  · rw [← String.toList_inj, String.toList_append, toList_copies, dropEndCopies, String.toList_ofList,
      ← List.reverse_inj, List.reverse_append, List.reverse_reverse, List.reverse_flatten, List.map_replicate,
      List.reverse_replicate, ← hn]
  · refine hrest (by simpa using hne) ?_
    rw [dropEndCopies, String.toList_ofList] at hsuffix
    have := List.reverse_prefix.2 hsuffix
    rwa [List.reverse_reverse] at this

open Layout

variable {s : TokenStream}

/-- The text that is accumulated is that of entries which depend on the stream and the range alone. What is
returned is this text without the copies of the delimiter at its end. -/
theorem format_entries (hne : s.isEmpty = false) (range : LineRange) : ∃ entries : List Entry,
    entries.map Entry.image = ((pieces s).filter (·.isIn range)).map Piece.image ∧
    (∀ e ∈ entries, e.level ≠ 0 → e.spacing.isBreak = true) ∧ ∀ style : Style,
      Piece.textOf style ((pieces s).filter (·.isIn range)) = Entry.textOf style entries ∧
      ∃ text n, format s style range = .ok text ∧
        Entry.textOf style entries = text ++ Text.copies n style.delimiter ∧
        (style.delimiter = "" → n = 0) ∧
          (style.delimiter ≠ "" → ¬ style.delimiter.toList <:+ text.toList) := by
  have htidy : ∀ p ∈ (pieces s).filter (·.isIn range), p.Tidy := fun p hp =>
    tidy_pieces s p (List.mem_filter.1 hp).1
  refine ⟨((pieces s).filter (·.isIn range)).map Piece.entry, List.map_map, ?_, fun style => ?_⟩
  · intro e he hlevel
    obtain ⟨p, hp, rfl⟩ := List.mem_map.1 he
    exact (htidy p hp).isBreak hlevel
  · have htext := Piece.textOf_entries style htidy
    obtain ⟨n, hn, hempty, hend⟩ := Text.exists_dropEndCopies style.delimiter
      (Piece.textOf style ((pieces s).filter (·.isIn range)))
    refine ⟨htext.symm, render style range (pieces s), n, ?_, htext.trans hn, hempty, hend⟩
    rw [format, hne]
    rfl

theorem format_entries_of_block : ∃ s entries, tokenize "a \x7b // b\n /* c\r\r */ d; \x7d" = .ok s ∧
    s.isEmpty = false ∧ entries.map Entry.image = ["/* c\r\r */", "d", ";", "\x7d"] ∧
    ∀ style : Style, ∃ text n, format s style (.clamped 2 (some 4)) = .ok text ∧
      Entry.textOf style entries = text ++ Text.copies n style.delimiter := by
  obtain ⟨s, hs, h⟩ := exists_tokenize_of_any "a \x7b // b\n /* c\r\r */ d; \x7d"
    (show Option.any (fun s => s.isEmpty == false && ((pieces s).filter (·.isIn (.clamped 2 (some 4)))).map
      Piece.image == ["/* c\r\r */", "d", ";", "\x7d"]) _ = true by decide +kernel)
  obtain ⟨hne, himages⟩ := Bool.and_eq_true_iff.1 h
  replace hne := beq_iff_eq.1 hne
  obtain ⟨entries, hentries, -, htext⟩ := format_entries hne (.clamped 2 (some 4))
  refine ⟨s, entries, hs, hne, hentries.trans (beq_iff_eq.1 himages), fun style => ?_⟩
  obtain ⟨-, text, n, hformat, hn, -⟩ := htext style
  exact ⟨text, n, hformat, hn⟩

end GrammarFormat
