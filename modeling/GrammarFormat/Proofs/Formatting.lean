import GrammarFormat.Format
import GrammarFormat.Proofs.LineSpans
import GrammarFormat.Proofs.Writing

/-!
# The formatted text

Formatting writes the pieces that lie in the range and nothing else (`formatSource_eq`). The text of all
pieces has the code of the source, so formatting changes neither tokens nor comments
(`formatSource_keeps_contents`).
-/

namespace GrammarFormat

open Lexeme Layout

variable {source : String} {s : TokenStream} {style : Style}

theorem part_mem_parts (hs : tokenize source = .ok s) {p : Piece} (hp : p ∈ pieces s) : p.part ∈ s.parts := by
  rw [← part_pieces (lexed_of_tokenize hs)]
  exact List.mem_map_of_mem hp

theorem isCode_pieces (hs : tokenize source = .ok s) : ∀ p ∈ pieces s, p.IsCode := by
  intro p hp
  obtain ⟨ls, hls, hcode⟩ := hasCode_source hs
  have hmem : p.image.toList ∈ code ls := by
    rw [hcode]
    exact List.mem_map_of_mem (f := fun part : Part => part.image.toList) (part_mem_parts hs hp)
  obtain ⟨u, hu, himage⟩ := List.mem_map.1 hmem
  obtain ⟨hu, hbreak⟩ := List.mem_filter.1 hu
  have hreads := hls.reads u hu
  have hlexeme : p.lexeme = u.1 := by rw [Piece.lexeme, ← himage, hreads.ofText_eq]
  exact ⟨by rw [hlexeme, ← himage]; exact hreads, by rw [hlexeme]; simpa using hbreak⟩

/-- The formatted text is that of the pieces in the range. -/
theorem formatSource_eq (hs : tokenize source = .ok s) (hne : s.isEmpty = false) (hstyle : style.EndsLines)
    (range : LineRange) :
    formatSource source style range = .ok (Piece.textOf style ((pieces s).filter (·.isIn range))) := by
  simp only [formatSource, hs, format, hne, Bool.false_eq_true, if_false,
    render_eq hstyle (isCode_pieces hs) range]

/-- The whole document holds all pieces of a text. -/
theorem filter_all_pieces (hs : tokenize source = .ok s) : (pieces s).filter (·.isIn .all) = pieces s := by
  refine List.filter_eq_self.2 fun p hp => ?_
  have hfirst := ((lines_parts hs).1 p.part (part_mem_parts hs hp)).1
  exact Bool.and_eq_true_iff.2 ⟨decide_eq_true hfirst, rfl⟩

theorem formatSource_all (hs : tokenize source = .ok s) (hne : s.isEmpty = false) (hstyle : style.EndsLines) :
    formatSource source style .all = .ok (Piece.textOf style (pieces s)) := by
  rw [formatSource_eq hs hne hstyle, filter_all_pieces hs]

/-- The text of all pieces is read back as the source is. -/
theorem exists_tokenize_textOf (hs : tokenize source = .ok s) (hstyle : style.IsPlain) :
    ∃ s', tokenize (Piece.textOf style (pieces s)) = .ok s' ∧ s'.contents = s.contents := by
  have hlexed := lexed_of_tokenize hs
  have hcode := hasCode_textOf hstyle (isCode_pieces hs) (isChain_pieces hlexed)
  rw [part_pieces hlexed] at hcode
  exact exists_tokenize_contents hs (hasCode_source hs) hcode

/-- Formatting succeeds, and its result has the tokens of the source: as many, and each with the kind, the
image and the comments that it has there. -/
theorem formatSource_keeps_contents (hs : tokenize source = .ok s) (hne : s.isEmpty = false)
    (hstyle : style.IsPlain) :
    ∃ text s', formatSource source style .all = .ok text ∧ tokenize text = .ok s' ∧
      s'.contents = s.contents := by
  obtain ⟨s', hs', hcontents⟩ := exists_tokenize_textOf hs hstyle
  exact ⟨_, s', formatSource_all hs hne hstyle.endsLines, hs', hcontents⟩

theorem formatSource_keeps_contents_of_number : ∃ s text s',
    tokenize "f (1 .e1 /* a */ . . // b\r\n>> >)" = .ok s ∧ s.isEmpty = false ∧
      formatSource "f (1 .e1 /* a */ . . // b\r\n>> >)" ⟨"\r", ""⟩ .all = .ok text ∧
      tokenize text = .ok s' ∧ s'.contents = s.contents := by
  obtain ⟨s, hs, hne⟩ := exists_tokenize_of_any "f (1 .e1 /* a */ . . // b\r\n>> >)"
    (show Option.any (fun s => s.isEmpty == false) _ = true by decide +kernel)
  replace hne := beq_iff_eq.1 hne
  obtain ⟨text, s', h⟩ := formatSource_keeps_contents hs hne (show Style.IsPlain ⟨"\r", ""⟩ by decide)
  exact ⟨s, text, s', hs, hne, h⟩

end GrammarFormat
