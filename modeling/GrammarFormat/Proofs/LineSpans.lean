import GrammarFormat.Proofs.Parts

/-!
# The lines of parts

A position counts the lines that have ended (`line_advance`), so each part starts on the line on which
the part before it ends, or behind it (`pairwise_partsOf`).
-/

namespace GrammarFormat

/-! ### Ends of lines -/

open Text (lineEnds)

variable {x y : List Char}

theorem Text.lineEnds_le_append (x y : List Char) : lineEnds x ≤ lineEnds (x ++ y) := by
  by_cases h : x.getLast? = some '\r' ∧ y.head? = some '\n'
  · obtain ⟨⟨x, rfl⟩, ⟨y, rfl⟩⟩ := h.imp List.getLast?_eq_some_iff.1 List.head?_eq_some_iff.1
    have hleft : lineEnds (x ++ ['\r']) = lineEnds x + 1 := lineEnds_append (by simp)
    have hboth : lineEnds (x ++ '\r' :: '\n' :: y) = lineEnds x + (lineEnds y + 1) :=
      lineEnds_append (by simp)
    rw [List.append_assoc, List.singleton_append, hleft, hboth]
    omega
  · rw [lineEnds_append fun hx hy => h ⟨hx, hy⟩]
    omega

/-! ### Parts in order -/

theorem Position.le_line_advance (pos : Position) (x : List Char) : pos.line ≤ (pos.advance x).line := by
  rw [line_advance]
  omega

theorem Position.line_last_le (pos : Position) (x : List Char) :
    (pos.last x).line ≤ (pos.advance x).line := by
  rw [last, line_advance, line_advance]
  have := Text.lineEnds_le_append x.dropLast (x.drop (x.length - 1))
  rw [List.dropLast_eq_take, List.take_append_drop] at this
  rw [List.dropLast_eq_take]
  omega

variable {pos : Position} {l : List Span}

theorem lines_partsOf (pos : Position) (l : List Span) :
    ∀ part ∈ partsOf pos l, pos.line ≤ part.firstLine ∧ part.firstLine ≤ part.lastLine := by
  induction l generalizing pos with
  | nil => simp [partsOf]
  | cons span l ih =>
    have hfirst := pos.le_line_advance span.blanks
    have hnext := (pos.advance span.blanks).le_line_advance span.text
    have hrest : ∀ part ∈ partsOf ((pos.advance span.blanks).advance span.text) l,
        pos.line ≤ part.firstLine ∧ part.firstLine ≤ part.lastLine := fun part hpart => by
      have := ih _ part hpart
      omega
    simp only [partsOf]
    split_ifs
    · exact hrest
    · refine List.forall_mem_cons.2 ⟨⟨hfirst, ?_⟩, hrest⟩
      exact Position.le_line_advance ..

/-- No part starts before the line on which an earlier one ends. -/
theorem pairwise_partsOf (pos : Position) (l : List Span) :
    (partsOf pos l).Pairwise fun a b => a.lastLine ≤ b.firstLine := by
  induction l generalizing pos with
  | nil => exact .nil
  | cons span l ih =>
    simp only [partsOf]
    split_ifs
    · exact ih _
    · refine List.pairwise_cons.2 ⟨fun part hpart => ?_, ih _⟩
      exact ((pos.advance span.blanks).line_last_le span.text).trans (lines_partsOf _ l part hpart).1

theorem lines_parts {source : String} {s : TokenStream} (hs : tokenize source = .ok s) :
    (∀ part ∈ s.parts, 1 ≤ part.firstLine ∧ part.firstLine ≤ part.lastLine) ∧
      s.parts.Pairwise fun a b => a.lastLine ≤ b.firstLine := by
  obtain ⟨l, trailing, -, hparts⟩ := exists_cut_parts hs
  rw [hparts]
  exact ⟨lines_partsOf .start l, pairwise_partsOf .start l⟩

end GrammarFormat
