import GrammarFormat.Proofs.Items

/-!
# Reading texts line by line

A text behind a line break is read as it is alone, further down: no lexeme before the break looks behind it and none
behind it looks back. The tokens of two texts with a line break between them are those of the first one without its
end mark and those of the second one, `down` by the lines of the first (`tokenize_append_line`).
-/

namespace GrammarFormat

open Lexeme

def Position.down (n : Nat) (pos : Position) : Position :=
  { pos with line := pos.line + n }

def Trivia.down (n : Nat) (t : Trivia) : Trivia :=
  { t with firstLine := t.firstLine + n, lastLine := t.lastLine + n }

/-- The token with its trivia, `n` lines further down. -/
def Token.down (n : Nat) (t : Token) : Token :=
  { t with first := t.first.down n, last := t.last.down n, trivia := t.trivia.map (Trivia.down n) }

/-- The token with more trivia in front of its own. -/
def Token.behind (trivia : List Trivia) (t : Token) : Token :=
  { t with trivia := trivia ++ t.trivia }

theorem Position.advance_down (n : Nat) (pos : Position) (x : List Char) :
    (pos.down n).advance x = (pos.advance x).down n := by
  have hnext : ∀ pos : Position, (pos.down n).nextLine = pos.nextLine.down n := by
    intro pos
    simp only [down, nextLine, Nat.add_right_comm]
  fun_induction advance pos x with
  | case1 pos => rfl
  | case2 pos rest ih => rw [advance, hnext, ih]
  | case3 pos rest hrest ih => rw [advance.eq_3 _ _ hrest, hnext, ih]
  | case4 pos rest ih => rw [advance, hnext, ih]
  | case5 pos c rest h₁ h₂ h₃ ih => rw [advance.eq_5 _ _ _ h₁ h₂ h₃, ← ih]; rfl

theorem Lexeme.lastPosition_down (n : Nat) (lexeme : Lexeme) (pos : Position) (x : List Char) :
    lexeme.lastPosition (pos.down n) x = (lexeme.lastPosition pos x).down n := by
  unfold lastPosition
  split
  · rfl
  · exact pos.advance_down n x.dropLast

/-! ### Spans and their tokens -/

variable {a b trailing trailing' : List Char} {l l' : List Span} {pos : Position} {trivia : List Trivia}
  {tokens : List Token}

theorem Cut.append_line (ha : Cut a l trailing) (hb : Cut b l' trailing') (hlast : a.getLast? ≠ some '\r') :
    Cut (a ++ '\n' :: b) (l ++ ⟨trailing, some (.trivia .lineBreak), ['\n']⟩ :: l') trailing' := by
  induction ha with
  | nil hblanks =>
    have hbreak : Reads (.trivia .lineBreak) ['\n'] b := reads_lineBreak (by decide) (by simp)
    exact .cons hblanks hbreak hb
  | @cons blanks x r _ lexeme l hblanks hx _ ih =>
    have hreads : Reads lexeme x (r ++ '\n' :: b) := by
      refine hx.append_terminator rfl ?_
      rintro ⟨rfl, rfl, -⟩
      simp at hlast
    have hrest : r.getLast? ≠ some '\r' := by
      intro hr
      have hne : r ≠ [] := by
        rintro rfl
        cases hr
      rw [← List.append_assoc, List.getLast?_append_of_ne_nil _ hne] at hlast
      exact hlast hr
    rw [List.append_assoc, List.append_assoc]
    exact .cons hblanks hreads (ih hrest)

namespace Scans

theorem down (n : Nat) (h : Scans trailing pos trivia l tokens) :
    Scans trailing (pos.down n) (trivia.map (Trivia.down n)) l (tokens.map (Token.down n)) := by
  induction h with
  | @nil pos trivia =>
    have h := @Scans.nil trailing (pos.down n) (trivia.map (Trivia.down n))
    rwa [Position.advance_down] at h
  | trivia _ ih =>
    refine .trivia ?_
    rw [Position.advance_down, lastPosition_down, Position.advance_down]
    rwa [List.map_append] at ih
  | @token pos trivia lexeme blanks x l tokens hlexeme _ ih =>
    rw [← Position.advance_down, ← Position.advance_down] at ih
    have h := @Scans.token trailing (pos.down n) (trivia.map (Trivia.down n)) _ blanks x _ _ hlexeme ih
    rwa [Position.advance_down, lastPosition_down] at h

/-- Trivia that wait end up in front of the first token. -/
theorem behind (h : Scans trailing pos trivia l tokens) : ∃ first rest, tokens = first :: rest ∧
    ∀ front, Scans trailing pos (front ++ trivia) l (first.behind front :: rest) := by
  induction h with
  | nil => exact ⟨_, [], rfl, fun front => .nil⟩
  | trivia _ ih =>
    obtain ⟨first, rest, rfl, h⟩ := ih
    refine ⟨first, rest, rfl, fun front => .trivia ?_⟩
    rw [List.append_assoc]
    exact h front
  | token hlexeme h => exact ⟨_, _, rfl, fun front => .token hlexeme h⟩

/-- Spans behind a line break take over the trivia of the end mark. -/
theorem append_line (h : Scans trailing pos trivia l tokens) : ∃ front last, tokens = front ++ [last] ∧
    ∀ {trailing' l' tokens'}, Scans trailing' last.first.nextLine
      (last.trivia ++ [⟨.lineBreak, "\n", last.first.line, last.first.line⟩]) l' tokens' →
        Scans trailing' pos trivia (l ++ ⟨trailing, some (.trivia .lineBreak), ['\n']⟩ :: l') (front ++ tokens') := by
  induction h with
  | nil => exact ⟨[], _, rfl, fun h => .trivia h⟩
  | trivia _ ih =>
    obtain ⟨front, last, rfl, h⟩ := ih
    exact ⟨front, last, rfl, fun h' => .trivia (h h')⟩
  | token hlexeme _ ih =>
    obtain ⟨front, last, rfl, h⟩ := ih
    exact ⟨_ :: front, last, rfl, fun h' => .token hlexeme (h h')⟩

end Scans

/-- Two texts with a line break between them. -/
theorem tokenize_append_line {a b : String} {sa sb : TokenStream} (ha : tokenize a = .ok sa)
    (hb : tokenize b = .ok sb) (hlast : a.toList.getLast? ≠ some '\r') :
    ∃ front last first rest, sa.tokens.toList = front ++ [last] ∧ last.kind = .endOfFile ∧
      (∀ t ∈ front, t.kind ≠ .endOfFile) ∧ sb.tokens.toList = first :: rest ∧
      ∃ s, tokenize (a ++ "\n" ++ b) = .ok s ∧ s.tokens.toList = front ++
        ((first.down last.first.line).behind
          (last.trivia ++ [⟨.lineBreak, "\n", last.first.line, last.first.line⟩]) ::
            rest.map (Token.down last.first.line)) := by
  obtain ⟨l, trailing, hcut, hscans⟩ := tokenize_eq_ok_iff.1 ha
  obtain ⟨l', trailing', hcut', hscans'⟩ := tokenize_eq_ok_iff.1 hb
  obtain ⟨front, last, htokens, hkind, -, hends⟩ := hscans.exists_end hcut.reads
  obtain ⟨front', last', htokens', happend⟩ := hscans.append_line
  obtain ⟨rfl, rfl⟩ : front = front' ∧ last = last' := by
    rw [htokens] at htokens'
    simpa using List.append_inj' htokens' rfl
  obtain ⟨first, rest, hfirst, -⟩ := hscans'.behind
  -- the second text starts on the line behind the end mark, as the first one starts on line 1
  have hdown := hscans'.down last.first.line
  rw [hfirst, List.map_cons] at hdown
  have hstart : Position.start.down last.first.line = last.first.nextLine := by
    simp only [Position.start, Position.down, Position.nextLine, Nat.add_comm]
  obtain ⟨_, _, hcons, hbehind⟩ := hdown.behind
  cases hcons
  rw [hstart] at hbehind
  simp only [List.map_nil, List.append_nil] at hbehind
  have hall := happend (hbehind _)
  have hcutall := hcut.append_line hcut' hlast
  rw [show a.toList ++ '\n' :: b.toList = (a ++ "\n" ++ b).toList by simp] at hcutall
  have htoList := TokenStream.toList_ofTokens hall.getLast?_kind
  refine ⟨front, last, first, rest, htokens, hkind, hends, hfirst, .ofTokens _, ?_, htoList⟩
  exact tokenize_eq_ok_iff.2 ⟨_, _, hcutall, by rwa [htoList]⟩

theorem tokenize_append_line_of_comments : ∃ sa sb, tokenize "a /*\r\n*/ // b" = .ok sa ∧ tokenize "\r/**/ c\r" = .ok sb ∧
    ∃ front last first rest, sa.tokens.toList = front ++ [last] ∧ last.kind = .endOfFile ∧
      (∀ t ∈ front, t.kind ≠ .endOfFile) ∧ sb.tokens.toList = first :: rest ∧
      ∃ s, tokenize ("a /*\r\n*/ // b" ++ "\n" ++ "\r/**/ c\r") = .ok s ∧ s.tokens.toList = front ++
        ((first.down last.first.line).behind
          (last.trivia ++ [⟨.lineBreak, "\n", last.first.line, last.first.line⟩]) ::
            rest.map (Token.down last.first.line)) := by
  obtain ⟨sa, hsa, -⟩ := exists_tokenize_of_any "a /*\r\n*/ // b"
    (show Option.any (fun _ => true) _ = true by decide +kernel)
  obtain ⟨sb, hsb, -⟩ := exists_tokenize_of_any "\r/**/ c\r"
    (show Option.any (fun _ => true) _ = true by decide +kernel)
  exact ⟨sa, sb, hsa, hsb, tokenize_append_line hsa hsb (by decide)⟩

end GrammarFormat
