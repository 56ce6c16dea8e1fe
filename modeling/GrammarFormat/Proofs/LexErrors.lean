import GrammarFormat.Proofs.Positions

/-!
# Where reading fails

A text that cannot be read has a first stray part. What stands before that part is read without an error when the rest
is cut off, since each lexeme is read the same with less behind it (`exists_stray`), and its end is the place at which
the error is reported (`tokenize_error_located`).
-/

namespace GrammarFormat

open Lexeme

variable {place : Nat → Position} {offset : Nat} {trivia : List Trivia} {trailing s y : List Char} {e : LexError}

/-- Behind a span with a lexeme an error is one of the spans to come. -/
theorem tokensOfSpans_error_of_cons {blanks x : List Char} {lexeme : Lexeme} {l : List Span}
    (h : tokensOfSpans place offset trivia trailing (⟨blanks, some lexeme, x⟩ :: l) = .error e) :
    ∃ trivia', tokensOfSpans place (offset + Text.byteSize blanks + Text.byteSize x) trivia' trailing l = .error e := by
  rcases lexeme with kind | _ | kind
  · exact ⟨_, h⟩
  all_goals
    refine ⟨[], ?_⟩
    simp only [tokensOfSpans] at h
    rcases hrest : tokensOfSpans place (offset + Text.byteSize blanks + Text.byteSize x) [] trailing l with e' | tokens
    · rw [hrest] at h
      cases h
      rfl
    · rw [hrest] at h
      cases h

/-- A text with an error is lexemes and blanks up to a place at which no lexeme starts. -/
theorem exists_stray (h : tokensOfSpans place offset trivia trailing (spans s).1 = .error e) :
    ∃ before l blanks rest, s = before ++ rest ∧ Cut before l blanks ∧ rest ≠ [] ∧ at? rest = none ∧
      e = ⟨place (offset + Text.byteSize before), String.ofList (rest.take (strayWidth rest))⟩ := by
  fun_induction spans s generalizing offset trivia with
  | case1 s hs => cases h
  | case2 s c rest hs found =>
    rename_i following ih
    have hsource : s = s.takeWhile isBlank ++ (c :: rest) := by rw [← hs, List.takeWhile_append_dropWhile]
    have hblanks : ∀ b ∈ s.takeWhile isBlank, isBlank b = true := fun b hb => List.mem_takeWhile_imp hb
    rcases hat : at? (c :: rest) with _ | ⟨lexeme, n⟩
    · have hfound : found = (none, strayWidth (c :: rest)) := by simp only [found, head, hat]
      rw [hfound] at h
      cases h
      exact ⟨s.takeWhile isBlank, [], s.takeWhile isBlank, c :: rest, hsource, .nil hblanks, by simp, hat, rfl⟩
    · have hfound : found = (some lexeme, n) := by simp only [found, head, hat]
      rw [hfound] at h
      obtain ⟨trivia', h⟩ := tokensOfSpans_error_of_cons h
      obtain ⟨before, l, blanks, stray, hdrop, hcut, hne, hstray, rfl⟩ := ih h
      rw [hfound] at hdrop
      -- the lexeme is read in front of all that follows it, and so in front of a part of that
      have hreads : Reads lexeme ((c :: rest).take n) (before ++ stray) := by
        rw [Reads, ← hdrop, List.take_append_drop, hat, List.length_take, Nat.min_eq_left (at?_le_length hat)]
      refine ⟨s.takeWhile isBlank ++ ((c :: rest).take n ++ before), _, blanks, stray, ?_,
        .cons hblanks hreads.of_append hcut, hne, hstray, ?_⟩
      · rw [List.append_assoc, List.append_assoc, ← hdrop, List.take_append_drop]
        exact hsource
      · rw [Text.byteSize_append, Text.byteSize_append, Nat.add_assoc, Nat.add_assoc]

/-- A line feed is a lexeme, so no stray part starts in the middle of a line end. -/
theorem head_ne_of_stray (h : at? y = none) : y.head? ≠ some '\n' := by
  intro hhead
  obtain ⟨r, rfl⟩ := List.head?_eq_some_iff.1 hhead
  have hreads : Reads (.trivia .lineBreak) ['\n'] r := reads_lineBreak (by decide) (by simp)
  rw [Reads, List.singleton_append, h] at hreads
  cases hreads

theorem tokenize_eq_error {source : String} (h : tokenize source = .error e) :
    tokensOfSpans (fun offset => ((LineTable.ofText source).position? source offset).getD .start) 0 []
      (spans source.toList).2 (spans source.toList).1 = .error e := by
  rw [tokenize] at h
  rcases htokens : tokensOfSpans (fun offset => ((LineTable.ofText source).position? source offset).getD .start) 0 []
    (spans source.toList).2 (spans source.toList).1 with e' | tokens
  · simp only [htokens, bind, Except.bind] at h
    cases h
    rfl
  · simp only [htokens, bind, Except.bind, pure, Except.pure] at h
    cases h

/-- The text of an error stands in the source at a place where no lexeme starts. All before it can be read, and the
end mark of that part has the position of the error. -/
theorem tokenize_error_located {source : String} (h : tokenize source = .error e) :
    ∃ before behind st tokens last, source = before ++ e.text ++ behind ∧ e.text ≠ "" ∧
      at? (e.text ++ behind).toList = none ∧ tokenize before = .ok st ∧ st.tokens.toList = tokens ++ [last] ∧
      (∀ t ∈ tokens, t.kind ≠ .endOfFile) ∧ last.kind = .endOfFile ∧ last.first = e.position ∧
      last.last = e.position := by
  obtain ⟨before, l, blanks, rest, hsource, hcut, hne, hstray, he⟩ := exists_stray (tokenize_eq_error h)
  have hposition : e.position = .behind before := by
    rw [he, Nat.zero_add, LineTable.position?_eq hsource fun _ => head_ne_of_stray hstray]
    rfl
  have hlexemes : HasLexemes (String.ofList before).toList (lexemes l) := by
    rw [String.toList_ofList]
    exact ⟨l, blanks, hcut, rfl⟩
  obtain ⟨st, hst⟩ := hlexemes.exists_tokenize
  obtain ⟨tokens, last, htokens, hkind, hends, hfirst, hlast⟩ := exists_end_behind hst
  rw [String.toList_ofList, ← hposition] at hfirst hlast
  have htext : e.text ++ String.ofList (rest.drop (strayWidth rest)) = String.ofList rest := by
    rw [he, ← String.ofList_append, List.take_append_drop]
  refine ⟨String.ofList before, String.ofList (rest.drop (strayWidth rest)), st, tokens, last, ?_, ?_, ?_, hst,
    htokens, hends, hkind, hfirst, hlast⟩
  · rw [String.append_assoc, htext, ← String.ofList_append, ← hsource, String.ofList_toList]
  · intro hempty
    have hlength := congrArg String.length hempty
    rw [he, String.length_ofList, List.length_take] at hlength
    have hwidth := strayWidth_pos rest
    have hlong := List.length_pos_iff.2 hne
    change min (strayWidth rest) rest.length = 0 at hlength
    omega
  · rwa [htext, String.toList_ofList]

theorem tokenize_error_located_of_string :
    tokenize "é /* a\r\n */ b \"c\n;" = .error ⟨⟨2, 7⟩, "\"c"⟩ ∧
    ∃ before behind st tokens last, "é /* a\r\n */ b \"c\n;" = before ++ "\"c" ++ behind ∧
      tokenize before = .ok st ∧ st.tokens.toList = tokens ++ [last] ∧ last.kind = .endOfFile ∧
      last.first = ⟨2, 7⟩ := by
  have htest : (match tokenize "é /* a\r\n */ b \"c\n;" with
      | .error e => decide (e = ⟨⟨2, 7⟩, "\"c"⟩)
      | .ok _ => false) = true := by decide +kernel
  rcases h : tokenize "é /* a\r\n */ b \"c\n;" with e | st
  · rw [h] at htest
    obtain rfl := of_decide_eq_true htest
    obtain ⟨before, behind, st, tokens, last, hsource, -, -, hst, htokens, -, hkind, hfirst, -⟩ :=
      tokenize_error_located h
    exact ⟨rfl, before, behind, st, tokens, last, hsource, hst, htokens, hkind, hfirst⟩
  · rw [h] at htest
    cases htest

end GrammarFormat
