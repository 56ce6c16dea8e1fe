import GrammarFormat.Proofs.RangeGating
import GrammarFormat.Proofs.TextLines

/-!
# Putting a formatted range back

An editor formats some lines of a text and puts the result in their place. No token and no comment is
lost or changed by this, as long as no comment reaches over an end of the range
(`replaceLines_keeps_contents`). The text in front of the range, the range and the text behind it are
read by themselves, each with a code of its own, and at the end of a line codes add up
(`HasCode.append`).
-/

namespace GrammarFormat

open Lexeme Layout
open Text (lineEnds)

variable {x y s r : List Char} {lexeme : Lexeme} {texts a b : List (List Char)} {c : Char}

/-! ### Codes of texts put together -/

theorem code_cons (u : Lexeme × List Char) (ls : List (Lexeme × List Char)) :
    code (u :: ls) = (if u.1.isBreak then [] else [u.2]) ++ code ls := by
  cases hbreak : u.1.isBreak <;> simp [code, hbreak]

theorem HasCode.cons (hx : Reads lexeme x r) (h : HasCode r texts) :
    HasCode (x ++ r) ((if lexeme.isBreak then [] else [x]) ++ texts) := by
  obtain ⟨ls, hls, rfl⟩ := h
  exact ⟨_, hls.cons hx, code_cons ..⟩

theorem HasCode.of_lineFeed (h : HasCode ('\n' :: s) texts) : HasCode s texts := by
  obtain ⟨ls, ⟨l, trailing, hcut, rfl⟩, rfl⟩ := h
  obtain ⟨x, r, l, hx, hr, hs, rfl⟩ := hcut.of_terminator (by decide)
  have hbreak : Reads (.trivia .lineBreak) ['\n'] s := reads_lineBreak (by decide) (by simp)
  obtain ⟨-, rfl, rfl⟩ := hx.eq_of_append_eq hbreak hs
  exact ⟨lexemes l, ⟨l, trailing, hr, rfl⟩, rfl⟩

/-- The end of a line in front of a text adds nothing to its code. -/
theorem HasCode.terminator (h : HasCode s texts) (hc : isTerminator c = true) : HasCode (c :: s) texts := by
  have hmem : c = '\r' ∨ c = '\n' := by simpa [isTerminator] using hc
  by_cases hcut : c = '\r' ∧ s.head? = some '\n'
  · obtain ⟨rfl, hs⟩ := hcut
    obtain ⟨s, rfl⟩ := List.head?_eq_some_iff.1 hs
    exact h.of_lineFeed.cons (reads_lineBreak (x := ['\r', '\n']) (by decide) (by simp))
  · have hreads : Reads (.trivia .lineBreak) [c] s := by
      refine reads_lineBreak (by rcases hmem with rfl | rfl <;> decide) fun hr hn => hcut ⟨?_, hn⟩
      exact (List.cons.inj hr).1
    exact h.cons hreads

theorem HasCode.append (hx : HasCode x a) (hy : HasCode y b)
    (hstarts : ∀ c ∈ y.head?, isTerminator c = true) : HasCode (x ++ y) (a ++ b) := by
  obtain ⟨ls, ⟨l, trailing, hcut, rfl⟩, rfl⟩ := hx
  induction hcut with
  | @nil blanks hb =>
    obtain ⟨ls, hls, rfl⟩ := hy
    exact ⟨ls, hls.blanks hb, rfl⟩
  | @cons blanks w r trailing lexeme l hb hw hcut ih =>
    have hrest : HasCode (w ++ (r ++ y)) (code (lexemes (⟨blanks, some lexeme, w⟩ :: l)) ++ b) := by
      by_cases hhalf : w = ['\r'] ∧ r = [] ∧ y.head? = some '\n'
      · -- the two halves of `\r\n` make one line break of two
        obtain ⟨rfl, rfl, -⟩ := hhalf
        obtain rfl := hw.of_terminator_head (by decide)
        exact ih.terminator (by decide)
      · have hreads : Reads lexeme w (r ++ y) := by
          cases y with
          | nil => rwa [List.append_nil]
          | cons d y =>
            refine hw.append_terminator (hstarts d rfl) fun hcut => hhalf ⟨hcut.1, hcut.2.1, ?_⟩
            rw [hcut.2.2]; rfl
        rw [show code (lexemes (⟨blanks, some lexeme, w⟩ :: l)) = _ from code_cons (lexeme, w) _,
          List.append_assoc]
        exact ih.cons hreads
    rw [List.append_assoc, List.append_assoc]
    obtain ⟨ls, hls, hcode⟩ := hrest
    exact ⟨ls, hls.blanks hb, hcode⟩

/-! ### Parts over the end of a line -/

variable {source : String} {st : TokenStream} {style : Style}

/-- The comments of a stream in order. -/
def TokenStream.comments (st : TokenStream) : List Trivia :=
  st.tokens.toList.flatMap fun t => t.trivia.filter (·.kind.isComment)

theorem Lexeme.Reads.token_not_terminator (h : Reads lexeme x r) (hlexeme : lexeme.trivia? = none) :
    ∀ c ∈ x, isTerminator c = false := by
  intro c hc
  by_contra hterminator
  rcases h.of_terminator hc (by simpa using hterminator) with rfl | hopen
  · cases hlexeme
  · rcases h.isComment hopen with rfl | rfl <;> cases hlexeme

theorem Scans.line_last {pos : Position} {trivia : List Trivia} {trailing : List Char} {l : List Span}
    {tokens : List Token} (h : Scans trailing pos trivia l tokens)
    (hreads : ∀ u ∈ lexemes l, Reads u.1 u.2 []) : ∀ t ∈ tokens, t.last.line = t.first.line := by
  induction h with
  | nil => simp [Token.endOfFile]
  | trivia _ ih => exact ih (List.forall_mem_cons.1 hreads).2
  | @token pos _ lexeme blanks x _ _ hlexeme _ ih =>
    obtain ⟨hx, hreads⟩ := List.forall_mem_cons.1 hreads
    refine List.forall_mem_cons.2 ⟨?_, ih hreads⟩
    have hcontent : ∀ c ∈ x.dropLast, isTerminator c = false := fun c hc =>
      hx.token_not_terminator hlexeme c ((List.dropLast_sublist x).subset hc)
    simp only [lastPosition_token hlexeme, Position.last, Position.line_advance,
      Text.lineEnds_eq_zero hcontent, Nat.add_zero]

/-- A part that reaches over the end of a line is a comment. -/
theorem parts_within (hs : tokenize source = .ok st) {n : Nat}
    (h : ∀ t ∈ st.comments, ¬ (t.firstLine ≤ n ∧ n < t.lastLine)) :
    ∀ part ∈ st.parts, ¬ (part.firstLine ≤ n ∧ n < part.lastLine) := by
  obtain ⟨l, trailing, hcut, hscans⟩ := tokenize_eq_ok_iff.1 hs
  intro part hpart
  obtain ⟨t, ht, hpart⟩ := List.mem_flatMap.1 hpart
  rcases List.mem_append.1 hpart with hpart | hpart
  · obtain ⟨u, hu, rfl⟩ := List.mem_map.1 hpart
    exact h u (List.mem_flatMap.2 ⟨t, ht, hu⟩)
  · have hline := hscans.line_last hcut.reads t ht
    split_ifs at hpart
    · cases hpart
    · rw [List.mem_singleton.1 hpart]
      change ¬ (t.first.line ≤ n ∧ n < t.last.line)
      omega

/-! ### Replacing lines -/

/-- The text with the lines from `first` to `last` replaced; what ends the last of them stays. -/
def Text.replaceLines (first last : Nat) (text source : String) : String :=
  String.ofList (ofLines ((lines source.toList).take (first - 1)) ++
    (text.toList ++ afterContent ((lines source.toList).drop (last - 1))))

theorem HasCode.terminators {t : List Char} (h : HasCode s texts) (ht : t ∈ terminators) :
    HasCode (t ++ s) texts := by
  simp only [Lexeme.terminators, List.mem_cons, List.not_mem_nil, or_false] at ht
  rcases ht with rfl | rfl | rfl
  · exact h.terminator (by decide)
  · exact (h.terminator (by decide)).terminator (by decide)
  · exact h.terminator (by decide)

/-- The text behind the content of a line: its parts come last, and its code is added to that of what is
put in front of it. -/
theorem Cut.back {l : List Span} {trailing : List Char} {pre post : List Text.Line} {line : Text.Line}
    (hlines : Text.AreLines (pre ++ line :: post)) (hcut : Cut (Text.ofLines (pre ++ line :: post)) l trailing)
    (hparts : ∀ part ∈ partsOf .start l,
      ¬ (part.firstLine ≤ pre.length + 1 ∧ pre.length + 1 < part.lastLine)) :
    ∃ l₁ t₁ back, Cut (Text.ofLines pre ++ line.content) l₁ t₁ ∧
      partsOf .start l = partsOf .start l₁ ++ back ∧
      (∀ part ∈ partsOf .start l₁, part.lastLine ≤ pre.length + 1) ∧
      (∀ part ∈ back, pre.length + 1 < part.firstLine) ∧
      ∀ {s texts}, HasCode s texts →
        HasCode (s ++ Text.afterContent (line :: post)) (texts ++ Part.texts back) := by
  obtain ⟨hline, hcount⟩ := hlines.endsLineAt
  have hlength : Position.start.line + lineEnds (Text.ofLines pre ++ line.content) = pre.length + 1 := by
    rw [hcount, Nat.add_comm]
    rfl
  rw [Text.ofLines_append, Text.ofLines_cons, ← List.append_assoc] at hcut
  obtain ⟨l₁, t₁, l₂, t₂, pos, hcut₁, hcut₂, hpos, hsplit⟩ :=
    hcut.split rfl hline .start (by rwa [hlength])
  refine ⟨l₁, t₁, partsOf pos l₂, hcut₁, hsplit, ?_, ?_, fun h => ?_⟩
  · rw [← hlength]
    exact hcut₁.lastLine_le .start
  · rw [← hlength, ← hpos]
    exact hcut₂.lt_firstLine hline.starts pos
  · exact h.append (hcut₂.hasCode pos) hline.starts

/-- The lines `pre` in front of others: their parts come first, and the code of what is put behind them is
added to theirs. -/
theorem Cut.front {l : List Span} {trailing z : List Char} {pre ls : List Text.Line} (hls : ls ≠ [])
    (hlines : Text.AreLines (pre ++ ls)) (hcut : Cut (Text.ofLines pre ++ z) l trailing)
    (hparts : ∀ part ∈ partsOf .start l, ¬ (part.firstLine ≤ pre.length ∧ pre.length < part.lastLine)) :
    ∃ front middle, partsOf .start l = front ++ middle ∧ (∀ part ∈ front, part.lastLine ≤ pre.length) ∧
      (∀ part ∈ middle, pre.length < part.firstLine) ∧
      ∀ {s texts}, HasCode s texts → HasCode (Text.ofLines pre ++ s) (Part.texts front ++ texts) := by
  obtain ⟨line, post, rfl⟩ := List.exists_cons_of_ne_nil hls
  rcases List.eq_nil_or_concat pre with rfl | ⟨pre, first, rfl⟩
  · exact ⟨[], _, rfl, by simp, fun part hpart => (lines_partsOf .start l part hpart).1, fun h => h⟩
  rw [List.concat_eq_append] at hlines hcut hparts ⊢
  rw [List.append_assoc, List.singleton_append] at hlines
  obtain ⟨hterminator, -, -⟩ := hlines.of_append.cons_inv (by simp)
  obtain ⟨hline, hcount⟩ := hlines.endsLineAt
  obtain ⟨c, t, ht⟩ := List.exists_cons_of_ne_nil (Text.lineEnds_terminator _ hterminator).1
  have hofLines : ∀ s, Text.ofLines (pre ++ [first]) ++ s =
      (Text.ofLines pre ++ first.content) ++ (first.terminator ++ s) := fun s => by
    simp [Text.ofLines]
  -- a line ends in front of the terminator, whatever follows it
  have hline' : ∀ s, EndsLineAt (Text.ofLines pre ++ first.content) (first.terminator ++ s) := fun s => by
    have hhead : (first.terminator ++ s).head? = (Text.afterContent (first :: line :: post)).head? := by
      rw [Text.afterContent, ht]
      rfl
    exact ⟨hhead ▸ hline.starts, hhead ▸ hline.whole⟩
  have hlength : Position.start.line + lineEnds (Text.ofLines pre ++ first.content) =
      (pre ++ [first]).length := by
    rw [hcount, List.length_append, Nat.add_comm]
    rfl
  obtain ⟨l₁, t₁, l₂, t₂, pos, hcut₁, hcut₂, hpos, hsplit⟩ :=
    hcut.split (hofLines z) (hline' z) .start (by rwa [hlength])
  refine ⟨partsOf .start l₁, partsOf pos l₂, hsplit, ?_, ?_, fun h => ?_⟩
  · rw [← hlength]
    exact hcut₁.lastLine_le .start
  · rw [← hlength, ← hpos]
    exact hcut₂.lt_firstLine (hline' z).starts pos
  · rw [hofLines]
    exact (hcut₁.hasCode .start).append (h.terminators hterminator) (hline' _).starts

theorem exists_lines_split {ls : List Text.Line} {first last : Nat} (hfirst : 1 ≤ first) (hle : first ≤ last)
    (hlast : last ≤ ls.length) : ∃ pre mid line post, ls = pre ++ (mid ++ line :: post) ∧
      pre.length + 1 = first ∧ (pre ++ mid).length + 1 = last := by
  have hlt : last - 1 < ls.length := by omega
  refine ⟨ls.take (first - 1), (ls.take (last - 1)).drop (first - 1), ls[last - 1], ls.drop (last - 1 + 1),
    ?_, ?_, ?_⟩
  · rw [← List.append_assoc, ← List.drop_eq_getElem_cons hlt]
    have : ls.take (first - 1) = (ls.take (last - 1)).take (first - 1) := by
      rw [List.take_take, Nat.min_eq_left (by omega)]
    rw [this, List.take_append_drop, List.take_append_drop]
  · rw [List.length_take]
    omega
  · rw [List.length_append, List.length_take, List.length_drop, List.length_take]
    omega

/-- The parts in front of a range of lines, in it and behind it. The range can be replaced by every text that
has the code of the parts in it. -/
theorem exists_parts_split (hs : tokenize source = .ok st) {first last : Nat} (hfirst : 1 ≤ first)
    (hle : first ≤ last) (hlast : last ≤ (Text.lines source.toList).length)
    (hstart : ∀ t ∈ st.comments, ¬ (t.firstLine < first ∧ first ≤ t.lastLine))
    (hend : ∀ t ∈ st.comments, ¬ (t.firstLine ≤ last ∧ last < t.lastLine)) :
    ∃ front middle back, st.parts = front ++ middle ++ back ∧ (∀ part ∈ front, part.lastLine < first) ∧
      (∀ part ∈ middle, first ≤ part.firstLine ∧ part.lastLine ≤ last) ∧
      (∀ part ∈ back, last < part.firstLine) ∧
      ∀ text : String, HasCode text.toList (Part.texts middle) →
        HasCode (Text.replaceLines first last text source).toList (Part.texts st.parts) := by
  obtain ⟨l, trailing, hcut, hparts⟩ := exists_cut_parts hs
  obtain ⟨pre, mid, line, post, hls, rfl, rfl⟩ := exists_lines_split hfirst hle hlast
  have hlines := Text.areLines_lines source.toList
  rw [← Text.ofLines_lines source.toList] at hcut
  rw [hls, ← List.append_assoc] at hlines hcut
  -- first the text behind the range is cut off, then the text in front of it
  obtain ⟨l₁, t₁, back, hcut₁, hsplit, hlast₁, hback, hcodeBack⟩ :=
    Cut.back hlines hcut (hparts ▸ parts_within hs hend)
  rw [Text.ofLines_append, List.append_assoc] at hcut₁
  obtain ⟨front, middle, hfrontMiddle, hfront, hmiddle, hcodeFront⟩ :=
    Cut.front (by simp) (List.append_assoc .. ▸ hlines) hcut₁ fun part hpart => by
      have := parts_within hs (n := pre.length) (fun t ht => by have := hstart t ht; omega) part
      exact this (by rw [hparts, hsplit]; exact List.mem_append_left _ hpart)
  have hall : st.parts = front ++ middle ++ back := by rw [hparts, hsplit, hfrontMiddle]
  refine ⟨front, middle, back, hall, fun part hpart => Nat.lt_succ_of_le (hfront part hpart),
    fun part hpart => ⟨hmiddle part hpart, hlast₁ part ?_⟩, hback, fun text htext => ?_⟩
  · rw [hfrontMiddle]
    exact List.mem_append_right _ hpart
  · have htake : (Text.lines source.toList).take pre.length = pre := by rw [hls, List.take_left]
    have hdrop : (Text.lines source.toList).drop (pre ++ mid).length = line :: post := by
      rw [hls, ← List.append_assoc, List.drop_left]
    rw [Text.replaceLines, String.toList_ofList, Nat.add_sub_cancel, Nat.add_sub_cancel, htake, hdrop, hall,
      Part.texts, List.map_append, List.map_append, List.append_assoc]
    exact hcodeFront (hcodeBack htext)

theorem filter_clamped {first last : Nat} (hfirst : 1 ≤ first) (hle : first ≤ last) (ps : List Piece) :
    ps.filter (·.isIn (.clamped first (some last))) =
      ps.filter ((fun part => decide (first ≤ part.firstLine ∧ part.lastLine ≤ last)) ∘ Piece.part) := by
  refine List.filter_congr fun p _ => ?_
  simp only [Piece.isIn, LineRange.contains, LineRange.clamped, Option.map_some, Option.all_some,
    Nat.max_eq_left hfirst, Nat.max_eq_left hle, Function.comp_apply, Bool.decide_and]
  rfl

theorem filter_parts {front middle back : List Part} {first last : Nat}
    (hlines : ∀ part ∈ front ++ middle ++ back, part.firstLine ≤ part.lastLine)
    (hfront : ∀ part ∈ front, part.lastLine < first)
    (hmiddle : ∀ part ∈ middle, first ≤ part.firstLine ∧ part.lastLine ≤ last)
    (hback : ∀ part ∈ back, last < part.firstLine) :
    (front ++ middle ++ back).filter (fun part => decide (first ≤ part.firstLine ∧ part.lastLine ≤ last)) =
      middle := by
  refine filter_run (fun part hpart => decide_eq_true (hmiddle part hpart)) fun part hpart => ?_
  refine decide_eq_false fun hin => ?_
  rcases List.mem_append.1 hpart with hpart | hpart
  · have := hlines part (by simp [hpart])
    have := hfront part hpart
    omega
  · have := hlines part (by simp [hpart])
    have := hback part hpart
    omega

/-- The formatted lines of a range can be put in their place: the new text has the tokens of the source, each
with its kind, its image and its comments, if no comment reaches over an end of the range. -/
theorem replaceLines_keeps_contents (hs : tokenize source = .ok st) (hne : st.isEmpty = false)
    (hstyle : style.IsPlain) {first last : Nat} (hfirst : 1 ≤ first) (hle : first ≤ last)
    (hlast : last ≤ (Text.lines source.toList).length)
    (hstart : ∀ t ∈ st.comments, ¬ (t.firstLine < first ∧ first ≤ t.lastLine))
    (hend : ∀ t ∈ st.comments, ¬ (t.firstLine ≤ last ∧ last < t.lastLine)) :
    ∃ text st', formatSource source style (.clamped first (some last)) = .ok text ∧
      tokenize (Text.replaceLines first last text source) = .ok st' ∧ st'.contents = st.contents := by
  obtain ⟨front, middle, back, hparts, hfront, hmiddle, hback, hreplace⟩ :=
    exists_parts_split hs hfirst hle hlast hstart hend
  have hpieces := part_pieces (lexed_of_tokenize hs)
  have hrun : ((pieces st).filter (·.isIn (.clamped first (some last)))).map Piece.part = middle := by
    rw [filter_clamped hfirst hle, ← List.filter_map, hpieces, hparts]
    exact filter_parts (fun part hpart => ((lines_parts hs).1 part (hparts ▸ hpart)).2) hfront hmiddle hback
  have hcode := hasCode_textOf hstyle (fun p hp => isCode_pieces hs p (List.mem_filter.1 hp).1)
    (isChain_filter_pieces hs (.clamped first (some last)))
  rw [hrun] at hcode
  obtain ⟨st', hst', hcontents⟩ := exists_tokenize_contents hs (hasCode_source hs) (hreplace _ hcode)
  exact ⟨_, st', formatSource_eq hs hne hstyle.endsLines _, hst', hcontents⟩

theorem replaceLines_keeps_contents_of_blanks : ∃ st text st',
    tokenize "a /* b\n*/ ;\r  \nc . d // e\rf" = .ok st ∧ st.isEmpty = false ∧
      4 ≤ (Text.lines "a /* b\n*/ ;\r  \nc . d // e\rf".toList).length ∧
      (∀ t ∈ st.comments, ¬ (t.firstLine < 3 ∧ 3 ≤ t.lastLine)) ∧
      (∀ t ∈ st.comments, ¬ (t.firstLine ≤ 4 ∧ 4 < t.lastLine)) ∧
      formatSource "a /* b\n*/ ;\r  \nc . d // e\rf" ⟨"\n", "\t"⟩ (.clamped 3 (some 4)) = .ok text ∧
      tokenize (Text.replaceLines 3 4 text "a /* b\n*/ ;\r  \nc . d // e\rf") = .ok st' ∧
      st'.contents = st.contents := by
  obtain ⟨st, hs, hst⟩ := exists_tokenize_of_any "a /* b\n*/ ;\r  \nc . d // e\rf"
    (show Option.any (fun st => decide (st.isEmpty = false ∧
      (∀ t ∈ st.comments, ¬ (t.firstLine < 3 ∧ 3 ≤ t.lastLine)) ∧
      ∀ t ∈ st.comments, ¬ (t.firstLine ≤ 4 ∧ 4 < t.lastLine))) _ = true by decide +kernel)
  obtain ⟨hne, hstart, hend⟩ := of_decide_eq_true hst
  have hlast : 4 ≤ (Text.lines "a /* b\n*/ ;\r  \nc . d // e\rf".toList).length := by decide +kernel
  obtain ⟨text, st', h⟩ := replaceLines_keeps_contents hs hne (show Style.IsPlain ⟨"\n", "\t"⟩ by decide)
    (by decide) (by decide) hlast hstart hend
  exact ⟨st, text, st', hs, hne, hlast, hstart, hend, h⟩

end GrammarFormat
