import GrammarFormat.Proofs.LineSpans

/-!
# Cutting a text at the end of a line

`Text.lines` cuts a text into its lines. Where a line ends (`EndsLineAt`), a text can be cut into two
texts that are read by themselves, unless a comment goes on behind the end of the line
(`Cut.split`). The parts of the first text then lie on lines up to that one, those of the second on
lines behind it.
-/

namespace GrammarFormat

open Lexeme
open Text (lineEnds)

/-! ### Lines -/

/-- What stands on a line, and what ends the line; at the end of a text that is nothing. -/
structure Text.Line where
  content : List Char := []
  terminator : List Char := []
  deriving DecidableEq, Repr

def Text.lines : List Char → List Text.Line
  | [] => [{}]
  | '\r' :: '\n' :: rest => { terminator := ['\r', '\n'] } :: lines rest
  | '\r' :: rest => { terminator := ['\r'] } :: lines rest
  | '\n' :: rest => { terminator := ['\n'] } :: lines rest
  | c :: rest =>
    match lines rest with
    | [] => [{ content := [c] }]
    | line :: following => { line with content := c :: line.content } :: following

def Text.ofLines (ls : List Text.Line) : List Char :=
  ls.flatMap fun line => line.content ++ line.terminator

/-- The text behind the content of the first of these lines. -/
def Text.afterContent : List Text.Line → List Char
  | [] => []
  | line :: following => line.terminator ++ ofLines following

/-- Lines as a text has them: only the last one has no terminator, and no terminator is a half of `\r\n`. -/
inductive Text.AreLines : List Text.Line → Prop
  | last {line : Text.Line} (hcontent : ∀ c ∈ line.content, isTerminator c = false)
      (hterminator : line.terminator = []) : AreLines [line]
  | cons {line : Text.Line} {ls : List Text.Line} (hcontent : ∀ c ∈ line.content, isTerminator c = false)
      (hterminator : line.terminator ∈ terminators)
      (hwhole : line.terminator = ['\r'] → (ofLines ls).head? ≠ some '\n') (hls : AreLines ls) :
      AreLines (line :: ls)

namespace Text

theorem ofLines_cons (line : Line) (ls : List Line) :
    ofLines (line :: ls) = line.content ++ (line.terminator ++ ofLines ls) := by
  simp [ofLines]

theorem ofLines_append (ls ls' : List Line) : ofLines (ls ++ ls') = ofLines ls ++ ofLines ls' := by
  simp [ofLines]

theorem lines_ne_nil (s : List Char) : lines s ≠ [] := by
  fun_cases lines s <;> simp

theorem ofLines_lines (s : List Char) : ofLines (lines s) = s := by
  fun_induction lines s with
  | case1 => rfl
  | case2 rest ih => simp [ofLines_cons, ih]
  | case3 rest _ ih => simp [ofLines_cons, ih]
  | case4 rest ih => simp [ofLines_cons, ih]
  | case5 c rest _ _ _ h ih => exact absurd h (lines_ne_nil rest)
  | case6 c rest _ _ _ line following h ih =>
    rw [h, ofLines_cons] at ih
    simp [ofLines_cons, ih]

theorem areLines_lines (s : List Char) : AreLines (lines s) := by
  fun_induction lines s with
  | case1 => exact .last (by simp) rfl
  | case2 rest ih => exact .cons (by simp) (by decide) (by simp) ih
  | case3 rest hne ih =>
    refine .cons (by simp) (by decide) (fun _ hhead => ?_) ih
    rw [ofLines_lines] at hhead
    obtain ⟨rest, rfl⟩ := List.head?_eq_some_iff.1 hhead
    exact hne rest rfl
  | case4 rest ih => exact .cons (by simp) (by decide) (by simp) ih
  | case5 c rest _ _ _ h ih => exact absurd h (lines_ne_nil rest)
  | case6 c rest _ hr hn line following h ih =>
    have hc : isTerminator c = false := by simpa [isTerminator] using ⟨hr, hn⟩
    rw [h] at ih
    cases ih with
    | last hcontent hterminator => exact .last (List.forall_mem_cons.2 ⟨hc, hcontent⟩) hterminator
    | cons hcontent hterminator hwhole hls =>
      exact .cons (List.forall_mem_cons.2 ⟨hc, hcontent⟩) hterminator hwhole hls

theorem lineEnds_pos {c : Char} (hc : isTerminator c = true) (x : List Char) : 0 < lineEnds (c :: x) := by
  unfold lineEnds
  split
  · rename_i h; cases h
  · exact Nat.succ_pos _
  · exact Nat.succ_pos _
  · exact Nat.succ_pos _
  · rename_i hr hn h
    cases h
    simp only [isTerminator, Bool.or_eq_true, beq_iff_eq] at hc
    exact absurd hc (by tauto)

theorem lineEnds_terminator : ∀ t ∈ terminators,
    t ≠ [] ∧ lineEnds t = 1 ∧ (t.getLast? = some '\r' → t = ['\r']) := by
  decide

end Text

/-- Between the two texts a line ends: the second is empty or starts with the end of a line, of which the
first has no half. -/
structure EndsLineAt (x y : List Char) : Prop where
  starts : ∀ c ∈ y.head?, isTerminator c = true
  whole : x.getLast? = some '\r' → y.head? ≠ some '\n'

namespace Text.AreLines

variable {pre post : List Text.Line} {line : Text.Line}

theorem content_not_terminator (h : AreLines (line :: post)) :
    ∀ c ∈ line.content, isTerminator c = false := by
  cases h with
  | last hcontent _ => exact hcontent
  | cons hcontent _ _ _ => exact hcontent

theorem cons_inv (h : AreLines (line :: post)) (hpost : post ≠ []) :
    line.terminator ∈ terminators ∧
      (line.terminator = ['\r'] → (ofLines post).head? ≠ some '\n') ∧ AreLines post := by
  cases h with
  | last => exact absurd rfl hpost
  | cons _ hterminator hwhole hls => exact ⟨hterminator, hwhole, hls⟩

theorem of_append (h : AreLines (pre ++ line :: post)) : AreLines (line :: post) := by
  induction pre with
  | nil => exact h
  | cons first pre ih =>
    rw [List.cons_append] at h
    exact ih (h.cons_inv (by simp)).2.2

theorem starts (h : AreLines (line :: post)) :
    ∀ c ∈ (afterContent (line :: post)).head?, isTerminator c = true := by
  cases h with
  | last _ hterminator => simp [afterContent, hterminator, ofLines]
  | cons _ hterminator _ _ =>
    simp only [terminators, List.mem_cons, List.not_mem_nil, or_false] at hterminator
    rcases hterminator with h | h | h <;> simp [afterContent, h, isTerminator]

theorem endsLineAt (h : AreLines (pre ++ line :: post)) :
    EndsLineAt (ofLines pre ++ line.content) (afterContent (line :: post)) ∧
      lineEnds (ofLines pre ++ line.content) = pre.length := by
  induction pre with
  | nil =>
    have hcontent := h.content_not_terminator
    refine ⟨⟨h.starts, fun hlast => ?_⟩, lineEnds_eq_zero hcontent⟩
    cases hcontent _ (List.mem_of_getLast? hlast)
  | cons first pre ih =>
    rw [List.cons_append] at h
    obtain ⟨hterminator, hwhole, hls⟩ := h.cons_inv (by simp)
    obtain ⟨⟨hstarts, hcut⟩, hcount⟩ := ih hls
    obtain ⟨hne, hone, hlast⟩ := lineEnds_terminator _ hterminator
    have hcontent := h.content_not_terminator
    rw [ofLines_append, ofLines_cons, ← List.append_assoc (ofLines pre)] at hwhole
    rw [ofLines_cons, List.append_assoc, List.append_assoc]
    generalize ofLines pre ++ line.content = z at hcut hcount hwhole
    change (_ → (z ++ afterContent (line :: post)).head? ≠ _) at hwhole
    refine ⟨⟨hstarts, fun hend => ?_⟩, ?_⟩
    · by_cases hz : z = []
      · rw [hz, List.append_nil, List.getLast?_append_of_ne_nil _ hne] at hend
        have := hwhole (hlast hend)
        rwa [hz] at this
      · rw [← List.append_assoc, List.getLast?_append_of_ne_nil _ hz] at hend
        exact hcut hend
    · have hz : lineEnds (first.terminator ++ z) = lineEnds first.terminator + lineEnds z :=
        lineEnds_append fun hend hhead => hwhole (hlast hend) (by rw [List.head?_append, hhead]; rfl)
      have hall : lineEnds (first.content ++ (first.terminator ++ z)) =
          lineEnds first.content + lineEnds (first.terminator ++ z) :=
        lineEnds_append fun hend => by cases hcontent _ (List.mem_of_getLast? hend)
      rw [hall, hz, lineEnds_eq_zero hcontent, hone, hcount, List.length_cons]
      omega

end Text.AreLines

/-! ### Cutting -/

variable {s x y w r trailing blanks : List Char} {l : List Span} {lexeme : Lexeme}

theorem lineEnds_of_blanks (hb : ∀ c ∈ blanks, isBlank c = true) : lineEnds blanks = 0 :=
  Text.lineEnds_eq_zero fun c hc => not_terminator_of_blank (hb c hc)

theorem lineEnds_blanks_append (hb : ∀ c ∈ blanks, isBlank c = true) (x : List Char) :
    lineEnds (blanks ++ x) = lineEnds x := by
  rw [Text.lineEnds_append fun hlast => ?_, lineEnds_of_blanks hb, Nat.zero_add]
  have := not_terminator_of_blank (hb _ (List.mem_of_getLast? hlast))
  cases this

theorem Lexeme.Reads.lineEnds_append (h : Reads lexeme w r) : lineEnds (w ++ r) = lineEnds w + lineEnds r :=
  Text.lineEnds_append h.not_lineFeed

/-- Where a lexeme stands with the end of a line between two texts. -/
theorem EndsLineAt.cases (hline : EndsLineAt x y) (hb : ∀ c ∈ blanks, isBlank c = true)
    (hs : blanks ++ (w ++ r) = x ++ y) :
    (x = blanks ∧ y = w ++ r) ∨ (∃ a, x = blanks ++ (w ++ a) ∧ r = a ++ y) ∨
      ∃ a b, a ≠ [] ∧ b ≠ [] ∧ x = blanks ++ a ∧ w = a ++ b ∧ y = b ++ r := by
  rcases List.append_eq_append_iff.1 hs with ⟨a, rfl, hr⟩ | ⟨a, rfl, rfl⟩
  · rcases List.append_eq_append_iff.1 hr with ⟨b, rfl, rfl⟩ | ⟨b, rfl, rfl⟩
    · exact .inr (.inl ⟨b, rfl, rfl⟩)
    · by_cases ha : a = []
      · subst ha
        exact .inl ⟨List.append_nil _, rfl⟩
      by_cases hb : b = []
      · subst hb
        exact .inr (.inl ⟨[], by simp, rfl⟩)
      · exact .inr (.inr ⟨a, b, ha, hb, rfl, rfl, rfl⟩)
  · cases a with
    | nil => exact .inl ⟨(List.append_nil _).symm, rfl⟩
    | cons c a =>
      have hblank := not_terminator_of_blank (hb c (by simp))
      rw [hline.starts c rfl] at hblank
      cases hblank

/-- A lexeme across the end of a line is a comment that goes on behind it. -/
theorem EndsLineAt.straddle {a b : List Char} (hline : EndsLineAt (blanks ++ a) (b ++ r)) (ha : a ≠ [])
    (hb : b ≠ []) (hw : Reads lexeme (a ++ b) r) :
    lexeme.isBreak = false ∧ lineEnds a < lineEnds (a ++ b).dropLast := by
  obtain ⟨c, b, rfl⟩ := List.exists_cons_of_ne_nil hb
  have hc := hline.starts c rfl
  have hwhole : a.getLast? = some '\r' → c ≠ '\n' := fun hlast hn =>
    hline.whole (by rwa [List.getLast?_append_of_ne_nil _ ha]) (congrArg some hn)
  have hbreak : lexeme ≠ .trivia .lineBreak := by
    rintro rfl
    obtain ⟨rfl, h⟩ := append_mem_terminators ha hb hw.mem_terminators
    cases h
    exact hwhole rfl rfl
  have hcomment : ['/', '*'] <+: a ++ c :: b :=
    (hw.of_terminator (by simp) hc).resolve_left hbreak
  refine ⟨?_, ?_⟩
  · rcases hw.isComment hcomment with rfl | rfl <;> rfl
  · cases b with
    | nil =>
      have := hw.getLast_not_terminator hbreak c (by simp)
      rw [this] at hc
      cases hc
    | cons d b =>
      have hcount : lineEnds (a ++ c :: (d :: b).dropLast) = lineEnds a + lineEnds (c :: (d :: b).dropLast) :=
        Text.lineEnds_append fun hlast hn => hwhole hlast (Option.some.inj hn)
      have hpos := Text.lineEnds_pos hc (d :: b).dropLast
      rw [List.dropLast_append_of_ne_nil (by simp), List.dropLast_cons_of_ne_nil (by simp), hcount]
      omega

/-- A text that is cut into lexemes is cut at the end of a line, if no comment goes on behind it. -/
theorem Cut.split (h : Cut s l trailing) (hs : s = x ++ y) (hline : EndsLineAt x y) (pos : Position)
    (hparts : ∀ part ∈ partsOf pos l,
      ¬ (part.firstLine ≤ pos.line + lineEnds x ∧ pos.line + lineEnds x < part.lastLine)) :
    ∃ l₁ t₁ l₂ t₂ pos', Cut x l₁ t₁ ∧ Cut y l₂ t₂ ∧ Position.line pos' = pos.line + lineEnds x ∧
      partsOf pos l = partsOf pos l₁ ++ partsOf pos' l₂ := by
  induction h generalizing x pos with
  | nil hb =>
    subst hs
    obtain ⟨hx, hy⟩ := List.forall_mem_append.1 hb
    exact ⟨[], x, [], y, pos.advance x, .nil hx, .nil hy, pos.line_advance x, rfl⟩
  | @cons blanks w r trailing lexeme l hb hw h ih =>
    -- the line ends in front of the lexeme, behind it, or within it
    rcases hline.cases hb hs with ⟨rfl, rfl⟩ | ⟨a, rfl, rfl⟩ | ⟨a, b, ha, hb', rfl, rfl, rfl⟩
    · exact ⟨[], x, ⟨[], some lexeme, w⟩ :: l, trailing, pos.advance x, .nil hb,
        .cons (List.forall_mem_nil _) hw h, pos.line_advance x, rfl⟩
    · have hw' : Reads lexeme w a := hw.of_append
      have hcount : ((pos.advance blanks).advance w).line + lineEnds a =
          pos.line + lineEnds (blanks ++ (w ++ a)) := by
        rw [lineEnds_blanks_append hb, hw'.lineEnds_append, Position.line_advance, Position.line_advance,
          lineEnds_of_blanks hb]
        omega
      have hline' : EndsLineAt a y := by
        refine ⟨hline.starts, fun hlast => hline.whole ?_⟩
        rw [List.getLast?_append, List.getLast?_append, hlast]
        rfl
      obtain ⟨l₁, t₁, l₂, t₂, pos', hcut₁, hcut₂, hpos', hsplit⟩ := ih rfl hline' _ fun part hpart => by
        rw [hcount]
        refine hparts part ?_
        simp only [partsOf]
        split_ifs
        · exact hpart
        · exact List.mem_cons_of_mem _ hpart
      refine ⟨⟨blanks, some lexeme, w⟩ :: l₁, t₁, l₂, t₂, pos', .cons hb hw' hcut₁, hcut₂,
        hpos'.trans hcount, ?_⟩
      simp only [partsOf, hsplit]
      split_ifs <;> rfl
    · obtain ⟨hbreak, hlt⟩ := hline.straddle ha hb' hw
      refine absurd ?_ (hparts ⟨String.ofList (a ++ b), (pos.advance blanks).line,
        ((pos.advance blanks).last (a ++ b)).line⟩ (by simp [partsOf, hbreak]))
      simp only [lineEnds_blanks_append hb, Position.last, Position.line_advance, lineEnds_of_blanks hb]
      omega

theorem Cut.lastLine_le (h : Cut s l trailing) (pos : Position) :
    ∀ part ∈ partsOf pos l, part.lastLine ≤ pos.line + lineEnds s := by
  induction h generalizing pos with
  | nil => simp [partsOf]
  | @cons blanks w r trailing lexeme l hb hw h ih =>
    have hnext : ((pos.advance blanks).advance w).line = pos.line + lineEnds w := by
      rw [Position.line_advance, Position.line_advance, lineEnds_of_blanks hb, Nat.add_zero]
    have hrest : ∀ part ∈ partsOf ((pos.advance blanks).advance w) l,
        part.lastLine ≤ pos.line + lineEnds (blanks ++ (w ++ r)) := fun part hpart => by
      have := ih _ part hpart
      rw [lineEnds_blanks_append hb, hw.lineEnds_append]
      omega
    simp only [partsOf]
    split_ifs
    · exact hrest
    · have hlast := (pos.advance blanks).line_last_le w
      refine List.forall_mem_cons.2 ⟨?_, hrest⟩
      rw [lineEnds_blanks_append hb, hw.lineEnds_append]
      exact hlast.trans (by omega)

/-- The parts of a text that starts with the end of a line are on the lines behind it. -/
theorem Cut.lt_firstLine (h : Cut s l trailing) (hs : ∀ c ∈ s.head?, isTerminator c = true) (pos : Position) :
    ∀ part ∈ partsOf pos l, pos.line < part.firstLine := by
  cases s with
  | nil =>
    rw [h.eq_nil]
    simp [partsOf]
  | cons c s =>
    obtain ⟨x, r, l, hx, -, -, rfl⟩ := h.of_terminator (hs c rfl)
    intro part hpart
    have hle := (lines_partsOf ((pos.advance []).advance x) l part hpart).1
    have hone := (Text.lineEnds_terminator x hx.mem_terminators).2.1
    rw [Position.line_advance, Position.line_advance, hone] at hle
    omega

end GrammarFormat
