import GrammarFormat.Layout.Joining
import GrammarFormat.Proofs.LexemeTexts

/-!
# Reading one lexeme

`Reads lexeme x r`: with `r` behind it, `x` is read as one lexeme. What is read so is read so alone as
well (`Reads.alone`), so nothing of a lexeme depends on the text behind it but where it ends. In the
other direction a text that is a lexeme alone stays one in front of a blank or the end of a line
(`Reads.before_space`), and in front of a text to which it may be joined (`Reads.before_joined`).
-/

namespace GrammarFormat.Lexeme

open Pattern

/-- In front of `r`, the text `x` is read as `lexeme`. -/
def Reads (lexeme : Lexeme) (x r : List Char) : Prop :=
  at? (x ++ r) = some (lexeme, x.length)

variable {lexeme : Lexeme} {x y r s : List Char} {c : Char}

/-! ### Block comments -/

theorem closeIndex?_append {n : Nat} (h : closeIndex? s = some n) : closeIndex? (s ++ r) = some n := by
  induction s using closeIndex?.induct generalizing n with
  | case1 => cases h
  | case2 => exact h
  | case3 c s hne ih =>
    rw [closeIndex?, Option.map_eq_some_iff] at h
    · obtain ⟨m, hm, rfl⟩ := h
      rw [List.cons_append, closeIndex?, ih hm]
      · rfl
      · intro u hc hu
        match s, hu with
        | [], _ => cases hm
        | d :: s, hu => cases hu; exact hne s hc rfl
    · exact hne

theorem closeIndex?_of_append {n : Nat} (h : closeIndex? (s ++ r) = some n) (hn : n + 2 ≤ s.length) :
    closeIndex? s = some n := by
  induction s using closeIndex?.induct generalizing n with
  | case1 => simp at hn
  | case2 s => exact h
  | case3 c s hne ih =>
    rw [List.cons_append, closeIndex?, Option.map_eq_some_iff] at h
    · obtain ⟨m, hm, rfl⟩ := h
      rw [closeIndex?, ih hm (by simp at hn; omega)]
      · rfl
      · exact hne
    · intro u hc hu
      match s, hu with
      | [], _ => simp at hn
      | d :: s, hu => cases hu; exact hne s hc rfl

theorem closeIndex?_le {n : Nat} (h : closeIndex? s = some n) : n + 2 ≤ s.length := by
  induction s using closeIndex?.induct generalizing n with
  | case1 => cases h
  | case2 => cases h; simp
  | case3 c s hne ih =>
    rw [closeIndex?, Option.map_eq_some_iff] at h
    · obtain ⟨m, hm, rfl⟩ := h
      simpa using ih hm
    · exact hne

theorem closeIndex?_drop {n : Nat} (h : closeIndex? s = some n) : ['*', '/'] <+: s.drop n := by
  induction s using closeIndex?.induct generalizing n with
  | case1 => cases h
  | case2 => cases h; simp
  | case3 c s hne ih =>
    rw [closeIndex?, Option.map_eq_some_iff] at h
    · obtain ⟨m, hm, rfl⟩ := h
      exact ih hm
    · exact hne

/-- A block comment ends at its first `*/`, whatever stands behind it. -/
theorem reads_blockComment : Reads lexeme ('/' :: '*' :: y) r ↔
    ∃ n, n + 2 = y.length ∧ closeIndex? y = some n ∧ lexeme = trivia (commentKind y n) := by
  have hkind : ∀ n, n + 2 = y.length → commentKind (y ++ r) n = commentKind y n := by
    intro n hn
    cases y with
    | nil => cases hn
    | cons c y => rfl
  simp only [Reads, List.cons_append, at?, Option.map_eq_some_iff, Prod.mk.injEq, List.length_cons]
  constructor
  · rintro ⟨n, h, rfl, hn⟩
    exact ⟨n, by omega, closeIndex?_of_append h (by omega), by rw [hkind n (by omega)]⟩
  · rintro ⟨n, hn, h, rfl⟩
    exact ⟨n, closeIndex?_append h, by rw [hkind n hn], by omega⟩

theorem Reads.of_opens (h : Reads lexeme x r) (hx : ['/', '*'] <+: x) (s : List Char) : Reads lexeme x s := by
  obtain ⟨y, rfl⟩ := hx
  exact reads_blockComment.2 (reads_blockComment.1 h)

theorem Reads.isComment (h : Reads lexeme x r) (hx : ['/', '*'] <+: x) :
    lexeme = trivia .blockComment ∨ lexeme = trivia .docComment := by
  obtain ⟨y, rfl⟩ := hx
  obtain ⟨n, -, -, rfl⟩ := reads_blockComment.1 h
  unfold commentKind
  split <;> simp

/-! ### Everything else -/

theorem at?_eq_longest? (h : ¬ ['/', '*'] <+: s) : at? s = longest? rules s := by
  unfold at?
  split
  · exact absurd (by simp) h
  · rfl

theorem at?_le_length {n : Nat} (h : at? s = some (lexeme, n)) : n ≤ s.length := by
  unfold at? at h
  split at h
  · obtain ⟨m, hm, hn⟩ := Option.map_eq_some_iff.1 h
    have := closeIndex?_le hm
    cases hn; simp; omega
  · exact longest?_le_length h

/-- A text that does not open a comment is read if a rule matches it, and none matches it with more of
what follows. -/
theorem reads_iff (hx : ¬ ['/', '*'] <+: x) : Reads lexeme x r ↔
    first? rules x = some lexeme ∧ ¬ ['/', '*'] <+: x ++ r ∧
      ∀ t, t <+: r → t ≠ [] → first? rules (x ++ t) = none := by
  by_cases hopen : ['/', '*'] <+: x ++ r
  · -- the comment is longer than the part of `/*` that `x` holds
    refine iff_of_false (fun h => ?_) fun h => h.2.1 hopen
    obtain ⟨u, hu⟩ := hopen
    rw [Reads, ← hu] at h
    obtain ⟨n, -, hn⟩ := Option.map_eq_some_iff.1 h
    obtain ⟨-, hlen⟩ := Prod.mk.inj hn
    exact hx (List.prefix_of_prefix_length_le ⟨u, hu⟩ (List.prefix_append x r) (by simp; omega))
  · rw [Reads, at?_eq_longest? hopen, longest?_append_iff]
    exact ⟨fun h => ⟨h.2.1, hopen, h.2.2⟩, fun h => ⟨ne_nil_of_first? h.1, h.1, h.2.2⟩⟩

/-- A lexeme that is no block comment is read by a rule. -/
theorem Reads.exists_rule (h : Reads lexeme x r) (hblock : lexeme ≠ trivia .blockComment)
    (hdoc : lexeme ≠ trivia .docComment) : ∃ p, IsRule lexeme p ∧ p.Matches x := by
  have hx : ¬ ['/', '*'] <+: x := fun hx => (h.isComment hx).elim hblock hdoc
  exact Lexeme.exists_rule ((reads_iff hx).1 h).1

/-- A text is read the same if less follows it. -/
theorem Reads.of_append (h : Reads lexeme x (r ++ s)) : Reads lexeme x r := by
  by_cases hx : ['/', '*'] <+: x
  · exact h.of_opens hx r
  obtain ⟨hfirst, hopen, hnone⟩ := (reads_iff hx).1 h
  refine (reads_iff hx).2 ⟨hfirst, fun hopen' => hopen ?_, fun t ht => ?_⟩
  · rw [← List.append_assoc]
    exact hopen'.trans (List.prefix_append ..)
  · exact hnone t (ht.trans (List.prefix_append ..))

theorem Reads.alone (h : Reads lexeme x r) : Reads lexeme x [] :=
  Reads.of_append (s := r) h

/-- A text starts with one lexeme only. -/
theorem Reads.eq_of_append_eq {lexeme' : Lexeme} (h : Reads lexeme x r) (h' : Reads lexeme' y s)
    (heq : x ++ r = y ++ s) : lexeme = lexeme' ∧ x = y ∧ r = s := by
  rw [Reads, heq] at h
  obtain ⟨hlexeme, hlength⟩ := Prod.mk.inj (Option.some.inj (h.symm.trans h'))
  exact ⟨hlexeme, List.append_inj heq hlength⟩

/-- A text is read as one lexeme only. -/
theorem Reads.unique {lexeme' : Lexeme} (h : Reads lexeme x r) (h' : Reads lexeme' x s) :
    lexeme = lexeme' := by
  have := h.alone.symm.trans h'.alone
  simp only [Option.some.injEq, Prod.mk.injEq, and_true] at this
  exact this

theorem Reads.ne_nil (h : Reads lexeme x r) : x ≠ [] := by
  rintro rfl
  have : at? [] = none := by decide
  have h := h.alone
  rw [Reads, List.append_nil, this] at h
  cases h

theorem Reads.head_not_blank (h : Reads lexeme (c :: x) r) : isBlank c = false := by
  by_cases hx : ['/', '*'] <+: c :: x
  · obtain ⟨y, hy⟩ := hx
    cases hy; rfl
  · obtain ⟨p, hp, hm⟩ := Lexeme.exists_rule ((reads_iff hx).1 h).1
    have hheads : ∀ rule ∈ rules, rule.2.heads ' ' = false ∧ rule.2.heads '\t' = false := by decide
    have := heads_of_matches hm
    simp only [isBlank, Bool.or_eq_false_iff, beq_eq_false_iff_ne]
    constructor <;> rintro rfl
    exacts [by simp [(hp.all hheads).1] at this, by simp [(hp.all hheads).2] at this]

/-! ### In front of a blank or the end of a line -/

theorem not_terminator_of_blank (h : isBlank c = true) : isTerminator c = false := by
  simp only [isBlank, Bool.or_eq_true, beq_iff_eq] at h
  rcases h with rfl | rfl <;> rfl

theorem mem_spaces (h : isBlank c = true ∨ isTerminator c = true) : c ∈ [' ', '\t', '\r', '\n'] := by
  simp only [isBlank, isTerminator, Bool.or_eq_true, beq_iff_eq] at h
  simp only [List.mem_cons, List.not_mem_nil, or_false]
  tauto

theorem first?_append_space (hx : first? rules x = some lexeme) (hc : c ∈ [' ', '\t', '\r', '\n'])
    (hbreak : lexeme ≠ trivia .lineBreak)
    (hcomment : lexeme = trivia .lineComment → isTerminator c = true) : first? rules (x ++ [c]) = none := by
  obtain ⟨q, hq, hqx⟩ := Lexeme.exists_rule hx
  have hne := ne_nil_of_first? hx
  refine Option.eq_none_iff_forall_ne_some.2 fun lexeme' h => ?_
  obtain ⟨p, hp, hm⟩ := Lexeme.exists_rule h
  rcases hp.all lasts_space c hc (lasts_of_matches hm) with rfl | ⟨rfl, hterm⟩
  · cases hp
    obtain ⟨rfl, -⟩ := append_mem_terminators hne (by simp) (matches_lineBreak.1 hm)
    exact hbreak (hq.all chars_terminator '\r' (by simp) (chars_of_matches hqx (by simp)))
  · cases hp
    obtain ⟨u, h, -⟩ := matches_lineComment.1 hm
    match x, hne with
    | [d], _ => cases h; exact absurd hc (by decide)
    | d :: e :: x, _ =>
      cases h
      have := hcomment (hq.all pairs_slash (heads_of_matches hqx) (pairs_of_matches (s := []) hqx))
      rw [hterm] at this; cases this

/-- A comment that opens behind the start of `x` opens with the last character of `x`. -/
theorem opens_append (hne : x ≠ []) (hx : ¬ ['/', '*'] <+: x) (h : ['/', '*'] <+: x ++ c :: r) :
    x = ['/'] ∧ c = '*' := by
  match x, hne with
  | [d], _ =>
    obtain ⟨rfl, h'⟩ := List.cons_prefix_cons.1 h
    exact ⟨rfl, (List.cons_prefix_cons.1 h').1.symm⟩
  | d :: e :: x, _ =>
    obtain ⟨rfl, h'⟩ := List.cons_prefix_cons.1 h
    obtain ⟨rfl, -⟩ := List.cons_prefix_cons.1 h'
    exact absurd (by simp) hx

/-- A lexeme is read in front of a blank or the end of a line as it is alone, but a line comment takes
in the blank, and a line break may take in the end of a line. -/
theorem Reads.before_space (h : Reads lexeme x []) (hc : isBlank c = true ∨ isTerminator c = true)
    (hbreak : lexeme ≠ trivia .lineBreak)
    (hcomment : lexeme = trivia .lineComment → isTerminator c = true) : Reads lexeme x (c :: r) := by
  by_cases hx : ['/', '*'] <+: x
  · exact h.of_opens hx _
  have hc := mem_spaces hc
  have hfirst := ((reads_iff hx).1 h).1
  have hnone := first?_append_space hfirst hc hbreak hcomment
  refine (reads_iff hx).2 ⟨hfirst, fun hopen => ?_, fun t ht hne => ?_⟩
  · obtain ⟨-, rfl⟩ := opens_append h.ne_nil hx hopen
    exact absurd hc (by decide)
  · obtain ⟨u, rfl, -⟩ := (List.prefix_cons_iff.1 ht).resolve_left hne
    refine first?_eq_none_iff.2 fun ⟨lexeme', p⟩ hp hm => ?_
    rcases extends_cases hfirst (mem_rules.1 hp) hm with h | ⟨-, rfl⟩ | ⟨-, hn⟩
    · rw [hnone] at h; cases h
    · exact absurd hc (by decide)
    · have : ∀ p ∈ integers ++ floatings, ∀ c ∈ [' ', '\t', '\r', '\n'], p.chars c = false := by decide
      have hchars : p.chars c = true := chars_of_matches hm (by simp)
      rw [this p (mem_numbers.2 ⟨_, mem_rules.1 hp, hn⟩) c hc] at hchars; cases hchars

/-! ### Line breaks -/

/-- A line break is read as such, unless it is the first half of `\r\n`. -/
theorem reads_lineBreak (hx : x ∈ terminators) (hr : x = ['\r'] → r.head? ≠ some '\n') :
    Reads (trivia .lineBreak) x r := by
  have hterminators : ∀ x ∈ terminators, first? rules x = some (trivia .lineBreak) ∧
      x.head?.any (['\r', '\n'].contains ·) = true := by decide
  obtain ⟨hfirst, hhead⟩ := hterminators x hx
  obtain ⟨d, hhead, hd⟩ := (Option.any_eq_true ..).1 hhead
  obtain ⟨x, rfl⟩ := List.head?_eq_some_iff.1 hhead
  replace hd := List.contains_iff_mem.1 hd
  have hopen : ∀ {u}, ¬ ['/', '*'] <+: d :: u := by
    intro u h
    rw [← (List.cons_prefix_cons.1 h).1] at hd
    exact absurd hd (by decide)
  refine (reads_iff hopen).2 ⟨hfirst, hopen, fun t ht hne => ?_⟩
  refine first?_eq_none_iff.2 fun ⟨lexeme', p⟩ hp hm => ?_
  have hp := mem_rules.1 hp
  obtain rfl : lexeme' = trivia .lineBreak := hp.all chars_terminator d hd (chars_of_matches hm (by simp))
  cases hp
  obtain ⟨hcr, rfl⟩ := append_mem_terminators (by simp) hne (matches_lineBreak.1 hm)
  obtain ⟨u, rfl⟩ := ht
  exact hr hcr rfl

/-- The end of a line stands only in line breaks and block comments. -/
theorem Reads.of_terminator (h : Reads lexeme x r) (hc : c ∈ x) (ht : isTerminator c = true) :
    lexeme = trivia .lineBreak ∨ ['/', '*'] <+: x := by
  by_cases hx : ['/', '*'] <+: x
  · exact .inr hx
  · obtain ⟨p, hp, hm⟩ := Lexeme.exists_rule ((reads_iff hx).1 h).1
    refine .inl (hp.all chars_terminator c ?_ (chars_of_matches hm hc))
    simpa [isTerminator] using ht

theorem Reads.of_terminator_head (h : Reads lexeme (c :: x) r) (hc : isTerminator c = true) :
    lexeme = trivia .lineBreak := by
  refine (h.of_terminator (List.mem_cons_self ..) hc).resolve_right fun hopen => ?_
  rw [← (List.cons_prefix_cons.1 hopen).1] at hc
  cases hc

/-- Only line breaks have the end of a line at their end. -/
theorem Reads.getLast_not_terminator (h : Reads lexeme x r) (hbreak : lexeme ≠ trivia .lineBreak) :
    ∀ c ∈ x.getLast?, isTerminator c = false := by
  intro c hc
  by_contra ht
  rcases h.of_terminator (List.mem_of_getLast? hc) (by simpa using ht) with hlexeme | ⟨y, rfl⟩
  · exact hbreak hlexeme
  · obtain ⟨n, hn, hclose, -⟩ : ∃ n, n + 2 = y.length ∧ _ := reads_blockComment.1 h
    obtain ⟨z, hz⟩ := closeIndex?_drop hclose
    have hlength := congrArg List.length hz
    simp only [List.length_append, List.length_cons, List.length_nil, List.length_drop] at hlength
    obtain rfl : z = [] := List.length_eq_zero_iff.1 (by omega)
    rw [List.append_nil] at hz
    rw [← List.take_append_drop n y, ← hz, ← List.append_assoc,
      List.getLast?_append_of_ne_nil _ (by simp)] at hc
    cases hc
    exact ht rfl

theorem Reads.mem_terminators (h : Reads (trivia .lineBreak) x r) : x ∈ terminators := by
  obtain ⟨p, hp, hm⟩ := h.exists_rule (by simp) (by simp)
  cases hp
  exact matches_lineBreak.1 hm

/-- No lexeme ends in the middle of `\r\n`. -/
theorem Reads.not_lineFeed (h : Reads lexeme x r) (hx : x.getLast? = some '\r') : r.head? ≠ some '\n' := by
  intro hr
  obtain ⟨r, rfl⟩ := List.head?_eq_some_iff.1 hr
  obtain rfl : lexeme = trivia .lineBreak := by
    by_contra hbreak
    cases h.getLast_not_terminator hbreak _ hx
  have hends : ∀ x ∈ terminators, x.getLast? = some '\r' → x = ['\r'] := by decide
  obtain rfl := hends x h.mem_terminators hx
  have hboth : Reads (trivia .lineBreak) ['\r', '\n'] r := reads_lineBreak (by decide) (by simp)
  obtain ⟨-, heq, -⟩ := h.eq_of_append_eq hboth rfl
  cases heq

/-- A lexeme is read the same if the end of a line follows the text behind it. -/
theorem Reads.append_terminator (h : Reads lexeme x r) (hc : isTerminator c = true)
    (hcut : ¬ (x = ['\r'] ∧ r = [] ∧ c = '\n')) : Reads lexeme x (r ++ c :: s) := by
  by_cases hx : ['/', '*'] <+: x
  · exact h.of_opens hx _
  obtain ⟨hfirst, hopen, hnone⟩ := (reads_iff hx).1 h
  refine (reads_iff hx).2 ⟨hfirst, fun hopen' => ?_, fun t ht hne => ?_⟩
  · rw [← List.append_assoc] at hopen'
    obtain ⟨-, rfl⟩ := opens_append (by simp [h.ne_nil]) hopen hopen'
    cases hc
  · by_cases htr : t <+: r
    · exact hnone t htr hne
    -- the text matched would hold the end of the line, so it would be a line break
    obtain ⟨u, rfl⟩ := (List.prefix_or_prefix_of_prefix ht (List.prefix_append r _)).resolve_left htr
    cases u with
    | nil => exact absurd (by simp) htr
    | cons d u =>
      obtain ⟨rfl, -⟩ := List.cons_prefix_cons.1 ((List.prefix_append_right_inj r).1 ht)
      refine first?_eq_none_iff.2 fun ⟨lexeme', p⟩ hp hm => ?_
      have hp := mem_rules.1 hp
      obtain rfl : lexeme' = trivia .lineBreak :=
        hp.all chars_terminator d (by simpa [isTerminator] using hc) (chars_of_matches hm (by simp))
      cases hp
      obtain ⟨rfl, hlf⟩ := append_mem_terminators h.ne_nil hne (matches_lineBreak.1 hm)
      cases r with
      | nil => cases hlf; exact hcut ⟨rfl, rfl, rfl⟩
      | cons e r => simp at hlf

/-- A line comment reaches to the end of its line. -/
theorem Reads.lineComment_end (h : Reads (trivia .lineComment) x (c :: r)) : isTerminator c = true := by
  obtain ⟨p, hp, hm⟩ := h.exists_rule (by simp) (by simp)
  cases hp
  obtain ⟨u, rfl, hu⟩ := matches_lineComment.1 hm
  obtain ⟨-, -, hnone⟩ := (reads_iff (by simp)).1 h
  by_contra hc
  refine first?_eq_none_iff.1 (hnone [c] (by simp) (by simp)) _ (mem_rules.2 .lineComment) ?_
  refine matches_lineComment.2 ⟨u ++ [c], rfl, fun d hd => ?_⟩
  rcases List.mem_append.1 hd with hd | hd
  · exact hu d hd
  · rw [List.mem_singleton.1 hd]
    simpa using hc

/-! ### In front of a text to which it may be joined -/

variable {b : List Char}

theorem reads_of_splitsCleanly (hx : Reads lexeme x []) (h : splitsCleanly x b = true) :
    Reads lexeme x b := by
  obtain ⟨c, x', rfl⟩ := List.exists_cons_of_ne_nil hx.ne_nil
  have hdrop : (c :: x' ++ b).dropWhile isBlank = c :: x' ++ b := by
    rw [List.cons_append, List.dropWhile_cons_of_neg (by simp [hx.head_not_blank])]
  simp only [splitsCleanly, hdrop, Nat.sub_self, Nat.zero_add] at h
  split at h
  · rename_i lexeme' n hat
    have hreads : Reads lexeme' (c :: x') b := by rw [Reads, hat, beq_iff_eq.1 h]
    rw [hx.unique hreads]; exact hreads
  · cases h

/-- The characters that are joined to a number in front of them. -/
def joinedToNumber : List Char := [')', ';', ',', '.', ']', '-', '>']

theorem Reads.eq_spelling {kind : TokenKind} {spelling : String} (h : Reads (token kind) x r)
    (hs : (kind, spelling) ∈ symbols) (hkind : kind ≠ .compoundAssign) : x = spelling.toList := by
  obtain ⟨p, hp, hm⟩ := h.exists_rule (by simp) (by simp)
  rwa [hp.eq_literal hs hkind, matches_literal] at hm

/-- Two texts that split cleanly go on to be read apart whatever stands behind them, but for two dots,
and but for numbers with a letter behind them. -/
theorem Reads.before_joined (hx : Reads lexeme x []) (hb : b ≠ []) (hsplit : splitsCleanly x b = true)
    (hdots : ¬ (x = ['.'] ∧ b = ['.']))
    (hnumber : lexeme.isNumber = true → ∃ c ∈ joinedToNumber, b = [c]) : Reads lexeme x (b ++ r) := by
  have hxb := reads_of_splitsCleanly hx hsplit
  by_cases hopen : ['/', '*'] <+: x
  · exact hx.of_opens hopen _
  obtain ⟨hfirst, hopen', hnone⟩ := (reads_iff hopen).1 hxb
  obtain ⟨c, b, rfl⟩ := List.exists_cons_of_ne_nil hb
  have hc : first? rules (x ++ [c]) = none := hnone [c] (by simp) (by simp)
  refine (reads_iff hopen).2 ⟨hfirst, fun h => ?_, fun t ht hne => ?_⟩
  · obtain ⟨rfl, rfl⟩ := opens_append hx.ne_nil hopen h
    exact hopen' (by simp)
  · obtain ⟨u, rfl, hu⟩ := (List.prefix_cons_iff.1 ht).resolve_left hne
    refine first?_eq_none_iff.2 fun ⟨lexeme', p⟩ hp hm => ?_
    have hp := mem_rules.1 hp
    rcases extends_cases hfirst hp hm with h | ⟨rfl, rfl⟩ | ⟨hn, hn'⟩
    · rw [hc] at h; cases h
    · -- only a third dot makes a lexeme of them, and then it is one with `b` alone
      have hne' : b ≠ [] := fun h => hdots ⟨rfl, by rw [h]⟩
      obtain ⟨d, b, rfl⟩ := List.exists_cons_of_ne_nil hne'
      cases u with
      | nil => exact first?_eq_none_iff.1 hc _ (mem_rules.2 hp) hm
      | cons e u =>
        obtain rfl := hp.all pairs_dot (heads_of_matches hm) (pairs_of_matches (s := []) hm)
        rw [hp.eq_literal (show (_, "...") ∈ symbols by decide) (by decide), matches_literal,
          show "...".toList = ['.', '.', '.'] by decide] at hm
        cases hm
        obtain ⟨rfl, -⟩ := List.cons_prefix_cons.1 hu
        have : first? rules ['.', '.', '.'] = none := hnone ['.', '.'] (by simp) (by simp)
        exact absurd this (by decide)
    · obtain ⟨_, hmem, h⟩ := hnumber hn
      cases h
      obtain ⟨q, hq, hqx⟩ := Lexeme.exists_rule hfirst
      have hp := mem_numbers.2 ⟨_, hp, hn'⟩
      have hq := mem_numbers.2 ⟨_, hq, hn⟩
      have hother : ∀ p ∈ integers ++ floatings, ∀ c ∈ joinedToNumber, p.chars c = true →
          c = '.' ∨ c = '-' := by decide
      rcases hother p hp c hmem (chars_of_matches hm (by simp)) with rfl | rfl
      · have := number_dot hp hx.ne_nil hm
        rw [hc] at this; cases this
      · exact number_minus hq hp hqx hm

end GrammarFormat.Lexeme
