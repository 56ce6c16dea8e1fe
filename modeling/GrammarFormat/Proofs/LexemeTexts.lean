import Mathlib.Tactic.Tauto
import GrammarFormat.Lexeme.Rules
import GrammarFormat.Proofs.PatternChars

/-!
# The texts of lexemes

What follows from the shapes of lexemes for a text `x` that a rule matches and a character `c` behind
it. Where a rule matches `x` with `c` and more behind it, most often `c` alone already makes a longer
lexeme (`extends_cases`); the exceptions are two dots, of which only three make a lexeme, and numbers,
where an exponent or a base needs more than its letter.

Which rules come into question for given characters is computed from the bounds of their patterns.
-/

namespace GrammarFormat.Lexeme

open Pattern

/-! ### The rules by their form -/

/-- The lexemes of numbers. -/
def isNumber : Lexeme → Bool
  | token .integer | token .floating => true
  | _ => false

inductive IsRule : Lexeme → Pattern → Prop
  | lineBreak : IsRule (trivia .lineBreak) lineBreak
  | formFeed : IsRule (trivia .formFeed) (literal ['\x0c'])
  | lineComment : IsRule (trivia .lineComment) lineComment
  | word : IsRule word wordPattern
  | integer {p : Pattern} (h : p ∈ integers) : IsRule (token .integer) p
  | floating {p : Pattern} (h : p ∈ floatings) : IsRule (token .floating) p
  | character : IsRule (token .character) character
  | string : IsRule (token .string) string
  | symbol {kind : TokenKind} {spelling : String} (h : (kind, spelling) ∈ symbols) :
      IsRule (token kind) (literal spelling.toList)

variable {lexeme : Lexeme} {p q : Pattern} {x t : List Char} {c : Char}

theorem mem_rules : (lexeme, p) ∈ rules ↔ IsRule lexeme p := by
  simp only [rules, List.mem_append, List.mem_map, List.mem_cons, Prod.mk.injEq, List.not_mem_nil,
    or_false, Prod.exists]
  constructor
  · rintro (((((⟨rfl, rfl⟩ | ⟨rfl, rfl⟩ | ⟨rfl, rfl⟩ | ⟨rfl, rfl⟩) | ⟨_, h, rfl, rfl⟩) |
      ⟨_, h, rfl, rfl⟩) | ⟨rfl, rfl⟩ | ⟨rfl, rfl⟩) | ⟨kind, spelling, h, rfl, rfl⟩)
    exacts [.lineBreak, .formFeed, .lineComment, .word, .integer h, .floating h, .character, .string,
      .symbol h]
  · intro h
    cases h with
    | lineBreak | formFeed | lineComment | word => simp
    | integer h => exact .inl (.inl (.inl (.inr ⟨p, h, rfl, rfl⟩)))
    | floating h => exact .inl (.inl (.inr ⟨p, h, rfl, rfl⟩))
    | character | string => simp
    | symbol h => exact .inr ⟨_, _, h, rfl, rfl⟩

theorem exists_rule (h : first? rules x = some lexeme) : ∃ p, IsRule lexeme p ∧ p.Matches x := by
  obtain ⟨p, hp, hx⟩ := exists_of_first? h
  exact ⟨p, mem_rules.1 hp, hx⟩

theorem IsRule.first?_isSome (h : IsRule lexeme p) (hx : p.Matches x) : (first? rules x).isSome = true := by
  rw [Option.isSome_iff_ne_none, Ne, first?_eq_none_iff]
  exact fun hn => hn _ (mem_rules.2 h) hx

theorem ne_nil_of_first? (h : first? rules x = some lexeme) : x ≠ [] := by
  have hnil : first? rules [] = none := by decide
  rintro rfl
  rw [hnil] at h
  cases h

/-- Facts about all rules, as they are computed, for one rule. -/
theorem IsRule.all {P : Lexeme × Pattern → Prop} (h : IsRule lexeme p) (hall : ∀ rule ∈ rules, P rule) :
    P (lexeme, p) :=
  hall _ (mem_rules.2 h)

/-! ### What the bounds give -/

theorem heads_doubleQuote : ∀ rule ∈ rules, rule.2.heads '"' = true → rule.1 = token .string := by
  decide

theorem heads_quote : ∀ rule ∈ rules, rule.2.heads '\'' = true → rule.1 = token .character := by
  decide

def decimals : List Char := ['0', '1', '2', '3', '4', '5', '6', '7', '8', '9']

theorem heads_digit : ∀ rule ∈ rules, ∀ c ∈ decimals, rule.2.heads c = true →
    rule.1.isNumber = true := by
  decide

/-- Only line breaks end in the end of a line, and only those and line comments end in a blank. -/
theorem lasts_space : ∀ rule ∈ rules, ∀ c ∈ [' ', '\t', '\r', '\n'], rule.2.lasts c = true →
    rule.1 = trivia .lineBreak ∨ rule.1 = trivia .lineComment ∧ isTerminator c = false := by
  decide

theorem chars_terminator : ∀ rule ∈ rules, ∀ c ∈ ['\r', '\n'], rule.2.chars c = true →
    rule.1 = trivia .lineBreak := by
  decide

theorem pairs_slash : ∀ rule ∈ rules, rule.2.heads '/' = true → rule.2.pairs '/' '/' = true →
    rule.1 = trivia .lineComment := by
  decide

theorem pairs_dot : ∀ rule ∈ rules, rule.2.heads '.' = true → rule.2.pairs '.' '.' = true →
    rule.1 = token .ellipsis := by
  decide

theorem mem_decimals (h : c.isDigit = true) : c ∈ decimals := by
  have hc : 48 ≤ c.toNat ∧ c.toNat ≤ 57 := by
    simpa [Char.isDigit, UInt32.le_iff_toNat_le] using h
  rw [← Char.ofNat_toNat c]
  generalize c.toNat = n at hc
  have : n = 48 ∨ n = 49 ∨ n = 50 ∨ n = 51 ∨ n = 52 ∨ n = 53 ∨ n = 54 ∨ n = 55 ∨ n = 56 ∨
      n = 57 := by omega
  rcases this with rfl | rfl | rfl | rfl | rfl | rfl | rfl | rfl | rfl | rfl <;> decide

/-! ### Line breaks and line comments -/

/-- The texts that end a line. -/
def terminators : List (List Char) := [['\n'], ['\r', '\n'], ['\r']]

theorem matches_lineBreak : lineBreak.Matches x ↔ x ∈ terminators := by
  have hcases : lineBreak.Matches x ↔ x = ['\r', '\n'] ∨ x = ['\r'] ∨ x = ['\n'] := by simp [lineBreak]
  simp only [hcases, terminators, List.mem_cons, List.not_mem_nil, or_false]
  tauto

/-- Only `\r\n` is two texts in a row. -/
theorem append_mem_terminators (hne : x ≠ []) (hne' : t ≠ []) (h : x ++ t ∈ terminators) :
    x = ['\r'] ∧ t = ['\n'] := by
  obtain ⟨d, x, rfl⟩ := List.exists_cons_of_ne_nil hne
  obtain ⟨e, t, rfl⟩ := List.exists_cons_of_ne_nil hne'
  simp only [terminators, List.mem_cons, List.not_mem_nil, or_false] at h
  rcases h with h | h | h
  · simp at h
  · cases x with
    | nil => cases h; exact ⟨rfl, rfl⟩
    | cons f x => simp at h
  · simp at h

theorem matches_lineComment : lineComment.Matches x ↔
    ∃ u, x = '/' :: '/' :: u ∧ ∀ c ∈ u, isTerminator c = false := by
  simp only [lineComment, matches_append, matches_literal, matches_star_one, Bool.not_eq_true']
  constructor
  · rintro ⟨_, u, rfl, hu, rfl⟩
    exact ⟨u, rfl, hu⟩
  · rintro ⟨u, rfl, hu⟩
    exact ⟨_, u, rfl, hu, rfl⟩

/-! ### Quoted literals end at their closing quote -/

theorem matches_stringItem : stringItem.Matches t ↔
    (∃ c, c ≠ '"' ∧ c ≠ '\\' ∧ t = [c] ∧ isTerminator c = false) ∨
      ∃ c, t = ['\\', c] ∧ isTerminator c = false := by
  simp only [stringItem, matches_or, matches_append, matches_literal, matches_one]
  constructor
  · rintro (⟨c, hc, rfl⟩ | ⟨_, _, rfl, ⟨c, hc, rfl⟩, rfl⟩)
    · simp only [Bool.not_eq_true', Bool.or_eq_false_iff, beq_eq_false_iff_ne] at hc
      exact .inl ⟨c, hc.1.1, hc.1.2, rfl, hc.2⟩
    · exact .inr ⟨c, rfl, by simpa using hc⟩
  · rintro (⟨c, hq, hb, rfl, hc⟩ | ⟨c, rfl, hc⟩)
    · exact .inl ⟨c, by simp [hq, hb, hc], rfl⟩
    · exact .inr ⟨_, _, rfl, ⟨c, by simp [hc], rfl⟩, rfl⟩

/-- Where the items of a string end, if a quote follows them. -/
theorem stringItems_inj {a b u v : List Char} (ha : (star stringItem).Matches a)
    (hb : (star stringItem).Matches b) (h : a ++ '"' :: u = b ++ '"' :: v) : a = b := by
  -- by the number of characters in `a`; an item is one or two of them
  induction hn : a.length using Nat.strongRecOn generalizing a b with
  | _ n ih =>
    rcases matches_star.1 ha with rfl | ⟨i, a', hne, hi, ha', rfl⟩ <;>
      rcases matches_star.1 hb with rfl | ⟨j, b', -, hj, hb', rfl⟩
    · rfl
    · rcases matches_stringItem.1 hj with ⟨c, hq, -, rfl, -⟩ | ⟨c, rfl, -⟩
      · exact absurd (List.cons.inj h).1.symm hq
      · exact absurd (List.cons.inj h).1 (by decide)
    · rcases matches_stringItem.1 hi with ⟨c, hq, -, rfl, -⟩ | ⟨c, rfl, -⟩
      · exact absurd (List.cons.inj h).1 hq
      · exact absurd (List.cons.inj h).1 (by decide)
    · have hlt : a'.length < n := by
        have := List.length_pos_iff.2 hne
        rw [← hn, List.length_append]; omega
      rcases matches_stringItem.1 hi with ⟨c, hq, hbs, rfl, -⟩ | ⟨c, rfl, -⟩ <;>
        rcases matches_stringItem.1 hj with ⟨d, hq', hbs', rfl, -⟩ | ⟨d, rfl, -⟩
      · simp only [List.cons_append, List.nil_append, List.cons.injEq] at h
        rw [ih _ hlt ha' hb' h.2 rfl, h.1]
      · exact absurd (List.cons.inj h).1 hbs
      · exact absurd (List.cons.inj h).1.symm hbs'
      · simp only [List.cons_append, List.nil_append, List.cons.injEq, true_and] at h
        rw [ih _ hlt ha' hb' h.2 rfl, h.1]

theorem string_not_matches_append (hx : string.Matches x) : ¬ string.Matches (x ++ c :: t) := by
  simp only [string, matches_append, matches_literal] at hx ⊢
  obtain ⟨_, _, ⟨_, a, rfl, ha, rfl⟩, rfl, rfl⟩ := hx
  rintro ⟨_, _, ⟨_, b, rfl, hb, rfl⟩, rfl, h⟩
  simp only [List.cons_append, List.nil_append, List.append_assoc, List.cons.injEq, true_and] at h
  obtain rfl := stringItems_inj ha hb h
  simp at h

theorem matches_character : character.Matches x ↔ ∃ body, x = '\'' :: body ++ ['\''] ∧
    ((∃ c, c ≠ '\'' ∧ c ≠ '\\' ∧ isTerminator c = false ∧ body = [c]) ∨
      (∃ c hex, c ≠ '\'' ∧ isTerminator c = false ∧ (∀ d ∈ hex, isHexDigit d = true) ∧
        body = '\\' :: c :: hex) ∨ body = ['\\', '\'']) := by
  simp only [character, matches_append, matches_or, matches_literal, matches_one, matches_star_one,
    Bool.not_eq_true', Bool.or_eq_false_iff, beq_eq_false_iff_ne]
  constructor
  · rintro ⟨_, _, ⟨_, body, rfl, hbody, rfl⟩, rfl, rfl⟩
    refine ⟨body, rfl, ?_⟩
    rcases hbody with (⟨c, hc, rfl⟩ | ⟨_, hex, ⟨_, _, rfl, ⟨c, hc, rfl⟩, rfl⟩, hhex, rfl⟩) | rfl
    exacts [.inl ⟨c, hc.1.1, hc.1.2, hc.2, rfl⟩, .inr (.inl ⟨c, hex, hc.1, hc.2, hhex, rfl⟩),
      .inr (.inr rfl)]
  · rintro ⟨body, rfl, hbody⟩
    refine ⟨_, _, ⟨_, body, rfl, ?_, rfl⟩, rfl, rfl⟩
    rcases hbody with ⟨c, hq, hb, hc, rfl⟩ | ⟨c, hex, hq, hc, hhex, rfl⟩ | rfl
    exacts [.inl (.inl ⟨c, ⟨⟨hq, hb⟩, hc⟩, rfl⟩),
      .inl (.inr ⟨_, hex, ⟨_, _, rfl, ⟨c, ⟨hq, hc⟩, rfl⟩, rfl⟩, hhex, rfl⟩), .inr rfl]

theorem character_not_matches_append (hx : character.Matches x) : ¬ character.Matches (x ++ c :: t) := by
  intro hm
  obtain ⟨a, rfl, ha⟩ := matches_character.1 hx
  obtain ⟨b, h, hb⟩ := matches_character.1 hm
  simp only [List.cons_append, List.append_assoc, List.nil_append, List.cons.injEq, true_and] at h
  rcases ha with ⟨d, hq, hs, -, rfl⟩ | ⟨d, hex, hq, -, hhex, rfl⟩ | rfl <;>
    rcases hb with ⟨e, hq', hs', -, rfl⟩ | ⟨e, hex', hq', -, hhexb, rfl⟩ | rfl
  · simp at h
  · exact hs (List.cons.inj h).1
  · exact hs (List.cons.inj h).1
  · exact hs' (List.cons.inj h).1.symm
  · -- the quote behind the shorter one would be a hexadecimal digit of the longer one
    simp only [List.cons_append, List.cons.injEq, true_and] at h
    rcases List.append_eq_append_iff.1 h.2 with ⟨u, rfl, hu⟩ | ⟨u, rfl, hu⟩
    · cases u with
      | nil => simp at hu
      | cons d u =>
        rw [← (List.cons.inj hu).1] at hhexb
        exact absurd (hhexb '\'' (by simp)) (by decide)
    · have := congrArg List.length hu
      simp at this; omega
  · exact hq (List.cons.inj (List.cons.inj h).2).1
  · exact hs' (List.cons.inj h).1.symm
  · exact hq' (List.cons.inj (List.cons.inj h).2).1.symm
  · simp at h

/-! ### Numbers -/

theorem mem_numbers : p ∈ integers ++ floatings ↔ ∃ lexeme, IsRule lexeme p ∧ lexeme.isNumber = true := by
  rw [List.mem_append]
  constructor
  · rintro (h | h)
    exacts [⟨_, .integer h, rfl⟩, ⟨_, .floating h, rfl⟩]
  · rintro ⟨lexeme, h, hn⟩
    cases h with
    | integer h => exact .inl h
    | floating h => exact .inr h
    | @symbol kind spelling h =>
      have : ∀ s ∈ symbols, isNumber (token s.1) = false := by decide
      rw [this _ h] at hn; cases hn
    | _ => cases hn

/-- Only a decimal fraction has a dot behind its first character, and the part of it up to the dot is
one too. -/
theorem number_dot (hp : p ∈ integers ++ floatings) (hne : x ≠ []) (hm : p.Matches (x ++ '.' :: t)) :
    (first? rules (x ++ ['.'])).isSome = true := by
  have hdot : p.chars '.' = true := chars_of_matches hm (by simp)
  have hdigits : ∀ {a : List Char}, digits.Matches a → '.' ∉ a := fun ha hmem =>
    absurd (chars_of_matches ha hmem) (by decide)
  simp only [integers, floatings, List.cons_append, List.nil_append, List.mem_cons, List.not_mem_nil,
    or_false] at hp
  rcases hp with rfl | rfl | rfl | rfl | rfl | rfl | rfl
  · cases hdot
  · cases hdot
  · cases hdot
  · -- `1.5e3f`: the text in front of the only dot is `x`
    simp only [matches_append, matches_literal] at hm
    obtain ⟨_, f, ⟨_, e, ⟨_, b, ⟨a, _, ha, rfl, rfl⟩, hb, rfl⟩, he, rfl⟩, hf, h⟩ := hm
    have hrest : '.' ∉ b ++ e ++ f := by
      simp only [List.mem_append, not_or]
      exact ⟨⟨fun hc => absurd (chars_of_matches hb hc) (by decide),
        fun hc => absurd (chars_of_matches he hc) (by decide)⟩,
        fun hc => absurd (chars_of_matches hf hc) (by decide)⟩
    have hsplit : x ++ '.' :: t = a ++ '.' :: (b ++ e ++ f) := by simpa using h
    obtain ⟨rfl, -, -⟩ := (List.append_cons_inj_of_notMem (hdigits ha) hrest).1 hsplit.symm
    refine (IsRule.floating (p := floatings[0]) (by simp [floatings])).first?_isSome ?_
    simp only [floatings, List.getElem_cons_zero, matches_append, matches_literal]
    exact ⟨a ++ ['.'], [], ⟨a ++ ['.'], [], ⟨a ++ ['.'], [], ⟨a, ['.'], ha, rfl, rfl⟩, .starNil, by simp⟩,
      by simp, by simp⟩, by simp [floatSuffix], by simp⟩
  · -- `.5`: the only dot is the first character
    simp only [matches_append, matches_literal] at hm
    obtain ⟨_, f, ⟨_, e, ⟨_, b, rfl, hb, rfl⟩, he, rfl⟩, hf, h⟩ := hm
    cases x with
    | nil => exact absurd rfl hne
    | cons d x =>
      have hmem : '.' ∈ b ++ e ++ f := by
        rw [← (List.cons.inj (show d :: (x ++ '.' :: t) = '.' :: (b ++ e ++ f) from h)).2]; simp
      simp only [List.mem_append] at hmem
      rcases hmem with (hc | hc) | hc
      exacts [absurd hc (hdigits hb), absurd (chars_of_matches he hc) (by decide),
        absurd (chars_of_matches hf hc) (by decide)]
  · cases hdot
  · cases hdot

theorem pairs_minus {l : Char} : ∀ q ∈ integers ++ floatings, q.pairs l '-' = true → l = 'e' ∨ l = 'E' := by
  simp +decide [integers, floatings, append_eq_seq, or_eq_alt, digits, longSuffix, floatSuffix, exponent,
    pairs, lasts, heads, nullable, Pattern.optional, plus, oneOf, literal]

/-- A number that ends in the letter of an exponent is hexadecimal. -/
theorem number_exponent {l : Char} (hp : p ∈ integers ++ floatings) (hx : p.Matches (x ++ [l]))
    (hl : l ∈ ['e', 'E']) : ∃ base ∈ ['x', 'X'], ∃ u, x ++ [l] = '0' :: base :: u := by
  have hother : ∀ p ∈ integers[0] :: integers[2] :: floatings, ∀ l ∈ ['e', 'E'], p.lasts l = false := by
    decide
  have hcases : p = integers[1] ∨ p ∈ integers[0] :: integers[2] :: floatings := by
    rcases List.mem_append.1 hp with hp | hp
    · rcases List.mem_cons.1 hp with rfl | hp
      · exact .inr (by simp [integers])
      · rcases List.mem_cons.1 hp with rfl | hp
        exacts [.inl rfl, .inr (by simpa [integers] using .inr (.inl (List.mem_singleton.1 hp)))]
    · exact .inr (by simp [hp])
  rcases hcases with rfl | hp
  · simp only [integers, List.getElem_cons_succ, List.getElem_cons_zero, matches_append, matches_literal,
      matches_oneOf] at hx
    obtain ⟨_, d, ⟨_, b, ⟨_, _, rfl, ⟨base, hbase, rfl⟩, rfl⟩, -, rfl⟩, -, h⟩ := hx
    exact ⟨base, by simpa using hbase, b ++ d, by simpa using h⟩
  · exact absurd (lasts_of_matches hx) (by simp [hother p hp l hl])

/-- A number goes on with `-` only behind the letter of an exponent, and no number ends there but a
hexadecimal one, which has no exponent. -/
theorem number_minus (hp : p ∈ integers ++ floatings) (hq : q ∈ integers ++ floatings)
    (hx : p.Matches x) : ¬ q.Matches (x ++ '-' :: t) := by
  intro hm
  rcases List.eq_nil_or_concat x with rfl | ⟨u, l, hul⟩
  · have hheads : ∀ q ∈ integers ++ floatings, q.heads '-' = false := by decide
    exact absurd (heads_of_matches hm) (by simp [hheads q hq])
  rw [List.concat_eq_append] at hul
  have hl : l ∈ ['e', 'E'] := by
    have hpairs : q.pairs l '-' = true := pairs_of_matches (s := u) (t := t) (by simpa [hul] using hm)
    simpa using pairs_minus q hq hpairs
  obtain ⟨base, hbase, v, hv⟩ := number_exponent hp (hul ▸ hx) hl
  rw [hul, hv] at hm
  have hsigned : ∀ q ∈ integers ++ floatings, q.chars '-' = true →
      ∀ base ∈ ['x', 'X'], q.pairs '0' base = false := by decide
  have hpairs : q.pairs '0' base = true := pairs_of_matches (s := []) hm
  rw [hsigned q hq (chars_of_matches hm (by simp)) base hbase] at hpairs
  cases hpairs

/-! ### What can stand behind a lexeme -/

theorem spelling_take : ∀ s ∈ symbols, ∀ n < s.2.toList.length, 0 < n →
    (∃ s' ∈ symbols, s.2.toList.take n = s'.2.toList) ∨ s.2 = "..." ∧ n = 2 := by
  decide

/-- A kind of tokens that are neither numbers nor symbols has one rule. -/
theorem IsRule.unique {kind : TokenKind} (hp : IsRule (token kind) p) (hq : IsRule (token kind) q)
    (hnumber : (token kind).isNumber = false) (hsymbols : ∀ s ∈ symbols, s.1 ≠ kind) : p = q := by
  cases hp with
  | integer | floating => cases hnumber
  | character =>
    cases hq with
    | character => rfl
    | symbol h => exact absurd rfl (hsymbols _ h)
  | string =>
    cases hq with
    | string => rfl
    | symbol h => exact absurd rfl (hsymbols _ h)
  | symbol h => exact absurd rfl (hsymbols _ h)

/-- Every symbol has one spelling, but for the assignments with an operator. -/
theorem IsRule.eq_literal {kind : TokenKind} {spelling : String} (h : IsRule (token kind) p)
    (hs : (kind, spelling) ∈ symbols) (hkind : kind ≠ .compoundAssign) : p = literal spelling.toList := by
  have hliteral : ∀ s ∈ symbols, s.1 ∉ [.integer, .floating, .character, .string] := by decide
  have hunique : ∀ s ∈ symbols, ∀ s' ∈ symbols, s.1 = s'.1 → s.1 ≠ .compoundAssign → s.2 = s'.2 := by
    decide
  generalize hl : token kind = lexeme at h
  cases h with
  | symbol h =>
    cases hl
    have heq := hunique _ h _ hs rfl hkind
    dsimp only at heq
    rw [heq]
  | integer | floating | character | string => cases hl; exact absurd (by simp) (hliteral _ hs)
  | _ => cases hl

theorem heads_number {d : Char} : ∀ p ∈ integers ++ floatings, p.heads d = true →
    d.isDigit = true ∨ d = '.' := by
  simp +decide +contextual [integers, floatings, append_eq_seq, or_eq_alt, digits, longSuffix, floatSuffix,
    exponent, heads, nullable, Pattern.optional, plus, oneOf, literal]

theorem pairs_number_dot {d : Char} : ∀ p ∈ integers ++ floatings, p.heads '.' = true →
    p.pairs '.' d = true → d.isDigit = true := by
  simp +decide [integers, floatings, append_eq_seq, or_eq_alt, digits, longSuffix, floatSuffix, exponent,
    pairs, lasts, heads, nullable, Pattern.optional, plus, oneOf, literal]

/-- A number starts with a digit, or with a dot and a digit. -/
theorem number_head {d : Char} (hp : p ∈ integers ++ floatings) (hm : p.Matches (d :: t)) :
    d.isDigit = true ∨ d = '.' ∧ ∃ e u, t = e :: u ∧ e.isDigit = true := by
  refine (heads_number p hp (heads_of_matches hm)).imp id fun hd => ⟨hd, ?_⟩
  subst hd
  cases t with
  | nil =>
    have : ∀ p ∈ integers ++ floatings, ¬ p.Matches ['.'] := by decide
    exact absurd hm (this p hp)
  | cons e u =>
    exact ⟨e, u, rfl, pairs_number_dot p hp (heads_of_matches hm) (pairs_of_matches (s := []) hm)⟩

/-- A number starts either like one, or with a dot alone. -/
theorem isNumber_of_prefix (hp : p ∈ integers ++ floatings) (hx : first? rules x = some lexeme)
    (hne : x ≠ []) (hm : p.Matches (x ++ c :: t)) :
    lexeme.isNumber = true ∨ x = ['.'] ∧ c.isDigit = true := by
  obtain ⟨q, hq, hqx⟩ := exists_rule hx
  obtain ⟨d, x, rfl⟩ := List.exists_cons_of_ne_nil hne
  rcases number_head hp hm with hd | ⟨rfl, e, u, hu, he⟩
  · exact .inl (hq.all heads_digit d (mem_decimals hd) (heads_of_matches hqx))
  · cases x with
    | nil => cases hu; exact .inr ⟨rfl, he⟩
    | cons d x =>
      cases hu
      have hdot : ∀ rule ∈ rules, ∀ c ∈ decimals, rule.2.heads '.' = true →
          rule.2.pairs '.' c = true → rule.1.isNumber = true := by decide
      exact .inl (hq.all hdot _ (mem_decimals he) (heads_of_matches hqx) (pairs_of_matches (s := []) hqx))

theorem lineComment_extends (hne : x ≠ []) (hm : lineComment.Matches (x ++ c :: t)) :
    lineComment.Matches (x ++ [c]) := by
  obtain ⟨u, h, hu⟩ := matches_lineComment.1 hm
  refine matches_lineComment.2 ?_
  match x, hne with
  | [d], _ =>
    cases h
    exact ⟨[], rfl, by simp⟩
  | d :: e :: x, _ =>
    cases h
    exact ⟨x ++ [c], rfl, fun d hd => hu d (by simp at hd ⊢; tauto)⟩

theorem word_extends (hne : x ≠ []) (hm : wordPattern.Matches (x ++ c :: t)) :
    wordPattern.Matches (x ++ [c]) := by
  obtain ⟨d, x, rfl⟩ := List.exists_cons_of_ne_nil hne
  simp only [wordPattern, matches_append, matches_one, matches_star_one] at hm ⊢
  obtain ⟨_, u, ⟨e, he, rfl⟩, hu, h⟩ := hm
  cases h
  exact ⟨[d], x ++ [c], ⟨d, he, rfl⟩, fun e he => hu e (by simp at he ⊢; tauto), rfl⟩

/-- What a symbol starts with is a symbol, but for the first two dots of three. -/
theorem symbol_extends {kind : TokenKind} {spelling : String} (h : (kind, spelling) ∈ symbols)
    (hne : x ≠ []) (hx : x ++ c :: t = spelling.toList) :
    (first? rules (x ++ [c])).isSome = true ∨ x = ['.'] ∧ c = '.' := by
  have htake : spelling.toList.take (x.length + 1) = x ++ [c] := by
    rw [← hx, List.take_length_add_append]
    rfl
  have hpos := List.length_pos_iff.2 hne
  have hlen := congrArg List.length hx
  simp only [List.length_append, List.length_cons] at hlen
  rcases Nat.lt_or_eq_of_le (show x.length + 1 ≤ spelling.toList.length by omega) with hlt | heq
  · rcases spelling_take _ h _ hlt (by omega) with ⟨s', hs', heq⟩ | ⟨rfl, hn⟩
    · rw [htake] at heq
      exact .inl ((IsRule.symbol hs').first?_isSome (matches_literal.2 heq))
    · obtain ⟨d, rfl⟩ := List.length_eq_one_iff.1 (show x.length = 1 by omega)
      cases hx
      exact .inr ⟨rfl, rfl⟩
  · rw [heq, List.take_length] at htake
    exact .inl ((IsRule.symbol h).first?_isSome (matches_literal.2 htake.symm))

theorem number_extends (hx : first? rules x = some lexeme) (hp : p ∈ integers ++ floatings)
    (hm : p.Matches (x ++ c :: t)) :
    (first? rules (x ++ [c])).isSome = true ∨ lexeme.isNumber = true := by
  rcases isNumber_of_prefix hp hx (ne_nil_of_first? hx) hm with h | ⟨rfl, hc⟩
  · exact .inr h
  · have hdot : ∀ c ∈ decimals, (first? rules (['.'] ++ [c])).isSome = true := by decide
    exact .inl (hdot c (mem_decimals hc))

/-- Where a rule goes on behind a lexeme `x` with `c`, there is a lexeme `x ++ [c]` already, unless `x`
and `c` are two dots, or both are part of a number. -/
theorem extends_cases (hx : first? rules x = some lexeme) {lexeme' : Lexeme} (hp : IsRule lexeme' p)
    (hm : p.Matches (x ++ c :: t)) : (first? rules (x ++ [c])).isSome = true ∨ x = ['.'] ∧ c = '.' ∨
      lexeme.isNumber = true ∧ lexeme'.isNumber = true := by
  obtain ⟨q, hq, hqx⟩ := exists_rule hx
  have hne := ne_nil_of_first? hx
  cases hp with
  | lineBreak =>
    obtain ⟨rfl, ht⟩ := append_mem_terminators hne (by simp) (matches_lineBreak.1 hm)
    cases ht
    exact .inl (IsRule.lineBreak.first?_isSome hm)
  | formFeed =>
    have hlen := congrArg List.length (matches_literal.1 hm)
    have hpos := List.length_pos_iff.2 hne
    simp only [List.length_append, List.length_cons, List.length_nil] at hlen
    omega
  | lineComment => exact .inl (IsRule.lineComment.first?_isSome (lineComment_extends hne hm))
  | word => exact .inl (IsRule.word.first?_isSome (word_extends hne hm))
  | integer h =>
    exact (number_extends hx (List.mem_append_left _ h) hm).imp id fun hn => .inr ⟨hn, rfl⟩
  | floating h =>
    exact (number_extends hx (List.mem_append_right _ h) hm).imp id fun hn => .inr ⟨hn, rfl⟩
  | character =>
    -- `x` starts with the quote as well, so it is a whole character already
    obtain ⟨body, h, -⟩ := matches_character.1 hm
    obtain ⟨d, x, rfl⟩ := List.exists_cons_of_ne_nil hne
    obtain rfl : d = '\'' := (List.cons.inj h).1
    obtain rfl := hq.all heads_quote (heads_of_matches hqx)
    rw [hq.unique .character rfl (by decide)] at hqx
    exact absurd hm (character_not_matches_append hqx)
  | string =>
    obtain ⟨d, x, rfl⟩ := List.exists_cons_of_ne_nil hne
    obtain rfl : d = '"' := by
      simp only [string, matches_append, matches_literal] at hm
      obtain ⟨_, _, ⟨_, _, rfl, -, rfl⟩, rfl, h⟩ := hm
      exact (List.cons.inj h).1
    obtain rfl := hq.all heads_doubleQuote (heads_of_matches hqx)
    rw [hq.unique .string rfl (by decide)] at hqx
    exact absurd hm (string_not_matches_append hqx)
  | symbol h => exact (symbol_extends h hne (matches_literal.1 hm)).imp id .inl

end GrammarFormat.Lexeme
