import GrammarFormat.Proofs.Reading
import Mathlib.Data.List.TakeWhile

/-!
# Maximal munch

Wherever a lexeme starts in a text, the lexer takes as much as any pattern allows (`MaximalMunch`). Block
comments are apart: they end at the first `*/`. Where no pattern fits at all, or a block comment does not end,
there is no lexeme. `maximalMunch_head` says so of a text without leading blanks, and `maximalMunch_spans` of
all places in a text at which the lexer starts.
-/

namespace GrammarFormat

namespace Lexeme

open Pattern

/-- The patterns of the rules, and the `/*` that opens a block comment. -/
def patterns : List Pattern :=
  literal ['/', '*'] :: rules.map Prod.snd

def isBlockComment : Lexeme → Bool
  | trivia .blockComment | trivia .docComment => true
  | _ => false

/-- The text `text` at the head of `rest` is read as `lexeme?`, or is stray, as the longest match has it. -/
structure MaximalMunch (rest : List Char) (lexeme? : Option Lexeme) (text : List Char) : Prop where
  longest : ∀ lexeme, lexeme? = some lexeme → lexeme.isBlockComment = false →
    (∃ p, (lexeme, p) ∈ rules ∧ p.Matches text) ∧
      ∀ p ∈ patterns, ∀ t, t <+: rest → p.Matches t → t.length ≤ text.length
  opened : ∀ lexeme, lexeme? = some lexeme → lexeme.isBlockComment = true → ['/', '*'] <+: rest
  closed : ∀ body tail, rest = '/' :: '*' :: (body ++ '*' :: '/' :: tail) → ¬ ['*', '/'] <:+: body ++ ['*'] →
    lexeme? = some (trivia (if body.head? = some '*' then .docComment else .blockComment)) ∧
      text = '/' :: '*' :: (body ++ ['*', '/'])
  unclosed : ∀ inner, rest = '/' :: '*' :: inner → ¬ ['*', '/'] <:+: inner → lexeme? = none
  stray : ¬ ['/', '*'] <+: rest →
    (lexeme? = none ↔ ∀ p ∈ patterns, ∀ t, t <+: rest → t ≠ [] → ¬ p.Matches t)

variable {lexeme : Lexeme} {s t body tail : List Char} {p : Pattern} {n : Nat}

/-! ### Block comments -/

theorem closeIndex?_of_first (h : ¬ ['*', '/'] <:+: body ++ ['*']) :
    closeIndex? (body ++ '*' :: '/' :: tail) = some body.length := by
  induction body with
  | nil => rfl
  | cons c body ih =>
    have hrest : ¬ ['*', '/'] <:+: body ++ ['*'] := fun hin => h (hin.trans (List.suffix_cons c _).isInfix)
    rw [List.cons_append, closeIndex?, ih hrest]
    · rfl
    -- no `*/` stands at the head, not even half in the body
    · rintro u rfl hu
      rcases body with _ | ⟨d, body⟩
      · cases hu
      · cases hu
        exact h (List.prefix_append ['*', '/'] _).isInfix

theorem closeIndex?_eq_none (h : ¬ ['*', '/'] <:+: s) : closeIndex? s = none := by
  rcases hclose : closeIndex? s with _ | n
  · rfl
  · exact absurd ((closeIndex?_drop hclose).isInfix.trans (List.drop_suffix n s).isInfix) h

theorem at?_of_first (h : ¬ ['*', '/'] <:+: body ++ ['*']) :
    at? ('/' :: '*' :: (body ++ '*' :: '/' :: tail)) =
      some (trivia (if body.head? = some '*' then .docComment else .blockComment), body.length + 4) := by
  have hkind : commentKind (body ++ '*' :: '/' :: tail) body.length =
      if body.head? = some '*' then .docComment else .blockComment := by
    rcases body with _ | ⟨c, body⟩ <;> simp [commentKind]
  rw [at?, closeIndex?_of_first h, Option.map_some, hkind]

/-! ### Rules -/

/-- Where no block comment opens, the rules are all there is. -/
theorem first?_ne_none (hs : ¬ ['/', '*'] <+: s) (hp : p ∈ patterns) (ht : t <+: s) (hm : p.Matches t) :
    first? rules t ≠ none := by
  intro hnone
  rcases List.mem_cons.1 hp with rfl | hp
  · rw [matches_literal.1 hm] at ht
    exact hs ht
  · obtain ⟨rule, hrule, rfl⟩ := List.mem_map.1 hp
    exact first?_eq_none_iff.1 hnone rule hrule hm

theorem longest_at? (hs : ¬ ['/', '*'] <+: s) (h : at? s = some (lexeme, n)) :
    (∃ p, (lexeme, p) ∈ rules ∧ p.Matches (s.take n)) ∧
      ∀ p ∈ patterns, ∀ t, t <+: s → p.Matches t → t.length ≤ n := by
  rw [at?_eq_longest? hs] at h
  have hspec := longest?_spec rules s
  rw [h] at hspec
  obtain ⟨-, -, hfirst, hmax⟩ := hspec
  refine ⟨exists_of_first? hfirst, fun p hp t ht hm => ?_⟩
  by_contra hlt
  exact first?_ne_none hs hp ht hm (hmax t ht (by omega))

theorem at?_eq_none_iff (hs : ¬ ['/', '*'] <+: s) :
    at? s = none ↔ ∀ p ∈ patterns, ∀ t, t <+: s → t ≠ [] → ¬ p.Matches t := by
  constructor
  · intro hnone p hp t ht hne hm
    have hspec := longest?_spec rules s
    rw [← at?_eq_longest? hs, hnone] at hspec
    exact first?_ne_none hs hp ht hm (hspec t ht (List.length_pos_iff.2 hne))
  · intro hall
    rcases hat : at? s with _ | ⟨lexeme, n⟩
    · rfl
    -- a lexeme would be a match of its rule
    obtain ⟨⟨p, hp, hm⟩, -⟩ := longest_at? hs hat
    have hpos := at?_pos hat
    have hle := at?_le_length hat
    have hne : s.take n ≠ [] := by
      rw [Ne, ← List.length_eq_zero_iff, List.length_take]
      omega
    exact absurd hm (hall p (List.mem_cons_of_mem _ (List.mem_map_of_mem hp)) _ (List.take_prefix n s) hne)

theorem IsRule.isBlockComment (h : IsRule lexeme p) : lexeme.isBlockComment = false := by
  cases h <;> rfl

/-- A lexeme is a block comment just where one opens. -/
theorem isBlockComment_iff (h : at? s = some (lexeme, n)) : lexeme.isBlockComment = true ↔ ['/', '*'] <+: s := by
  constructor
  · intro hcomment
    by_contra hs
    obtain ⟨⟨p, hp, -⟩, -⟩ := longest_at? hs h
    rw [(mem_rules.1 hp).isBlockComment] at hcomment
    cases hcomment
  · rintro ⟨inner, rfl⟩
    obtain ⟨width, -, hwidth⟩ := Option.map_eq_some_iff.1 h
    obtain ⟨rfl, -⟩ := Prod.mk.inj hwidth
    unfold commentKind
    split <;> rfl

/-! ### The head of a text -/

theorem head_of_some (h : at? s = some (lexeme, n)) : head s = (some lexeme, n) := by
  rw [head, h]

theorem head_fst (s : List Char) : (head s).1 = (at? s).map Prod.fst := by
  unfold head
  split <;> rename_i hat <;> rw [hat] <;> rfl

theorem maximalMunch_head (s : List Char) : MaximalMunch s (head s).1 (s.take (head s).2) where
  longest lexeme hlexeme hcomment := by
    rw [head_fst] at hlexeme
    obtain ⟨⟨lexeme, n⟩, hat, rfl⟩ := Option.map_eq_some_iff.1 hlexeme
    rw [← Bool.not_eq_true, isBlockComment_iff hat] at hcomment
    obtain ⟨hrule, hmax⟩ := longest_at? hcomment hat
    rw [head_of_some hat]
    refine ⟨hrule, fun p hp t ht hm => ?_⟩
    rw [List.length_take, Nat.min_eq_left (at?_le_length hat)]
    exact hmax p hp t ht hm
  opened lexeme hlexeme hcomment := by
    rw [head_fst] at hlexeme
    obtain ⟨⟨lexeme, n⟩, hat, rfl⟩ := Option.map_eq_some_iff.1 hlexeme
    exact (isBlockComment_iff hat).1 hcomment
  closed body tail hs hfirst := by
    subst hs
    rw [head_of_some (at?_of_first hfirst)]
    refine ⟨rfl, ?_⟩
    have htext : '/' :: '*' :: (body ++ '*' :: '/' :: tail) = '/' :: '*' :: (body ++ ['*', '/']) ++ tail := by
      simp
    rw [htext]
    exact List.take_left' (by simp)
  unclosed inner hs hnone := by
    subst hs
    rw [head_fst, at?, closeIndex?_eq_none hnone]
    rfl
  stray hs := by
    rw [head_fst, Option.map_eq_none_iff]
    exact at?_eq_none_iff hs

end Lexeme

open Lexeme

/-! ### Whole texts -/

theorem maximalMunch_spans (source : List Char) :
    (∀ c ∈ (spans source).2, isBlank c = true) ∧
      ∀ before span after, (spans source).1 = before ++ span :: after →
        ∃ rest, rest = span.text ++ (after.flatMap Span.source ++ (spans source).2) ∧
          source = before.flatMap Span.source ++ (span.blanks ++ rest) ∧
          (∀ c ∈ span.blanks, isBlank c = true) ∧ (∃ c tail, rest = c :: tail ∧ isBlank c = false) ∧
          MaximalMunch rest span.lexeme? span.text := by
  fun_induction spans source with
  | case1 source hs =>
    refine ⟨List.dropWhile_eq_nil_iff.1 hs, fun before span after hspans => ?_⟩
    simp at hspans
  | case2 source c rest hs found following ih =>
    obtain ⟨htrailing, hlater⟩ := ih
    have hsource : source = source.takeWhile isBlank ++ (c :: rest) := by
      rw [← hs, List.takeWhile_append_dropWhile]
    have hrest := spans_text ((c :: rest).drop found.2)
    refine ⟨htrailing, fun before span after hspans => ?_⟩
    rcases before with _ | ⟨first, before⟩
    · obtain ⟨rfl, rfl⟩ := List.cons.inj hspans
      refine ⟨c :: rest, ?_, hsource, fun c hc => List.mem_takeWhile_imp hc, ⟨c, rest, rfl, ?_⟩,
        maximalMunch_head (c :: rest)⟩
      · rw [hrest, List.take_append_drop]
      · have hhead := List.head?_dropWhile_not isBlank source
        rw [hs] at hhead
        simpa using hhead
    · obtain ⟨rfl, htail⟩ := List.cons.inj hspans
      obtain ⟨later, hlater, hdrop, hmunch⟩ := hlater before span after htail
      refine ⟨later, hlater, ?_, hmunch⟩
      rw [List.flatMap_cons, Span.source, List.append_assoc, ← hdrop, List.append_assoc,
        List.take_append_drop]
      exact hsource

theorem maximalMunch_spans_of_exponent : ∃ after,
    (spans "0x_ 1e+/**".toList).1 =
        ⟨[], some (token .integer), ['0', 'x', '_']⟩ :: ⟨[' '], some (token .integer), ['1']⟩ :: after ∧
      MaximalMunch "1e+/**".toList (some (token .integer)) ['1'] := by
  refine ⟨[⟨[], some word, ['e']⟩, ⟨[], some (token .plus), ['+']⟩, ⟨[], none, ['/', '*']⟩,
    ⟨[], some (token .star), ['*']⟩], by decide +kernel, ?_⟩
  obtain ⟨rest, hrest, -, -, -, hmunch⟩ := (maximalMunch_spans "0x_ 1e+/**".toList).2
    [⟨[], some (token .integer), ['0', 'x', '_']⟩] ⟨[' '], some (token .integer), ['1']⟩
    [⟨[], some word, ['e']⟩, ⟨[], some (token .plus), ['+']⟩, ⟨[], none, ['/', '*']⟩,
      ⟨[], some (token .star), ['*']⟩] (by decide +kernel)
  have htext : rest = "1e+/**".toList := hrest.trans (by decide +kernel)
  rwa [htext] at hmunch

end GrammarFormat
