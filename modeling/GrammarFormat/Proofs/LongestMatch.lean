import Mathlib.Data.List.Basic
import GrammarFormat.Text.Pattern

/-!
# The longest match

`longest?` follows derivatives; here it is tied to the texts that the patterns describe. A pattern
matches `c :: s` exactly if its derivative by `c` matches `s` (`matches_derive`), so that whether a
pattern matches a text can be decided, and `first? rules s` is the first rule that matches the whole
of `s`. `longest?_append_iff` then says when a text `x` in front of `r` is the longest match: a rule
matches `x`, and none matches `x` with more of `r`.
-/

namespace GrammarFormat.Pattern

variable {p q : Pattern} {s t : List Char} {c : Char}

/-! ### The texts of each form of pattern -/

@[simp] theorem not_matches_never : ¬ Matches never s := nofun

@[simp] theorem matches_empty : Matches empty s ↔ s = [] :=
  ⟨fun h => by cases h; rfl, fun h => h ▸ .empty⟩

@[simp] theorem matches_one {accepts : Char → Bool} :
    Matches (one accepts) s ↔ ∃ c, accepts c = true ∧ s = [c] := by
  constructor
  · rintro (_ | ⟨h⟩); exact ⟨_, h, rfl⟩
  · rintro ⟨c, h, rfl⟩; exact .one h

@[simp] theorem matches_seq : Matches (seq p q) s ↔ ∃ a b, Matches p a ∧ Matches q b ∧ s = a ++ b := by
  constructor
  · intro h; cases h with | seq hp hq => exact ⟨_, _, hp, hq, rfl⟩
  · rintro ⟨a, b, hp, hq, rfl⟩; exact .seq hp hq

@[simp] theorem matches_append : Matches (p ++ q) s ↔ ∃ a b, Matches p a ∧ Matches q b ∧ s = a ++ b :=
  matches_seq

@[simp] theorem matches_alt : Matches (alt p q) s ↔ Matches p s ∨ Matches q s := by
  constructor
  · intro h; cases h with
    | left h => exact .inl h
    | right h => exact .inr h
  · rintro (h | h)
    exacts [.left h, .right h]

@[simp] theorem matches_or : Matches (p ||| q) s ↔ Matches p s ∨ Matches q s :=
  matches_alt

@[simp] theorem matches_optional : Matches (optional p) s ↔ Matches p s ∨ s = [] := by
  simp [optional]

@[simp] theorem matches_oneOf {chars : String} :
    Matches (oneOf chars) s ↔ ∃ c ∈ chars.toList, s = [c] := by
  simp [oneOf]

@[simp] theorem matches_literal : Matches (literal t) s ↔ s = t := by
  induction t using literal.induct generalizing s with
  | case1 => simp [literal]
  | case2 c => simp [literal]
  | case3 c rest hne ih =>
    rw [literal]
    · simp [ih]
    · exact hne

theorem matches_star : Matches (star p) s ↔
    s = [] ∨ ∃ a b, a ≠ [] ∧ Matches p a ∧ Matches (star p) b ∧ s = a ++ b := by
  constructor
  · generalize hr : star p = r
    intro h
    induction h with
    | starNil => exact .inl rfl
    | @starCons p' a b ha hb _ ih =>
      cases hr
      by_cases h : a = []
      · subst h; exact ih rfl
      · exact .inr ⟨a, b, h, ha, hb, rfl⟩
    | _ => cases hr
  · rintro (rfl | ⟨a, b, _, ha, hb, rfl⟩)
    exacts [.starNil, .starCons ha hb]

@[simp] theorem matches_star_one {accepts : Char → Bool} :
    Matches (star (one accepts)) s ↔ ∀ c ∈ s, accepts c = true := by
  induction s with
  | nil => simp [Matches.starNil]
  | cons d s ih =>
    rw [matches_star, List.forall_mem_cons, ← ih]
    constructor
    · rintro (h | ⟨a, b, -, ha, hb, h⟩)
      · cases h
      · obtain ⟨e, he, rfl⟩ := matches_one.1 ha
        cases h; exact ⟨he, hb⟩
    · rintro ⟨hd, hs⟩
      exact .inr ⟨[d], s, by simp, .one hd, hs, rfl⟩

/-! ### Derivatives -/

theorem nullable_iff : p.nullable = true ↔ Matches p [] := by
  induction p with
  | never | empty | one => simp [nullable]
  | seq p q hp hq => simp [nullable, hp, hq]
  | alt p q hp hq => simp [nullable, hp, hq]
  | star p => simp [nullable, Matches.starNil]

theorem matches_andThen : Matches (p.andThen q) s ↔ Matches (seq p q) s := by
  unfold andThen
  split <;> simp

theorem matches_orElse : Matches (p.orElse q) s ↔ Matches p s ∨ Matches q s := by
  unfold orElse
  split <;> simp

theorem matches_derive : Matches (p.derive c) s ↔ Matches p (c :: s) := by
  induction p generalizing s with
  | never | empty => simp [derive]
  | one accepts =>
    rw [derive]
    split
    · rename_i h
      simp only [matches_empty, matches_one, List.cons.injEq]
      exact ⟨fun hs => ⟨c, h, rfl, hs⟩, fun ⟨_, _, _, hs⟩ => hs⟩
    · rename_i h
      simp only [not_matches_never, matches_one, List.cons.injEq, false_iff]
      rintro ⟨d, hd, rfl, -⟩
      exact h hd
  | seq p q hp hq =>
    -- the first character comes from `p`, or `p` is empty and it comes from `q`
    have key : Matches (seq p q) (c :: s) ↔
        Matches (seq (p.derive c) q) s ∨ Matches p [] ∧ Matches (q.derive c) s := by
      simp only [matches_seq, hp, hq, List.cons_eq_append_iff]
      constructor
      · rintro ⟨a, b, ha, hb, ⟨rfl, rfl⟩ | ⟨a', rfl, rfl⟩⟩
        exacts [.inr ⟨ha, hb⟩, .inl ⟨a', b, ha, hb, rfl⟩]
      · rintro (⟨a, b, ha, hb, rfl⟩ | ⟨ha, hb⟩)
        exacts [⟨c :: a, b, ha, hb, .inr ⟨a, rfl, rfl⟩⟩, ⟨[], c :: s, ha, hb, .inl ⟨rfl, rfl⟩⟩]
    rw [key, derive]
    split
    · rename_i h
      rw [matches_orElse, matches_andThen]
      simp [nullable_iff.1 h]
    · rename_i h
      rw [matches_andThen]
      simp [mt nullable_iff.2 h]
  | alt p q hp hq => rw [derive, matches_orElse, hp, hq, matches_alt]
  | star p hp =>
    rw [derive, matches_andThen, matches_star (s := c :: s), matches_seq]
    constructor
    · rintro ⟨a, b, ha, hb, rfl⟩
      exact .inr ⟨c :: a, b, by simp, hp.1 ha, hb, rfl⟩
    · rintro (h | ⟨a, b, hne, ha, hb, h⟩)
      · cases h
      · cases a with
        | nil => exact absurd rfl hne
        | cons d a => cases h; exact ⟨a, b, hp.2 ha, hb, rfl⟩

theorem matches_foldl_derive :
    (s.foldl (fun p c => p.derive c) p).nullable = true ↔ Matches p s := by
  induction s generalizing p with
  | nil => exact nullable_iff
  | cons c s ih => rw [List.foldl_cons, ih, matches_derive]

instance : DecidablePred (Matches p) := fun _ => decidable_of_iff _ matches_foldl_derive

theorem not_matches_of_isNever (h : p.isNever = true) : ¬ Matches p s := by
  unfold isNever at h
  split at h
  · simp
  · cases h

/-! ### The first rule that matches -/

variable {α : Type} {rules : List (α × Pattern)} {a : α} {n : Nat}

/-- The first of the rules that matches the whole text. -/
def first? (rules : List (α × Pattern)) (s : List Char) : Option α :=
  (rules.find? fun rule => decide (rule.2.Matches s)).map (·.1)

theorem exists_of_first? (h : first? rules s = some a) : ∃ p, (a, p) ∈ rules ∧ p.Matches s := by
  obtain ⟨⟨b, p⟩, hp, rfl⟩ := Option.map_eq_some_iff.1 h
  exact ⟨p, List.mem_of_find?_eq_some hp, by simpa using List.find?_some hp⟩

theorem first?_eq_none_iff : first? rules s = none ↔ ∀ rule ∈ rules, ¬ rule.2.Matches s := by
  simp [first?]

theorem first?_follow : first? (follow c rules) s = first? rules (c :: s) := by
  induction rules with
  | nil => rfl
  | cons rule rules ih =>
    obtain ⟨b, p⟩ := rule
    have hcons : first? ((b, p) :: rules) (c :: s) =
        if (p.derive c).Matches s then some b else first? rules (c :: s) := by
      simp only [first?, List.find?_cons, ← matches_derive (p := p)]
      split <;> simp_all
    rw [hcons, ← ih]
    simp only [first?, follow, List.map_cons, List.filter_cons]
    cases hn : (p.derive c).isNever with
    | true =>
      rw [if_neg (not_matches_of_isNever hn)]
      rfl
    | false =>
      simp only [Bool.not_false, ↓reduceIte, List.find?_cons]
      split <;> simp_all

theorem find?_nullable : (rules.find? fun (_, p) => p.nullable).map (·.1) = first? rules [] := by
  simp only [first?, ← nullable_iff, Bool.decide_eq_true]

/-! ### The longest match -/

theorem longest?_nil : longest? rules [] = none := by
  cases rules <;> rfl

theorem longest?_cons : longest? rules (c :: s) =
    match longest? (follow c rules) s with
    | some (a, n) => some (a, n + 1)
    | none => (first? rules [c]).map (·, 1) := by
  cases rules with
  | nil =>
    show none = _
    rw [show follow c ([] : List (α × Pattern)) = [] from rfl]
    cases s <;> rfl
  | cons rule rules =>
    rw [longest?, ← first?_follow, ← find?_nullable]
    · simp only [Option.map_map]
      rfl
    · simp

/-- The whole of `longest?`: its answer is a match, and no rule matches more; without an answer no
rule matches anything but the empty text. -/
theorem longest?_spec (rules : List (α × Pattern)) (s : List Char) : match longest? rules s with
    | some (a, n) => 0 < n ∧ n ≤ s.length ∧ first? rules (s.take n) = some a ∧
        ∀ t, t <+: s → n < t.length → first? rules t = none
    | none => ∀ t, t <+: s → 0 < t.length → first? rules t = none := by
  induction s generalizing rules with
  | nil =>
    rw [longest?_nil]
    intro t ht hpos
    rw [List.prefix_nil.1 ht] at hpos; simp at hpos
  | cons c s ih =>
    specialize ih (follow c rules)
    have htail : ∀ {t : List Char}, t <+: c :: s → 0 < t.length → ∃ u, t = c :: u ∧ u <+: s := by
      intro t ht hpos
      rcases List.prefix_cons_iff.1 ht with rfl | ⟨u, rfl, hu⟩
      · simp at hpos
      · exact ⟨u, rfl, hu⟩
    rw [longest?_cons]
    cases h : longest? (follow c rules) s with
    | some found =>
      obtain ⟨a, n⟩ := found
      rw [h] at ih
      obtain ⟨hpos, hle, hfirst, hmax⟩ := ih
      rw [first?_follow] at hfirst
      refine ⟨by omega, by simpa using hle, hfirst, fun t ht hlt => ?_⟩
      obtain ⟨u, rfl, hu⟩ := htail ht (by omega)
      rw [← first?_follow]
      exact hmax u hu (by simpa using hlt)
    | none =>
      rw [h] at ih
      have hmax : ∀ t, t <+: c :: s → 1 < t.length → first? rules t = none := by
        intro t ht hlt
        obtain ⟨u, rfl, hu⟩ := htail ht (by omega)
        rw [← first?_follow]
        exact ih u hu (by simpa using hlt)
      cases hc : first? rules [c] with
      | some a => exact ⟨by omega, by simp, by simpa using hc, hmax⟩
      | none =>
        intro t ht hpos
        obtain ⟨u, rfl, hu⟩ := htail ht hpos
        cases u with
        | nil => exact hc
        | cons d u => exact hmax _ ht (by simp)

theorem longest?_le_length (h : longest? rules s = some (a, n)) : n ≤ s.length := by
  have := longest?_spec rules s
  rw [h] at this
  exact this.2.1

/-- A text in front of `r` is the longest match if a rule matches it, and none matches it with more
of `r`. -/
theorem longest?_append_iff {x r : List Char} : longest? rules (x ++ r) = some (a, x.length) ↔
    x ≠ [] ∧ first? rules x = some a ∧ ∀ t, t <+: r → t ≠ [] → first? rules (x ++ t) = none := by
  have hspec := longest?_spec rules (x ++ r)
  constructor
  · intro h
    rw [h] at hspec
    obtain ⟨hpos, -, hfirst, hmax⟩ := hspec
    refine ⟨List.length_pos_iff.1 hpos, by simpa using hfirst, fun t ht hne => ?_⟩
    refine hmax _ ((List.prefix_append_right_inj x).2 ht) ?_
    have := List.length_pos_iff.2 hne
    simp; omega
  · rintro ⟨hne, hfirst, hmax⟩
    have hpos := List.length_pos_iff.2 hne
    cases h : longest? rules (x ++ r) with
    | none =>
      rw [h] at hspec
      rw [hspec x (List.prefix_append x r) hpos] at hfirst
      cases hfirst
    | some found =>
      obtain ⟨b, n⟩ := found
      rw [h] at hspec
      obtain ⟨-, hle, hfirst', hmax'⟩ := hspec
      rcases Nat.lt_trichotomy n x.length with hn | rfl | hn
      · rw [hmax' x (List.prefix_append x r) hn] at hfirst; cases hfirst
      · rw [List.take_left, hfirst] at hfirst'
        cases hfirst'; rfl
      · rw [List.take_append, List.take_of_length_le (Nat.le_of_lt hn)] at hfirst'
        rw [hmax _ (List.take_prefix _ r)] at hfirst'
        · cases hfirst'
        · intro hnil
          have := congrArg List.length hnil
          simp only [List.length_take, List.length_append, List.length_nil] at this hle
          omega

end GrammarFormat.Pattern
