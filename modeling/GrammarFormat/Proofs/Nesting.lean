import GrammarFormat.Token.Stream
import Mathlib.Tactic.Common

/-!
# Nested brackets

`Balanced s i j`: in the tokens from `i` up to `j` every bracket has a partner of its kind, and groups are
nested. Partners are compared by the depth of nesting: it is higher between them than outside
(`IsPair.depth_le`), so two groups never cross.
-/

namespace GrammarFormat

namespace TokenKind

/-- The bracket that closes a group which this one opens. -/
def closer? : TokenKind → Option TokenKind
  | openParen => some closeParen
  | openBracket => some closeBracket
  | openBrace => some closeBrace
  | less => some greater
  | _ => none

/-- How the depth of nesting changes with a token. -/
def nesting : TokenKind → Int
  | openParen | openBracket | openBrace | less => 1
  | closeParen | closeBracket | closeBrace | greater => -1
  | _ => 0

variable {kind other : TokenKind}

theorem nesting_of_closer? (h : kind.closer? = some other) : kind.nesting = 1 ∧ other.nesting = -1 := by
  cases kind <;> cases h <;> exact ⟨rfl, rfl⟩

theorem nesting_of_isOpening (h : kind.isOpening = true) : kind.nesting = 1 := by
  cases kind <;> first | rfl | cases h

theorem ne_of_nesting (h : kind.nesting = 0) (h' : other.nesting ≠ 0) : kind ≠ other := by
  rintro rfl
  exact h' h

theorem ne_of_isOpening (h : kind.isOpening = true) (h' : other.isOpening = false) : kind ≠ other := by
  rintro rfl
  rw [h] at h'
  cases h'

theorem closer?_cases (h : kind.closer? = some other) :
    kind = openParen ∧ other = closeParen ∨ kind = openBracket ∧ other = closeBracket ∨
      kind = openBrace ∧ other = closeBrace ∨ kind = less ∧ other = greater := by
  cases kind <;> cases h <;> simp

/-- Weights under which only brackets count, and partners cancel out. -/
structure Cancels (weigh : TokenKind → Int) : Prop where
  token : ∀ kind, kind.nesting = 0 → weigh kind = 0
  group : ∀ kind other, kind.closer? = some other → 0 ≤ weigh kind ∧ weigh other = -weigh kind

theorem cancels_nesting : Cancels nesting where
  token _ h := h
  group kind other h := by
    obtain ⟨hopen, hclose⟩ := nesting_of_closer? h
    rw [hopen, hclose]
    decide

theorem closer?_inj {kind' : TokenKind} (h : kind.closer? = some other) (h' : kind'.closer? = some other) :
    kind = kind' := by
  rcases closer?_cases h with ⟨rfl, rfl⟩ | ⟨rfl, rfl⟩ | ⟨rfl, rfl⟩ | ⟨rfl, rfl⟩ <;>
    cases kind' <;> first | rfl | cases h'

end TokenKind

namespace TokenStream

/-- The tokens from `i` up to `j`, that at `j` left out, are properly nested. -/
inductive Balanced (s : TokenStream) : Nat → Nat → Prop
  | nil {i : Nat} : Balanced s i i
  | token {i j : Nat} (h : (s.kind i).nesting = 0) (hrest : Balanced s (i + 1) j) : Balanced s i j
  | group {i k j : Nat} (h : (s.kind i).closer? = some (s.kind k)) (hinner : Balanced s (i + 1) k)
      (hrest : Balanced s (k + 1) j) : Balanced s i j

/-- The brackets at `o` and `c` are partners. -/
structure IsPair (s : TokenStream) (o c : Nat) : Prop where
  closer : (s.kind o).closer? = some (s.kind c)
  inner : s.Balanced (o + 1) c

/-- How many more brackets are opened than closed in front of `i`. -/
def depth (s : TokenStream) : Nat → Int
  | 0 => 0
  | i + 1 => s.depth i + (s.kind i).nesting

/-- What the tokens in front of `i` weigh. -/
def total (s : TokenStream) (weigh : TokenKind → Int) : Nat → Int
  | 0 => 0
  | i + 1 => s.total weigh i + weigh (s.kind i)

variable {s : TokenStream} {i j k o c : Nat}

theorem depth_eq_total (s : TokenStream) (i : Nat) : s.depth i = s.total TokenKind.nesting i := by
  induction i with
  | zero => rfl
  | succ i ih => rw [depth, total, ih]

namespace Balanced

theorem le (h : s.Balanced i j) : i ≤ j := by
  induction h with
  | nil => exact Nat.le_refl _
  | token _ _ ih => omega
  | group _ _ _ ih ih' => omega

/-- What single tokens keep, and groups too if the tokens in them do, all balanced tokens keep. -/
theorem keeps {α : Type} (f : Nat → α) (htoken : ∀ i, (s.kind i).nesting = 0 → f (i + 1) = f i)
    (hpair : ∀ o c, s.IsPair o c → f c = f (o + 1) → f (c + 1) = f o) (h : s.Balanced i j) : f j = f i := by
  induction h with
  | nil => rfl
  | token hkind _ ih => rw [ih, htoken _ hkind]
  | group hkind hinner _ ih ih' => rw [ih', hpair _ _ ⟨hkind, hinner⟩ ih]

section

variable {weigh : TokenKind → Int} (hweigh : TokenKind.Cancels weigh)

include hweigh

theorem total_eq (h : s.Balanced i j) : s.total weigh j = s.total weigh i := by
  refine h.keeps (s.total weigh) (fun i hkind => ?_) fun o c hpair hinner => ?_
  · rw [total, hweigh.token _ hkind, Int.add_zero]
  · rw [total, hinner, total, (hweigh.group _ _ hpair.closer).2]
    omega

theorem total_le (h : s.Balanced i j) (hi : i ≤ k) (hj : k ≤ j) : s.total weigh i ≤ s.total weigh k := by
  induction h with
  | @nil i =>
    obtain rfl : i = k := by omega
    exact Int.le_refl _
  | @token i j hkind _ ih =>
    by_cases hk : k = i
    · exact Int.le_of_eq (by rw [hk])
    · have hnext := ih (by omega) hj
      rw [total, hweigh.token _ hkind] at hnext
      omega
  | @group i m j hkind hinner _ ih ih' =>
    obtain ⟨hopen, hclose⟩ := hweigh.group _ _ hkind
    have hm := hinner.total_eq hweigh
    by_cases hk : k = i
    · exact Int.le_of_eq (by rw [hk])
    by_cases hkm : k ≤ m
    · have hin := ih (by omega) hkm
      rw [total] at hin
      omega
    · have hbehind := ih' (by omega) hj
      rw [total, hm, total, hclose] at hbehind
      omega

end

theorem depth_eq (h : s.Balanced i j) : s.depth j = s.depth i := by
  rw [depth_eq_total, depth_eq_total, h.total_eq TokenKind.cancels_nesting]

theorem depth_le (h : s.Balanced i j) (hi : i ≤ k) (hj : k ≤ j) : s.depth i ≤ s.depth k := by
  rw [depth_eq_total, depth_eq_total]
  exact h.total_le TokenKind.cancels_nesting hi hj

end Balanced

namespace IsPair

theorem lt (h : s.IsPair o c) : o < c :=
  h.inner.le

theorem kind_greater (h : s.IsPair o c) (ho : s.kind o = .less) : s.kind c = .greater := by
  have hcloser := h.closer
  rw [ho] at hcloser
  exact (Option.some.inj hcloser).symm

theorem depth_succ (h : s.IsPair o c) : s.depth (o + 1) = s.depth o + 1 := by
  rw [depth, (TokenKind.nesting_of_closer? h.closer).1]

theorem depth_close (h : s.IsPair o c) : s.depth c = s.depth o + 1 := by
  rw [h.inner.depth_eq, h.depth_succ]

theorem depth_behind (h : s.IsPair o c) : s.depth (c + 1) = s.depth o := by
  rw [depth, (TokenKind.nesting_of_closer? h.closer).2, h.depth_close]
  omega

theorem depth_le (h : s.IsPair o c) (ho : o < k) (hc : k ≤ c) : s.depth o + 1 ≤ s.depth k := by
  rw [← h.depth_succ]
  exact h.inner.depth_le ho hc

theorem balanced (h : s.IsPair o c) : s.Balanced o (c + 1) :=
  .group h.closer h.inner .nil

theorem close_unique (h : s.IsPair o c) (h' : s.IsPair o k) : c = k := by
  have hc := h.depth_behind
  have hk := h'.depth_behind
  have hlt := h.lt
  have hlt' := h'.lt
  rcases Nat.lt_trichotomy c k with hck | hck | hck
  · have := h'.depth_le (k := c + 1) (by omega) (by omega)
    omega
  · exact hck
  · have := h.depth_le (k := k + 1) (by omega) (by omega)
    omega

theorem open_unique (h : s.IsPair o c) (h' : s.IsPair k c) : o = k := by
  have ho := h.depth_close
  have hk := h'.depth_close
  have hlt := h.lt
  have hlt' := h'.lt
  rcases Nat.lt_trichotomy o k with hok | hok | hok
  · have := h.depth_le (k := k) (by omega) (by omega)
    omega
  · exact hok
  · have := h'.depth_le (k := o) (by omega) (by omega)
    omega

/-- Of two groups that share a token, one holds the other. -/
theorem close_lt_of_open_lt (h : s.IsPair o c) {o' c' : Nat} (h' : s.IsPair o' c') (ho : o < o')
    (hc : o' < c) : c' < c := by
  have hlt := h'.lt
  by_contra hle
  have hclose := h'.depth_le hc (by omega)
  have hin := h.depth_le ho (by omega)
  have hcc := h.depth_close
  omega

end IsPair

namespace Balanced

theorem cancel (h : s.Balanced i k) (h' : s.Balanced i j) (hk : k ≤ j) : s.Balanced k j := by
  induction h with
  | nil => exact h'
  | @token i k hkind hrest ih =>
    have hle := hrest.le
    cases h' with
    | nil => omega
    | token _ hrest' => exact ih hrest' hk
    | group hgroup =>
      rw [(TokenKind.nesting_of_closer? hgroup).1] at hkind
      cases hkind
  | @group i m k hgroup hinner hrest _ ih =>
    have hle := hrest.le
    have hle' := hinner.le
    cases h' with
    | nil => omega
    | token hkind =>
      rw [(TokenKind.nesting_of_closer? hgroup).1] at hkind
      cases hkind
    | @group _ m' _ hgroup' hinner' hrest' =>
      obtain rfl : m = m' := IsPair.close_unique ⟨hgroup, hinner⟩ ⟨hgroup', hinner'⟩
      exact ih hrest' hk

/-- A place in balanced tokens is outside of all groups, or some group is the innermost around it. -/
theorem enclosing (h : s.Balanced i j) (hi : i ≤ k) (hj : k ≤ j) :
    s.Balanced i k ∨ ∃ o c, i ≤ o ∧ c < j ∧ s.IsPair o c ∧ o < k ∧ k ≤ c ∧ s.Balanced (o + 1) k := by
  induction h with
  | @nil i =>
    obtain rfl : i = k := by omega
    exact .inl .nil
  | @token i j hkind _ ih =>
    by_cases hk : k = i
    · exact .inl (hk ▸ .nil)
    · rcases ih (by omega) hj with hfront | ⟨o, c, ho, hc, hpair⟩
      · exact .inl (.token hkind hfront)
      · exact .inr ⟨o, c, by omega, hc, hpair⟩
  | @group i m j hkind hinner hrest ih ih' =>
    have hm := hinner.le
    have hmj := hrest.le
    by_cases hk : k = i
    · exact .inl (hk ▸ .nil)
    by_cases hkm : k ≤ m
    · rcases ih (by omega) hkm with hfront | ⟨o, c, ho, hc, hpair⟩
      · exact .inr ⟨i, m, by omega, by omega, ⟨hkind, hinner⟩, by omega, hkm, hfront⟩
      · exact .inr ⟨o, c, by omega, by omega, hpair⟩
    · rcases ih' (by omega) hj with hfront | ⟨o, c, ho, hc, hpair⟩
      · exact .inl (.group hkind hinner hfront)
      · exact .inr ⟨o, c, by omega, hc, hpair⟩

theorem exists_pair (h : s.Balanced i j) (hi : i ≤ k) (hj : k < j) (hk : (s.kind k).nesting ≠ 0) :
    ∃ o c, s.IsPair o c ∧ i ≤ o ∧ c < j ∧ (k = o ∨ k = c) := by
  induction h with
  | nil => omega
  | @token i j hkind _ ih =>
    obtain ⟨o, c, hpair, ho, hc⟩ := ih (by
      rcases Nat.lt_or_ge i k with hlt | hge
      · exact hlt
      · obtain rfl : k = i := by omega
        exact absurd hkind hk) hj
    exact ⟨o, c, hpair, by omega, hc⟩
  | @group i m j hkind hinner hrest ih ih' =>
    have hm := hinner.le
    have hmj := hrest.le
    by_cases hki : k = i
    · exact ⟨i, m, ⟨hkind, hinner⟩, by omega, by omega, .inl hki⟩
    by_cases hkm : k = m
    · exact ⟨i, m, ⟨hkind, hinner⟩, by omega, by omega, .inr hkm⟩
    by_cases hlt : k < m
    · obtain ⟨o, c, hpair, ho, hc⟩ := ih (by omega) hlt
      exact ⟨o, c, hpair, by omega, by omega, hc.2⟩
    · obtain ⟨o, c, hpair, ho, hc⟩ := ih' (by omega) hj
      exact ⟨o, c, hpair, by omega, hc⟩

end Balanced

end TokenStream

end GrammarFormat
