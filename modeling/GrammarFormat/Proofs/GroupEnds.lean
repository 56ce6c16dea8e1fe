import GrammarFormat.Proofs.AngleGroups
import GrammarFormat.Proofs.Passes
import Mathlib.Data.List.Sort

/-!
# Groups over several lines

A group that is laid out over several lines is opened by a parenthesis or square bracket, or by the colon of
a declaration. In nested tokens its end is the partner of that bracket, or the end of the angle group with the
colon (`groupEnd?_cases`). The ends to come are kept in order (`WaitsFor`), and each of them is met.
-/

namespace GrammarFormat

namespace TokenStream

/-- The colon at `i` stands in the angle group, and in no angle group inside of it. -/
structure IsColonOf (s : TokenStream) (first last i : Nat) : Prop where
  colon : s.kind i = .colon
  first_lt : first < i
  lt_last : i < last
  innermost : ∀ f l, s.IsPair f l → s.kind f = .less → first < f → f < i → ¬ i < l

/-- Every angle group is the innermost one around a single colon at most. -/
def SingleColons (s : TokenStream) : Prop :=
  ∀ first last, s.IsPair first last → s.kind first = .less →
    ∀ i j, s.IsColonOf first last i → s.IsColonOf first last j → i = j

/-- The colon at `i` stands in the angle group, and in no other group inside of it. -/
structure IsDirectColon (s : TokenStream) (first last i : Nat) : Prop where
  colon : s.kind i = .colon
  front : s.Balanced (first + 1) i
  lt_last : i < last

/-- Only square brackets stand between the colon at `i` and the angle group around it. -/
structure IsOwnColon (s : TokenStream) (first last i : Nat) : Prop where
  colon : s.kind i = .colon
  first_lt : first < i
  lt_last : i < last
  brackets : ∀ o c, s.IsPair o c → first < o → o < i → i < c → s.kind o = .openBracket

def SingleOwnColons (s : TokenStream) : Prop :=
  ∀ first last, s.IsPair first last → s.kind first = .less →
    ∀ i j, s.IsOwnColon first last i → s.IsOwnColon first last j → i = j

/-- Brackets are nested in the tokens in front of the end mark, the only one. -/
structure IsNested (s : TokenStream) : Prop where
  only_end : ∀ i, i + 1 < s.size → s.kind i ≠ .endOfFile
  balanced : s.Balanced 0 (s.size - 1)

namespace IsNested

variable {s : TokenStream} {i : Nat} (hs : s.IsNested)

include hs

theorem exists_pair (hi : (s.kind i).nesting ≠ 0) : ∃ o c, s.IsPair o c ∧ (i = o ∨ i = c) := by
  have hne : s.kind i ≠ .endOfFile := by
    intro hend
    rw [hend] at hi
    exact hi rfl
  have hsize := lt_size_of_kind hne
  have hlast : i + 1 ≠ s.size := fun hlast => hne (Layout.kind_last s hlast)
  obtain ⟨o, c, hpair, -, -, hic⟩ := hs.balanced.exists_pair (Nat.zero_le i) (by omega) hi
  exact ⟨o, c, hpair, hic⟩

theorem exists_close (hi : (s.kind i).nesting = 1) : ∃ c, s.IsPair i c := by
  obtain ⟨o, c, hpair, rfl | rfl⟩ := hs.exists_pair (i := i) (by omega)
  · exact ⟨c, hpair⟩
  · have := (TokenKind.nesting_of_closer? hpair.closer).2
    omega

theorem exists_open (hi : (s.kind i).nesting = -1) : ∃ o, s.IsPair o i := by
  obtain ⟨o, c, hpair, rfl | rfl⟩ := hs.exists_pair (i := i) (by omega)
  · have := (TokenKind.nesting_of_closer? hpair.closer).1
    omega
  · exact ⟨o, hpair⟩

end IsNested

section

variable {s : TokenStream} {first last i : Nat}

/-- No group that starts in balanced tokens reaches over their end. -/
theorem Balanced.not_lt_close {o c : Nat} (h : s.Balanced (first + 1) i) (hpair : s.IsPair o c) (ho : first < o)
    (hoi : o < i) : ¬ i < c := by
  intro hic
  have hdepth := h.depth_eq
  have hle := h.depth_le ho (by omega)
  have hin := hpair.depth_le hoi (by omega)
  omega

theorem IsDirectColon.isColonOf (h : s.IsDirectColon first last i) : s.IsColonOf first last i :=
  ⟨h.colon, h.front.le, h.lt_last, fun _ _ hpair _ ho hoi hic => h.front.not_lt_close hpair ho hoi hic⟩

theorem IsDirectColon.isOwnColon (h : s.IsDirectColon first last i) : s.IsOwnColon first last i :=
  ⟨h.colon, h.front.le, h.lt_last, fun _ _ hpair ho hoi hic => absurd hic (h.front.not_lt_close hpair ho hoi)⟩

/-- In the grammar, a colon with as many parentheses around it as the angle group on top of the stack is one of its
own colons. -/
theorem InAngle.isOwnColon (h : s.InAngle i first last) (hcolon : s.kind i = .colon)
    (hin : (scopeAt s i).inGrammar = true) (hparens : (scopeAt s first).parens = (scopeAt s i).parens) :
    s.IsOwnColon first last i := by
  have hlast : i < last := by
    refine Nat.lt_of_le_of_ne h.le ?_
    rintro rfl
    rw [h.pair.kind_greater h.less] at hcolon
    cases hcolon
  refine ⟨hcolon, h.lt, hlast, fun o c hpair ho hoi hic => ?_⟩
  have hc := h.pair.close_lt_of_open_lt hpair ho (by omega)
  rcases TokenKind.closer?_cases hpair.closer with ⟨hkind, -⟩ | ⟨hkind, -⟩ | ⟨hkind, -⟩ | ⟨hkind, -⟩
  · -- a parenthesis more is open at the colon than at the start of the angle group
    have hopen : (scopeAt s (first + 1)).parens = (scopeAt s first).parens :=
      parens_of_ne (by simp [h.less]) (by simp [h.less])
    have houter := h.pair.inner.parens_le (k := o) ho (by omega)
    have hinner := hpair.inner.parens_le (k := i) hoi (by omega)
    rw [parens_succ, hkind, Scope.parensAfter] at hinner
    omega
  · exact hkind
  · have hstops := h.clear o ho (by omega)
    rw [hkind] at hstops
    cases hstops
  · rw [h.innermost o c hpair hkind ho hoi (by omega)] at hin
    cases hin

theorem SingleColons.own (h : s.SingleColons) : s.SingleOwnColons := by
  have hown : ∀ {first last i}, s.IsOwnColon first last i → s.IsColonOf first last i := by
    intro first last i hi
    refine ⟨hi.colon, hi.first_lt, hi.lt_last, fun o c hpair hless ho hoi hic => ?_⟩
    rw [hi.brackets o c hpair ho hoi hic] at hless
    cases hless
  intro first last hpair hless i j hi hj
  exact h first last hpair hless i j (hown hi) (hown hj)

end

end TokenStream

namespace Layout

open TokenStream TokenKind

variable {s : TokenStream} {a b i : Nat}

/-- The end of the group over several lines that the token at `i` opens. -/
def groupEnd? (s : TokenStream) (i : Nat) : Option Nat :=
  if (scopeAt s (i + 1)).inGrammar then declarationEnd? s i (scopeAt s (i + 1)) <|> unitEnd? s i else none

theorem closersAfter_eq (s : TokenStream) (i : Nat) (m : Memory) : closersAfter s i (scopeAt s (i + 1)) m =
    ((groupEnd? s i).toList ++ m.closers).dropWhile (· < i + 1) := by
  rw [closersAfter, groupEnd?]
  split <;> rfl

/-! ### What opens a group -/

section

variable (hs : s.IsNested)

include hs

theorem unitEnd?_spec (h : unitEnd? s a = some b) : s.IsPair a b ∧ (s.kind a).isOpening = true := by
  rw [unitEnd?] at h
  split at h
  · rename_i hunit
    have hopening : (s.kind a).isOpening = true := (Bool.and_eq_true_iff.1 hunit).1
    obtain ⟨c, hpair⟩ := hs.exists_close (nesting_of_isOpening hopening)
    rw [multiChoice?, hpair.roundPartner? hs.only_end hopening] at h
    obtain ⟨hcb, -⟩ := Option.filter_eq_some_iff.1 h
    cases hcb
    exact ⟨hpair, hopening⟩
  · cases h

/-- A colon that declares something stands in an angle group that does. -/
theorem declarationEnd?_inAngle (h : declarationEnd? s a (scopeAt s (a + 1)) = some b) :
    s.kind a = .colon ∧ s.anglePartner? a = some b ∧ ∃ first last, s.InAngle a first last ∧
      s.isDeclaration first last = true ∧ (scopeAt s first).parens = (scopeAt s a).parens := by
  rw [declarationEnd?] at h
  split at h
  case isFalse => cases h
  rename_i hdeclares
  obtain ⟨hcolon, hdeclares⟩ := Bool.and_eq_true_iff.1 hdeclares
  replace hcolon : s.kind a = .colon := beq_iff_eq.1 hcolon
  obtain ⟨group, htop, hgroup⟩ := (Option.any_eq_true ..).1 hdeclares
  obtain ⟨hdeclares, hparens⟩ := Bool.and_eq_true_iff.1 hgroup
  refine ⟨hcolon, (Option.filter_eq_some_iff.1 h).1, ?_⟩
  -- the colon itself does not change the stack
  rw [Scope.innermost?, angles_of_ne (by simp [hcolon]) (by simp [hcolon])] at htop
  have ha : a < s.size := lt_size_of_kind (by simp [hcolon])
  rcases exists_inAngle hs.balanced (i := a) (by omega) with hnil | ⟨first, last, hangle⟩
  · rw [hnil] at htop
    cases htop
  have hgroup := hangle.top
  rw [Scope.innermost?, htop] at hgroup
  cases hgroup
  rw [beq_iff_eq, parens_of_ne (by simp [hcolon]) (by simp [hcolon])] at hparens
  exact ⟨first, last, hangle, hdeclares, hparens⟩

theorem declarationEnd?_spec (hcolons : s.SingleOwnColons) (hin : (scopeAt s (a + 1)).inGrammar = true)
    (h : declarationEnd? s a (scopeAt s (a + 1)) = some b) : ∃ first,
      s.IsPair first b ∧ s.kind first = .less ∧ s.IsColonOf first b a ∧ s.Balanced (first + 1) a := by
  obtain ⟨hcolon, hb, first, last, hangle, hdeclaration, hparens⟩ := declarationEnd?_inAngle hs h
  rw [inGrammar_succ (by simp [hcolon])] at hin
  have hown := hangle.isOwnColon hcolon hin hparens
  obtain ⟨k, hk, hkcolon, hfront⟩ := hangle.pair.inner.exists_colon hangle.clear hdeclaration
  have hdirect : s.IsDirectColon first last k := ⟨hkcolon, hfront, hk⟩
  obtain rfl := hcolons first last hangle.pair hangle.less k a hdirect.isOwnColon hown
  have hrest := hfront.cancel hangle.pair.inner (by omega)
  have hclear := hangle.clear.mono hangle.lt (Nat.le_refl last)
  rw [hrest.anglePartner? (by simp [hcolon]) (hangle.pair.kind_greater hangle.less) hclear] at hb
  cases hb
  exact ⟨first, hangle.pair, hangle.less, hdirect.isColonOf, hfront⟩

/-- What opens a group over several lines, and what ends it. -/
theorem groupEnd?_cases (hcolons : s.SingleOwnColons) (h : groupEnd? s a = some b) :
    s.IsPair a b ∧ (s.kind a).isOpening = true ∨ ∃ first,
      s.IsPair first b ∧ s.kind first = .less ∧ s.IsColonOf first b a ∧ s.Balanced (first + 1) a := by
  rw [groupEnd?] at h
  split at h
  · rename_i hin
    cases hdeclaration : declarationEnd? s a (scopeAt s (a + 1)) with
    | some c =>
      rw [hdeclaration] at h
      exact .inr (declarationEnd?_spec hs hcolons hin (hdeclaration.trans h))
    | none =>
      rw [hdeclaration] at h
      exact .inl (unitEnd?_spec hs h)
  · cases h

theorem balanced_of_groupEnd? (hcolons : s.SingleColons) (h : groupEnd? s a = some b) :
    s.Balanced (a + 1) b ∧ (s.kind b).nesting = -1 := by
  rcases groupEnd?_cases hs hcolons.own h with ⟨hpair, -⟩ | ⟨first, hpair, -, hcolon, hfront⟩
  · exact ⟨hpair.inner, (nesting_of_closer? hpair.closer).2⟩
  · have hrest := hfront.cancel hpair.inner (by have := hcolon.lt_last; omega)
    have htoken : s.Balanced a (a + 1) := .token (by rw [hcolon.colon]; rfl) .nil
    exact ⟨htoken.cancel hrest hcolon.lt_last, (nesting_of_closer? hpair.closer).2⟩

/-- A token ends one group at most. -/
theorem groupEnd?_inj (hcolons : s.SingleColons) {a' : Nat} (h : groupEnd? s a = some b)
    (h' : groupEnd? s a' = some b) : a = a' := by
  have hkinds : ∀ {o first}, s.IsPair o b → (s.kind o).isOpening = true → s.IsPair first b →
      s.kind first ≠ .less := by
    intro o first hpair hopening hpair' hless
    obtain rfl := hpair.open_unique hpair'
    rw [hless] at hopening
    cases hopening
  rcases groupEnd?_cases hs hcolons.own h with ⟨hpair, hopening⟩ | ⟨first, hpair, hless, hcolon, -⟩ <;>
    rcases groupEnd?_cases hs hcolons.own h' with ⟨hpair', hopening'⟩ | ⟨first', hpair', hless', hcolon', -⟩
  · exact hpair.open_unique hpair'
  · exact absurd hless' (hkinds hpair hopening hpair')
  · exact absurd hless (hkinds hpair' hopening' hpair)
  · obtain rfl := hpair.open_unique hpair'
    exact hcolons first b hpair hless a a' hcolon hcolon'

theorem not_inLookahead_of_groupEnd? (hcolons : s.SingleColons) (h : groupEnd? s a = some b) :
    (scopeAt s b).inLookahead = false := by
  obtain ⟨hinner, -⟩ := balanced_of_groupEnd? hs hcolons h
  rw [hinner.inLookahead]
  rw [groupEnd?] at h
  split at h
  · rename_i hin
    have hcount := ((inGrammar_iff _).1 hin).2.1
    rw [← Bool.not_eq_true, Scope.inLookahead, Reach.isInside_iff]
    omega
  · cases h

end

/-! ### Ends to come -/

/-- The ends that are waited for in front of the gap after the token at `i`, in order. -/
structure WaitsFor (s : TokenStream) (i : Nat) (ends : List Nat) : Prop where
  sorted : ends.Pairwise (· < ·)
  mem_iff : ∀ b, b ∈ ends ↔ i < b ∧ ∃ a, a < i ∧ groupEnd? s a = some b

/-- Taking `x` out of an ordered list that starts with it, if any number is as small. -/
theorem pop_sorted {ends rest : List Nat} {x : Nat} (hsorted : ends.Pairwise (· < ·))
    (hle : ∀ b ∈ ends, x ≤ b) (hrest : rest = if ends.head? == some x then ends.tail else ends) :
    rest.Pairwise (· < ·) ∧ (∀ b, b ∈ rest ↔ x < b ∧ b ∈ ends) ∧
      rest.length + (if ends.head? == some x then 1 else 0) = ends.length := by
  cases ends with
  | nil =>
    subst hrest
    simp
  | cons y ends =>
    obtain ⟨hy, hsorted'⟩ := List.pairwise_cons.1 hsorted
    by_cases hxy : y = x
    · subst hxy
      have hhead : ((y :: ends).head? == some y) = true := by simp
      rw [hhead, if_pos rfl, List.tail_cons] at hrest
      subst hrest
      refine ⟨hsorted', fun b => ⟨fun hb => ⟨hy b hb, List.mem_cons_of_mem y hb⟩, ?_⟩, by simp⟩
      rintro ⟨hlt, hb⟩
      exact (List.mem_cons.1 hb).resolve_left (by omega)
    · have hhead : ((y :: ends).head? == some x) = false := by simpa using hxy
      rw [hhead] at hrest
      subst hrest
      refine ⟨hsorted, fun b => ⟨fun hb => ⟨?_, hb⟩, fun hb => hb.2⟩, by simp [hxy]⟩
      have hxb := hle y (List.mem_cons_self ..)
      rcases List.mem_cons.1 hb with rfl | hb
      · omega
      · have := hy b hb
        omega

theorem dropWhile_lt {ends : List Nat} {x : Nat} (hle : ∀ b ∈ ends, x ≤ b) :
    ends.dropWhile (· < x) = ends := by
  cases ends with
  | nil => rfl
  | cons y ends =>
    have hy := hle y (List.mem_cons_self ..)
    exact List.dropWhile_cons_of_neg (by simpa using hy)

section

variable (hs : s.IsNested) (hcolons : s.SingleColons)

include hs hcolons

/-- A group that opens later ends earlier. -/
theorem groupEnd?_lt {b' : Nat} (h : groupEnd? s a = some b) (h' : groupEnd? s i = some b') (ha : a < i)
    (hi : i < b) : b' < b := by
  obtain ⟨hinner, hclose⟩ := balanced_of_groupEnd? hs hcolons h
  obtain ⟨hinner', -⟩ := balanced_of_groupEnd? hs hcolons h'
  have hne : b' ≠ b := by
    rintro rfl
    have := groupEnd?_inj hs hcolons h h'
    omega
  by_contra hle
  have hdepth := hinner.depth_eq
  have houter := hinner.depth_le (k := i + 1) (by omega) (by omega)
  have hbehind := hinner'.depth_le (k := b + 1) (by omega) (by omega)
  have hstep : s.depth (b + 1) = s.depth b + -1 := by rw [depth, hclose]
  omega

/-- The ends to come with that of the group which the token at `i` opens. -/
theorem WaitsFor.opened {ends : List Nat} (h : WaitsFor s i ends) :
    ((groupEnd? s i).toList ++ ends).Pairwise (· < ·) ∧ ∀ b, b ∈ (groupEnd? s i).toList ++ ends ↔
      i < b ∧ ∃ a, a < i + 1 ∧ groupEnd? s a = some b := by
  refine ⟨List.pairwise_append.2 ⟨?_, h.sorted, ?_⟩, fun b => ?_⟩
  · cases groupEnd? s i <;> simp
  · intro b' hb' b hb
    obtain ⟨hib, a, ha, hab⟩ := (h.mem_iff b).1 hb
    exact groupEnd?_lt hs hcolons hab (by simpa using hb') ha hib
  · rw [List.mem_append, h.mem_iff, Option.mem_toList]
    constructor
    · rintro (hb | ⟨hib, a, ha, hab⟩)
      · obtain ⟨hinner, -⟩ := balanced_of_groupEnd? hs hcolons hb
        exact ⟨hinner.le, i, by omega, hb⟩
      · exact ⟨hib, a, by omega, hab⟩
    · rintro ⟨hib, a, ha, hab⟩
      by_cases hai : a = i
      · exact .inl (hai ▸ hab)
      · exact .inr ⟨hib, a, by omega, hab⟩

/-- One gap keeps the order, and as many ends come and go as groups are opened and closed. -/
theorem WaitsFor.gapAfter {m : Memory} (h : WaitsFor s i m.closers) :
    WaitsFor s (i + 1) (gapAfter s i (scopeAt s (i + 1)) m).2.closers ∧
      ((gapAfter s i (scopeAt s (i + 1)) m).2.closers.length : Int) - m.closers.length =
        if (scopeAt s (i + 1)).inLookahead then 0
        else (if (groupEnd? s i).isSome then 1 else 0) -
          (if closesNext s i (scopeAt s (i + 1)) m then 1 else 0) := by
  have hclosers := closers_gapAfter s i (scopeAt s (i + 1)) m
  generalize (Layout.gapAfter s i (scopeAt s (i + 1)) m).2.closers = rest at hclosers ⊢
  obtain ⟨hsorted, hmem⟩ := h.opened hs hcolons
  have hle : ∀ b ∈ (groupEnd? s i).toList ++ m.closers, i + 1 ≤ b := fun b hb => ((hmem b).1 hb).1
  cases hlookahead : (scopeAt s (i + 1)).inLookahead with
  | true =>
    -- no group is opened here, and none ends with the next token
    rw [hlookahead, if_pos rfl] at hclosers
    subst hclosers
    have hnone : groupEnd? s i = none := by
      rw [groupEnd?, inGrammar_of_inLookahead hlookahead]
      rfl
    rw [hnone, Option.toList_none, List.nil_append] at hsorted hmem
    refine ⟨⟨hsorted, fun b => ?_⟩, by simp⟩
    rw [hmem]
    refine and_congr_left fun hgroup => ⟨fun hib => ?_, fun hib => by omega⟩
    refine Nat.lt_of_le_of_ne hib ?_
    rintro rfl
    obtain ⟨a, -, hab⟩ := hgroup
    rw [not_inLookahead_of_groupEnd? hs hcolons hab] at hlookahead
    cases hlookahead
  | false =>
    have hopened : closersAfter s i (scopeAt s (i + 1)) m = (groupEnd? s i).toList ++ m.closers := by
      rw [closersAfter_eq, dropWhile_lt hle]
    rw [hlookahead, closesNext, hopened] at hclosers
    obtain ⟨hsorted', hmem', hlength⟩ := pop_sorted hsorted hle (by simpa using hclosers)
    refine ⟨⟨hsorted', fun b => ?_⟩, ?_⟩
    · rw [hmem', hmem]
      constructor
      · rintro ⟨hib, -, hgroup⟩
        exact ⟨hib, hgroup⟩
      · rintro ⟨hib, hgroup⟩
        exact ⟨hib, by omega, hgroup⟩
    · have hone : (if (groupEnd? s i).isSome then 1 else 0 : Int) = (groupEnd? s i).toList.length := by
        cases groupEnd? s i <;> rfl
      rw [List.length_append] at hlength
      rw [closesNext, hopened, hone, if_neg Bool.false_ne_true]
      split_ifs at hlength ⊢ <;> omega

/-- The closing tokens in memory are the ends to come. -/
theorem waitsFor_closers (i : Nat) : WaitsFor s i (memoryAt s i).closers := by
  induction i with
  | zero => exact ⟨.nil, fun b => by simp [memoryAt]⟩
  | succ i ih => exact (ih.gapAfter hs hcolons).1

/-- In front of a bracket and of its partner the same ends are to come. -/
theorem closers_pair {o c : Nat} (h : s.IsPair o c) : (memoryAt s o).closers = (memoryAt s c).closers := by
  have ho := waitsFor_closers hs hcolons o
  have hc := waitsFor_closers hs hcolons c
  have hlt := h.lt
  have hbehind := h.depth_behind
  refine ho.sorted.eq_of_mem_iff hc.sorted fun b => ?_
  rw [ho.mem_iff, hc.mem_iff]
  constructor
  · rintro ⟨hob, a, ha, hab⟩
    refine ⟨?_, a, by omega, hab⟩
    by_contra hcb
    obtain ⟨hinner, -⟩ := balanced_of_groupEnd? hs hcolons hab
    have hdepth := hinner.depth_eq
    have hle := hinner.depth_le (k := o) (by omega) (by omega)
    have hin := h.depth_le hob (by omega)
    omega
  · rintro ⟨hcb, a, ha, hab⟩
    refine ⟨by omega, a, ?_, hab⟩
    by_contra hoa
    obtain ⟨hinner, -⟩ := balanced_of_groupEnd? hs hcolons hab
    have hle := hinner.depth_le (k := c + 1) (by omega) (by omega)
    have hin := h.depth_le (k := a + 1) (by omega) (by omega)
    omega

end

end Layout

end GrammarFormat
