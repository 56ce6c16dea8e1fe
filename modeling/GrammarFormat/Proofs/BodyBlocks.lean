import GrammarFormat.Proofs.HeaderIndent
import GrammarFormat.Proofs.ParenEnds

/-!
# The blocks of the body

Behind `PARSER_END` a file is a row of constructs: a header without braces and one block, or two if the header has no
section word. `Constructs` describes such files without a scope, and `block_of_constructs` says that the scope knows in
each block what it holds. Between constructs nothing is open and a production is expected (`Between`); every construct
leads from one such place to the next. In a block only its last brace brings the depth back to 0, since braces are
balanced in it, apart from those in lookahead constraints, which do not count.
-/

namespace GrammarFormat

namespace TokenStream

/-- The words of a section of regular expressions. -/
def regexWords : List Keyword := [.token, .specialToken, .skip, .more]

/-- The words of a section of plain Java. -/
def javaWords : List Keyword := [.tokenMgrDecls, .javacode]

/-- A lookahead constraint starts at `i`. -/
structure StartsConstraint (s : TokenStream) (i : Nat) : Prop where
  word : s.kind i = .keyword .lookahead
  paren : s.kind (i + 1) = .openParen

/-- From `i` up to `j`, braces outside of lookahead constraints are balanced, and constraints are closed. -/
inductive BracesBalanced (s : TokenStream) : Nat → Nat → Prop
  | nil {i : Nat} : BracesBalanced s i i
  | token {i j : Nat} (hopen : s.kind i ≠ .openBrace) (hclose : s.kind i ≠ .closeBrace)
      (hplain : ¬ s.StartsConstraint i) (hrest : BracesBalanced s (i + 1) j) : BracesBalanced s i j
  | constraint {i m j : Nat} (hstart : s.StartsConstraint i) (hend : s.ClosesAt (i + 1) m)
      (hrest : BracesBalanced s (m + 1) j) : BracesBalanced s i j
  | block {i k j : Nat} (hopen : s.kind i = .openBrace) (hinner : BracesBalanced s (i + 1) k)
      (hclose : s.kind k = .closeBrace) (hrest : BracesBalanced s (k + 1) j) : BracesBalanced s i j

/-- A block with its braces at `o` and `c`. -/
structure IsBlock (s : TokenStream) (o c : Nat) : Prop where
  opened : s.kind o = .openBrace
  inner : s.BracesBalanced (o + 1) c
  closed : s.kind c = .closeBrace

/-- The tokens from `i` up to the block at `o`: no braces and no lookahead. -/
structure IsHeader (s : TokenStream) (i o : Nat) : Prop where
  le : i ≤ o
  plain : ∀ k, i ≤ k → k < o → s.kind k ∉ [.openBrace, .closeBrace, .keyword .lookahead]

/-- One of the words stands in the tokens from `i` up to `o`. -/
def Mentions (s : TokenStream) (words : List Keyword) (i o : Nat) : Prop :=
  ∃ k, i ≤ k ∧ k < o ∧ ∃ word ∈ words, s.kind k = .keyword word

/-- The braces of an outermost block, and what it holds. -/
structure BodyBlock where
  first : Nat
  last : Nat
  holds : Block

/-- One construct of the body, from `i` up to its end, and its blocks. -/
inductive IsConstruct (s : TokenStream) : Nat → List BodyBlock → Nat → Prop
  | regex {i o c : Nat} (hheader : s.IsHeader i o) (hregex : s.Mentions regexWords i o)
      (hjava : ¬ s.Mentions javaWords i o) (hblock : s.IsBlock o c) : IsConstruct s i [⟨o, c, .grammar⟩] (c + 1)
  | java {i o c : Nat} (hheader : s.IsHeader i o) (hjava : s.Mentions javaWords i o)
      (hregex : ¬ s.Mentions regexWords i o) (hblock : s.IsBlock o c) : IsConstruct s i [⟨o, c, .java⟩] (c + 1)
  | production {i o c c' : Nat} (hheader : s.IsHeader i o) (hlt : i < o) (hregex : ¬ s.Mentions regexWords i o)
      (hjava : ¬ s.Mentions javaWords i o) (hblock : s.IsBlock o c) (hblock' : s.IsBlock (c + 1) c') :
      IsConstruct s i [⟨o, c, .java⟩, ⟨c + 1, c', .grammar⟩] (c' + 1)

/-- Constructs in a row. -/
inductive Constructs (s : TokenStream) : Nat → List BodyBlock → Nat → Prop
  | nil {i : Nat} : Constructs s i [] i
  | cons {i j k : Nat} {blocks blocks' : List BodyBlock} (h : s.IsConstruct i blocks j)
      (hrest : Constructs s j blocks' k) : Constructs s i (blocks ++ blocks') k

variable {s : TokenStream} {i j k o c m : Nat}

/-! ### Lookahead constraints -/

theorem Reach.afterParen_none (kind : TokenKind) : Reach.afterParen kind none = none := by
  cases kind <;> rfl

/-- Between `LOOKAHEAD` and its parenthesis nothing else can stand. -/
theorem kind_of_lookahead (h : (scopeAt s i).lookahead = some 0) : s.kind i = .openParen := by
  induction i with
  | zero => cases h
  | succ i ih =>
    change Scope.lookaheadAfter (s.kind i) (s.kind (i + 1)) (scopeAt s i).lookahead = some 0 at h
    unfold Scope.lookaheadAfter at h
    split_ifs at h with hword
    · exact hword.2
    · rcases hreach : (scopeAt s i).lookahead with _ | _ | n
      · rw [hreach, Reach.afterParen_none] at h
        cases h
      · rw [hreach, ih hreach] at h
        cases h
      · rw [hreach] at h
        have hdepth := Reach.depth_afterParen (s.kind i) n
        rw [h] at hdepth
        change (0 : Int) = _ at hdepth
        split_ifs at hdepth with hzero
        · omega

theorem lookahead_eq_none (h : (scopeAt s i).inLookahead = false) (hopen : s.kind i ≠ .openParen) :
    (scopeAt s i).lookahead = none := by
  rcases hreach : (scopeAt s i).lookahead with _ | _ | n
  · rfl
  · exact absurd (kind_of_lookahead hreach) hopen
  · rw [Scope.inLookahead, hreach] at h
    cases h

theorem lookahead_succ_of_none (hplain : ¬ s.StartsConstraint i) (h : (scopeAt s i).lookahead = none) :
    (scopeAt s (i + 1)).lookahead = none := by
  change Scope.lookaheadAfter (s.kind i) (s.kind (i + 1)) (scopeAt s i).lookahead = none
  rw [Scope.lookaheadAfter, if_neg fun hstart => hplain ⟨hstart.1, hstart.2⟩, h, Reach.afterParen_none]

theorem not_inLookahead_of_none (h : (scopeAt s i).lookahead = none) : (scopeAt s i).inLookahead = false := by
  rw [Scope.inLookahead, h]
  rfl

theorem lookahead_mem : Scope.lookahead ∈ [Scope.lookahead, Scope.forHeader, Scope.node] :=
  List.mem_cons_self ..

namespace StartsConstraint

variable (hstart : s.StartsConstraint i) (hnone : (scopeAt s i).lookahead = none)

include hstart hnone

theorem depth : (scopeAt s (i + 2)).lookahead.depth = 1 := by
  change (Scope.lookaheadAfter (s.kind (i + 1)) _
    (Scope.lookaheadAfter (s.kind i) (s.kind (i + 1)) (scopeAt s i).lookahead)).depth = 1
  rw [hnone, hstart.word, hstart.paren]
  rfl

theorem inLookahead (hend : s.ClosesAt (i + 1) m) (hik : i + 2 ≤ k) (hkm : k ≤ m) :
    (scopeAt s k).inLookahead = true := by
  obtain ⟨j, rfl⟩ := Nat.exists_eq_add_one_of_ne_zero (Nat.ne_zero_of_lt hik)
  have hfirst : ∀ l, i + 1 < l → l ≤ j → s.surplus (i + 1) l ≠ 0 := fun l hil hlj =>
    hend.first l (Nat.lt_of_le_of_lt hlj hkm) hil
  have hdepth := depth_eq_surplus lookahead_mem hstart.paren (hstart.depth hnone)
    (Nat.le_of_succ_le_succ hik) hfirst
  have hpos := one_le_surplus hstart.paren (Nat.le_of_succ_le_succ hik) hfirst
  obtain ⟨n, hn⟩ := Reach.exists_of_depth_pos (hdepth ▸ hpos)
  rw [Scope.inLookahead, hn]
  rfl

theorem lookahead_end (hend : s.ClosesAt (i + 1) m) : (scopeAt s (m + 1)).lookahead = none := by
  have hdepth := depth_of_closesAt lookahead_mem hstart.paren (hstart.depth hnone) hend
  rcases hreach : (scopeAt s (m + 1)).lookahead with _ | n
  · rfl
  · rw [hreach] at hdepth
    change (n : Int) = -1 at hdepth
    omega

end StartsConstraint

/-! ### Inside of a block -/

theorem construct_succ (s : TokenStream) (i : Nat) :
    (scopeAt s (i + 1)).construct = Scope.constructAfter (s.kind i) (s.kind (i + 1)) (scopeAt s i) := rfl

/-- Inside of a block the construct is known already. -/
theorem construct_succ_of_pos (hpos : 0 < (scopeAt s i).braces)
    (hclose : s.kind i = .closeBrace → (scopeAt s i).inLookahead = true ∨ 1 < (scopeAt s i).braces) :
    (scopeAt s (i + 1)).construct = (scopeAt s i).construct := by
  rw [construct_succ]
  unfold Scope.constructAfter
  split
  · rw [if_neg]
    simp only [Bool.and_eq_true, beq_iff_eq]
    omega
  · rename_i hkind
    rw [if_neg]
    simp only [Bool.and_eq_true, Bool.not_eq_eq_eq_not, Bool.not_true, beq_iff_eq]
    rintro ⟨⟨hlookahead, hzero⟩, -⟩
    rcases hclose hkind with hinside | hdeep
    · rw [hinside] at hlookahead
      cases hlookahead
    · omega
  · rfl

theorem braces_of_inLookahead (h : (scopeAt s i).inLookahead = true) :
    (scopeAt s (i + 1)).braces = (scopeAt s i).braces := by
  rw [braces_succ]
  unfold Scope.bracesAfter
  split
  · rw [if_pos h]
  · rw [if_pos h]
  · rfl

/-- A constraint in a block changes neither the depth of braces nor the construct, whatever stands in it. -/
theorem StartsConstraint.keeps (hstart : s.StartsConstraint i) (hnone : (scopeAt s i).lookahead = none)
    (hend : s.ClosesAt (i + 1) m) (hpos : 0 < (scopeAt s i).braces) (hik : i ≤ k) (hkm : k ≤ m + 1) :
    (scopeAt s k).braces = (scopeAt s i).braces ∧ (scopeAt s k).construct = (scopeAt s i).construct := by
  induction hik with
  | refl => exact ⟨rfl, rfl⟩
  | @step k hik ih =>
    obtain ⟨hbraces, hconstruct⟩ := ih (Nat.le_of_succ_le hkm)
    rw [Nat.succ_eq_add_one, ← hbraces, ← hconstruct]
    rw [← hbraces] at hpos
    have hplain : ∀ {kind}, s.kind k = kind → kind ≠ .openBrace → kind ≠ .closeBrace →
        (scopeAt s (k + 1)).braces = (scopeAt s k).braces ∧
          (scopeAt s (k + 1)).construct = (scopeAt s k).construct := by
      intro kind hkind hopen hclose
      rw [← hkind] at hopen hclose
      exact ⟨braces_of_ne hopen hclose, construct_succ_of_pos hpos fun h => absurd h hclose⟩
    rcases Nat.eq_or_lt_of_le hik with rfl | hlt
    · exact hplain hstart.word (by simp) (by simp)
    rcases Nat.eq_or_lt_of_le hlt with rfl | hlt
    · exact hplain hstart.paren (by simp) (by simp)
    have hinside := hstart.inLookahead hnone hend hlt (Nat.le_of_succ_le_succ hkm)
    exact ⟨braces_of_inLookahead hinside, construct_succ_of_pos hpos fun _ => .inl hinside⟩

/-- Tokens of a block after which the scope is as in front of them; in between no fewer braces are open. -/
structure Inside (s : TokenStream) (i j : Nat) : Prop where
  lookahead : (scopeAt s j).lookahead = none
  braces : (scopeAt s j).braces = (scopeAt s i).braces
  construct : (scopeAt s j).construct = (scopeAt s i).construct
  braces_le : ∀ k, i ≤ k → k ≤ j → (scopeAt s i).braces ≤ (scopeAt s k).braces

theorem braces_of_openBrace (hopen : s.kind i = .openBrace) (hnone : (scopeAt s i).lookahead = none) :
    (scopeAt s (i + 1)).braces = (scopeAt s i).braces + 1 := by
  rw [braces_succ, hopen, Scope.bracesAfter, not_inLookahead_of_none hnone]
  rfl

theorem braces_of_closeBrace (hclose : s.kind i = .closeBrace) (hnone : (scopeAt s i).lookahead = none) :
    (scopeAt s (i + 1)).braces = (scopeAt s i).braces - 1 := by
  rw [braces_succ, hclose, Scope.bracesAfter, not_inLookahead_of_none hnone]
  rfl

theorem not_startsConstraint {kind : TokenKind} (hkind : s.kind i = kind) (hne : kind ≠ .keyword .lookahead) :
    ¬ s.StartsConstraint i := by
  intro hstart
  rw [hstart.word] at hkind
  exact hne hkind.symm

theorem BracesBalanced.inside (h : s.BracesBalanced i j) (hnone : (scopeAt s i).lookahead = none)
    (hpos : 0 < (scopeAt s i).braces) : s.Inside i j := by
  induction h with
  | @nil i => exact ⟨hnone, rfl, rfl, fun k hik hki => by rw [Nat.le_antisymm hki hik]⟩
  | @token i j hopen hclose hplain _ ih =>
    have hbraces := braces_of_ne hopen hclose
    obtain ⟨hnone', hbraces', hconstruct, hle⟩ := ih (lookahead_succ_of_none hplain hnone) (hbraces ▸ hpos)
    refine ⟨hnone', hbraces'.trans hbraces, ?_, fun k hik hkj => ?_⟩
    · rw [hconstruct, construct_succ_of_pos hpos fun h => absurd h hclose]
    · rcases Nat.eq_or_lt_of_le hik with rfl | hlt
      · exact Nat.le_refl _
      · rw [← hbraces]
        exact hle k hlt hkj
  | @constraint i m j hstart hend _ ih =>
    have hkeeps := fun k => hstart.keeps (k := k) hnone hend hpos
    obtain ⟨hbraces, hconstruct⟩ := hkeeps (m + 1) (by have := hend.lt; omega) (Nat.le_refl _)
    obtain ⟨hnone', hbraces', hconstruct', hle⟩ := ih (hstart.lookahead_end hnone hend) (hbraces ▸ hpos)
    refine ⟨hnone', hbraces'.trans hbraces, hconstruct'.trans hconstruct, fun k hik hkj => ?_⟩
    rcases Nat.le_total k (m + 1) with hkm | hmk
    · rw [(hkeeps k hik hkm).1]
    · rw [← hbraces]
      exact hle k hmk hkj
  | @block i k j hopen hinner hclose _ ih ih' =>
    have hbraces := braces_of_openBrace hopen hnone
    have hconstruct := construct_succ_of_pos (s := s) hpos (i := i) fun h => by rw [hopen] at h; cases h
    have hin := ih (lookahead_succ_of_none (not_startsConstraint hopen (by simp)) hnone) (by omega)
    have hbraces' : (scopeAt s (k + 1)).braces = (scopeAt s i).braces := by
      rw [braces_of_closeBrace hclose hin.lookahead, hin.braces, hbraces]
      rfl
    have hconstruct' := construct_succ_of_pos (s := s) (i := k) (by rw [hin.braces]; omega) fun _ =>
      .inr (by rw [hin.braces]; omega)
    have hout := ih' (lookahead_succ_of_none (not_startsConstraint hclose (by simp)) hin.lookahead)
      (hbraces'.symm ▸ hpos)
    refine ⟨hout.lookahead, hout.braces.trans hbraces', ?_, fun l hil hlj => ?_⟩
    · rw [hout.construct, hconstruct', hin.construct, hconstruct]
    · rcases Nat.eq_or_lt_of_le hil with rfl | hlt
      · exact Nat.le_refl _
      rcases Nat.le_total l k with hlk | hkl
      · have := hin.braces_le l hlt hlk
        omega
      · rcases Nat.eq_or_lt_of_le hkl with rfl | hlt'
        · rw [hin.braces]
          omega
        · rw [← hbraces']
          exact hout.braces_le l hlt' hlj

/-- What a block holds is settled at its first brace. -/
theorem block_of_pos (hij : i ≤ j) (hpos : ∀ k, i ≤ k → k < j → 0 < (scopeAt s k).braces) :
    (scopeAt s j).block = (scopeAt s i).block := by
  induction hij with
  | refl => rfl
  | @step j hij ih =>
    rw [Nat.succ_eq_add_one, block_succ_of_pos (hpos j hij (Nat.lt_succ_self j)),
      ih fun k hik hkj => hpos k hik (Nat.lt_succ_of_lt hkj)]

/-! ### Constructs -/

/-- Nothing is open in the body. -/
structure Outside (s : TokenStream) (i : Nat) : Prop where
  body : (scopeAt s i).body = true
  braces : (scopeAt s i).braces = 0
  lookahead : (scopeAt s i).lookahead = none

/-- Between two constructs a production is expected, unless another block follows at once. -/
structure Between (s : TokenStream) (i : Nat) : Prop extends s.Outside i where
  construct : s.kind i ≠ .openBrace → (scopeAt s i).construct = .production

theorem BracesBalanced.le (h : s.BracesBalanced i j) : i ≤ j := by
  induction h with
  | nil => exact Nat.le_refl _
  | token _ _ _ _ ih => omega
  | constraint _ hend _ ih =>
    have := hend.lt
    omega
  | block _ _ _ _ ih ih' => omega

/-- An outermost block, from the scope in front of it to the one behind it. -/
theorem IsBlock.outermost (h : s.IsBlock o c) (hout : s.Outside o) :
    (∀ k, o ≤ k → k ≤ c → (scopeAt s (k + 1)).block =
      Scope.blockFor (scopeAt s o).construct (s.kindBefore o)) ∧ s.Outside (c + 1) ∧
    (scopeAt s (c + 1)).construct =
      if s.kind (c + 1) = .openBrace then (scopeAt s o).construct else .production := by
  obtain ⟨hopen, hinner, hclose⟩ := h
  obtain ⟨hbody, hzero, hnone⟩ := hout
  have hbraces : (scopeAt s (o + 1)).braces = 1 := by rw [braces_of_openBrace hopen hnone, hzero]
  have hin := hinner.inside (lookahead_succ_of_none (not_startsConstraint hopen (by simp)) hnone) (by omega)
  have hblock : (scopeAt s (o + 1)).block = Scope.blockFor (scopeAt s o).construct (s.kindBefore o) := by
    change Scope.blockAfter (s.kind o) (s.kindBefore o) (scopeAt s o) = _
    rw [Scope.blockAfter, if_pos ⟨hopen, by rw [not_inLookahead_of_none hnone]; rfl, hbody, hzero⟩]
  have hconstruct : (scopeAt s (o + 1)).construct = (scopeAt s o).construct := by
    rw [construct_succ, hopen]
    rfl
  refine ⟨fun k hok hkc => ?_, ⟨?_, ?_, ?_⟩, ?_⟩
  · rw [← hblock]
    refine block_of_pos (Nat.succ_le_succ hok) fun l hol hlk => ?_
    have := hin.braces_le l hol (by omega)
    omega
  · exact body_of_le (Nat.le_trans (Nat.le_of_succ_le hinner.le) (Nat.le_succ c)) hbody
  · rw [braces_of_closeBrace hclose hin.lookahead, hin.braces, hbraces]
  · exact lookahead_succ_of_none (not_startsConstraint hclose (by simp)) hin.lookahead
  · rw [construct_succ, hclose, Scope.constructAfter, not_inLookahead_of_none hin.lookahead, hin.braces, hbraces,
      hin.construct, hconstruct]
    by_cases hnext : s.kind (c + 1) = .openBrace
    · simp [hnext]
    · simp [hnext]

/-! ### Headers -/

theorem mentions_succ {words : List Keyword} (hio : i ≤ o) : s.Mentions words i (o + 1) ↔
    s.Mentions words i o ∨ ∃ word ∈ words, s.kind o = .keyword word := by
  constructor
  · rintro ⟨k, hik, hko, hword⟩
    rcases Nat.eq_or_lt_of_le (Nat.le_of_lt_succ hko) with rfl | hlt
    · exact .inr hword
    · exact .inl ⟨k, hik, hlt, hword⟩
  · rintro (⟨k, hik, hko, hword⟩ | hword)
    · exact ⟨k, hik, Nat.lt_succ_of_lt hko, hword⟩
    · exact ⟨o, hio, Nat.lt_succ_self o, hword⟩

/-- What a token of a header does to the construct: section words set it, all others leave it. -/
theorem Outside.construct_succ (hout : s.Outside k) (hclose : s.kind k ≠ .closeBrace) :
    (∃ word ∈ regexWords, s.kind k = .keyword word) ∧ (scopeAt s (k + 1)).construct = .regex ∨
    (∃ word ∈ javaWords, s.kind k = .keyword word) ∧ (scopeAt s (k + 1)).construct = .java ∨
    (¬ ∃ word ∈ regexWords, s.kind k = .keyword word) ∧ (¬ ∃ word ∈ javaWords, s.kind k = .keyword word) ∧
      (scopeAt s (k + 1)).construct = (scopeAt s k).construct := by
  rw [TokenStream.construct_succ]
  by_cases hkind : ∃ word, s.kind k = .keyword word
  · obtain ⟨word, hword⟩ := hkind
    have hwords : ∀ words : List Keyword, (∃ other ∈ words, s.kind k = .keyword other) ↔ word ∈ words := by
      intro words
      rw [hword]
      simp
    rw [hwords, hwords, hword, Scope.constructAfter, hout.body, hout.braces]
    cases word <;> simp [regexWords, javaWords, Keyword.isRegexSection, Keyword.isJavaSection]
  · have hnone : ∀ words : List Keyword, ¬ ∃ word ∈ words, s.kind k = .keyword word := fun words ⟨word, _, hword⟩ =>
      hkind ⟨word, hword⟩
    refine .inr (.inr ⟨hnone _, hnone _, ?_⟩)
    unfold Scope.constructAfter
    split
    · rename_i word hword
      exact absurd ⟨word, hword⟩ hkind
    · exact absurd ‹_› hclose
    · rfl

namespace IsHeader

theorem not_open (h : s.IsHeader i o) (hik : i ≤ k) (hko : k < o) : s.kind k ≠ .openBrace :=
  fun heq => h.plain k hik hko (by simp [heq])

theorem not_close (h : s.IsHeader i o) (hik : i ≤ k) (hko : k < o) : s.kind k ≠ .closeBrace :=
  fun heq => h.plain k hik hko (by simp [heq])

theorem not_lookahead (h : s.IsHeader i o) (hik : i ≤ k) (hko : k < o) :
    s.kind k ≠ .keyword .lookahead :=
  fun heq => h.plain k hik hko (by simp [heq])

theorem outside (h : s.IsHeader i o) (hout : s.Outside i) (hik : i ≤ k) (hko : k ≤ o) : s.Outside k := by
  induction hik with
  | refl => exact hout
  | @step k hik ih =>
    obtain ⟨hbody, hbraces, hnone⟩ := ih (Nat.le_of_succ_le hko)
    refine ⟨body_of_le (Nat.le_succ k) hbody, ?_, ?_⟩
    · rw [Nat.succ_eq_add_one, braces_of_ne (h.not_open hik hko) (h.not_close hik hko), hbraces]
    · exact lookahead_succ_of_none (fun hstart => h.not_lookahead hik hko hstart.word) hnone

/-- The construct behind a header with section words of one group, or without any. -/
theorem construct_eq (h : s.IsHeader i o) (hout : s.Outside i) :
    (s.Mentions regexWords i o → ¬ s.Mentions javaWords i o → (scopeAt s o).construct = .regex) ∧
    (s.Mentions javaWords i o → ¬ s.Mentions regexWords i o → (scopeAt s o).construct = .java) ∧
    (¬ s.Mentions regexWords i o → ¬ s.Mentions javaWords i o →
      (scopeAt s o).construct = (scopeAt s i).construct) := by
  -- the last section word counts, so the induction is on the end of the header
  suffices hall : ∀ k, i ≤ k → k ≤ o →
      (s.Mentions regexWords i k → ¬ s.Mentions javaWords i k → (scopeAt s k).construct = .regex) ∧
      (s.Mentions javaWords i k → ¬ s.Mentions regexWords i k → (scopeAt s k).construct = .java) ∧
      (¬ s.Mentions regexWords i k → ¬ s.Mentions javaWords i k →
        (scopeAt s k).construct = (scopeAt s i).construct) from hall o h.le (Nat.le_refl o)
  intro k hik
  induction hik with
  | refl =>
    intro _
    refine ⟨fun ⟨l, hil, hli, _⟩ => ?_, fun ⟨l, hil, hli, _⟩ => ?_, fun _ _ => rfl⟩
    · omega
    · omega
  | @step k hik ih =>
    intro hko
    have hstep := (h.outside hout hik (Nat.le_of_succ_le hko)).construct_succ (h.not_close hik hko)
    simp only [Nat.succ_eq_add_one, mentions_succ hik]
    rcases hstep with ⟨hword, heq⟩ | ⟨hword, heq⟩ | ⟨hregex, hjava, heq⟩
    · exact ⟨fun _ _ => heq, fun _ hnot => absurd (.inr hword) hnot, fun hnot => absurd (.inr hword) hnot⟩
    · exact ⟨fun _ hnot => absurd (.inr hword) hnot, fun _ _ => heq, fun _ hnot => absurd (.inr hword) hnot⟩
    · rw [heq]
      simp only [hregex, hjava, or_false]
      exact ih (Nat.le_of_succ_le hko)

/-- A header that is not empty starts where a production is expected. -/
theorem construct_start (h : s.IsHeader i o) (hlt : i < o) (hbetween : s.Between i) :
    (scopeAt s i).construct = .production :=
  hbetween.construct (h.not_open (Nat.le_refl i) hlt)

theorem kindBefore_ne (h : s.IsHeader i o) (hlt : i < o) : s.kindBefore o ≠ .closeBrace := by
  obtain ⟨k, rfl⟩ := Nat.exists_eq_add_one_of_ne_zero (Nat.ne_zero_of_lt hlt)
  exact h.not_close (Nat.le_of_lt_succ hlt) (Nat.lt_succ_self k)

end IsHeader

/-! ### The body -/

/-- The scope knows inside of a block what it holds. -/
def BodyBlock.IsKnown (s : TokenStream) (b : BodyBlock) : Prop :=
  ∀ k, b.first ≤ k → k ≤ b.last → (scopeAt s (k + 1)).block = b.holds

/-- Behind its last block a construct is over. -/
theorem IsBlock.between (h : s.IsBlock o c) (hout : s.Outside o) : s.Between (c + 1) := by
  obtain ⟨-, hout', hconstruct⟩ := h.outermost hout
  refine ⟨hout', fun hnext => ?_⟩
  rw [hconstruct, if_neg hnext]

theorem IsBlock.isKnown (h : s.IsBlock o c) (hout : s.Outside o) {holds : Block}
    (hholds : Scope.blockFor (scopeAt s o).construct (s.kindBefore o) = holds) :
    BodyBlock.IsKnown s ⟨o, c, holds⟩ := by
  obtain ⟨hblock, -, -⟩ := h.outermost hout
  intro k hok hkc
  rw [hblock k hok hkc, hholds]

variable {blocks : List BodyBlock}

theorem IsConstruct.isKnown (h : s.IsConstruct i blocks j) (hbetween : s.Between i) :
    (∀ b ∈ blocks, b.IsKnown s) ∧ s.Between j := by
  cases h with
  | @regex o c hheader hregex hjava hblock =>
    have hout := hheader.outside hbetween.toOutside hheader.le (Nat.le_refl o)
    have hconstruct := (hheader.construct_eq hbetween.toOutside).1 hregex hjava
    refine ⟨List.forall_mem_singleton.2 (hblock.isKnown hout ?_), hblock.between hout⟩
    rw [hconstruct]
    rfl
  | @java o c hheader hjava hregex hblock =>
    have hout := hheader.outside hbetween.toOutside hheader.le (Nat.le_refl o)
    have hconstruct := (hheader.construct_eq hbetween.toOutside).2.1 hjava hregex
    refine ⟨List.forall_mem_singleton.2 (hblock.isKnown hout ?_), hblock.between hout⟩
    rw [hconstruct]
    rfl
  | @production o c c' hheader hlt hregex hjava hblock hblock' =>
    have hout := hheader.outside hbetween.toOutside hheader.le (Nat.le_refl o)
    have hconstruct : (scopeAt s o).construct = .production := by
      rw [(hheader.construct_eq hbetween.toOutside).2.2 hregex hjava, hheader.construct_start hlt hbetween]
    obtain ⟨-, hout', hconstruct'⟩ := hblock.outermost hout
    rw [if_pos hblock'.opened, hconstruct] at hconstruct'
    refine ⟨List.forall_mem_cons.2 ⟨hblock.isKnown hout ?_, List.forall_mem_singleton.2
      (hblock'.isKnown hout' ?_)⟩, hblock'.between hout'⟩
    · rw [hconstruct, Scope.blockFor, if_neg (hheader.kindBefore_ne hlt)]
    · rw [hconstruct', Scope.blockFor, kindBefore, if_pos hblock.closed]

theorem Constructs.isKnown (h : s.Constructs i blocks j) (hbetween : s.Between i) : ∀ b ∈ blocks, b.IsKnown s := by
  induction h with
  | nil => exact List.forall_mem_nil _
  | cons h _ ih =>
    obtain ⟨hknown, hbetween'⟩ := h.isKnown hbetween
    exact List.forall_mem_append.2 ⟨hknown, ih hbetween'⟩

/-- The header of a file has no sections. -/
theorem construct_of_header (hbody : (scopeAt s i).body = false) : (scopeAt s i).construct = .production := by
  induction i with
  | zero => rfl
  | succ i ih =>
    have hbody' := Layout.body_eq_false_of_le (Nat.le_succ i) hbody
    have hbefore := ih hbody'
    rw [construct_succ]
    unfold Scope.constructAfter
    split
    · rw [hbody']
      exact hbefore
    · split_ifs
      · rfl
      · exact hbefore
    · exact hbefore

end TokenStream

open TokenStream

/-- In the body of a file each outermost block is taken for what it is: grammar in a section of regular expressions
and in the second block of a production, Java in all others. -/
theorem block_of_constructs {s : TokenStream} {e j : Nat} {blocks : List BodyBlock}
    (hend : s.kind e = .keyword .parserEnd) (hfirst : ∀ k < e, s.kind k ≠ .keyword .parserEnd)
    (hbraces : (scopeAt s e).braces = 0) (hlookahead : (scopeAt s e).inLookahead = false)
    (h : s.Constructs (e + 1) blocks j) :
    ∀ b ∈ blocks, ∀ k, b.first ≤ k → k ≤ b.last → (scopeAt s (k + 1)).block = b.holds ∧
      ((∀ l ≤ k, s.kind l ≠ .endOfFile) →
        ∃ gap, (Layout.decisions s)[k]? = some ⟨scopeAt s (k + 1), gap⟩) := by
  have hbody := Layout.body_eq_false hfirst
  have hnone := lookahead_eq_none hlookahead (by simp [hend])
  have hbetween : s.Between (e + 1) := by
    refine ⟨⟨?_, ?_, ?_⟩, fun _ => ?_⟩
    · change ((scopeAt s e).body || s.kind e == .keyword .parserEnd) = true
      rw [hend, beq_self_eq_true, Bool.or_true]
    · rw [braces_of_ne (by simp [hend]) (by simp [hend]), hbraces]
    · exact lookahead_succ_of_none (not_startsConstraint hend (by simp)) hnone
    · rw [construct_succ, hend, Scope.constructAfter, hbody]
      exact construct_of_header hbody
  intro b hb k hfirst' hlast
  refine ⟨h.isKnown hbetween b hb k hfirst' hlast, fun hends => ⟨Layout.gapAt s k, ?_⟩⟩
  exact Layout.getElem?_decisions (lt_size_of_kind (hends k (Nat.le_refl k))) hends

/-- A section, a production with a loose brace in a lookahead constraint, and a method. -/
def bodyTokens : TokenStream :=
  .ofLines [(.keyword .parserEnd, "PARSER_END", 1), (.keyword .token, "TOKEN", 1), (.openBrace, "\x7b", 1),
    (.string, "\"a\"", 1), (.closeBrace, "\x7d", 1), (.keyword .void, "void", 1), (.openBrace, "\x7b", 1),
    (.closeBrace, "\x7d", 1), (.openBrace, "\x7b", 1), (.keyword .lookahead, "LOOKAHEAD", 1), (.openParen, "(", 1),
    (.openBrace, "\x7b", 1), (.closeParen, ")", 1), (.openBrace, "\x7b", 1), (.closeBrace, "\x7d", 1),
    (.closeBrace, "\x7d", 1), (.keyword .javacode, "JAVACODE", 1), (.openBrace, "\x7b", 1), (.closeBrace, "\x7d", 1)]

theorem constructs_bodyTokens :
    bodyTokens.Constructs 1 [⟨2, 4, .grammar⟩, ⟨6, 7, .java⟩, ⟨8, 15, .grammar⟩, ⟨17, 18, .java⟩] 19 := by
  have hheader : ∀ i o, i ≤ o → (∀ k < o, i ≤ k →
      bodyTokens.kind k ∉ [.openBrace, .closeBrace, .keyword .lookahead]) → bodyTokens.IsHeader i o :=
    fun i o hle hplain => ⟨hle, fun k hik hko => hplain k hko hik⟩
  have hplain : ∀ {i}, bodyTokens.kind i ≠ .keyword .lookahead → ¬ bodyTokens.StartsConstraint i :=
    fun hne hstart => hne hstart.word
  have hnot : ∀ {words i o}, (∀ k < o, i ≤ k → ∀ word ∈ words, bodyTokens.kind k ≠ .keyword word) →
      ¬ bodyTokens.Mentions words i o := fun hne ⟨k, hik, hko, word, hword, hkind⟩ => hne k hko hik word hword hkind
  have htoken : bodyTokens.IsConstruct 1 [⟨2, 4, .grammar⟩] 5 := by
    refine .regex (hheader 1 2 (by decide) (by decide)) ⟨1, by decide, by decide, .token, by decide, rfl⟩
      (hnot (by decide)) ⟨rfl, ?_, rfl⟩
    exact .token (by decide) (by decide) (hplain (by decide)) .nil
  have hproduction : bodyTokens.IsConstruct 5 [⟨6, 7, .java⟩, ⟨8, 15, .grammar⟩] 16 := by
    refine .production (hheader 5 6 (by decide) (by decide)) (by decide) (hnot (by decide)) (hnot (by decide))
      ⟨rfl, .nil, rfl⟩ ⟨rfl, ?_, rfl⟩
    exact .constraint (m := 12) ⟨rfl, rfl⟩ ⟨by decide, by decide, by decide⟩ (.block rfl .nil rfl .nil)
  have hmethod : bodyTokens.IsConstruct 16 [⟨17, 18, .java⟩] 19 :=
    .java (hheader 16 17 (by decide) (by decide)) ⟨16, by decide, by decide, .javacode, by decide, rfl⟩
      (hnot (by decide)) ⟨rfl, .nil, rfl⟩
  exact .cons htoken (.cons hproduction (.cons hmethod .nil))

theorem block_of_constructs_of_bodyTokens :
    bodyTokens.Constructs 1 [⟨2, 4, .grammar⟩, ⟨6, 7, .java⟩, ⟨8, 15, .grammar⟩, ⟨17, 18, .java⟩] 19 ∧
    ∀ k, 8 ≤ k → k ≤ 15 → (scopeAt bodyTokens (k + 1)).block = .grammar ∧
      ((∀ l ≤ k, bodyTokens.kind l ≠ .endOfFile) →
        ∃ gap, (Layout.decisions bodyTokens)[k]? = some ⟨scopeAt bodyTokens (k + 1), gap⟩) :=
  ⟨constructs_bodyTokens, block_of_constructs (e := 0) rfl (by simp) rfl rfl constructs_bodyTokens ⟨8, 15, .grammar⟩
    (by simp)⟩

end GrammarFormat
