import GrammarFormat.Proofs.Passes

/-!
# Where parentheses end what they open

Lookahead constraints, the headers of `for` loops and node annotations end at the parenthesis that closes their first
one, and so does what `PARSER_BEGIN` and `PARSER_END` ask for (`ends_at_closing_paren`). Parentheses are counted alone
and in any stream. Up to the end of a group its `surplus` is positive, so no counter is ever cut off at zero inside of
it, and every counter that stands at 1 behind the opening parenthesis moves with the surplus.
-/

namespace GrammarFormat

namespace TokenKind

/-- How the number of open parentheses changes with a token. -/
def parenStep : TokenKind → Int
  | openParen => 1
  | closeParen => -1
  | _ => 0

theorem parenStep_of_ne {kind : TokenKind} (ho : kind ≠ .openParen) (hc : kind ≠ .closeParen) :
    kind.parenStep = 0 := by
  unfold parenStep
  split
  · exact absurd rfl ho
  · exact absurd rfl hc
  · rfl

theorem count_singleton_sub (kind : TokenKind) :
    ([kind].count .openParen : Int) - [kind].count .closeParen = kind.parenStep := by
  by_cases ho : kind = .openParen
  · rw [ho]
    rfl
  by_cases hc : kind = .closeParen
  · rw [hc]
    rfl
  · rw [parenStep_of_ne ho hc, List.count_singleton, List.count_singleton, if_neg (by simpa using ho),
      if_neg (by simpa using hc)]
    rfl

theorem neg_one_le_parenStep (kind : TokenKind) : -1 ≤ kind.parenStep := by
  unfold parenStep
  split <;> omega

theorem eq_closeParen_of_parenStep {kind : TokenKind} (h : kind.parenStep < 0) : kind = .closeParen := by
  unfold parenStep at h
  split at h
  · omega
  · rfl
  · omega

end TokenKind

namespace TokenStream

/-- The kinds of the tokens from `i` to `j`. -/
def kindsFrom (s : TokenStream) (i j : Nat) : List TokenKind :=
  (List.range' i (j + 1 - i)).map s.kind

/-- How many more parentheses are opened than closed by the tokens from `p` to `j`. -/
def surplus (s : TokenStream) (p j : Nat) : Int :=
  ((s.kindsFrom p j).count .openParen : Int) - (s.kindsFrom p j).count .closeParen

/-- From `p` to `m` as many parentheses are opened as closed, and to no place between. -/
structure ClosesAt (s : TokenStream) (p m : Nat) : Prop where
  lt : p < m
  balanced : s.surplus p m = 0
  first : ∀ k < m, p < k → s.surplus p k ≠ 0

variable {s : TokenStream} {p j m : Nat}

theorem surplus_self (hopen : s.kind p = .openParen) : s.surplus p p = 1 := by
  have hkinds : s.kindsFrom p p = [.openParen] := by
    rw [kindsFrom, Nat.add_sub_cancel_left, List.range'_one, List.map_singleton, hopen]
  rw [surplus, hkinds]
  rfl

theorem surplus_succ (hle : p ≤ j) : s.surplus p (j + 1) = s.surplus p j + (s.kind (j + 1)).parenStep := by
  have hkinds : s.kindsFrom p (j + 1) = s.kindsFrom p j ++ [s.kind (j + 1)] := by
    rw [kindsFrom, show j + 1 + 1 - p = j + 1 - p + 1 by omega, List.range'_concat, List.map_append,
      List.map_singleton, show p + 1 * (j + 1 - p) = j + 1 by omega, kindsFrom]
  have hstep := (s.kind (j + 1)).count_singleton_sub
  rw [surplus, surplus, hkinds, List.count_append, List.count_append]
  omega

/-- What starts at one and falls by one at a time is positive until it is zero. -/
theorem one_le_of_falls {f : Nat → Int} (hstart : f p = 1) (hfalls : ∀ j, p ≤ j → f j - 1 ≤ f (j + 1)) (hle : p ≤ j)
    (hfirst : ∀ k, p < k → k ≤ j → f k ≠ 0) : 1 ≤ f j := by
  induction hle with
  | refl => rw [hstart]
  | @step j hle ih =>
    have hbefore := ih fun k hpk hkj => hfirst k hpk (Nat.le_succ_of_le hkj)
    have hne := hfirst (j + 1) (Nat.lt_succ_of_le hle) (Nat.le_refl _)
    have hstep := hfalls j hle
    rw [Nat.succ_eq_add_one]
    omega

theorem one_le_surplus (hopen : s.kind p = .openParen) (hle : p ≤ j)
    (hfirst : ∀ k, p < k → k ≤ j → s.surplus p k ≠ 0) : 1 ≤ s.surplus p j := by
  refine one_le_of_falls (surplus_self hopen) (fun j hle => ?_) hle hfirst
  have hstep := (s.kind (j + 1)).neg_one_le_parenStep
  rw [surplus_succ hle]
  omega

namespace ClosesAt

theorem one_le_surplus (h : s.ClosesAt p m) (hopen : s.kind p = .openParen) (hpj : p ≤ j) (hjm : j < m) :
    1 ≤ s.surplus p j :=
  TokenStream.one_le_surplus hopen hpj fun k hpk hkj => h.first k (Nat.lt_of_le_of_lt hkj hjm) hpk

/-- The last token of a group closes the last parenthesis that is open. -/
theorem last (h : s.ClosesAt p m) (hopen : s.kind p = .openParen) :
    ∃ j, m = j + 1 ∧ p ≤ j ∧ s.surplus p j = 1 ∧ s.kind m = .closeParen := by
  obtain ⟨j, rfl⟩ : ∃ j, m = j + 1 := ⟨m - 1, by have := h.lt; omega⟩
  have hpj : p ≤ j := Nat.le_of_lt_succ h.lt
  have hpos := h.one_le_surplus hopen hpj (Nat.lt_succ_self j)
  have hstep := (s.kind (j + 1)).neg_one_le_parenStep
  have hzero := h.balanced
  rw [surplus_succ hpj] at hzero
  exact ⟨j, rfl, hpj, by omega, TokenKind.eq_closeParen_of_parenStep (by omega)⟩

end ClosesAt

end TokenStream

open TokenStream

/-! ### Constructs with parentheses -/

/-- A reach as a number: -1 outside of the construct, else how many parentheses are open in it. -/
def Reach.depth : Reach → Int
  | none => -1
  | some n => n

theorem Reach.exists_of_depth_pos {reach : Reach} (h : 1 ≤ reach.depth) : ∃ n, reach = some (n + 1) := by
  rcases reach with _ | _ | n
  · exact absurd h (by decide)
  · exact absurd h (by decide)
  · exact ⟨n, rfl⟩

/-- Inside of its parentheses a construct counts them, and it is left when none is open. -/
theorem Reach.depth_afterParen (kind : TokenKind) (n : Nat) : (Reach.afterParen kind (some (n + 1))).depth =
    if (n + 1 : Int) + kind.parenStep = 0 then -1 else (n + 1 : Int) + kind.parenStep := by
  by_cases ho : kind = .openParen
  · subst ho
    rw [if_neg (by simp only [TokenKind.parenStep]; omega)]
    rfl
  by_cases hc : kind = .closeParen
  · subst hc
    rcases n with _ | n
    · rfl
    · rw [if_neg (by simp only [TokenKind.parenStep]; omega)]
      simp only [afterParen, depth, TokenKind.parenStep]
      omega
  · rw [Reach.afterParen_of_ne kind _ ho hc, TokenKind.parenStep_of_ne ho hc, Int.add_zero, if_neg (by omega)]
    rfl

namespace Scope

variable {kind next : TokenKind} {n : Nat}

theorem lookaheadAfter_inside : lookaheadAfter kind next (some (n + 1)) = Reach.afterParen kind (some (n + 1)) := by
  unfold lookaheadAfter
  split_ifs with hword
  · rw [hword.1]
    rfl
  · rfl

theorem forHeaderAfter_inside : forHeaderAfter kind (some (n + 1)) = Reach.afterParen kind (some (n + 1)) := by
  unfold forHeaderAfter
  split_ifs with hword
  · rw [hword]
    rfl
  · rfl

theorem nodeAfter_inside : nodeAfter kind next (some (n + 1)) = Reach.afterParen kind (some (n + 1)) := by
  unfold nodeAfter
  split
  · rfl
  · rw [if_neg (by simp)]
    rfl
  · rfl
  · rw [if_neg (by simp)]

end Scope

variable {s : TokenStream} {reach : Scope → Reach} {i p j m : Nat}

/-- The constructs differ in how they start. Inside of their parentheses they are all moved alike. -/
theorem depth_succ_of_inside (hreach : reach ∈ [Scope.lookahead, Scope.forHeader, Scope.node])
    (hinside : 1 ≤ (reach (scopeAt s i)).depth) : (reach (scopeAt s (i + 1))).depth =
      if (reach (scopeAt s i)).depth + (s.kind i).parenStep = 0 then -1
      else (reach (scopeAt s i)).depth + (s.kind i).parenStep := by
  obtain ⟨n, hn⟩ := Reach.exists_of_depth_pos hinside
  have hstep : reach (scopeAt s (i + 1)) = Reach.afterParen (s.kind i) (some (n + 1)) := by
    simp only [List.mem_cons, List.not_mem_nil, or_false] at hreach
    rcases hreach with rfl | rfl | rfl
    · change Scope.lookaheadAfter _ _ (scopeAt s i).lookahead = _
      rw [hn, Scope.lookaheadAfter_inside]
    · change Scope.forHeaderAfter _ (scopeAt s i).forHeader = _
      rw [hn, Scope.forHeaderAfter_inside]
    · change Scope.nodeAfter _ _ (scopeAt s i).node = _
      rw [hn, Scope.nodeAfter_inside]
  rw [hstep, hn, Reach.depth_afterParen]
  rfl

theorem depth_eq_surplus (hreach : reach ∈ [Scope.lookahead, Scope.forHeader, Scope.node])
    (hopen : s.kind p = .openParen) (hone : (reach (scopeAt s (p + 1))).depth = 1) (hle : p ≤ j)
    (hfirst : ∀ k, p < k → k ≤ j → s.surplus p k ≠ 0) : (reach (scopeAt s (j + 1))).depth = s.surplus p j := by
  induction hle with
  | refl => rw [hone, surplus_self hopen]
  | @step j hle ih =>
    have hbefore : ∀ k, p < k → k ≤ j → s.surplus p k ≠ 0 := fun k hpk hkj => hfirst k hpk (Nat.le_succ_of_le hkj)
    have hpos := one_le_surplus hopen hle hbefore
    have hne := hfirst (j + 1) (Nat.lt_succ_of_le hle) (Nat.le_refl _)
    rw [surplus_succ hle] at hne
    rw [Nat.succ_eq_add_one, depth_succ_of_inside hreach (by rw [ih hbefore]; exact hpos), ih hbefore, if_neg hne,
      surplus_succ hle]

theorem depth_of_closesAt (hreach : reach ∈ [Scope.lookahead, Scope.forHeader, Scope.node])
    (hopen : s.kind p = .openParen) (hone : (reach (scopeAt s (p + 1))).depth = 1) (h : s.ClosesAt p m) :
    (reach (scopeAt s (m + 1))).depth = -1 := by
  obtain ⟨j, rfl, hpj, hsurplus, hclose⟩ := h.last hopen
  have hdepth : (reach (scopeAt s (j + 1))).depth = 1 := by
    rw [depth_eq_surplus hreach hopen hone hpj fun k hpk hkj => h.first k (Nat.lt_succ_of_le hkj) hpk, hsurplus]
  rw [depth_succ_of_inside hreach (by rw [hdepth]), hdepth, hclose]
  rfl

/-- In a group more parentheses are open than in front of it, so their number never stops at zero. -/
theorem parens_eq_surplus (hopen : s.kind p = .openParen) (hle : p ≤ j)
    (hpos : ∀ k, p ≤ k → k < j → 1 ≤ s.surplus p k) :
    ((scopeAt s (j + 1)).parens : Int) = (scopeAt s p).parens + s.surplus p j := by
  have hstep : ∀ i, s.kind i ≠ .closeParen ∨ 0 < (scopeAt s i).parens →
      ((scopeAt s (i + 1)).parens : Int) = (scopeAt s i).parens + (s.kind i).parenStep := by
    intro i hi
    by_cases ho : s.kind i = .openParen
    · rw [parens_succ, ho]
      rfl
    by_cases hc : s.kind i = .closeParen
    · have hparens := hi.resolve_left (not_not_intro hc)
      rw [parens_succ, hc, Scope.parensAfter, TokenKind.parenStep]
      omega
    · rw [parens_of_ne ho hc, TokenKind.parenStep_of_ne ho hc, Int.add_zero]
  induction hle with
  | refl =>
    rw [hstep p (.inl (by simp [hopen])), surplus_self hopen, hopen]
    rfl
  | @step j hle ih =>
    have hbefore := ih fun k hpk hkj => hpos k hpk (Nat.lt_succ_of_lt hkj)
    have hsurplus := hpos j hle (Nat.lt_succ_self j)
    rw [Nat.succ_eq_add_one, hstep (j + 1) (.inr (by omega)), hbefore, surplus_succ hle, Int.add_assoc]

/-! ### The parser's frame -/

namespace Layout

/-- The words after whose parentheses line breaks are asked for, and how many. -/
def frameWords : List (Keyword × Nat) := [(.parserBegin, 1), (.parserEnd, 2)]

variable {frame : Keyword × Nat} {c : Scope} {memory : Memory}

theorem deferredAfter_frame (hframe : frame ∈ frameWords) :
    deferredAfter (.keyword frame.1) c memory = some ⟨frame.2, c.parens⟩ := by
  simp only [frameWords, List.mem_cons, List.not_mem_nil, or_false] at hframe
  rcases hframe with rfl | rfl <;> rfl

/-- A request is kept by all other tokens but a parenthesis at its depth. -/
theorem deferredAfter_kept {kind : TokenKind} {deferred : Deferred} (h : memory.deferred? = some deferred)
    (hword : ∀ frame ∈ frameWords, kind ≠ .keyword frame.1)
    (hdepth : kind = .closeParen → deferred.parens ≠ c.parens) :
    deferredAfter kind c memory = some deferred := by
  unfold deferredAfter
  split
  · exact absurd rfl (hword (.parserBegin, 1) (by simp [frameWords]))
  · exact absurd rfl (hword (.parserEnd, 2) (by simp [frameWords]))
  · rw [h, Option.filter_some, if_pos (bne_iff_ne.2 (hdepth rfl))]
  · exact h

theorem breaks_frameDemand_le (s : TokenStream) (i : Nat) (c : Scope) (memory : Memory) :
    (frameDemand (s.kind i) c memory).breaks ≤ (gapAfter s i c memory).1.newlines := by
  rw [newlines_gapAfter, demandAfter]
  split_ifs
  · exact Nat.le_refl _
  · exact Demand.le_breaks_left (Demand.le_breaks_left (Demand.le_breaks_left
      (Demand.le_breaks_left (Nat.le_refl _) _) _) _) _

section

variable {b : Nat} (hframe : frame ∈ frameWords) (hword : s.kind b = .keyword frame.1)
  (hopen : s.kind (b + 1) = .openParen) (h : s.ClosesAt (b + 1) m)
  (hwords : ∀ k < m, b + 1 < k → ∀ frame ∈ frameWords, s.kind k ≠ .keyword frame.1)

include hframe hword hopen h hwords

/-- The request of a frame word waits through its parentheses. -/
theorem deferred_eq (hbj : b < j) (hjm : j ≤ m) :
    (memoryAt s j).deferred? = some ⟨frame.2, (scopeAt s (b + 1)).parens⟩ := by
  induction hbj with
  | refl => rw [Nat.succ_eq_add_one, memoryAt, deferred_gapAfter, hword, deferredAfter_frame hframe]
  | @step j hbj ih =>
    rw [Nat.succ_eq_add_one, memoryAt, deferred_gapAfter]
    refine deferredAfter_kept (ih (Nat.le_of_lt hjm)) ?_ fun _ hparens => ?_
    · rcases Nat.eq_or_lt_of_le hbj with rfl | hlt
      · intro frame _
        rw [Nat.succ_eq_add_one, hopen]
        simp
      · exact hwords j hjm hlt
    · have hpos := h.one_le_surplus hopen hbj hjm
      have hsum := parens_eq_surplus hopen hbj fun k hbk hkj =>
        h.one_le_surplus hopen hbk (Nat.lt_of_lt_of_le hkj (Nat.le_of_lt hjm))
      have hcast : ((scopeAt s (b + 1)).parens : Int) = (scopeAt s (j + 1)).parens := congrArg Nat.cast hparens
      omega

/-- The parenthesis that closes the frame gets the line breaks, and the request is done. -/
theorem breaks_of_frame : (memoryAt s (m + 1)).deferred? = none ∧ frame.2 ≤ (gapAt s m).newlines := by
  obtain ⟨j, rfl, hbj, -, hclose⟩ := h.last hopen
  have hdeferred := deferred_eq hframe hword hopen h hwords (j := j + 1) (Nat.lt_succ_of_lt hbj) (Nat.le_refl _)
  have hparens : (scopeAt s (j + 2)).parens = (scopeAt s (b + 1)).parens := by
    have hsum := parens_eq_surplus hopen (Nat.le_of_lt h.lt) fun k hbk hkj => h.one_le_surplus hopen hbk hkj
    rw [h.balanced, Int.add_zero] at hsum
    exact Int.ofNat.inj hsum
  constructor
  · rw [memoryAt, deferred_gapAfter, hclose, deferredAfter, hdeferred, Option.filter_some, hparens, bne_self_eq_false]
    rfl
  · refine Nat.le_trans ?_ (breaks_frameDemand_le s (j + 1) (scopeAt s (j + 2)) (memoryAt s (j + 1)))
    rw [hclose]
    simp only [frameDemand, hdeferred, hparens, beq_self_eq_true, Demand.when, if_true]
    exact Nat.le_refl _

end

/-- From the parenthesis that opens it, each construct counts the parentheses that are open in it, and ends with the
one that closes the first; the requests of frame words are carried out there, and not before. -/
theorem ends_at_closing_paren (s : TokenStream) :
    (∀ reach ∈ [Scope.lookahead, Scope.forHeader, Scope.node], ∀ p, s.kind p = .openParen →
      (reach (scopeAt s (p + 1))).depth = 1 →
        (∀ j, p < j → (∀ k, p < k → k ≤ j → s.surplus p k ≠ 0) →
          (reach (scopeAt s (j + 1))).depth = s.surplus p j ∧ 1 ≤ s.surplus p j) ∧
        ∀ m, s.ClosesAt p m → (reach (scopeAt s (m + 1))).depth = -1) ∧
    (∀ frame ∈ frameWords, ∀ b m, s.kind b = .keyword frame.1 → s.kind (b + 1) = .openParen →
      s.ClosesAt (b + 1) m → (∀ k < m, b + 1 < k → ∀ other ∈ frameWords, s.kind k ≠ .keyword other.1) →
        (∀ j, b < j → j ≤ m → (memoryAt s j).deferred? = some ⟨frame.2, (scopeAt s (b + 1)).parens⟩) ∧
        (memoryAt s (m + 1)).deferred? = none ∧ frame.2 ≤ (gapAt s m).newlines) ∧
    ∀ i, (∀ k < i, s.kind k ≠ .endOfFile) →
      (decisions s).drop i = decisionsFrom s (s.size - i) i (scopeAt s i) (memoryAt s i) := by
  refine ⟨fun reach hreach p hopen hone => ⟨fun j hpj hfirst => ?_, fun m h => ?_⟩, ?_, ?_⟩
  · exact ⟨depth_eq_surplus hreach hopen hone (Nat.le_of_lt hpj) hfirst,
      one_le_surplus hopen (Nat.le_of_lt hpj) hfirst⟩
  · exact depth_of_closesAt hreach hopen hone h
  · intro frame hframe b m hword hopen h hwords
    exact ⟨fun j hbj hjm => deferred_eq hframe hword hopen h hwords hbj hjm,
      breaks_of_frame hframe hword hopen h hwords⟩
  · intro i hend
    exact drop_decisions_of_lt hend

/-- Parentheses that do not match around a `for` in a lookahead constraint and a frame word. -/
def looseParens : TokenStream :=
  .ofLines [(.closeParen, ")", 1), (.keyword .lookahead, "LOOKAHEAD", 1), (.openParen, "(", 1),
    (.keyword .for, "for", 1), (.openParen, "(", 1), (.closeParen, ")", 1), (.openBracket, "[", 1),
    (.closeParen, ")", 1), (.keyword .parserEnd, "PARSER_END", 1), (.openParen, "(", 1), (.openParen, "(", 1),
    (.closeParen, ")", 1), (.closeParen, ")", 1), (.openParen, "(", 2)]

theorem ends_at_closing_paren_of_looseParens : looseParens.ClosesAt 2 7 ∧ looseParens.ClosesAt 9 12 ∧
    (scopeAt looseParens 3).lookahead.depth = 1 ∧ (scopeAt looseParens 5).lookahead.depth = looseParens.surplus 2 4 ∧
    (scopeAt looseParens 8).lookahead.depth = -1 ∧ (memoryAt looseParens 12).deferred? = some ⟨2, 0⟩ ∧
    2 ≤ (gapAt looseParens 12).newlines := by
  have hconstraint : looseParens.ClosesAt 2 7 := ⟨by decide, by decide, by decide⟩
  have hframe : looseParens.ClosesAt 9 12 := ⟨by decide, by decide, by decide⟩
  obtain ⟨hreaches, hframes, -⟩ := ends_at_closing_paren looseParens
  obtain ⟨hinside, hend⟩ := hreaches Scope.lookahead (by simp) 2 rfl (by decide)
  obtain ⟨hdeferred, -, hbreaks⟩ := hframes (.parserEnd, 2) (by simp [frameWords]) 8 12 rfl rfl hframe (by decide)
  refine ⟨hconstraint, hframe, by decide, (hinside 4 (by decide) ?_).1, hend 7 hconstraint, ?_, hbreaks⟩
  · intro k hk hk'
    exact hconstraint.first k (Nat.lt_of_le_of_lt hk' (by decide)) hk
  · exact hdeferred 12 (by decide) (Nat.le_refl _)

end Layout

end GrammarFormat
