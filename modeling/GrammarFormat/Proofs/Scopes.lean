import GrammarFormat.Layout.Scope
import GrammarFormat.Proofs.Nesting

/-!
# Scopes along nested brackets

The scope in front of every token of a stream (`scopeAt`), and what balanced tokens do to it. Constructs with
parentheses, braces and parentheses are as deep behind balanced tokens as in front of them, so balanced
tokens of the body do not lead into the grammar or out of it (`Balanced.inGrammar`).
-/

namespace GrammarFormat

open TokenStream TokenKind

/-- How many parentheses of a construct are open. -/
def Reach.count : Reach → Nat
  | some n => n
  | none => 0

theorem Reach.isInside_iff (reach : Reach) : reach.isInside = true ↔ 0 < reach.count := by
  rcases reach with _ | _ | n <;> simp [isInside, count]

theorem Reach.isInside_eq_false_iff (reach : Reach) : reach.isInside = false ↔ reach.count = 0 := by
  rw [← Bool.not_eq_true, isInside_iff, Nat.pos_iff_ne_zero, not_not]

/-- The scope in front of the token at `i`. -/
def scopeAt (s : TokenStream) : Nat → Scope
  | 0 => {}
  | i + 1 => (scopeAt s i).advance s i

/-! ### Constructs with parentheses -/

/-- What tokens do to a construct that parentheses end. -/
structure Reach.Counts (after : TokenKind → TokenKind → Reach → Reach) : Prop where
  other : ∀ kind next reach, kind ≠ .openParen → kind ≠ .closeParen →
    (after kind next reach).count = reach.count
  opened : ∀ next reach, (after .openParen next reach).count = if reach = none then 0 else reach.count + 1
  closed : ∀ next reach, (after .closeParen next reach).count = reach.count - 1

theorem Reach.count_enter (reach : Reach) : reach.enter.count = reach.count := by
  cases reach <;> rfl

theorem Reach.afterParen_of_ne (kind : TokenKind) (reach : Reach) (ho : kind ≠ .openParen)
    (hc : kind ≠ .closeParen) : reach.afterParen kind = reach := by
  unfold afterParen
  split
  · exact absurd rfl ho
  · exact absurd rfl hc
  · exact absurd rfl hc
  · rfl

theorem Reach.count_afterParen (kind : TokenKind) (reach : Reach) (ho : kind ≠ .openParen)
    (hc : kind ≠ .closeParen) :
    (reach.afterParen kind).count = reach.count := by
  rw [reach.afterParen_of_ne kind ho hc]

theorem Reach.count_afterParen_open (reach : Reach) :
    (reach.afterParen .openParen).count = if reach = none then 0 else reach.count + 1 := by
  cases reach <;> rfl

theorem Reach.count_afterParen_close (reach : Reach) :
    (reach.afterParen .closeParen).count = reach.count - 1 := by
  rcases reach with _ | _ | _ | n <;> rfl

theorem counts_lookaheadAfter : Reach.Counts Scope.lookaheadAfter where
  other kind next reach ho hc := by
    unfold Scope.lookaheadAfter
    split
    · exact reach.count_enter
    · exact reach.count_afterParen kind ho hc
  opened _ reach := reach.count_afterParen_open
  closed _ reach := reach.count_afterParen_close

theorem counts_forHeaderAfter : Reach.Counts fun kind _ => Scope.forHeaderAfter kind where
  other kind next reach ho hc := by
    unfold Scope.forHeaderAfter
    split
    · exact reach.count_enter
    · exact reach.count_afterParen kind ho hc
  opened _ reach := reach.count_afterParen_open
  closed _ reach := reach.count_afterParen_close

theorem counts_nodeAfter : Reach.Counts Scope.nodeAfter where
  other kind next reach ho hc := by
    unfold Scope.nodeAfter
    split
    · exact reach.count_enter
    · split
      · rename_i hnone
        rw [hnone.1]
        rfl
      · rfl
    · exact absurd rfl ho
    · split
      · rename_i hnone
        rw [hnone]
        rfl
      · exact reach.count_afterParen kind ho hc
  opened _ reach := reach.count_afterParen_open
  closed _ reach := by
    unfold Scope.nodeAfter
    by_cases hnone : reach = some 0
    · rw [hnone]
      rfl
    · simp only [hnone, if_false]
      exact reach.count_afterParen_close

variable {s : TokenStream} {i j k : Nat}

namespace TokenStream

section

variable {after : TokenKind → TokenKind → Reach → Reach} (hafter : Reach.Counts after) (reach : Nat → Reach)
  (hreach : ∀ i, reach (i + 1) = after (s.kind i) (s.kind (i + 1)) (reach i))

include hafter hreach

theorem Balanced.count (h : s.Balanced i j) : (reach j).count = (reach i).count := by
  have hother : ∀ {i}, s.kind i ≠ .openParen → s.kind i ≠ .closeParen →
      (reach (i + 1)).count = (reach i).count :=
    fun ho hc => by rw [hreach, hafter.other _ _ _ ho hc]
  refine h.keeps (fun i => (reach i).count) (fun i hkind => ?_) fun o c hpair hinner => ?_
  · exact hother (ne_of_nesting hkind (by decide)) (ne_of_nesting hkind (by decide))
  rcases closer?_cases hpair.closer with ⟨ho, hc⟩ | ⟨ho, hc⟩ | ⟨ho, hc⟩ | ⟨ho, hc⟩
  · rw [hreach c, hc, hafter.closed, hinner, hreach o, ho, hafter.opened]
    split_ifs with hnone
    · rw [hnone]
      rfl
    · rfl
  all_goals
    rw [hother (by simp [hc]) (by simp [hc]), hinner, hother (by simp [ho]) (by simp [ho])]

theorem count_le_of_closer? {kind : TokenKind} (h : (s.kind i).closer? = some kind) :
    (reach i).count ≤ (reach (i + 1)).count := by
  rcases closer?_cases h with ⟨ho, -⟩ | ⟨ho, -⟩ | ⟨ho, -⟩ | ⟨ho, -⟩
  · rw [hreach, ho, hafter.opened]
    split_ifs with hnone
    · rw [hnone]
      exact Nat.le_refl 0
    · exact Nat.le_succ _
  all_goals exact Nat.le_of_eq (by rw [hreach, hafter.other _ _ _ (by simp [ho]) (by simp [ho])])

end

/-! ### Scopes -/

theorem Balanced.lookahead (h : s.Balanced i j) :
    (scopeAt s j).lookahead.count = (scopeAt s i).lookahead.count :=
  h.count counts_lookaheadAfter (fun i => (scopeAt s i).lookahead) fun _ => rfl

theorem Balanced.forHeader (h : s.Balanced i j) :
    (scopeAt s j).forHeader.count = (scopeAt s i).forHeader.count :=
  h.count counts_forHeaderAfter (fun i => (scopeAt s i).forHeader) fun _ => rfl

theorem Balanced.node (h : s.Balanced i j) : (scopeAt s j).node.count = (scopeAt s i).node.count :=
  h.count counts_nodeAfter (fun i => (scopeAt s i).node) fun _ => rfl

theorem inLookahead_congr {c c' : Scope} (h : c.lookahead.count = c'.lookahead.count) :
    c.inLookahead = c'.inLookahead := by
  rw [Bool.eq_iff_iff, Scope.inLookahead, Scope.inLookahead, Reach.isInside_iff, Reach.isInside_iff, h]

theorem Balanced.inLookahead (h : s.Balanced i j) :
    (scopeAt s j).inLookahead = (scopeAt s i).inLookahead :=
  inLookahead_congr h.lookahead

theorem inLookahead_succ (ho : s.kind i ≠ .openParen) (hc : s.kind i ≠ .closeParen) :
    (scopeAt s (i + 1)).inLookahead = (scopeAt s i).inLookahead :=
  inLookahead_congr (counts_lookaheadAfter.other _ _ _ ho hc)

theorem braces_succ (s : TokenStream) (i : Nat) :
    (scopeAt s (i + 1)).braces = Scope.bracesAfter (s.kind i) (scopeAt s i) := rfl

theorem braces_of_ne (ho : s.kind i ≠ .openBrace) (hc : s.kind i ≠ .closeBrace) :
    (scopeAt s (i + 1)).braces = (scopeAt s i).braces := by
  rw [braces_succ, Scope.bracesAfter]
  · exact ho
  · exact hc

theorem Balanced.braces (h : s.Balanced i j) : (scopeAt s j).braces = (scopeAt s i).braces := by
  refine h.keeps (fun i => (scopeAt s i).braces) (fun i hkind => ?_) fun o c hpair hinner => ?_
  · exact braces_of_ne (ne_of_nesting hkind (by decide)) (ne_of_nesting hkind (by decide))
  rcases closer?_cases hpair.closer with ⟨ho, hc⟩ | ⟨ho, hc⟩ | ⟨ho, hc⟩ | ⟨ho, hc⟩
  case inr.inr.inl =>
    -- whether the braces count is the same at both of them
    have hlookahead : (scopeAt s c).inLookahead = (scopeAt s o).inLookahead := by
      rw [hpair.inner.inLookahead, inLookahead_succ (by simp [ho]) (by simp [ho])]
    rw [braces_succ, hc, Scope.bracesAfter, hinner, braces_succ, ho, Scope.bracesAfter, hlookahead]
    split_ifs <;> rfl
  all_goals
    rw [braces_of_ne (by simp [hc]) (by simp [hc]), hinner, braces_of_ne (by simp [ho]) (by simp [ho])]

theorem parens_succ (s : TokenStream) (i : Nat) :
    (scopeAt s (i + 1)).parens = Scope.parensAfter (s.kind i) (scopeAt s i).parens := rfl

theorem parens_of_ne (ho : s.kind i ≠ .openParen) (hc : s.kind i ≠ .closeParen) :
    (scopeAt s (i + 1)).parens = (scopeAt s i).parens := by
  rw [parens_succ, Scope.parensAfter]
  · exact ho
  · exact hc

theorem Balanced.parens (h : s.Balanced i j) : (scopeAt s j).parens = (scopeAt s i).parens := by
  refine h.keeps (fun i => (scopeAt s i).parens) (fun i hkind => ?_) fun o c hpair hinner => ?_
  · exact parens_of_ne (ne_of_nesting hkind (by decide)) (ne_of_nesting hkind (by decide))
  rcases closer?_cases hpair.closer with ⟨ho, hc⟩ | ⟨ho, hc⟩ | ⟨ho, hc⟩ | ⟨ho, hc⟩
  · rw [parens_succ, hc, Scope.parensAfter, hinner, parens_succ, ho, Scope.parensAfter]
    rfl
  all_goals
    rw [parens_of_ne (by simp [hc]) (by simp [hc]), hinner, parens_of_ne (by simp [ho]) (by simp [ho])]

/-- Inside of balanced tokens no fewer parentheses are open than in front of them. -/
theorem Balanced.parens_le {k : Nat} (h : s.Balanced i j) (hik : i ≤ k) (hkj : k ≤ j) :
    (scopeAt s i).parens ≤ (scopeAt s k).parens := by
  induction h with
  | nil =>
    obtain rfl : _ = k := Nat.le_antisymm hik hkj
    exact Nat.le_refl _
  | @token i j hkind hrest ih =>
    rcases Nat.eq_or_lt_of_le hik with rfl | hlt
    · exact Nat.le_refl _
    have hstep : (scopeAt s (i + 1)).parens = (scopeAt s i).parens :=
      parens_of_ne (ne_of_nesting hkind (by decide)) (ne_of_nesting hkind (by decide))
    rw [← hstep]
    exact ih hlt hkj
  | @group i m j hkind hinner hrest ih ih' =>
    rcases Nat.eq_or_lt_of_le hik with rfl | hlt
    · exact Nat.le_refl _
    rcases Nat.lt_or_ge m k with hmk | hkm
    · have hclosed : s.Balanced i (m + 1) := .group hkind hinner .nil
      rw [← hclosed.parens]
      exact ih' hmk hkj
    · refine Nat.le_trans ?_ (ih hlt hkm)
      rw [parens_succ]
      rcases closer?_cases hkind with ⟨ho, -⟩ | ⟨ho, -⟩ | ⟨ho, -⟩ | ⟨ho, -⟩ <;> rw [ho]
      · exact Nat.le_succ _
      all_goals exact Nat.le_refl _

theorem body_of_le (h : i ≤ j) (hbody : (scopeAt s i).body = true) : (scopeAt s j).body = true := by
  induction h with
  | refl => exact hbody
  | @step j _ ih =>
    change ((scopeAt s j).body || _) = true
    rw [ih, Bool.true_or]

theorem block_succ_of_pos (h : 0 < (scopeAt s i).braces) :
    (scopeAt s (i + 1)).block = (scopeAt s i).block := by
  change Scope.blockAfter _ _ _ = _
  rw [Scope.blockAfter, if_neg]
  rintro ⟨-, -, -, hzero⟩
  omega

theorem block_of_ne (h : s.kind i ≠ .openBrace) : (scopeAt s (i + 1)).block = (scopeAt s i).block := by
  change Scope.blockAfter _ _ _ = _
  rw [Scope.blockAfter, if_neg]
  rintro ⟨hopen, -⟩
  exact h hopen

theorem Balanced.block (h : s.Balanced i j) (hpos : 0 < (scopeAt s i).braces) :
    (scopeAt s j).block = (scopeAt s i).block := by
  induction h with
  | nil => rfl
  | token hkind _ ih =>
    rw [ih, block_succ_of_pos hpos]
    rwa [braces_of_ne (ne_of_nesting hkind (by decide)) (ne_of_nesting hkind (by decide))]
  | @group i m j hkind hinner _ ih ih' =>
    have hclose := IsPair.balanced ⟨hkind, hinner⟩
    have hne : s.kind m ≠ .openBrace := by
      intro hopen
      rw [hopen] at hkind
      cases (nesting_of_closer? hkind).2
    have hopened : 0 < (scopeAt s (i + 1)).braces := by
      rcases closer?_cases hkind with ⟨ho, -⟩ | ⟨ho, -⟩ | ⟨ho, -⟩ | ⟨ho, -⟩
      · rwa [braces_of_ne (by simp [ho]) (by simp [ho])]
      · rwa [braces_of_ne (by simp [ho]) (by simp [ho])]
      · rw [braces_succ, ho, Scope.bracesAfter]
        split_ifs <;> omega
      · rwa [braces_of_ne (by simp [ho]) (by simp [ho])]
    rw [ih' (by rwa [hclose.braces]), block_of_ne hne, ih hopened, block_succ_of_pos hpos]

theorem inGrammar_iff (c : Scope) : c.inGrammar = true ↔ c.body = true ∧ c.lookahead.count = 0 ∧
    c.node.count = 0 ∧ (c.braces = 0 ∨ c.braces = 1 ∧ c.block = .grammar) := by
  simp [Scope.inGrammar, Reach.isInside_eq_false_iff, and_assoc]

theorem inGrammar_of_inLookahead {c : Scope} (h : c.inLookahead = true) : c.inGrammar = false := by
  rw [Scope.inGrammar, ← Scope.inLookahead, h]
  simp

theorem not_inLookahead_of_inGrammar {c : Scope} (h : c.inGrammar = true) : c.inLookahead = false := by
  rw [← Bool.not_eq_true]
  intro hlookahead
  rw [inGrammar_of_inLookahead hlookahead] at h
  cases h

/-- Balanced tokens of the body end in the grammar just if they start there. -/
theorem Balanced.inGrammar (h : s.Balanced i j) (hbody : (scopeAt s i).body = true) :
    (scopeAt s j).inGrammar = (scopeAt s i).inGrammar := by
  have hbody' := body_of_le h.le hbody
  rw [Bool.eq_iff_iff, inGrammar_iff, inGrammar_iff, h.lookahead, h.node, h.braces, hbody, hbody']
  by_cases hpos : 0 < (scopeAt s i).braces
  · rw [h.block hpos]
  · have hzero : (scopeAt s i).braces = 0 := by omega
    simp [hzero]

/-- The tokens that lead neither into the grammar nor out of it. -/
theorem inGrammar_succ (hkind : s.kind i ∈ [.bar, .colon, .less, .greater, .openBracket, .closeBracket]) :
    (scopeAt s (i + 1)).inGrammar = (scopeAt s i).inGrammar := by
  have hne : s.kind i ≠ .openParen ∧ s.kind i ≠ .closeParen ∧ s.kind i ≠ .openBrace ∧ s.kind i ≠ .closeBrace ∧
      s.kind i ≠ .keyword .parserEnd := by
    generalize s.kind i = kind at hkind
    revert kind
    decide
  obtain ⟨hparen, hparen', hbrace, hbrace', hend⟩ := hne
  have hlookahead : (scopeAt s (i + 1)).lookahead.count = (scopeAt s i).lookahead.count :=
    counts_lookaheadAfter.other _ _ _ hparen hparen'
  have hnode : (scopeAt s (i + 1)).node.count = (scopeAt s i).node.count :=
    counts_nodeAfter.other _ _ _ hparen hparen'
  have hbody : (scopeAt s (i + 1)).body = (scopeAt s i).body := by
    change ((scopeAt s i).body || _) = _
    rw [beq_false_of_ne hend, Bool.or_false]
  rw [Bool.eq_iff_iff, inGrammar_iff, inGrammar_iff, hlookahead, hnode, hbody, braces_of_ne hbrace hbrace',
    block_of_ne hbrace]

end TokenStream

end GrammarFormat
