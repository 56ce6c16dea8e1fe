import GrammarFormat.Proofs.Partners
import GrammarFormat.Proofs.Scopes

/-!
# Open angle groups

In nested tokens the stack of open angle groups is as high behind balanced tokens as in front of them, unless
an angle group without a partner is on the way (`Balanced.angles`). So where the stack is not empty, its top
is an angle group around the place, and in the grammar it is the innermost one (`exists_inAngle`).
-/

namespace GrammarFormat.TokenStream

open TokenKind

variable {s : TokenStream} {i j n o c : Nat}

/-! ### The stack -/

theorem angles_succ (s : TokenStream) (i : Nat) :
    (scopeAt s (i + 1)).angles = Scope.anglesAfter s i (scopeAt s i) := rfl

theorem angles_of_not_inGrammar (h : (scopeAt s i).inGrammar = false) :
    (scopeAt s (i + 1)).angles = (scopeAt s i).angles := by
  rw [angles_succ, Scope.anglesAfter, h]
  rfl

theorem angles_of_ne (hl : s.kind i ≠ .less) (hg : s.kind i ≠ .greater) :
    (scopeAt s (i + 1)).angles = (scopeAt s i).angles := by
  rw [angles_succ, Scope.anglesAfter]
  split
  · rfl
  · split
    · exact absurd ‹_› hl
    · exact absurd ‹_› hg
    · rfl

theorem angles_of_anglePartner?_none (h : s.kind i = .less) (hnone : s.anglePartner? i = none) :
    (scopeAt s (i + 1)).angles = (scopeAt s i).angles := by
  rw [angles_succ, Scope.anglesAfter, h, hnone]
  split <;> rfl

theorem angles_of_anglePartner?_some {last : Nat} (h : s.kind i = .less)
    (hin : (scopeAt s i).inGrammar = true) (hsome : s.anglePartner? i = some last) :
    (scopeAt s (i + 1)).angles =
      ⟨i, s.isDeclaration i last, (scopeAt s i).parens⟩ :: (scopeAt s i).angles := by
  rw [angles_succ, Scope.anglesAfter, h, hin, hsome]
  rfl

theorem angles_of_nil (h : s.kind i = .greater) (hnil : (scopeAt s i).angles = []) :
    (scopeAt s (i + 1)).angles = [] := by
  rw [angles_succ, Scope.anglesAfter, h, hnil]
  split <;> rfl

theorem angles_of_cons {top : AngleGroup} {rest : List AngleGroup} (h : s.kind i = .greater)
    (hin : (scopeAt s i).inGrammar = true) (hcons : (scopeAt s i).angles = top :: rest)
    (hparens : top.parens = (scopeAt s i).parens) : (scopeAt s (i + 1)).angles = rest := by
  rw [angles_succ, Scope.anglesAfter, h, hin, hcons]
  exact if_pos hparens

theorem body_of_inGrammar (h : (scopeAt s i).inGrammar = true) : (scopeAt s i).body = true :=
  ((inGrammar_iff _).1 h).1

theorem body_of_angles (h : (scopeAt s i).angles ≠ []) : (scopeAt s i).body = true := by
  induction i with
  | zero => exact absurd rfl h
  | succ i ih =>
    refine body_of_le (Nat.le_succ i) ?_
    cases hin : (scopeAt s i).inGrammar with
    | true => exact body_of_inGrammar hin
    | false => exact ih (by rwa [angles_of_not_inGrammar hin] at h)

/-- Outside of the grammar, and without a partner that is found, an angle bracket does nothing. -/
theorem IsPair.angles_succ_of_less (h : s.IsPair o c) (ho : s.kind o = .less)
    (hpushed : ¬ ((scopeAt s o).inGrammar = true ∧ s.Clear TokenStream.angles (o + 1) c)) :
    (scopeAt s (o + 1)).angles = (scopeAt s o).angles := by
  cases hin : (scopeAt s o).inGrammar with
  | false => exact angles_of_not_inGrammar hin
  | true =>
    refine angles_of_anglePartner?_none ho (h.anglePartner?_eq_none ho fun hclear => ?_)
    exact hpushed ⟨hin, hclear⟩

/-- An angle group leaves the stack as it was, if the tokens in it do. -/
theorem IsPair.angles_of_less (h : s.IsPair o c) (ho : s.kind o = .less)
    (hinner : (scopeAt s (o + 1)).angles = [] ∨ s.Clear angles (o + 1) c →
      (scopeAt s c).angles = (scopeAt s (o + 1)).angles)
    (hangles : (scopeAt s o).angles = [] ∨ s.Clear angles (o + 1) c) :
    (scopeAt s (c + 1)).angles = (scopeAt s o).angles := by
  have hc := h.kind_greater ho
  have hsucc : (scopeAt s (o + 1)).inGrammar = (scopeAt s o).inGrammar := inGrammar_succ (by simp [ho])
  by_cases hpushed : (scopeAt s o).inGrammar = true ∧ s.Clear TokenStream.angles (o + 1) c
  · -- it is on the stack up to its end
    obtain ⟨hin, hclear⟩ := hpushed
    have hpush := angles_of_anglePartner?_some ho hin (h.anglePartner? ho hclear)
    have hbody : (scopeAt s (o + 1)).body = true := body_of_le (Nat.le_succ o) (body_of_inGrammar hin)
    have hin' : (scopeAt s c).inGrammar = true := by rw [h.inner.inGrammar hbody, hsucc, hin]
    have hparens : (scopeAt s o).parens = (scopeAt s c).parens := by
      rw [h.inner.parens, parens_of_ne (by simp [ho]) (by simp [ho])]
    exact angles_of_cons hc hin' ((hinner (.inr hclear)).trans hpush) hparens
  · have hkeep := h.angles_succ_of_less ho hpushed
    have hclose := (hinner (by rwa [hkeep])).trans hkeep
    by_cases hnil : (scopeAt s o).angles = []
    · rw [hnil] at hclose ⊢
      exact angles_of_nil hc hclose
    · have hbody := body_of_le (Nat.le_succ o) (body_of_angles hnil)
      have hin : (scopeAt s c).inGrammar = false := by
        rw [h.inner.inGrammar hbody, hsucc]
        by_contra hin
        exact hpushed ⟨by simpa using hin, hangles.resolve_left hnil⟩
      rw [angles_of_not_inGrammar hin, hclose]

/-- Balanced tokens keep the stack if it is empty, or if nothing among them ends angle groups. -/
theorem Balanced.angles (h : s.Balanced i j)
    (hangles : (scopeAt s i).angles = [] ∨ s.Clear TokenStream.angles i j) :
    (scopeAt s j).angles = (scopeAt s i).angles := by
  induction h with
  | nil => rfl
  | @token i j hkind hrest ih =>
    have hstep : (scopeAt s (i + 1)).angles = (scopeAt s i).angles :=
      angles_of_ne (ne_of_nesting hkind (by decide)) (ne_of_nesting hkind (by decide))
    rw [ih, hstep]
    rw [hstep]
    exact hangles.imp_right fun hclear => hclear.mono (Nat.le_succ i) (Nat.le_refl j)
  | @group i m j hkind hinner hrest ih ih' =>
    have hle := hinner.le
    have hle' := hrest.le
    have hclosed : (scopeAt s (m + 1)).angles = (scopeAt s i).angles := by
      have hangles' : (scopeAt s i).angles = [] ∨ s.Clear TokenStream.angles (i + 1) m :=
        hangles.imp_right fun hclear => hclear.mono (by omega) (by omega)
      rcases closer?_cases hkind with ⟨ho, hc⟩ | ⟨ho, hc⟩ | ⟨ho, hc⟩ | ⟨ho, hc⟩
      case inr.inr.inr => exact IsPair.angles_of_less ⟨hkind, hinner⟩ ho ih hangles'
      all_goals
        have hopen : (scopeAt s (i + 1)).angles = (scopeAt s i).angles :=
          angles_of_ne (by simp [ho]) (by simp [ho])
        rw [angles_of_ne (by simp [hc]) (by simp [hc]), ih (by rwa [hopen]), hopen]
    rw [ih', hclosed]
    rw [hclosed]
    exact hangles.imp_right fun hclear => hclear.mono (by omega) (Nat.le_refl j)

/-! ### The top of the stack -/

/-- The place in front of `i` is in an angle group that has the top of the stack. In the grammar, no other
angle group inside of it is around the place. -/
structure InAngle (s : TokenStream) (i first last : Nat) : Prop where
  pair : s.IsPair first last
  less : s.kind first = .less
  lt : first < i
  le : i ≤ last
  clear : s.Clear angles (first + 1) last
  top : (scopeAt s i).innermost? = some ⟨first, s.isDeclaration first last, (scopeAt s first).parens⟩
  innermost : ∀ f l, s.IsPair f l → s.kind f = .less → first < f → f < i → i ≤ l →
    (scopeAt s i).inGrammar = false

namespace InAngle

variable {first last : Nat} {kind : TokenKind}

theorem body (h : s.InAngle i first last) : (scopeAt s i).body = true := by
  refine body_of_angles fun hnil => ?_
  have htop := h.top
  rw [Scope.innermost?, hnil] at htop
  cases htop

theorem lt_last (h : s.InAngle i first last) (hi : (s.kind i).closer? = some kind) : i < last := by
  refine Nat.lt_of_le_of_ne h.le ?_
  rintro rfl
  rw [h.pair.kind_greater h.less] at hi
  cases hi

theorem kind_ne_openBrace (h : s.InAngle i first last) (hi : (s.kind i).closer? = some kind) :
    s.kind i ≠ .openBrace := by
  intro hbrace
  have hstops := h.clear i h.lt (h.lt_last hi)
  rw [hbrace] at hstops
  cases hstops

end InAngle

/-- A group that is not one of braces leads out of the grammar, never into it. -/
theorem inGrammar_of_closer? {kind : TokenKind} (h : (s.kind o).closer? = some kind)
    (hbrace : s.kind o ≠ .openBrace) (hbody : (scopeAt s o).body = true)
    (hin : (scopeAt s (o + 1)).inGrammar = true) : (scopeAt s o).inGrammar = true := by
  have hclose : s.kind o ≠ .closeBrace := by
    intro hclose
    rw [hclose] at h
    cases h
  obtain ⟨-, hlookahead, hnode, hbraces⟩ := (inGrammar_iff _).1 hin
  rw [braces_of_ne hbrace hclose, block_of_ne hbrace] at hbraces
  have hlookahead' := count_le_of_closer? counts_lookaheadAfter (fun i => (scopeAt s i).lookahead)
    (fun _ => rfl) h
  have hnode' := count_le_of_closer? counts_nodeAfter (fun i => (scopeAt s i).node) (fun _ => rfl) h
  exact (inGrammar_iff _).2 ⟨hbody, by omega, by omega, hbraces⟩

theorem exists_inAngle (hnested : s.Balanced 0 n) (hi : i ≤ n) :
    (scopeAt s i).angles = [] ∨ ∃ first last, s.InAngle i first last := by
  induction i using Nat.strongRecOn with
  | _ i ih =>
    rcases hnested.enclosing (Nat.zero_le i) hi with hfront | ⟨o, c, -, hcn, hpair, hoi, hic, hfront⟩
    · exact .inl (hfront.angles (.inl rfl))
    -- a group that starts behind `o` does not reach to `i`
    have hdeep : ∀ f l, s.IsPair f l → o < f → f < i → ¬ i ≤ l := by
      intro f l hfl hof hfi hil
      have hdepth := hfront.depth_eq
      have hle := hfront.depth_le hof (by omega)
      have hin := hfl.depth_le hfi hil
      omega
    by_cases hpushed : s.kind o = .less ∧ (scopeAt s o).inGrammar = true ∧ s.Clear angles (o + 1) c
    · obtain ⟨ho, hin, hclear⟩ := hpushed
      have hpush := angles_of_anglePartner?_some ho hin (hpair.anglePartner? ho hclear)
      have hkeep := hfront.angles (.inr (hclear.mono (Nat.le_refl _) hic))
      refine .inr ⟨o, c, hpair, ho, hoi, hic, hclear, ?_, fun f l hfl _ hof hfi hil => ?_⟩
      · rw [Scope.innermost?, hkeep, hpush]
        rfl
      · exact absurd hil (hdeep f l hfl hof hfi)
    · have hopen : (scopeAt s (o + 1)).angles = (scopeAt s o).angles := by
        by_cases ho : s.kind o = .less
        · exact hpair.angles_succ_of_less ho fun hboth => hpushed ⟨ho, hboth⟩
        · refine angles_of_ne ho fun hgreater => ?_
          have hcloser := hpair.closer
          rw [hgreater] at hcloser
          cases hcloser
      rcases ih o hoi (by omega) with hnil | ⟨first, last, h⟩
      · exact .inl (by rw [hfront.angles (.inl (hopen.trans hnil)), hopen, hnil])
      have hlt := h.lt
      have hlast : c < last := h.pair.close_lt_of_open_lt hpair hlt (h.lt_last hpair.closer)
      have hclear : s.Clear angles (o + 1) c := h.clear.mono (by omega) (by omega)
      have hkeep := (hfront.angles (.inr (hclear.mono (Nat.le_refl _) hic))).trans hopen
      refine .inr ⟨first, last, h.pair, h.less, by omega, by omega, h.clear, ?_,
        fun f l hfl hless hf hfi hil => ?_⟩
      · rw [Scope.innermost?, hkeep]
        exact h.top
      · by_contra hin
        have hin : (scopeAt s o).inGrammar = true := by
          rw [hfront.inGrammar (body_of_le (Nat.le_succ o) h.body)] at hin
          rw [Bool.not_eq_false] at hin
          exact inGrammar_of_closer? hpair.closer (h.kind_ne_openBrace hpair.closer) h.body hin
        rcases Nat.lt_trichotomy f o with hfo | rfl | hof
        · rw [h.innermost f l hfl hless hf hfo (by omega)] at hin
          cases hin
        · exact hpushed ⟨hless, hin, hclear⟩
        · exact hdeep f l hfl hof hfi hil

end GrammarFormat.TokenStream
