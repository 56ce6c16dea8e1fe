import GrammarFormat.Proofs.ParenEnds
import GrammarFormat.Proofs.Partners
import Mathlib.Order.Bounds.Basic

/-!
# What the scans for partners find

In any stream, nested or not, a scan ahead from a bracket finds the first place at which as many brackets of the
family are closed as opened, if nothing stops the family before (`IsPartner`). Right behind the bracket one group is
open. From every place at which again only this one is open the scan finds the same end, so a colon and the `<` in
front of it agree on where their group ends (`partners_iff`).
-/

namespace GrammarFormat.TokenStream

open Layout

variable {s : TokenStream} {b : Brackets} {opening closing stopping : List TokenKind} {i j o c : Nat}

/-- From `i` to `j` there are as many tokens of the one kinds as of the others. -/
def EvensOut (s : TokenStream) (opening closing : List TokenKind) (i j : Nat) : Prop :=
  (s.kindsFrom i j).countP (opening.contains ·) = (s.kindsFrom i j).countP (closing.contains ·)

instance (s : TokenStream) (opening closing : List TokenKind) (i j : Nat) :
    Decidable (s.EvensOut opening closing i j) :=
  inferInstanceAs (Decidable (_ = _))

/-- The brackets from `o` on even out at `c` for the first time, and none of the tokens up to there stops them. -/
structure IsPartner (s : TokenStream) (opening closing stopping : List TokenKind) (o c : Nat) : Prop where
  least : IsLeast {k | o < k ∧ s.EvensOut opening closing o k} c
  clear : ∀ k, o ≤ k → k ≤ c → s.kind k ∉ stopping

theorem IsPartner.of_first (hoc : o < c) (heven : s.EvensOut opening closing o c)
    (hfirst : ∀ k < c, o < k → ¬ s.EvensOut opening closing o k)
    (hclear : ∀ k < c + 1, o ≤ k → s.kind k ∉ stopping) : s.IsPartner opening closing stopping o c := by
  refine ⟨⟨⟨hoc, heven⟩, ?_⟩, fun k hok hkc => hclear k (Nat.lt_succ_of_le hkc) hok⟩
  rintro k ⟨hok, hk⟩
  by_contra hck
  exact hfirst k (Nat.lt_of_not_le hck) hok hk

section

variable (hb : b.Consists opening closing stopping)

include hb

theorem weigh_add_countP (kind : TokenKind) :
    b.weigh kind + [kind].countP (closing.contains ·) = [kind].countP (opening.contains ·) := by
  have hdisjoint : kind ∈ opening → kind ∉ closing := fun ho hc =>
    (List.nodup_append.1 (List.nodup_append.1 hb.distinct).1).2.2 _ ho _ hc rfl
  rw [hb.weigh_eq, List.countP_singleton, List.countP_singleton]
  simp only [List.contains_iff_mem]
  split_ifs <;> first | rfl | tauto

theorem total_add_countP (i n : Nat) :
    s.total b.weigh (i + n) + ((List.range' i n).map s.kind).countP (closing.contains ·) =
      s.total b.weigh i + ((List.range' i n).map s.kind).countP (opening.contains ·) := by
  induction n with
  | zero => rfl
  | succ n ih =>
    have hstep : s.total b.weigh (i + (n + 1)) = s.total b.weigh (i + n) + b.weigh (s.kind (i + n)) := rfl
    have hlast := weigh_add_countP hb (s.kind (i + n))
    rw [List.range'_concat, List.map_append, List.map_singleton, Nat.one_mul, List.countP_append, List.countP_append]
    omega

theorem evensOut_iff (hij : i ≤ j + 1) :
    s.EvensOut opening closing i j ↔ s.total b.weigh (j + 1) = s.total b.weigh i := by
  have htotal := total_add_countP (s := s) hb i (j + 1 - i)
  rw [show i + (j + 1 - i) = j + 1 by omega] at htotal
  rw [EvensOut, kindsFrom]
  omega

/-- Behind a bracket that opens a group, the group ends at the partner of the bracket. -/
theorem endsAt_iff_isPartner (ho : s.kind o ∈ opening) :
    s.EndsAt b 0 (o + 1) c ↔ s.IsPartner opening closing stopping o c := by
  have hopen : b.weigh (s.kind o) = 1 := by rw [hb.weigh_eq, if_pos ho]
  have hstart : s.total b.weigh (o + 1) = s.total b.weigh o + 1 := by rw [total, hopen]
  have hstops : ∀ k, b.stops (s.kind k) = false ↔ s.kind k ∉ stopping := by
    intro k
    rw [Bool.eq_false_iff, ne_eq, hb.stops, List.contains_iff_mem]
  constructor
  · intro h
    have hle := h.le
    have hbalanced := h.balanced
    refine ⟨⟨⟨hle, (evensOut_iff hb (by omega)).2 (by omega)⟩, ?_⟩, fun k hok hkc => ?_⟩
    · rintro k ⟨hok, heven⟩
      by_contra hck
      have hfirst := h.first (k + 1) (by omega) (by omega)
      have heven := (evensOut_iff hb (by omega)).1 heven
      omega
    · rcases Nat.eq_or_lt_of_le hok with rfl | hok
      · exact (hstops o).1 (hb.not_stops _ (by omega))
      · exact (hstops k).1 (h.clear k hok (by omega))
  · rintro ⟨⟨⟨hoc, heven⟩, hleast⟩, hclear⟩
    have hbalanced := (evensOut_iff hb (by omega)).1 heven
    refine ⟨hoc, fun k hk hkc => (hstops k).2 (hclear k (by omega) (by omega)), by omega, fun k hk hkc => ?_⟩
    obtain ⟨j, rfl⟩ : ∃ j, k = j + 1 := ⟨k - 1, by omega⟩
    -- between the two brackets the group stays open, for it would even out where it is left
    have hpos : 1 ≤ s.total b.weigh (j + 1) - s.total b.weigh o := by
      refine one_le_of_falls (f := fun j => s.total b.weigh (j + 1) - s.total b.weigh o) (p := o) ?_ ?_ (by omega) ?_
      · omega
      · intro j _
        have hstep : s.total b.weigh (j + 1 + 1) = s.total b.weigh (j + 1) + b.weigh (s.kind (j + 1)) := rfl
        have hweigh : -1 ≤ b.weigh (s.kind (j + 1)) := by
          unfold Brackets.weigh
          split_ifs <;> omega
        omega
      · intro k hok hkj hzero
        have hck := hleast ⟨hok, (evensOut_iff hb (by omega)).2 (by omega)⟩
        omega
    omega

theorem lt_size_of_not_stops (hi : b.stops (s.kind i) = false) : i < s.size := by
  refine lt_size_of_kind fun hend => ?_
  rw [hend, hb.stops, List.contains_iff_mem.2 hb.endOfFile] at hi
  cases hi

/-- A scan that starts at a bracket finds its partner. -/
theorem partnerFrom_zero_iff (ho : s.kind o ∈ opening) :
    s.partnerFrom b (s.size - o) 0 o = some c ↔ s.IsPartner opening closing stopping o c := by
  have hopens : b.opens (s.kind o) = true := by
    rw [hb.opens, List.contains_iff_mem]
    exact ho
  have hsize := lt_size_of_not_stops hb (hb.not_stops (s.kind o) (by rw [hb.weigh_eq, if_pos ho]; decide))
  rw [show s.size - o = s.size - (o + 1) + 1 by omega, partnerFrom_opens _ _ hopens, partnerFrom_eq_some_iff hb,
    ← endsAt_iff_isPartner hb ho]
  refine ⟨And.right, fun h => ⟨?_, h⟩⟩
  have hclose := lt_size_of_not_stops hb (h.clear c h.le (Nat.lt_succ_self c))
  omega

end

/-- The end of the open groups is the same from each place at which as many of them are open. -/
theorem EndsAt.later {depth : Nat} (h : s.EndsAt b depth i c) (hij : i ≤ j) (hjc : j ≤ c)
    (heven : s.total b.weigh j = s.total b.weigh i) : s.EndsAt b depth j c := by
  refine ⟨hjc, h.clear.mono hij (Nat.le_refl _), ?_, fun k hjk hkc => ?_⟩
  · rw [heven]
    exact h.balanced
  · rw [heven]
    exact h.first k (Nat.le_trans hij hjk) hkc

theorem anglePartner?_inside {a : Nat} (ha : s.kind a = .less) (h : s.anglePartner? a = some c) (haj : a < j)
    (hjc : j < c) (hj : s.kind j ≠ .less) (heven : s.EvensOut [.less] [.greater] (a + 1) (j - 1)) :
    s.anglePartner? j = some c := by
  rw [anglePartner?, if_pos ha, partnerFrom_zero_iff consists_angles (by simp [ha]),
    ← endsAt_iff_isPartner consists_angles (by simp [ha])] at h
  rw [evensOut_iff consists_angles (by omega), show j - 1 + 1 = j by omega] at heven
  have hsize := lt_size_of_not_stops consists_angles (h.clear c h.le (Nat.lt_succ_self c))
  rw [anglePartner?, if_neg hj, partnerFrom_eq_some_iff consists_angles]
  exact ⟨by omega, h.later haj (Nat.le_of_lt hjc) heven⟩

/-- The scans find the partners of parentheses, square brackets and angle brackets. From a place in an angle group
outside of the groups in it, a scan finds the end of the group, and there ends what a colon at this place declares. -/
theorem partners_iff (s : TokenStream) :
    (∀ o c, s.kind o = .openParen ∨ s.kind o = .openBracket → (s.roundPartner? o = some c ↔
      s.IsPartner [.openParen, .openBracket] [.closeParen, .closeBracket] [.endOfFile] o c)) ∧
    (∀ a c, s.kind a = .less → (s.anglePartner? a = some c ↔
      s.IsPartner [.less] [.greater] [.openBrace, .closeBrace, .semicolon, .endOfFile] a c)) ∧
    ∀ a c j, s.kind a = .less → s.anglePartner? a = some c → a < j → j < c → s.kind j ≠ .less →
      s.kind j ≠ .greater → s.EvensOut [.less] [.greater] (a + 1) (j - 1) →
        s.anglePartner? j = some c ∧ ∀ scope, ∀ last ∈ declarationEnd? s j scope, last = c := by
  refine ⟨fun o c ho => ?_, fun a c ha => ?_, fun a c j ha h haj hjc hj _ heven => ?_⟩
  · exact partnerFrom_zero_iff consists_rounds (by simpa using ho)
  · rw [anglePartner?, if_pos ha]
    exact partnerFrom_zero_iff consists_angles (by simp [ha])
  · have hend := anglePartner?_inside ha h haj hjc hj heven
    refine ⟨hend, fun scope last hlast => ?_⟩
    rw [declarationEnd?, hend] at hlast
    split at hlast
    · exact (Option.some.inj (Option.mem_filter_iff.1 hlast).1).symm
    · cases hlast

/-- Groups that cross: a parenthesis closes what a square bracket opens, both in an angle group that goes on. -/
def crossedTokens : TokenStream :=
  .ofLines [(.openParen, "(", 1), (.openBracket, "[", 1), (.less, "<", 1), (.identifier, "A", 1), (.less, "<", 1),
    (.identifier, "B", 1), (.greater, ">", 1), (.colon, ":", 1), (.closeParen, ")", 1), (.bar, "|", 1),
    (.closeBracket, "]", 1), (.greater, ">", 1)]

theorem partners_iff_of_crossed :
    crossedTokens.IsPartner [.openParen, .openBracket] [.closeParen, .closeBracket] [.endOfFile] 1 8 ∧
      crossedTokens.roundPartner? 1 = some 8 ∧ crossedTokens.roundPartner? 0 = some 10 ∧
      crossedTokens.anglePartner? 2 = some 11 ∧ crossedTokens.anglePartner? 7 = some 11 := by
  obtain ⟨hround, hangle, hinside⟩ := partners_iff crossedTokens
  have hsquare : crossedTokens.IsPartner [.openParen, .openBracket] [.closeParen, .closeBracket] [.endOfFile] 1 8 :=
    .of_first (by decide) (by decide) (by decide) (by decide)
  have hparen := (hround 0 10 (.inl rfl)).2 (.of_first (by decide) (by decide) (by decide) (by decide))
  have hend := (hangle 2 11 rfl).2 (.of_first (by decide) (by decide) (by decide) (by decide))
  exact ⟨hsquare, (hround 1 8 (.inr rfl)).2 hsquare, hparen, hend,
    (hinside 2 11 7 rfl hend (by decide) (by decide) (by decide) (by decide) (by decide)).1⟩

end GrammarFormat.TokenStream
