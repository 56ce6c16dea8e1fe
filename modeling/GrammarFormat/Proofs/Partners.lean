import GrammarFormat.Proofs.Nesting
import GrammarFormat.Token.Bracket

/-!
# Looking for partners

In any stream a scan ahead finds the place where the groups that are open have been closed
(`partnerFrom_eq_some_iff`). In nested tokens these are the partners: that of a parenthesis or square bracket is always
found (`IsPair.roundPartner?`), that of an angle bracket if no brace and no semicolon is in its group
(`IsPair.anglePartner?`). A group that declares a regular expression has a colon outside of all groups in it
(`Balanced.exists_colon`).
-/

namespace GrammarFormat.TokenStream

open TokenKind

variable {s : TokenStream} {b : Brackets} {i j k o c : Nat}

/-! ### Scans over balanced tokens -/

/-- A family that knows of each bracket and of its partner the same. -/
structure Brackets.Fair (b : Brackets) : Prop where
  token : ∀ kind : TokenKind, kind.nesting = 0 → b.opens kind = false ∧ b.closes kind = false
  group : ∀ kind other : TokenKind, kind.closer? = some other →
    b.opens other = false ∧ b.closes other = b.opens kind ∧ b.closes kind = false ∧
      b.stops other = b.stops kind
  opens : ∀ kind : TokenKind, b.opens kind = true → b.stops kind = false

theorem fair_rounds : rounds.Fair where
  token kind h := by cases kind <;> first | exact ⟨rfl, rfl⟩ | cases h
  group kind other h := by
    rcases closer?_cases h with ⟨rfl, rfl⟩ | ⟨rfl, rfl⟩ | ⟨rfl, rfl⟩ | ⟨rfl, rfl⟩ <;> decide
  opens kind h := by cases kind <;> first | rfl | cases h

theorem fair_angles : angles.Fair where
  token kind h := by cases kind <;> first | exact ⟨rfl, rfl⟩ | cases h
  group kind other h := by
    rcases closer?_cases h with ⟨rfl, rfl⟩ | ⟨rfl, rfl⟩ | ⟨rfl, rfl⟩ | ⟨rfl, rfl⟩ <;> decide
  opens kind h := by cases kind <;> first | rfl | cases h

/-- No group of the family ends between `i` and `j`, that at `j` left out. -/
def Clear (s : TokenStream) (b : Brackets) (i j : Nat) : Prop :=
  ∀ k, i ≤ k → k < j → b.stops (s.kind k) = false

theorem Clear.mono (h : s.Clear b i j) {i' j' : Nat} (hi : i ≤ i') (hj : j' ≤ j) : s.Clear b i' j' :=
  fun k hk hkj => h k (by omega) (by omega)

theorem Clear.cons (hi : b.stops (s.kind i) = false) (h : s.Clear b (i + 1) j) : s.Clear b i j := by
  intro k hk hkj
  by_cases hki : k = i
  · rw [hki, hi]
  · exact h k (by omega) hkj

theorem Clear.append (h : s.Clear b i k) (h' : s.Clear b k j) : s.Clear b i j := by
  intro m hm hmj
  rcases Nat.lt_or_ge m k with hmk | hkm
  · exact h m hm hmk
  · exact h' m hkm hmj

theorem partnerFrom_opens (left depth : Nat) (h : b.opens (s.kind i) = true) :
    s.partnerFrom b (left + 1) depth i = s.partnerFrom b left (depth + 1) (i + 1) := by
  rcases depth with _ | _ | depth <;> rw [partnerFrom, if_pos h]

theorem partnerFrom_closes (left depth : Nat) (ho : b.opens (s.kind i) = false)
    (h : b.closes (s.kind i) = true) :
    s.partnerFrom b (left + 1) (depth + 2) i = s.partnerFrom b left (depth + 1) (i + 1) := by
  rw [partnerFrom, ho, h]
  rfl

theorem partnerFrom_found (left : Nat) (ho : b.opens (s.kind i) = false) (h : b.closes (s.kind i) = true) :
    s.partnerFrom b (left + 1) 1 i = some i := by
  rw [partnerFrom, ho, h]
  rfl

theorem partnerFrom_other (left depth : Nat) (ho : b.opens (s.kind i) = false)
    (hc : b.closes (s.kind i) = false) (h : b.stops (s.kind i) = false) :
    s.partnerFrom b (left + 1) depth i = s.partnerFrom b left depth (i + 1) := by
  rcases depth with _ | _ | depth <;> rw [partnerFrom, ho, hc, h] <;> rfl

theorem partnerFrom_stops (left depth : Nat) (ho : b.opens (s.kind i) = false)
    (hc : b.closes (s.kind i) = false) (h : b.stops (s.kind i) = true) :
    s.partnerFrom b (left + 1) depth i = none := by
  rcases depth with _ | _ | depth <;> rw [partnerFrom, ho, hc, h] <;> rfl

/-- A scan passes balanced tokens. -/
theorem Balanced.partnerFrom (hb : b.Fair) (h : s.Balanced i j) (hclear : s.Clear b i j) (left depth : Nat) :
    s.partnerFrom b (left + (j - i)) (depth + 1) i = s.partnerFrom b left (depth + 1) j := by
  induction h generalizing left depth with
  | nil => rw [Nat.sub_self, Nat.add_zero]
  | @token i j hkind hrest ih =>
    have hle := hrest.le
    obtain ⟨ho, hc⟩ := hb.token _ hkind
    rw [show left + (j - i) = left + (j - (i + 1)) + 1 by omega,
      partnerFrom_other _ _ ho hc (hclear i (Nat.le_refl i) hle)]
    exact ih (hclear.mono (Nat.le_succ i) (Nat.le_refl j)) left depth
  | @group i m j hkind hinner hrest ih ih' =>
    have hle := hinner.le
    have hle' := hrest.le
    obtain ⟨ho, hc, hi, -⟩ := hb.group _ _ hkind
    have hrest' := ih' (hclear.mono (by omega) (Nat.le_refl j)) left depth
    have hinner' := ih (hclear.mono (by omega) (by omega)) (left + (j - (m + 1)) + 1)
    rw [show left + (j - i) = left + (j - (m + 1)) + 1 + (m - (i + 1)) + 1 by omega]
    cases hopens : b.opens (s.kind i) with
    | true =>
      rw [partnerFrom_opens _ _ hopens, hinner', partnerFrom_closes _ _ ho (hc.trans hopens), hrest']
    | false =>
      rw [partnerFrom_other _ _ hopens hi (hclear i (Nat.le_refl i) (by omega)), hinner',
        partnerFrom_other _ _ ho (hc.trans hopens) (hclear m (by omega) (by omega)), hrest']

/-- A scan does not get over a token that stops it. -/
theorem Balanced.partnerFrom_none (hb : b.Fair) (h : s.Balanced i j) (hclear : ¬ s.Clear b i j)
    (left depth : Nat) : s.partnerFrom b (left + (j - i)) (depth + 1) i = none := by
  induction h generalizing left depth with
  | nil => exact absurd (fun k hk hk' => by omega) hclear
  | @token i j hkind hrest ih =>
    have hle := hrest.le
    obtain ⟨ho, hc⟩ := hb.token _ hkind
    rw [show left + (j - i) = left + (j - (i + 1)) + 1 by omega]
    cases hstops : b.stops (s.kind i) with
    | true => rw [partnerFrom_stops _ _ ho hc hstops]
    | false =>
      rw [partnerFrom_other _ _ ho hc hstops]
      exact ih (fun hrest => hclear (.cons hstops hrest)) left depth
  | @group i m j hkind hinner hrest ih ih' =>
    have hle := hinner.le
    have hle' := hrest.le
    obtain ⟨ho, hc, hi, hstop⟩ := hb.group _ _ hkind
    rw [show left + (j - i) = left + (j - (m + 1)) + 1 + (m - (i + 1)) + 1 by omega]
    cases hstops : b.stops (s.kind i) with
    | true =>
      have hopens : b.opens (s.kind i) = false := by
        by_contra hopens
        rw [hb.opens _ (by simpa using hopens)] at hstops
        cases hstops
      rw [partnerFrom_stops _ _ hopens hi hstops]
    | false =>
      -- what stops the scan is in the group or behind it
      have hsplit : ¬ s.Clear b (i + 1) m ∨ s.Clear b (i + 1) m ∧ ¬ s.Clear b (m + 1) j := by
        by_cases hin : s.Clear b (i + 1) m
        · refine .inr ⟨hin, fun hbehind => hclear ?_⟩
          exact .cons hstops (hin.append (.cons (hstop.trans hstops) hbehind))
        · exact .inl hin
      cases hopens : b.opens (s.kind i) with
      | true =>
        rw [partnerFrom_opens _ _ hopens]
        rcases hsplit with hin | ⟨hin, hbehind⟩
        · exact ih hin _ _
        · rw [hinner.partnerFrom hb hin, partnerFrom_closes _ _ ho (hc.trans hopens), ih' hbehind]
      | false =>
        rw [partnerFrom_other _ _ hopens hi hstops]
        rcases hsplit with hin | ⟨hin, hbehind⟩
        · exact ih hin _ _
        · rw [hinner.partnerFrom hb hin, partnerFrom_other _ _ ho (hc.trans hopens) (hstop.trans hstops),
            ih' hbehind]

/-! ### Where a scan can end -/

theorem closes_of_partnerFrom {left depth : Nat} (h : s.partnerFrom b left depth i = some c) :
    b.closes (s.kind c) = true := by
  induction left generalizing depth i with
  | zero => cases h
  | succ left ih =>
    unfold partnerFrom at h
    split_ifs at h with hopens hcloses
    · exact ih h
    · split at h
      · cases h
      · cases h
        exact hcloses
      · exact ih h
    · exact ih h

/-- A scan that is stopped by end marks finds nothing behind one. -/
theorem partnerFrom_bounds (hb : b.opens .endOfFile = false ∧ b.closes .endOfFile = false ∧ b.stops .endOfFile = true)
    {e left depth : Nat} (hend : s.kind e = .endOfFile) (hi : i ≤ e) (h : s.partnerFrom b left depth i = some c) :
    i ≤ c ∧ c < e := by
  induction left generalizing depth i with
  | zero => cases h
  | succ left ih =>
    rcases Nat.eq_or_lt_of_le hi with rfl | hlt
    · rw [partnerFrom_stops _ _ (by rw [hend, hb.1]) (by rw [hend, hb.2.1]) (by rw [hend, hb.2.2])] at h
      cases h
    · have hnext : ∀ depth, s.partnerFrom b left depth (i + 1) = some c → i ≤ c ∧ c < e := by
        intro depth h
        obtain ⟨hle, hc⟩ := ih hlt h
        exact ⟨Nat.le_of_succ_le hle, hc⟩
      unfold partnerFrom at h
      split_ifs at h
      · exact hnext _ h
      · split at h
        · cases h
        · cases h
          exact ⟨Nat.le_refl _, hlt⟩
        · exact hnext _ h
      · exact hnext _ h

/-! ### Open groups of a family -/

/-- What a token adds to the open groups of the family. -/
def Brackets.weigh (b : Brackets) (kind : TokenKind) : Int :=
  if b.opens kind then 1 else if b.closes kind then -1 else 0

theorem Brackets.Fair.cancels (hb : b.Fair) : Cancels b.weigh where
  token kind h := by
    obtain ⟨ho, hc⟩ := hb.token kind h
    simp [weigh, ho, hc]
  group kind other h := by
    obtain ⟨ho, hc, hkind, -⟩ := hb.group kind other h
    cases hopens : b.opens kind <;> simp [weigh, ho, hc, hkind, hopens]

/-- The kinds of a family, which ends at the end of the file at the latest. -/
structure Brackets.Consists (b : Brackets) (opening closing stopping : List TokenKind) : Prop where
  opens : ∀ kind, b.opens kind = opening.contains kind
  closes : ∀ kind, b.closes kind = closing.contains kind
  stops : ∀ kind, b.stops kind = stopping.contains kind
  distinct : (opening ++ closing ++ stopping).Nodup
  endOfFile : .endOfFile ∈ stopping

theorem consists_rounds :
    rounds.Consists [.openParen, .openBracket] [.closeParen, .closeBracket] [.endOfFile] where
  opens kind := by cases kind <;> rfl
  closes kind := by cases kind <;> rfl
  stops kind := by cases kind <;> rfl
  distinct := by decide
  endOfFile := by decide

theorem consists_angles :
    angles.Consists [.less] [.greater] [.openBrace, .closeBrace, .semicolon, .endOfFile] where
  opens kind := by cases kind <;> rfl
  closes kind := by cases kind <;> rfl
  stops kind := by cases kind <;> rfl
  distinct := by decide
  endOfFile := by decide

theorem Brackets.Consists.weigh_eq {opening closing stopping : List TokenKind}
    (h : b.Consists opening closing stopping) (kind : TokenKind) :
    b.weigh kind = if kind ∈ opening then 1 else if kind ∈ closing then -1 else 0 := by
  rw [weigh, h.opens, h.closes]
  simp only [List.contains_iff_mem]

theorem Brackets.Consists.not_stops {opening closing stopping : List TokenKind}
    (h : b.Consists opening closing stopping) (kind : TokenKind) (hkind : b.weigh kind ≠ 0) :
    b.stops kind = false := by
  rw [Bool.eq_false_iff, ne_eq, h.stops, List.contains_iff_mem]
  intro hstops
  have hbracket : kind ∉ opening ++ closing := fun hmem =>
    (List.nodup_append.1 h.distinct).2.2 _ hmem _ hstops rfl
  rw [List.mem_append, not_or] at hbracket
  rw [h.weigh_eq, if_neg hbracket.1, if_neg hbracket.2] at hkind
  exact hkind rfl

/-! ### Where open groups end -/

/-- With `depth + 1` groups of the family open in front of `i`, the token at `c` ends the last of them. -/
structure EndsAt (s : TokenStream) (b : Brackets) (depth i c : Nat) : Prop where
  le : i ≤ c
  clear : s.Clear b i (c + 1)
  balanced : s.total b.weigh (c + 1) + (depth + 1) = s.total b.weigh i
  first : ∀ k, i ≤ k → k ≤ c → s.total b.weigh i ≤ s.total b.weigh k + depth

/-- A token that does not end the last group leaves it open. -/
theorem endsAt_succ_iff (depth depth' : Nat) (hstops : b.stops (s.kind i) = false)
    (hdepth : (depth' : Int) = depth + b.weigh (s.kind i)) :
    s.EndsAt b depth i c ↔ s.EndsAt b depth' (i + 1) c := by
  have hstep : s.total b.weigh (i + 1) = s.total b.weigh i + b.weigh (s.kind i) := rfl
  constructor
  · intro h
    have hic : i < c := by
      refine Nat.lt_of_le_of_ne h.le fun hic => ?_
      have hbalanced := h.balanced
      rw [← hic] at hbalanced
      omega
    have hbalanced := h.balanced
    refine ⟨hic, h.clear.mono (Nat.le_succ i) (Nat.le_refl _), by omega, fun k hk hkc => ?_⟩
    have hfirst := h.first k (by omega) hkc
    omega
  · intro h
    have hle := h.le
    have hbalanced := h.balanced
    refine ⟨by omega, .cons hstops h.clear, by omega, fun k hk hkc => ?_⟩
    rcases Nat.eq_or_lt_of_le hk with rfl | hik
    · omega
    · have hfirst := h.first k hik hkc
      omega

/-- A scan finds the end of the groups that are open. -/
theorem partnerFrom_eq_some_iff {opening closing stopping : List TokenKind}
    (hb : b.Consists opening closing stopping) {left depth : Nat} :
    s.partnerFrom b left (depth + 1) i = some c ↔ c < i + left ∧ s.EndsAt b depth i c := by
  induction left generalizing depth i with
  | zero =>
    constructor
    · rintro ⟨⟩
    · rintro ⟨hlt, h⟩
      have hle := h.le
      omega
  | succ left ih =>
    have hlt : c < i + 1 + left ↔ c < i + (left + 1) := by omega
    rcases Bool.eq_false_or_eq_true (b.opens (s.kind i)) with hopens | hopens
    · have hweigh : b.weigh (s.kind i) = 1 := if_pos hopens
      have hstops := hb.not_stops (s.kind i) (by omega)
      rw [partnerFrom_opens _ _ hopens, ih, hlt, endsAt_succ_iff depth (depth + 1) hstops (by omega)]
    rcases Bool.eq_false_or_eq_true (b.closes (s.kind i)) with hcloses | hcloses
    · have hweigh : b.weigh (s.kind i) = -1 := by rw [Brackets.weigh, hopens, hcloses]; rfl
      have hstops := hb.not_stops (s.kind i) (by omega)
      rcases depth with _ | depth
      · rw [partnerFrom_found _ hopens hcloses, Option.some_inj]
        have hstep : s.total b.weigh (i + 1) = s.total b.weigh i + b.weigh (s.kind i) := rfl
        constructor
        · rintro rfl
          refine ⟨by omega, Nat.le_refl i, .cons hstops fun k hk hki => by omega, by omega, fun k hk hki => ?_⟩
          obtain rfl : k = i := by omega
          omega
        · rintro ⟨-, h⟩
          by_contra hne
          have hle := h.le
          have hfirst := h.first (i + 1) (Nat.le_succ i) (by omega)
          omega
      · rw [partnerFrom_closes _ _ hopens hcloses, ih, hlt,
          endsAt_succ_iff (depth + 1) depth hstops (by omega)]
    have hweigh : b.weigh (s.kind i) = 0 := by rw [Brackets.weigh, hopens, hcloses]; rfl
    rcases Bool.eq_false_or_eq_true (b.stops (s.kind i)) with hstops | hstops
    · rw [partnerFrom_stops _ _ hopens hcloses hstops]
      constructor
      · rintro ⟨⟩
      · rintro ⟨-, h⟩
        have hclear := h.clear i (Nat.le_refl i) (Nat.lt_succ_of_le h.le)
        rw [hstops] at hclear
        cases hclear
    · rw [partnerFrom_other _ _ hopens hcloses hstops, ih, hlt, endsAt_succ_iff depth depth hstops (by omega)]

/-! ### Partners -/

theorem lt_size_of_kind (hc : s.kind c ≠ .endOfFile) : c < s.size := by
  by_contra hsize
  refine hc ?_
  rw [kind, get?, Array.getElem?_eq_none (by rw [size] at hsize; omega)]

theorem kind_ne_endOfFile_of_lt (hend : ∀ i, i + 1 < s.size → s.kind i ≠ .endOfFile) (hk : k < c)
    (hc : s.kind c ≠ .endOfFile) : s.kind k ≠ .endOfFile := by
  have hsize := lt_size_of_kind hc
  exact hend k (by omega)

theorem IsPair.kind_ne_endOfFile (h : s.IsPair o c) : s.kind c ≠ .endOfFile := by
  intro hc
  have := (nesting_of_closer? h.closer).2
  rw [hc] at this
  cases this

theorem IsPair.roundPartner? (hend : ∀ i, i + 1 < s.size → s.kind i ≠ .endOfFile) (h : s.IsPair o c)
    (ho : (s.kind o).isOpening = true) : s.roundPartner? o = some c := by
  have hsize := lt_size_of_kind h.kind_ne_endOfFile
  have hlt := h.lt
  obtain ⟨hc, hcloses, -⟩ := fair_rounds.group _ _ h.closer
  have hclear : s.Clear rounds (o + 1) c := by
    intro k _ hk
    exact beq_false_of_ne (kind_ne_endOfFile_of_lt hend hk h.kind_ne_endOfFile)
  rw [TokenStream.roundPartner?, show s.size - o = s.size - c + (c - (o + 1)) + 1 by omega,
    partnerFrom_opens _ _ ho, h.inner.partnerFrom fair_rounds hclear,
    show s.size - c = s.size - c - 1 + 1 by omega, partnerFrom_found _ hc (hcloses.trans ho)]

theorem IsPair.anglePartner? (h : s.IsPair o c) (ho : s.kind o = .less) (hclear : s.Clear angles (o + 1) c) :
    s.anglePartner? o = some c := by
  have hsize := lt_size_of_kind h.kind_ne_endOfFile
  have hlt := h.lt
  have hopens : angles.opens (s.kind o) = true := by rw [ho]; rfl
  obtain ⟨hc, hcloses, -⟩ := fair_angles.group _ _ h.closer
  rw [TokenStream.anglePartner?, if_pos ho, show s.size - o = s.size - c + (c - (o + 1)) + 1 by omega,
    partnerFrom_opens _ _ hopens, h.inner.partnerFrom fair_angles hclear,
    show s.size - c = s.size - c - 1 + 1 by omega, partnerFrom_found _ hc (hcloses.trans hopens)]

theorem IsPair.anglePartner?_eq_none (h : s.IsPair o c) (ho : s.kind o = .less)
    (hclear : ¬ s.Clear angles (o + 1) c) : s.anglePartner? o = none := by
  have hsize := lt_size_of_kind h.kind_ne_endOfFile
  have hlt := h.lt
  have hopens : angles.opens (s.kind o) = true := by rw [ho]; rfl
  rw [TokenStream.anglePartner?, if_pos ho, show s.size - o = s.size - c + (c - (o + 1)) + 1 by omega,
    partnerFrom_opens _ _ hopens, h.inner.partnerFrom_none fair_angles hclear]

/-- The end of an angle group is found from each place in it outside of the groups that it holds. -/
theorem Balanced.anglePartner? (h : s.Balanced i c) (hi : s.kind i ≠ .less) (hc : s.kind c = .greater)
    (hclear : s.Clear angles i c) : s.anglePartner? i = some c := by
  have hsize : c < s.size := lt_size_of_kind (by simp [hc])
  have hle := h.le
  rw [TokenStream.anglePartner?, if_neg hi, show s.size - i = s.size - c + (c - i) by omega,
    h.partnerFrom fair_angles hclear, show s.size - c = s.size - c - 1 + 1 by omega,
    partnerFrom_found _ (by rw [hc]; rfl) (by rw [hc]; rfl)]

/-- From inside of an angle group no scan gets over its end. -/
theorem IsPair.anglePartner?_le (h : s.IsPair o c) (ho : s.kind o = .less) (hoi : o < i) (hic : i ≤ c)
    (hi : s.kind i ≠ .less) (hk : s.anglePartner? i = some k) : k ≤ c := by
  by_contra hck
  rw [TokenStream.anglePartner?, if_neg hi] at hk
  have hscan := ((partnerFrom_eq_some_iff consists_angles).1 hk).2.first (c + 1) (by omega) (by omega)
  have hin := h.inner.total_le fair_angles.cancels hoi hic
  have hout := h.balanced.total_eq fair_angles.cancels
  have hopen : angles.weigh (s.kind o) = 1 := by rw [ho]; rfl
  rw [total, hopen] at hin
  omega

/-! ### Colons -/

theorem colonFrom_token (left angle round : Nat) (h : (s.kind i).nesting = 0) :
    s.colonFrom (left + 1) i angle round =
      ((s.kind i == .colon && angle == 0 && round == 0) || s.colonFrom left (i + 1) angle round) := by
  rw [colonFrom]
  split
  all_goals simp_all [nesting]

/-- Inside of a group, colons in balanced tokens are passed. -/
theorem Balanced.colonFrom (h : s.Balanced i j) (left angle round : Nat) (hin : 0 < angle + round) :
    s.colonFrom (left + (j - i)) i angle round = s.colonFrom left j angle round := by
  induction h generalizing left angle round with
  | nil => rw [Nat.sub_self, Nat.add_zero]
  | @token i j hkind hrest ih =>
    have hle := hrest.le
    have hcolon : (s.kind i == .colon && angle == 0 && round == 0) = false := by
      rw [Bool.and_assoc, Bool.and_eq_false_iff]
      refine .inr ?_
      simp only [Bool.and_eq_false_iff, beq_eq_false_iff_ne]
      omega
    rw [show left + (j - i) = left + (j - (i + 1)) + 1 by omega, colonFrom_token _ _ _ hkind, hcolon,
      Bool.false_or]
    exact ih left angle round hin
  | @group i m j hkind hinner hrest ih ih' =>
    have hle := hinner.le
    have hle' := hrest.le
    rw [show left + (j - i) = left + (j - (m + 1)) + 1 + (m - (i + 1)) + 1 by omega, TokenStream.colonFrom]
    rcases closer?_cases hkind with ⟨ho, hc⟩ | ⟨ho, hc⟩ | ⟨ho, hc⟩ | ⟨ho, hc⟩
    all_goals
      simp only [ho]
      rw [ih _ _ _ (by omega), TokenStream.colonFrom]
      simp only [hc]
      exact ih' left _ _ (by omega)

theorem IsPair.colonFrom (h : s.IsPair o c) (hbrace : s.kind o ≠ .openBrace) (left angle round : Nat) :
    s.colonFrom (left + (c + 1 - o)) o angle round = s.colonFrom left (c + 1) angle round := by
  have hlt := h.lt
  rw [show left + (c + 1 - o) = left + 1 + (c - (o + 1)) + 1 by omega, TokenStream.colonFrom]
  rcases closer?_cases h.closer with ⟨ho, hc⟩ | ⟨ho, hc⟩ | ⟨ho, hc⟩ | ⟨ho, hc⟩
  case inr.inr.inl => exact absurd ho hbrace
  all_goals
    simp only [ho]
    rw [h.inner.colonFrom _ _ _ (by omega), TokenStream.colonFrom]
    simp only [hc]
    rfl

/-- A group that declares a regular expression has a colon of its own, if no braces are in it. -/
theorem Balanced.exists_colon (h : s.Balanced i j) (hclear : s.Clear angles i j)
    (hcolon : s.colonFrom (j - i) i 0 0 = true) : ∃ k, k < j ∧ s.kind k = .colon ∧ s.Balanced i k := by
  induction h with
  | nil =>
    rw [Nat.sub_self] at hcolon
    cases hcolon
  | @token i j hkind hrest ih =>
    have hle := hrest.le
    rw [show j - i = j - (i + 1) + 1 by omega, colonFrom_token _ _ _ hkind, Bool.or_eq_true] at hcolon
    rcases hcolon with hcolon | hcolon
    · exact ⟨i, hle, by simpa using hcolon, .nil⟩
    · obtain ⟨k, hk, hcolon, hfront⟩ := ih (hclear.mono (Nat.le_succ i) (Nat.le_refl j)) hcolon
      exact ⟨k, hk, hcolon, .token hkind hfront⟩
  | @group i m j hkind hinner hrest _ ih =>
    have hle := hinner.le
    have hle' := hrest.le
    have hbrace : s.kind i ≠ .openBrace := by
      intro ho
      have hstop := hclear i (Nat.le_refl i) (by omega)
      rw [ho] at hstop
      cases hstop
    rw [show j - i = j - (m + 1) + (m + 1 - i) by omega, IsPair.colonFrom ⟨hkind, hinner⟩ hbrace] at hcolon
    obtain ⟨k, hk, hcolon, hfront⟩ := ih (hclear.mono (by omega) (Nat.le_refl j)) hcolon
    exact ⟨k, hk, hcolon, .group hkind hinner hfront⟩

end GrammarFormat.TokenStream
