import GrammarFormat.Proofs.Gaps
import GrammarFormat.Proofs.Scopes

/-!
# The pass over a stream

The decisions of a stream, one for each token in front of the end mark, from the scopes and the memories that
the pass goes through (`decisions_eq`).
-/

namespace GrammarFormat.Layout

open TokenStream

variable {s : TokenStream} {i : Nat}

/-- What the rules remember in front of the gap after the token at `i`. -/
def memoryAt (s : TokenStream) : Nat → Memory
  | 0 => {}
  | i + 1 => (gapAfter s i (scopeAt s (i + 1)) (memoryAt s i)).2

def gapAt (s : TokenStream) (i : Nat) : Gap :=
  (gapAfter s i (scopeAt s (i + 1)) (memoryAt s i)).1

theorem kind_last (s : TokenStream) (hi : i + 1 = s.size) : s.kind i = .endOfFile := by
  have hclosed := s.closed
  rw [Array.back?, ← TokenStream.size, show s.size - 1 = i by omega] at hclosed
  rw [kind, get?]
  cases hget : s.tokens[i]? with
  | none => rfl
  | some t =>
    rw [hget] at hclosed
    exact Option.some.inj hclosed

theorem kind_size (s : TokenStream) : s.kind s.size = .endOfFile := by
  rw [kind, get?, TokenStream.size, Array.getElem?_eq_none (Nat.le_refl _)]

theorem decisionsFrom_eq (hend : ∀ i, i + 1 < s.size → s.kind i ≠ .endOfFile) (left i : Nat)
    (hleft : i + left + 1 = s.size) :
    decisionsFrom s (left + 1) i (scopeAt s i) (memoryAt s i) =
      (List.range' i left).map fun k => ⟨scopeAt s (k + 1), gapAt s k⟩ := by
  induction left generalizing i with
  | zero =>
    rw [decisionsFrom, if_pos (kind_last s hleft)]
    rfl
  | succ left ih =>
    rw [decisionsFrom, if_neg (hend i (by omega)), List.range'_succ, List.map_cons, ← ih (i + 1) (by omega)]
    rfl

/-- The pass makes no decision from an end mark on. -/
theorem length_decisionsFrom_le {e : Nat} (hend : s.kind e = .endOfFile) (left : Nat) (c : Scope) (m : Memory)
    (hi : i ≤ e) : (decisionsFrom s left i c m).length ≤ e - i := by
  induction left generalizing i c m with
  | zero => exact Nat.zero_le _
  | succ left ih =>
    rw [decisionsFrom]
    split_ifs with hkind
    · exact Nat.zero_le _
    · have hlt : i < e := Nat.lt_of_le_of_ne hi fun hie => hkind (hie ▸ hend)
      have hrest := ih (i := i + 1) (c.advance s i) (gapAfter s i (c.advance s i) m).2 hlt
      rw [List.length_cons]
      omega

theorem exists_of_mem_decisionsFrom {left : Nat} {decision : Decision}
    (h : decision ∈ decisionsFrom s left i (scopeAt s i) (memoryAt s i)) :
    ∃ k, decision = ⟨scopeAt s (k + 1), gapAt s k⟩ := by
  induction left generalizing i with
  | zero => cases h
  | succ left ih =>
    rw [decisionsFrom] at h
    split_ifs at h
    · cases h
    · rcases List.mem_cons.1 h with rfl | h
      · exact ⟨i, rfl⟩
      · exact ih h

theorem size_pos (s : TokenStream) : 0 < s.size := by
  by_contra hsize
  have hclosed := s.closed
  rw [Array.back?, Array.getElem?_eq_none (by rw [TokenStream.size] at hsize; omega)] at hclosed
  cases hclosed

theorem lt_size_of_first {e : Nat} (hfirst : ∀ i < e, s.kind i ≠ .endOfFile) : e < s.size := by
  have hpos := size_pos s
  by_contra hsize
  exact hfirst (s.size - 1) (by omega) (kind_last s (by omega))

theorem length_decisions_lt (s : TokenStream) : (decisions s).length < s.size := by
  have hpos := size_pos s
  have hle := length_decisionsFrom_le (kind_last s (show s.size - 1 + 1 = s.size by omega)) s.size {} {} (Nat.zero_le _)
  change (decisions s).length ≤ _ at hle
  omega

/-- Each token in front of the end mark has one decision. -/
theorem decisions_eq (hend : ∀ i, i + 1 < s.size → s.kind i ≠ .endOfFile) :
    decisions s = (List.range (s.size - 1)).map fun k => ⟨scopeAt s (k + 1), gapAt s k⟩ := by
  have hsize := size_pos s
  have hfrom := decisionsFrom_eq hend (s.size - 1) 0 (by omega)
  rw [show s.size - 1 + 1 = s.size by omega] at hfrom
  rw [List.range_eq_range']
  exact hfrom

theorem getElem?_decisionsFrom {left k : Nat} (hk : k < left) (hend : ∀ j ≤ k, s.kind (i + j) ≠ .endOfFile) :
    (decisionsFrom s left i (scopeAt s i) (memoryAt s i))[k]? =
      some ⟨scopeAt s (i + k + 1), gapAt s (i + k)⟩ := by
  induction left generalizing i k with
  | zero => cases hk
  | succ left ih =>
    have hi : s.kind i ≠ .endOfFile := hend 0 (Nat.zero_le k)
    rw [decisionsFrom, if_neg hi]
    cases k with
    | zero => rfl
    | succ k =>
      have hrest := ih (i := i + 1) (Nat.lt_of_succ_lt_succ hk) fun j hj => by
        rw [Nat.add_right_comm]
        exact hend (j + 1) (Nat.succ_le_succ hj)
      rw [Nat.add_right_comm i 1 k] at hrest
      exact hrest

/-- A token up to which there is no end mark has its decision. -/
theorem getElem?_decisions (hi : i < s.size) (hend : ∀ k ≤ i, s.kind k ≠ .endOfFile) :
    (decisions s)[i]? = some ⟨scopeAt s (i + 1), gapAt s i⟩ := by
  have h := getElem?_decisionsFrom (i := 0) hi fun j hj => by
    rw [Nat.zero_add]
    exact hend j hj
  rwa [Nat.zero_add] at h

theorem drop_decisionsFrom {left k : Nat} (hk : k ≤ left) (hend : ∀ j < k, s.kind (i + j) ≠ .endOfFile) :
    (decisionsFrom s left i (scopeAt s i) (memoryAt s i)).drop k =
      decisionsFrom s (left - k) (i + k) (scopeAt s (i + k)) (memoryAt s (i + k)) := by
  induction k generalizing left i with
  | zero => rfl
  | succ k ih =>
    obtain ⟨left, rfl⟩ := Nat.exists_eq_add_one_of_ne_zero (Nat.ne_zero_of_lt hk)
    have hi : s.kind i ≠ .endOfFile := hend 0 (Nat.succ_pos k)
    have hrest := ih (i := i + 1) (Nat.le_of_succ_le_succ hk) fun j hj => by
      rw [Nat.add_right_comm]
      exact hend (j + 1) (Nat.succ_lt_succ hj)
    rw [Nat.add_right_comm i 1 k] at hrest
    rw [decisionsFrom, if_neg hi, Nat.add_sub_add_right]
    exact hrest

/-- What the pass does from `i` on, if it gets there. -/
theorem drop_decisions_of_lt (hend : ∀ k < i, s.kind k ≠ .endOfFile) :
    (decisions s).drop i = decisionsFrom s (s.size - i) i (scopeAt s i) (memoryAt s i) := by
  have hi : i ≤ s.size := by
    by_contra hsize
    exact hend s.size (Nat.lt_of_not_le hsize) (kind_size s)
  have h := drop_decisionsFrom (i := 0) hi fun j hj => by
    rw [Nat.zero_add]
    exact hend j hj
  rwa [Nat.zero_add] at h

theorem drop_decisions (hend : ∀ i, i + 1 < s.size → s.kind i ≠ .endOfFile) (hi : i < s.size) :
    (decisions s).drop i = decisionsFrom s (s.size - i) i (scopeAt s i) (memoryAt s i) :=
  drop_decisions_of_lt fun k hk => hend k (by omega)

/-- The decisions for the tokens from `o` up to `c`. -/
theorem decisions_slice (hend : ∀ i, i + 1 < s.size → s.kind i ≠ .endOfFile) {o c : Nat} (hc : c < s.size) :
    ((decisions s).drop o).take (c - o) =
      (List.range' o (c - o)).map fun k => ⟨scopeAt s (k + 1), gapAt s k⟩ := by
  have hsplit : List.range' o (s.size - 1 - o) =
      List.range' o (c - o) ++ List.range' (o + (c - o)) (s.size - 1 - o - (c - o)) := by
    rw [List.range'_append_1, show c - o + (s.size - 1 - o - (c - o)) = s.size - 1 - o by omega]
  have htake : (List.range' o (s.size - 1 - o)).take (c - o) = List.range' o (c - o) := by
    rw [hsplit, List.take_left' List.length_range']
  rw [decisions_eq hend, ← List.map_drop, ← List.map_take, List.range_eq_range', List.drop_range',
    Nat.mul_one, Nat.zero_add, htake]

end GrammarFormat.Layout
