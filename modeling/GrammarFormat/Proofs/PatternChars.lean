import GrammarFormat.Proofs.LongestMatch

/-!
# Which characters stand where in a text of a pattern

Four bounds on the texts of a pattern, each read off the pattern itself: the characters a text can
start with (`heads`), end with (`lasts`), hold at all (`chars`), and the pairs of characters that can
be neighbours in it (`pairs`). For a given pattern and given characters they are computed, so facts
about all the rules of a lexer come from evaluating them. What is claimed of listed characters is decided
by going through the list, not through all characters there are.
-/

namespace GrammarFormat.Pattern

section

variable {P : Char → Prop} [DecidablePred P]

instance (priority := 2000) decidableForallMem (l : List Char) : Decidable (∀ c ∈ l, P c) :=
  List.decidableBAll P l

instance (priority := 2000) decidableExistsMem (l : List Char) : Decidable (∃ c ∈ l, P c) :=
  List.decidableBEx P l

end

def heads : Pattern → Char → Bool
  | never, _ | empty, _ => false
  | one accepts, c => accepts c
  | seq p q, c => p.heads c || p.nullable && q.heads c
  | alt p q, c => p.heads c || q.heads c
  | star p, c => p.heads c

def lasts : Pattern → Char → Bool
  | never, _ | empty, _ => false
  | one accepts, c => accepts c
  | seq p q, c => q.lasts c || q.nullable && p.lasts c
  | alt p q, c => p.lasts c || q.lasts c
  | star p, c => p.lasts c

def chars : Pattern → Char → Bool
  | never, _ | empty, _ => false
  | one accepts, c => accepts c
  | seq p q, c | alt p q, c => p.chars c || q.chars c
  | star p, c => p.chars c

def pairs : Pattern → Char → Char → Bool
  | never, _, _ | empty, _, _ | one _, _, _ => false
  | seq p q, c, d => p.pairs c d || q.pairs c d || p.lasts c && q.heads d
  | alt p q, c, d => p.pairs c d || q.pairs c d
  | star p, c, d => p.pairs c d || p.lasts c && p.heads d

theorem append_eq_seq (p q : Pattern) : p ++ q = seq p q := rfl

theorem or_eq_alt (p q : Pattern) : p ||| q = alt p q := rfl

variable {p : Pattern} {s t : List Char} {c d : Char}

theorem chars_of_matches (h : Matches p s) (hc : c ∈ s) : p.chars c = true := by
  induction h with
  | empty | starNil => cases hc
  | one h => rw [List.mem_singleton.1 hc]; exact h
  | seq _ _ hp hq =>
    rw [chars, Bool.or_eq_true]
    exact (List.mem_append.1 hc).imp hp hq
  | left _ h => rw [chars, Bool.or_eq_true]; exact .inl (h hc)
  | right _ h => rw [chars, Bool.or_eq_true]; exact .inr (h hc)
  | starCons _ _ hp ht => exact (List.mem_append.1 hc).elim hp ht

theorem heads_of_matches (h : Matches p (c :: s)) : p.heads c = true := by
  generalize hr : c :: s = r at h
  induction h generalizing s with
  | empty | starNil => cases hr
  | one h => cases hr; exact h
  | seq h₁ _ hp hq =>
    rw [heads, Bool.or_eq_true, Bool.and_eq_true]
    rcases List.cons_eq_append_iff.1 hr with ⟨rfl, rfl⟩ | ⟨u, rfl, -⟩
    · exact .inr ⟨nullable_iff.2 h₁, hq rfl⟩
    · exact .inl (hp rfl)
  | left _ h => rw [heads, Bool.or_eq_true]; exact .inl (h hr)
  | right _ h => rw [heads, Bool.or_eq_true]; exact .inr (h hr)
  | starCons _ _ hp ht =>
    rcases List.cons_eq_append_iff.1 hr with ⟨rfl, rfl⟩ | ⟨u, rfl, -⟩
    exacts [ht rfl, hp rfl]

/-- The last character of `a ++ b` is that of `b`, or that of `a` if `b` is empty. -/
theorem last_append {a b : List Char} (h : s ++ [c] = a ++ b) :
    (b = [] ∧ s ++ [c] = a) ∨ ∃ u, u ++ [c] = b := by
  rcases List.eq_nil_or_concat b with rfl | ⟨u, e, rfl⟩
  · exact .inl ⟨rfl, by simpa using h⟩
  · rw [List.concat_eq_append, ← List.append_assoc] at h
    obtain ⟨-, he⟩ := List.append_inj' h rfl
    cases he; exact .inr ⟨u, by simp⟩

theorem lasts_of_matches (h : Matches p (s ++ [c])) : p.lasts c = true := by
  generalize hr : s ++ [c] = r at h
  induction h generalizing s with
  | empty | starNil => simp at hr
  | @one accepts d h =>
    obtain ⟨-, rfl⟩ : s = [] ∧ c = d := by simpa [List.append_eq_singleton_iff] using hr
    exact h
  | seq _ h₂ hp hq =>
    rw [lasts, Bool.or_eq_true, Bool.and_eq_true]
    rcases last_append hr with ⟨rfl, ha⟩ | ⟨u, hb⟩
    exacts [.inr ⟨nullable_iff.2 h₂, hp ha⟩, .inl (hq hb)]
  | left _ h => rw [lasts, Bool.or_eq_true]; exact .inl (h hr)
  | right _ h => rw [lasts, Bool.or_eq_true]; exact .inr (h hr)
  | starCons _ _ hp ht =>
    rcases last_append hr with ⟨rfl, ha⟩ | ⟨u, hb⟩
    exacts [hp ha, ht hb]

/-- Where two neighbours of `a ++ b` stand: both in `a`, both in `b`, or at the seam. -/
theorem neighbours_append {a b : List Char} (h : s ++ c :: d :: t = a ++ b) :
    (∃ u, a = s ++ c :: d :: u) ∨ (∃ u, b = u ++ c :: d :: t) ∨ a = s ++ [c] ∧ b = d :: t := by
  rcases List.append_eq_append_iff.1 h with ⟨u, rfl, hu⟩ | ⟨u, rfl, hu⟩
  · match u, hu with
    | [], hu => exact .inr (.inl ⟨[], by simpa using hu.symm⟩)
    | [_], hu => cases hu; exact .inr (.inr ⟨rfl, rfl⟩)
    | _ :: _ :: v, hu => cases hu; exact .inl ⟨v, rfl⟩
  · exact .inr (.inl ⟨u, hu⟩)

theorem pairs_of_matches (h : Matches p (s ++ c :: d :: t)) : p.pairs c d = true := by
  generalize hr : s ++ c :: d :: t = r at h
  induction h generalizing s t with
  | empty | starNil => simp at hr
  | one h => simp [List.append_eq_singleton_iff] at hr
  | seq h₁ h₂ hp hq =>
    simp only [pairs, Bool.or_eq_true, Bool.and_eq_true]
    rcases neighbours_append hr with ⟨u, rfl⟩ | ⟨u, rfl⟩ | ⟨rfl, rfl⟩
    exacts [.inl (.inl (hp rfl)), .inl (.inr (hq rfl)),
      .inr ⟨lasts_of_matches h₁, heads_of_matches h₂⟩]
  | left _ h => rw [pairs, Bool.or_eq_true]; exact .inl (h hr)
  | right _ h => rw [pairs, Bool.or_eq_true]; exact .inr (h hr)
  | starCons h₁ h₂ hp ht =>
    rcases neighbours_append hr with ⟨u, rfl⟩ | ⟨u, rfl⟩ | ⟨rfl, rfl⟩
    · rw [pairs, Bool.or_eq_true]; exact .inl (hp rfl)
    · exact ht rfl
    · rw [pairs, Bool.or_eq_true, Bool.and_eq_true]
      have hd := heads_of_matches h₂
      rw [heads] at hd
      exact .inr ⟨lasts_of_matches h₁, hd⟩

end GrammarFormat.Pattern
