import GrammarFormat.Proofs.Joins

/-!
# Tokens in a row without spaces

Whether a space stands between two tokens is decided from these two alone, and from the scope, whatever it is. This is
enough: tokens of a stream with no space between any two neighbours are read again from their images in a row
(`tokenize_join`), since each is read in front of the next one and of every text behind it.
-/

namespace GrammarFormat

open Lexeme Layout

/-- A token by its kind and its image. -/
def Token.label (t : Token) : TokenKind × String :=
  (t.kind, t.image)

/-- The image of the token is read as this token. -/
def Token.IsReadAlone (t : Token) : Prop :=
  ∃ st, tokenize t.image = .ok st ∧ st.tokens.toList.map Token.label = [t.label, (.endOfFile, "")]

instance (t : Token) : Decidable t.IsReadAlone :=
  decidable_of_iff
    ((tokenize t.image).toOption.any fun st => st.tokens.toList.map Token.label == [t.label, (.endOfFile, "")]) (by
      unfold Token.IsReadAlone
      cases tokenize t.image <;> simp [Except.toOption])

/-- The token without what stands in front of it. -/
def Token.bare (t : Token) : Outline :=
  ⟨t.kind, t.image, []⟩

variable {s : TokenStream} {tokens : List Token} {t next : Token} {i : Nat}

theorem Token.IsReadAlone.image_reads (h : t.IsReadAlone) :
    ∃ lexeme, Reads lexeme t.image.toList [] ∧ lexeme.trivia? = none ∧ t.kind = lexeme.classify t.image := by
  obtain ⟨st, hst, hlabels⟩ := h
  have hlexed := lexed_of_tokenize hst
  have hkinds : st.outlines.map (fun o => (o.kind, o.image)) = [t.label, (.endOfFile, "")] := by
    rw [TokenStream.outlines, List.map_map]
    exact hlabels
  generalize st.outlines = outlines at hlexed hkinds
  cases hlexed with
  | last => exact absurd (congrArg List.length hkinds) (by simp)
  | @cons o outlines ho _ =>
    obtain ⟨hlabel, -⟩ := List.cons.inj hkinds
    obtain ⟨hkind, himage⟩ := Prod.mk.inj hlabel
    rw [← hkind, ← himage]
    exact ho.image_reads

theorem Token.IsReadAlone.isToken_bare (h : t.IsReadAlone) : t.bare.IsToken where
  reads := List.forall_mem_nil _
  ended := .nil
  image_reads := h.image_reads
  closed := by
    rintro u ⟨⟩

/-- A token that is to have no space behind it is read the same in front of the next one, whatever the scope is and
whatever follows. -/
theorem reads_of_not_spaced {c : Scope} (ht : t.IsReadAlone) (hnext : next.IsReadAlone) (hi : s.get? i = some t)
    (hi' : s.get? (i + 1) = some next) (hspaced : spaced s i c = false) (r : List Char) :
    Reads (ofText t.image.toList) t.image.toList (next.image.toList ++ r) := by
  obtain ⟨hjoined, hsplit⟩ := (spaced_eq_false_iff hi hi').1 hspaced
  have hkind : s.kind i = t.bare.kind := by rw [TokenStream.kind, hi]; rfl
  have hkind' : s.kind (i + 1) = next.bare.kind := by rw [TokenStream.kind, hi']; rfl
  exact reads_of_joined ht.isToken_bare hnext.isToken_bare hkind hkind' hjoined hsplit r

theorem hasLexemes_images {p : Nat} (c : Nat → Scope) (halone : ∀ t ∈ tokens, t.IsReadAlone)
    (hplaced : tokens <+: s.tokens.toList.drop p)
    (hspaced : ∀ k, k + 1 < tokens.length → spaced s (p + k) (c k) = false) :
    HasLexemes (tokens.flatMap (·.image.toList)) (tokens.map fun t => (ofText t.image.toList, t.image.toList)) := by
  induction tokens generalizing p c with
  | nil => exact .nil
  | cons t tokens ih =>
    obtain ⟨ht, halone⟩ := List.forall_mem_cons.1 halone
    obtain ⟨behind, hbehind⟩ := hplaced
    have hget : ∀ k < (t :: tokens).length, s.get? (p + k) = (t :: tokens)[k]? := by
      intro k hk
      rw [TokenStream.get?, ← Array.getElem?_toList, ← List.getElem?_drop, ← hbehind, List.getElem?_append_left hk]
    have hplaced' : tokens <+: s.tokens.toList.drop (p + 1) := ⟨behind, by rw [← List.tail_drop, ← hbehind]; rfl⟩
    have hspaced' : ∀ k, k + 1 < tokens.length → spaced s (p + 1 + k) (c (k + 1)) = false := by
      intro k hk
      rw [Nat.add_right_comm]
      exact hspaced (k + 1) (Nat.succ_lt_succ hk)
    have hrest := ih (fun k => c (k + 1)) halone hplaced' hspaced'
    rw [List.flatMap_cons, List.map_cons]
    refine .cons ?_ hrest
    cases tokens with
    | nil =>
      obtain ⟨lexeme, hreads, -⟩ := ht.image_reads
      rw [hreads.ofText_eq]
      exact hreads
    | cons next tokens =>
      have hnext := halone next (List.mem_cons_self ..)
      rw [List.flatMap_cons]
      exact reads_of_not_spaced ht hnext (hget 0 (by simp)) (hget 1 (by simp)) (hspaced 0 (by simp)) _

theorem outlinesOf_alone (halone : ∀ t ∈ tokens, t.IsReadAlone) :
    outlinesOf [] (tokens.map fun t => (ofText t.image.toList, t.image.toList)) =
      tokens.map Token.bare ++ [⟨.endOfFile, "", []⟩] := by
  induction tokens with
  | nil => rfl
  | cons t tokens ih =>
    obtain ⟨ht, halone⟩ := List.forall_mem_cons.1 halone
    obtain ⟨lexeme, hreads, htrivia, hkind⟩ := ht.image_reads
    rw [List.map_cons, hreads.ofText_eq, outlinesOf_token htrivia, ih halone, String.ofList_toList, ← hkind]
    rfl

/-- Tokens next to each other in a stream, each of which is read from its image alone, are read from their images in
a row, if in some scope or other none is to have a space behind it. -/
theorem tokenize_join {p : Nat} (c : Nat → Scope) (halone : ∀ t ∈ tokens, t.IsReadAlone)
    (hplaced : tokens <+: s.tokens.toList.drop p)
    (hspaced : ∀ k, k + 1 < tokens.length → spaced s (p + k) (c k) = false) :
    ∃ st, tokenize (String.join (tokens.map Token.image)) = .ok st ∧
      st.tokens.toList.map Token.label = tokens.map Token.label ++ [(.endOfFile, "")] := by
  have hlexemes := hasLexemes_images c halone hplaced hspaced
  have himages : (String.join (tokens.map Token.image)).toList = tokens.flatMap (·.image.toList) := by
    rw [String.toList_join, List.flatMap_map]
  rw [← himages] at hlexemes
  obtain ⟨st, hst⟩ := hlexemes.exists_tokenize
  have houtlines := hlexemes.outlines_eq hst
  rw [outlinesOf_alone halone] at houtlines
  refine ⟨st, hst, ?_⟩
  have hlabels := congrArg (List.map fun o : Outline => (o.kind, o.image)) houtlines
  rw [TokenStream.outlines, List.map_map, List.map_append, List.map_map] at hlabels
  exact hlabels

/-- A dot between two numbers, one of which ends and one of which starts with a dot, in parentheses. -/
def dottedTokens : TokenStream :=
  .ofLines [(.keyword .for, "for", 1), (.openParen, "(", 1), (.floating, "1.", 1), (.dot, ".", 1),
    (.floating, ".5", 1), (.closeParen, ")", 1), (.identifier, "a", 2)]

/-- Of the three dots in a row each is read as it was. -/
theorem tokenize_join_of_dots :
    ((dottedTokens.tokens.toList.drop 1).take 5).map Token.image = ["(", "1.", ".", ".5", ")"] ∧
      ∃ st, tokenize "(1...5)" = .ok st ∧ st.tokens.toList.map Token.label =
        ((dottedTokens.tokens.toList.drop 1).take 5).map Token.label ++ [(.endOfFile, "")] := by
  have hspaced : ∀ k < 4, spaced dottedTokens (1 + k) {} = false := by decide +kernel
  have himages : ((dottedTokens.tokens.toList.drop 1).take 5).map Token.image = ["(", "1.", ".", ".5", ")"] := by decide
  have hjoin : String.join ["(", "1.", ".", ".5", ")"] = "(1...5)" := by decide +kernel
  have hplaced : (dottedTokens.tokens.toList.drop 1).take 5 <+: dottedTokens.tokens.toList.drop 1 :=
    List.take_prefix ..
  have h := tokenize_join (fun _ => {}) (by decide +kernel) hplaced fun k hk => hspaced k (Nat.lt_of_succ_lt_succ hk)
  rw [himages, hjoin] at h
  exact ⟨himages, h⟩

end GrammarFormat
