import GrammarFormat.Proofs.Joins
import GrammarFormat.Proofs.Relexing

/-!
# What the pen writes

The pieces of a stream are its comments and tokens in order (`part_pieces`), and each is apart from the
one before it (`isChain_pieces`). The invariant behind the latter is `Pen.Behind`: after a piece the pen
is at the start of a line, or it is right behind the piece and asks for enough between it and the next
token.
-/

namespace GrammarFormat.Layout

open Lexeme

variable {s : TokenStream} {pen : Pen} {tokens : List Token} {gaps : List Gap} {p : Piece}

/-! ### Parts -/

theorem Pen.part_trivia (pen : Pen) (inRun : Bool) (trivia : List Trivia) :
    (pen.trivia inRun trivia).1.map Piece.part = Trivia.comments trivia := by
  induction trivia generalizing pen inRun with
  | nil => rfl
  | cons t trivia ih =>
    rw [Pen.trivia]
    cases hbreak : t.kind.isLineBreak with
    | true => simp [ih, Trivia.comments, TriviaKind.isComment, hbreak]
    | false =>
      simp only [Bool.false_eq_true, if_false, List.map_cons, ih]
      simp [Trivia.comments, TriviaKind.isComment, hbreak, Pen.comment, Pen.write, Piece.part, Trivia.part]

theorem part_pieceGroups (h : Fits tokens gaps) (pen : Pen) :
    (pieceGroups pen tokens gaps).flatten.map Piece.part = tokens.flatMap Token.parts := by
  induction h generalizing pen with
  | @last t _ hkind => simp [pieceGroups, Pen.part_trivia, Token.parts, Token.isEnd, hkind]
  | @cons t next tokens gap gaps h _ _ ih =>
    have hkind : t.kind ≠ .endOfFile := h.kind_ne_endOfFile
    simp only [pieceGroups, List.flatten_cons, List.map_append, ih, Pen.part_trivia, List.flatMap_cons]
    simp [Token.parts, Token.isEnd, hkind, Pen.token, Pen.write, Piece.part, Token.part]

/-- The pieces of a stream are its parts. -/
theorem part_pieces (h : Lexed s.outlines) : (pieces s).map Piece.part = s.parts :=
  part_pieceGroups (fits_decisions h) {}

/-! ### What stands between two pieces -/

/-- The pen after it wrote `p`, with `next` as the token to come. -/
inductive Pen.Behind (next : Token) (p : Piece) (pen : Pen) : Prop
  | atStart {n : Nat} (hstart : pen.lineStart = true) (hheld : pen.held = .lines (n + 1))
  | inLine (hstart : pen.lineStart = false) (hheld : pen.held = .none)
      (hcomment : p.lexeme ≠ .trivia .lineComment)
      (hsafe : next.kind ≠ .endOfFile → pen.pending = 0 → pen.spaced = false →
        ∀ r, Reads p.lexeme p.image.toList (next.image.toList ++ r))

namespace Pen

variable {next : Token} {t : Trivia}

theorem held_newlines (pen : Pen) {count : Nat} (hcount : 0 < count) :
    ∃ n, (pen.newlines count).held = .lines (n + 1) := by
  obtain ⟨count, rfl⟩ := Nat.exists_eq_add_one.2 hcount
  unfold newlines
  split <;> exact ⟨_, rfl⟩

theorem behind_newlines (pen : Pen) {count : Nat} (hcount : 0 < count) :
    (pen.newlines count).Behind next p := by
  obtain ⟨n, hn⟩ := pen.held_newlines hcount
  exact .atStart rfl hn

theorem behind_flush (hpending : 0 < pen.pending) : pen.flush.Behind next p := by
  obtain ⟨n, hn⟩ := pen.held_newlines hpending
  exact .atStart rfl hn

theorem Behind.breakLine (h : pen.Behind next p) : pen.breakLine.Behind next p := by
  unfold Pen.breakLine
  split_ifs with hpending
  · exact behind_flush hpending
  · exact h
  · exact behind_newlines pen Nat.one_pos

theorem Behind.apart_comment (h : pen.Behind next p) : p.Apart (pen.comment t).1 := by
  cases h with
  | atStart hstart hheld => simp [Pen.comment, hstart, write, hheld, Piece.Apart]
  | inLine hstart hheld hcomment =>
    simp [Pen.comment, hstart, write, space, hheld, Piece.Apart, hcomment]

/-- Behind a comment the pen is at the start of a line, or asks for a space. -/
theorem behind_comment (pen : Pen) (next : Token) (ht : Reads (.trivia t.kind) t.image.toList []) :
    (pen.comment t).2.Behind next (pen.comment t).1 := by
  by_cases hkind : t.kind = .lineComment
  · have hstart : (pen.comment t).2.lineStart = true := by simp [Pen.comment, hkind, newlines]
    have hheld : (pen.comment t).2.held = .lines 1 := by simp [Pen.comment, hkind, newlines, write]
    exact .atStart hstart hheld
  · have hstart : (pen.comment t).2.lineStart = false := by simp [Pen.comment, hkind, write]
    have hheld : (pen.comment t).2.held = .none := by simp [Pen.comment, hkind, write]
    refine .inLine hstart hheld ?_ fun _ _ hspaced => ?_
    · change ofText t.image.toList ≠ _
      rw [ht.ofText_eq]
      simpa using hkind
    · simp [Pen.comment, hkind] at hspaced

theorem Behind.trivia {trivia : List Trivia}
    (htrivia : ∀ t ∈ trivia, Reads (.trivia t.kind) t.image.toList []) (prev : Option Piece)
    (h : ∀ p ∈ prev, pen.Behind next p) (inRun : Bool) :
    (prev.toList ++ (pen.trivia inRun trivia).1).IsChain Piece.Apart ∧
      ∀ p ∈ (prev.toList ++ (pen.trivia inRun trivia).1).getLast?,
        (pen.trivia inRun trivia).2.Behind next p := by
  induction trivia generalizing pen prev inRun with
  | nil =>
    cases prev with
    | none => simp [Pen.trivia]
    | some p => simpa [Pen.trivia] using h
  | cons t trivia ih =>
    obtain ⟨ht, htrivia⟩ := List.forall_mem_cons.1 htrivia
    rw [Pen.trivia]
    split_ifs with hbreak hrun
    · exact ih htrivia prev h true
    · exact ih htrivia prev (fun p hp => (h p hp).breakLine) true
    · have hcomment := ih htrivia (some (pen.comment t).1)
        (fun p hp => by cases hp; exact behind_comment pen next ht) false
      cases prev with
      | none => exact hcomment
      | some p =>
        refine ⟨List.isChain_cons_cons.2 ⟨(h p rfl).apart_comment, hcomment.1⟩, ?_⟩
        simpa [List.getLast?_cons_cons] using hcomment.2

@[simp] theorem lineStart_converge : pen.converge.lineStart = pen.lineStart := by
  unfold converge; split_ifs <;> rfl

@[simp] theorem held_converge : pen.converge.held = pen.held := by
  unfold converge; split_ifs <;> rfl

@[simp] theorem pending_converge : pen.converge.pending = pen.pending := by
  unfold converge; split_ifs <;> rfl

@[simp] theorem spaced_converge : pen.converge.spaced = pen.spaced := by
  unfold converge; split_ifs <;> rfl

theorem Behind.apart_token (h : pen.Behind next p) (hnext : next.kind ≠ .endOfFile) :
    p.Apart (pen.token next).1 := by
  by_cases hpending : 0 < pen.pending
  · obtain ⟨n, hn⟩ := pen.converge.held_newlines hpending
    simp [Pen.token, separate, hpending, write, flush, hn, Piece.Apart]
  have hzero : pen.pending = 0 := by omega
  cases h with
  | atStart hstart hheld => simp [Pen.token, separate, hpending, hstart, write, hheld, Piece.Apart]
  | inLine hstart hheld hcomment hsafe =>
    cases hspaced : pen.spaced with
    | true =>
      simp [Pen.token, separate, hpending, hstart, hspaced, space, write, hheld, Piece.Apart, hcomment]
    | false =>
      simpa [Pen.token, separate, hpending, hstart, hspaced, write, hheld, Piece.Apart] using
        hsafe hnext hzero hspaced

/-- Behind a token the pen asks for what the gap does. -/
theorem behind_token (pen : Pen) {t next : Token} {gap : Gap} (ht : t.outline.IsToken)
    (hgap : gap.Safe t next) : ((pen.token t).2.apply gap).Behind next (pen.token t).1 := by
  refine .inLine rfl rfl ?_ hgap
  change ofText t.outline.image.toList ≠ _
  obtain ⟨lexeme, hreads, htrivia, -⟩ := ht.image_reads
  rw [hreads.ofText_eq]
  rintro rfl
  cases htrivia

end Pen

theorem isChain_pieceGroups (h : Fits tokens gaps) (prev : Option Piece)
    (hprev : ∀ p ∈ prev, ∀ t ∈ tokens.head?, pen.Behind t p) :
    (prev.toList ++ (pieceGroups pen tokens gaps).flatten).IsChain Piece.Apart := by
  have htrivia : ∀ {t : Token}, t.outline.TriviaLexed →
      ∀ u ∈ t.trivia, Reads (.trivia u.kind) u.image.toList [] := fun ht u hu =>
    ht.reads u.outline (List.mem_map_of_mem hu)
  -- `prev` is the piece written last, if there is one
  induction h generalizing pen prev with
  | @last t h _ =>
    have := (Pen.Behind.trivia (htrivia h) prev (fun p hp => hprev p hp t rfl) false).1
    simpa [pieceGroups] using this
  | @cons t next tokens gap gaps h hgap _ ih =>
    obtain ⟨hcomments, hlast⟩ :=
      Pen.Behind.trivia (htrivia h.toTriviaLexed) prev (fun p hp => hprev p hp t rfl) false
    have hrest := ih (some _) fun p hp u hu => by
      cases hp; cases hu
      exact Pen.behind_token (pen.trivia false t.trivia).2 h hgap
    rw [pieceGroups, List.flatten_cons, List.append_assoc, ← List.append_assoc]
    refine List.isChain_append.2 ⟨hcomments, hrest, fun p hp q hq => ?_⟩
    cases hq
    exact (hlast p hp).apart_token h.kind_ne_endOfFile

/-- Every piece is apart from the one before it. -/
theorem isChain_pieces (h : Lexed s.outlines) : (pieces s).IsChain Piece.Apart :=
  isChain_pieceGroups (fits_decisions h) none (by simp)

end GrammarFormat.Layout
