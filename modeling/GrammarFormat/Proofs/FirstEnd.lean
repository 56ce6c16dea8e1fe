import GrammarFormat.Format
import GrammarFormat.Proofs.Cut
import GrammarFormat.Proofs.SameTokens

/-!
# Behind the first end mark

A stream made by hand may go on behind an end mark. It is formatted like the stream that ends there
(`format_front`): the decisions look no further, and each gap that is decided takes one token, so the token behind the
last gap is the end mark.
-/

namespace GrammarFormat

open TokenStream Layout

/-- The stream of the tokens up to the one at `e`. -/
def TokenStream.front (s : TokenStream) (e : Nat) : TokenStream :=
  .ofTokens (s.tokens.toList.take (e + 1))

variable {s : TokenStream} {e i : Nat}

/-! ### The front of a stream -/

theorem toList_front (hend : s.kind e = .endOfFile) (he : e < s.size) :
    (s.front e).tokens.toList = s.tokens.toList.take (e + 1) := by
  obtain ⟨t, ht⟩ : ∃ t, s.get? e = some t := ⟨_, Array.getElem?_eq_getElem he⟩
  have hkind : t.kind = .endOfFile := by
    rw [kind, ht] at hend
    exact hend
  have hlast : s.tokens.toList[e]? = some t := by
    rw [Array.getElem?_toList]
    exact ht
  refine toList_ofTokens ?_
  rw [List.getLast?_take, if_neg (Nat.succ_ne_zero e), Nat.add_sub_cancel, hlast, Option.some_or, Option.map_some,
    hkind]

theorem get?_front (hend : s.kind e = .endOfFile) (he : e < s.size) (hi : i ≤ e) : (s.front e).get? i = s.get? i := by
  rw [get?, ← Array.getElem?_toList, toList_front hend he, List.getElem?_take_of_lt (Nat.lt_succ_of_le hi),
    Array.getElem?_toList, get?]

theorem sameFront_front (hend : s.kind e = .endOfFile) (hfirst : ∀ i < e, s.kind i ≠ .endOfFile) :
    SameFront e s (s.front e) := by
  have hget := fun i => get?_front (i := i) hend (lt_size_of_first hfirst)
  refine ⟨fun i hi => ?_, fun i hi => by rw [hget i hi], hend, hfirst⟩
  rw [kind, kind, hget i hi]

/-! ### The layout of the front -/

/-- Behind the token that follows the last gap nothing is written. -/
theorem pieceGroups_take (pen : Pen) (tokens : List Token) {gaps : List Gap} {n : Nat} (hn : gaps.length < n) :
    pieceGroups pen (tokens.take n) gaps = pieceGroups pen tokens gaps := by
  induction tokens generalizing pen gaps n with
  | nil => rw [List.take_nil]
  | cons t tokens ih =>
    obtain ⟨n, rfl⟩ := Nat.exists_eq_add_one_of_ne_zero (Nat.ne_zero_of_lt hn)
    rw [List.take_succ_cons]
    cases gaps with
    | nil => rfl
    | cons gap gaps => simp only [pieceGroups, ih _ (Nat.lt_of_succ_lt_succ hn)]

theorem pieces_front (hend : s.kind e = .endOfFile) (hfirst : ∀ i < e, s.kind i ≠ .endOfFile) :
    pieces (s.front e) = pieces s := by
  have hlength : ((decisions s).map Decision.gap).length < e + 1 := by
    rw [List.length_map]
    exact Nat.lt_succ_of_le (length_decisionsFrom_le hend s.size {} {} (Nat.zero_le e))
  rw [pieces, pieces, groups, groups, toList_front hend (lt_size_of_first hfirst),
    ← (sameFront_front hend hfirst).decisions, pieceGroups_take _ _ hlength]

/-- What stands behind the first end mark has no influence on the formatted text. -/
theorem format_front (hend : s.kind e = .endOfFile) (hfirst : ∀ i < e, s.kind i ≠ .endOfFile) (style : Style)
    (range : LineRange) : (s.front e).tokens.toList = s.tokens.toList.take (e + 1) ∧
      format s style range = format (s.front e) style range := by
  have hsize := lt_size_of_first hfirst
  have hempty : (s.front e).isEmpty = s.isEmpty := by
    rw [isEmpty, isEmpty, first?, first?, get?_front hend hsize (Nat.zero_le e)]
  refine ⟨toList_front hend hsize, ?_⟩
  rw [format, format, hempty, pieces_front hend hfirst]

/-- A choice that is open at the first end mark, and what would close it behind. -/
def tokensBehindEnd : TokenStream :=
  .ofLines [(.keyword .parserEnd, "PARSER_END", 1), (.openParen, "(", 1), (.identifier, "P", 1),
    (.closeParen, ")", 1), (.keyword .token, "TOKEN", 1), (.colon, ":", 1), (.openBrace, "\x7b", 1),
    (.less, "<", 1), (.identifier, "A", 1), (.colon, ":", 1), (.openParen, "(", 1), (.string, "\"a\"", 1),
    (.endOfFile, "", 1), (.bar, "|", 1), (.string, "\"b\"", 1), (.closeParen, ")", 2), (.greater, ">", 2),
    (.closeBrace, "\x7d", 3)]

theorem format_front_of_choice : tokensBehindEnd.kind 12 = .endOfFile ∧
    (∀ i < 12, tokensBehindEnd.kind i ≠ .endOfFile) ∧
      (tokensBehindEnd.front 12).tokens.toList = tokensBehindEnd.tokens.toList.take 13 ∧
      format tokensBehindEnd ⟨"\n", "  "⟩ .all = format (tokensBehindEnd.front 12) ⟨"\n", "  "⟩ .all :=
  ⟨by decide, by decide, format_front (by decide) (by decide) _ _⟩

end GrammarFormat
