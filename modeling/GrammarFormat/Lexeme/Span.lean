import GrammarFormat.Lexeme.Rules

/-!
# Cutting a text into spans

`spans` cuts a whole text into pieces: blanks, and after them the longest lexeme there or, where no
lexeme fits, a stray text. Nothing is lost on the way: the spans and the blanks behind them are the
text again (`spans_text`).
-/

namespace GrammarFormat

namespace Lexeme

/-! ### The lexeme at the head of a text -/

/-- How many characters stand in front of the first `*/`. -/
def closeIndex? : List Char → Option Nat
  | [] => none
  | '*' :: '/' :: _ => some 0
  | _ :: rest => (closeIndex? rest).map (· + 1)

/-- The kind of a block comment from what follows its `/*`; `/**/` documents nothing. -/
def commentKind (rest : List Char) (width : Nat) : TriviaKind :=
  if rest.head? = some '*' ∧ 0 < width then .docComment else .blockComment

/-- The lexeme at the head of a text without leading blanks, and its length: a block comment where
one opens, else the longest match of the rules. -/
def at? : List Char → Option (Lexeme × Nat)
  | '/' :: '*' :: rest =>
    (closeIndex? rest).map fun width => (trivia (commentKind rest width), width + 4)
  | s => Pattern.longest? rules s

/-- How far the items of a string go. -/
def stringRun : List Char → Nat
  | '\\' :: c :: rest => if isTerminator c then 0 else stringRun rest + 2
  | c :: rest => if c == '"' || c == '\\' || isTerminator c then 0 else stringRun rest + 1
  | [] => 0

/-- The length of the stray text at the head of a text that starts with no lexeme: as much of an
unfinished literal as could be read, else one character. -/
def strayWidth : List Char → Nat
  | '"' :: rest => stringRun rest + 1
  | '\'' :: '\\' :: c :: rest =>
    if c == '\'' || isTerminator c then 1 else (rest.takeWhile isHexDigit).length + 3
  | '/' :: '*' :: _ => 2
  | _ => 1

theorem at?_pos {s : List Char} {lexeme : Lexeme} {width : Nat}
    (h : at? s = some (lexeme, width)) : 0 < width := by
  unfold at? at h
  split at h
  · obtain ⟨_, _, hn⟩ := Option.map_eq_some_iff.1 h
    cases hn; omega
  · exact Pattern.longest?_pos h

theorem strayWidth_pos (s : List Char) : 0 < strayWidth s := by
  unfold strayWidth
  split <;> try split
  all_goals omega

/-- What stands at the head of a text without leading blanks: a lexeme or a stray text. -/
def head (s : List Char) : Option Lexeme × Nat :=
  match at? s with
  | some (lexeme, width) => (some lexeme, width)
  | none => (none, strayWidth s)

theorem head_pos (s : List Char) : 0 < (head s).2 := by
  unfold head
  split
  · exact at?_pos ‹_›
  · exact strayWidth_pos s

end Lexeme

/-! ### Whole texts -/

/-- A lexeme, or a stray text, with the blanks in front of it. -/
structure Span where
  blanks : List Char
  lexeme? : Option Lexeme
  text : List Char
  deriving DecidableEq, Repr

/-- The spans of a text, and the blanks at its end. -/
def spans (s : List Char) : List Span × List Char :=
  match _h : s.dropWhile Lexeme.isBlank with
  | [] => ([], s)
  | c :: rest =>
    let found := Lexeme.head (c :: rest)
    let following := spans ((c :: rest).drop found.2)
    (⟨s.takeWhile Lexeme.isBlank, found.1, (c :: rest).take found.2⟩ :: following.1, following.2)
termination_by s.length
decreasing_by
  have := Lexeme.head_pos (c :: rest)
  have := (List.dropWhile_sublist Lexeme.isBlank (l := s)).length_le
  rw [_h] at this
  simp only [List.length_drop, List.length_cons] at this ⊢
  omega

/-- The text of a span, blanks included. -/
def Span.source (span : Span) : List Char :=
  span.blanks ++ span.text

/-- Cutting loses nothing. -/
theorem spans_text (s : List Char) : (spans s).1.flatMap Span.source ++ (spans s).2 = s := by
  fun_induction spans s with
  | case1 s h => simp
  | case2 s c rest h found following ih =>
    simp only [List.flatMap_cons, Span.source, List.append_assoc]
    rw [ih, List.take_append_drop, ← h, List.takeWhile_append_dropWhile]

end GrammarFormat
