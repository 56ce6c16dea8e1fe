import GrammarFormat.Layout.Scope
import GrammarFormat.Lexeme.Span

/-!
# Spaces between neighbours

Two tokens on one line have a space between them unless a rule joins them (`joined`) and joining
them is safe: the first must still be read as it was with the second right behind it.
-/

namespace GrammarFormat

/-- Whether `left`, read with `right` right behind it, is still the first lexeme. -/
def splitsCleanly (left right : List Char) : Bool :=
  let text := left ++ right
  let body := text.dropWhile Lexeme.isBlank
  match Lexeme.at? body with
  | some (_, width) => text.length - body.length + width == left.length
  | none => false

namespace Layout

/-- The pairs that are joined wherever they stand, apart from square brackets. -/
def joinedAnywhere (current next : TokenKind) : Bool :=
  (current == .openBrace && next == .closeBrace) ||
  (current == .openBracket && next == .closeBracket) ||
  [.openParen, .dot, .bang, .tilde, .atSign].contains current ||
  [.closeParen, .semicolon, .comma, .dot].contains next ||
  ([.increment, .decrement].contains current && next == .identifier) ||
  (current == .identifier && [.increment, .decrement].contains next) ||
  (next == .openParen && current.isCallLike) ||
  (next == .openBracket && (current == .identifier || current.isPrimitive))

/-- The pairs that are joined in Java: indexing and array types. -/
def joinedInJava (current next : TokenKind) : Bool :=
  current == .openBracket || next == .closeBracket ||
  (next == .openBracket && [.closeParen, .closeBracket].contains current)

/-- The pairs that are joined in the grammar: annotations, quantifiers, ranges of characters, and
the angle brackets of a reference. -/
def joinedInGrammar (i : Nat) (c : Scope) (current next : TokenKind) : Bool :=
  [.hash, .caret].contains current ||
  (current.isClosing && [.star, .question, .plus].contains next) ||
  (c.inAngle && (current == .minus || next == .minus)) ||
  c.innermost?.any fun angle =>
    !angle.declares &&
      ((current == .less && angle.first == i) || (next == .greater && angle.parens == c.parens))

/-- Whether a rule joins the token at `i` to the one after it. Dots never are: three of them would
be read as one token. -/
def joined (s : TokenStream) (i : Nat) (c : Scope) : Bool :=
  let current := s.kind i
  let next := s.kind (i + 1)
  !(current == .dot && next == .dot) &&
    (joinedAnywhere current next ||
      if c.inGrammar then joinedInGrammar i c current next else joinedInJava current next)

/-- Whether a space stands between the token at `i` and the one after it on the same line. -/
def spaced (s : TokenStream) (i : Nat) (c : Scope) : Bool :=
  !joined s i c ||
    match s.get? i, s.get? (i + 1) with
    | some current, some next => !splitsCleanly current.image.toList next.image.toList
    | _, _ => true

end Layout

end GrammarFormat
