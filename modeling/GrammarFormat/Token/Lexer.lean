import GrammarFormat.Lexeme.Span
import GrammarFormat.Text.LineTable
import GrammarFormat.Text.Quoted
import GrammarFormat.Token.Stream

/-!
# From text to tokens

`tokenize` cuts a text into spans and makes tokens of them: words become keywords or identifiers,
every lexeme gets its position, and trivia ride on the token after them. A stray text ends it.
-/

namespace GrammarFormat

/-- A text that no lexeme starts with. -/
structure LexError where
  position : Position
  text : String
  deriving DecidableEq, Repr

def LexError.message (e : LexError) : String :=
  "unexpected input " ++ Text.quoted e.text ++ " at line " ++ toString e.position.line ++
    ", column " ++ toString e.position.column

namespace Lexeme

/-- The kind of the token that a lexeme with that text is. -/
def classify (lexeme : Lexeme) (image : String) : TokenKind :=
  match lexeme with
  | word => (Keyword.ofWord? image).elim .identifier .keyword
  | _ => lexeme.tokenKind

/-- The offset at which a lexeme ends: that of its last character, but a line break ends where it
starts. -/
def lastOffset (lexeme : Lexeme) (start : Nat) (text : List Char) : Nat :=
  if lexeme = trivia .lineBreak then start else start + Text.byteSize text.dropLast

end Lexeme

/-- The tokens of a text cut into `spans`, the first of which starts at the byte `offset`, with `trivia`
waiting for the next token and `trailing` blanks at the end; `place` knows the positions of offsets. -/
def tokensOfSpans (place : Nat → Position) (offset : Nat) (trivia : List Trivia) (trailing : List Char) :
    List Span → Except LexError (List Token)
  | [] => .ok [.endOfFile (place (offset + Text.byteSize trailing)) trivia]
  | span :: rest =>
    let start := offset + Text.byteSize span.blanks
    let next := start + Text.byteSize span.text
    let first := place start
    let image := String.ofList span.text
    match span.lexeme? with
    | none => .error ⟨first, image⟩
    | some (.trivia kind) =>
      let last := place (Lexeme.lastOffset (.trivia kind) start span.text)
      tokensOfSpans place next (trivia ++ [⟨kind, image, first.line, last.line⟩]) trailing rest
    | some lexeme => do
      let last := place (lexeme.lastOffset start span.text)
      let tokens ← tokensOfSpans place next [] trailing rest
      return ⟨lexeme.classify image, image, first, last, trivia⟩ :: tokens

/-- Every offset that is asked for has a position, so the default is never used. -/
def tokenize (source : String) : Except LexError TokenStream := do
  let table := LineTable.ofText source
  let place := fun offset => (table.position? source offset).getD .start
  let cut := spans source.toList
  let tokens ← tokensOfSpans place 0 [] cut.2 cut.1
  return .ofTokens tokens

end GrammarFormat
