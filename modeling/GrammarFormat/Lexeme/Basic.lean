import GrammarFormat.Token.Kind

/-!
# Lexemes

The smallest units of a grammar file: trivia, words, and tokens whose kind is known from their
shape. Whether a word is a keyword or an identifier is decided only when tokens are made.
-/

namespace GrammarFormat

inductive Lexeme where
  | trivia (kind : TriviaKind)
  | word
  | token (kind : TokenKind)
  deriving DecidableEq, Repr

namespace Lexeme

/-- The name under which a lexeme is reported. -/
def name : Lexeme → String
  | trivia .blockComment => "BlockComment(MultiLineComment)"
  | trivia .docComment => "BlockComment(FormalComment)"
  | trivia kind => kind.name
  | word => "Word"
  | token kind => kind.name

def trivia? : Lexeme → Option TriviaKind
  | trivia kind => some kind
  | _ => none

/-- The kind of token that the shape alone gives: a word is an identifier, and trivia are none. -/
def tokenKind : Lexeme → TokenKind
  | trivia _ => .endOfFile
  | word => .identifier
  | token kind => kind

end Lexeme

end GrammarFormat
