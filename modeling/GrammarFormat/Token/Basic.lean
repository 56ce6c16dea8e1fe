import GrammarFormat.Text.LineTable
import GrammarFormat.Token.Kind

/-!
# Tokens

A token carries its text, where its first and last characters stand, and the trivia between the
token before it and itself.
-/

namespace GrammarFormat

structure Trivia where
  kind : TriviaKind
  image : String
  firstLine : Nat
  lastLine : Nat
  deriving DecidableEq, Repr

structure Token where
  kind : TokenKind
  image : String
  /-- Where the first character stands. -/
  first : Position
  /-- Where the last character stands. -/
  last : Position
  trivia : List Trivia := []
  deriving DecidableEq, Repr

namespace Token

/-- A token on one line, with nothing in front of it. -/
def onLine (kind : TokenKind) (image : String) (first : Position) : Token where
  kind := kind
  image := image
  first := first
  last := { first with column := first.column + (image.length - 1) }

/-- The mark at the end of a file. -/
def endOfFile (pos : Position) (trivia : List Trivia := []) : Token where
  kind := .endOfFile
  image := ""
  first := pos
  last := pos
  trivia := trivia

def isEnd (token : Token) : Bool :=
  token.kind == .endOfFile

end Token

end GrammarFormat
