import GrammarFormat.Token.Keyword

/-!
# Kinds of tokens and of trivia

A token is a word, a literal or a symbol. Trivia stand between tokens: line breaks, form feeds and
comments. Blanks are neither.
-/

namespace GrammarFormat

inductive TokenKind where
  | identifier
  | keyword (keyword : Keyword)
  | integer | floating | character | string
  | openBrace | closeBrace | openParen | closeParen | openBracket | closeBracket
  | semicolon | comma | dot | atSign | ellipsis | doubleColon | hash
  | assign | less | greater | bang | tilde | question | colon
  | equal | lessEqual | greaterEqual | notEqual | logicalOr | logicalAnd | increment | decrement
  | plus | minus | star | slash | ampersand | bar | caret | percent
  | shiftLeft | shiftRight | shiftRightZero | arrow | compoundAssign
  | endOfFile
  deriving DecidableEq, Repr

namespace TokenKind

/-- Every kind but the keywords, with the name under which it is reported. -/
def names : List (TokenKind × String) :=
  [(identifier, "Identifier"), (integer, "IntegerLiteral"), (floating, "FloatingLiteral"),
   (character, "CharacterLiteral"), (string, "StringLiteral"), (openBrace, "LBrace"),
   (closeBrace, "RBrace"), (openParen, "LParen"), (closeParen, "RParen"),
   (openBracket, "LBracket"), (closeBracket, "RBracket"), (semicolon, "Semicolon"),
   (comma, "Comma"), (dot, "Dot"), (atSign, "At"), (ellipsis, "Ellipsis"),
   (doubleColon, "DoubleColon"), (hash, "Hash"), (assign, "Assign"), (less, "Lt"),
   (greater, "Gt"), (bang, "Bang"), (tilde, "Tilde"), (question, "Question"), (colon, "Colon"),
   (equal, "Eq"), (lessEqual, "Le"), (greaterEqual, "Ge"), (notEqual, "Ne"),
   (logicalOr, "OrOr"), (logicalAnd, "AndAnd"), (increment, "Incr"), (decrement, "Decr"),
   (plus, "Plus"), (minus, "Minus"), (star, "Star"), (slash, "Slash"), (ampersand, "BitAnd"),
   (bar, "BitOr"), (caret, "Xor"), (percent, "Rem"), (shiftLeft, "LShift"),
   (shiftRight, "RShift"), (shiftRightZero, "URShift"), (arrow, "Arrow"),
   (compoundAssign, "CompoundAssign"), (endOfFile, "Eof")]

/-- The name of a kind; keywords carry theirs in parentheses. -/
def name : TokenKind → String
  | keyword k => "Keyword(" ++ k.name ++ ")"
  | kind => ((names.find? fun (k, _) => k == kind).map (·.2)).getD ""

/-- The kind of that name; keywords have a name of their own (`Keyword.ofName?`). -/
def ofName? (name : String) : Option TokenKind :=
  (names.find? fun (_, n) => n == name).map (·.1)

def keyword? : TokenKind → Option Keyword
  | keyword k => some k
  | _ => none

/-! ### Groups of kinds -/

/-- Marks that stay on the closing line of a unit. -/
def isQuantifier : TokenKind → Bool
  | star | question | plus | greater => true
  | _ => false

/-- Tokens whose parentheses are an argument list, not a unit of an expansion. -/
def isCallLike : TokenKind → Bool
  | identifier => true
  | keyword k => k.isCallLike
  | _ => false

def isOpening : TokenKind → Bool
  | openParen | openBracket => true
  | _ => false

def isClosing : TokenKind → Bool
  | closeParen | closeBracket => true
  | _ => false

def isDeclaration : TokenKind → Bool
  | keyword k => k.isDeclaration
  | _ => false

def isPrimitive : TokenKind → Bool
  | keyword k => k.isPrimitive
  | _ => false

end TokenKind

inductive TriviaKind where
  | lineBreak | formFeed
  /-- From `//` to the end of the line. -/
  | lineComment
  /-- From `/*` to the first `*/`. -/
  | blockComment
  /-- A block comment that opens with `/**`. -/
  | docComment
  deriving DecidableEq, Repr

namespace TriviaKind

def all : List TriviaKind := [lineBreak, formFeed, lineComment, blockComment, docComment]

/-- The name under which a kind is reported. -/
def name : TriviaKind → String
  | lineBreak => "LineBreak"
  | formFeed => "FormFeed"
  | lineComment => "SingleLineComment"
  | blockComment => "MultiLineComment"
  | docComment => "FormalComment"

def ofName? (name : String) : Option TriviaKind :=
  all.find? (·.name == name)

def isLineBreak : TriviaKind → Bool
  | lineBreak | formFeed => true
  | _ => false

def isComment (kind : TriviaKind) : Bool :=
  !kind.isLineBreak

end TriviaKind

end GrammarFormat
