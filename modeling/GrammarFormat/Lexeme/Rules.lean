import GrammarFormat.Lexeme.Basic
import GrammarFormat.Text.Category
import GrammarFormat.Text.Pattern

/-!
# The shapes of lexemes

One pattern for each shape that a lexeme can have. Block comments are not among them: they end at
the first `*/`, which `Lexeme.at?` looks for.
-/

namespace GrammarFormat.Lexeme

open Pattern

/-! ### Classes of characters -/

def isBlank (c : Char) : Bool :=
  c == ' ' || c == '\t'

/-- The characters that end a line. -/
def isTerminator (c : Char) : Bool :=
  c == '\r' || c == '\n'

def isWordStart (c : Char) : Bool :=
  Text.isLetter c || c == '_' || c == '$'

def isWordPart (c : Char) : Bool :=
  isWordStart c || Text.isNumber c

def isDigitPart (c : Char) : Bool :=
  c.isDigit || c == '_'

def isHexDigit (c : Char) : Bool :=
  c.isDigit || ('a' ≤ c && c ≤ 'f') || ('A' ≤ c && c ≤ 'F')

/-! ### Trivia and words -/

def lineBreak : Pattern :=
  literal ['\r', '\n'] ||| oneOf "\r\n"

def lineComment : Pattern :=
  literal ['/', '/'] ++ star (one fun c => !isTerminator c)

def wordPattern : Pattern :=
  one isWordStart ++ star (one isWordPart)

/-! ### Literals -/

/-- Digits, with underscores after the first. -/
def digits : Pattern :=
  one Char.isDigit ++ star (one isDigitPart)

def longSuffix : Pattern :=
  optional (oneOf "lL")

def floatSuffix : Pattern :=
  optional (oneOf "fFdD")

def exponent : Pattern :=
  oneOf "eE" ++ optional (oneOf "+-") ++ plus (one Char.isDigit)

def integers : List Pattern :=
  [digits ++ longSuffix,
   literal ['0'] ++ oneOf "xX" ++ plus (one fun c => isHexDigit c || c == '_') ++ longSuffix,
   literal ['0'] ++ oneOf "bB" ++ plus (oneOf "01_") ++ longSuffix]

def floatings : List Pattern :=
  [digits ++ literal ['.'] ++ star (one isDigitPart) ++ optional exponent ++ floatSuffix,
   literal ['.'] ++ digits ++ optional exponent ++ floatSuffix,
   digits ++ exponent ++ floatSuffix,
   digits ++ oneOf "fFdD"]

/-- A plain character, an escape with the hexadecimal digits after it, or an escaped quote. -/
def character : Pattern :=
  literal ['\''] ++
    (one (fun c => !(c == '\'' || c == '\\' || isTerminator c)) |||
      literal ['\\'] ++ one (fun c => !(c == '\'' || isTerminator c)) ++ star (one isHexDigit) |||
      literal ['\\', '\'']) ++
    literal ['\'']

/-- A character of a string: not the quote, not the end of the line, and a backslash only together
with the character after it. -/
def stringItem : Pattern :=
  one (fun c => !(c == '"' || c == '\\' || isTerminator c)) |||
    literal ['\\'] ++ one fun c => !isTerminator c

def string : Pattern :=
  literal ['"'] ++ star stringItem ++ literal ['"']

/-! ### Symbols -/

/-- The symbols with their spellings. -/
def symbols : List (TokenKind × String) :=
  [(.openBrace, "\x7b"), (.closeBrace, "\x7d"), (.openParen, "("), (.closeParen, ")"),
   (.openBracket, "["), (.closeBracket, "]"), (.semicolon, ";"), (.comma, ","), (.dot, "."),
   (.atSign, "@"), (.ellipsis, "..."), (.doubleColon, "::"), (.hash, "#"), (.assign, "="),
   (.less, "<"), (.greater, ">"), (.bang, "!"), (.tilde, "~"), (.question, "?"), (.colon, ":"),
   (.equal, "=="), (.lessEqual, "<="), (.greaterEqual, ">="), (.notEqual, "!="),
   (.logicalOr, "||"), (.logicalAnd, "&&"), (.increment, "++"), (.decrement, "--"), (.plus, "+"),
   (.minus, "-"), (.star, "*"), (.slash, "/"), (.ampersand, "&"), (.bar, "|"), (.caret, "^"),
   (.percent, "%"), (.shiftLeft, "<<"), (.shiftRight, ">>"), (.shiftRightZero, ">>>"),
   (.arrow, "->"), (.compoundAssign, "+="), (.compoundAssign, "-="), (.compoundAssign, "*="),
   (.compoundAssign, "/="), (.compoundAssign, "&="), (.compoundAssign, "|="),
   (.compoundAssign, "^="), (.compoundAssign, "%="), (.compoundAssign, "<<="),
   (.compoundAssign, ">>="), (.compoundAssign, ">>>=")]

/-- Every lexeme but the block comments, with its pattern. -/
def rules : List (Lexeme × Pattern) :=
  [(trivia .lineBreak, lineBreak), (trivia .formFeed, literal ['\x0c']),
   (trivia .lineComment, lineComment), (word, wordPattern)] ++
  integers.map (token .integer, ·) ++
  floatings.map (token .floating, ·) ++
  [(token .character, character), (token .string, string)] ++
  symbols.map fun (kind, spelling) => (token kind, literal spelling.toList)

end GrammarFormat.Lexeme
