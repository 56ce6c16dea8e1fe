import GrammarFormat.Token.Stream

/-!
# Tokens as JSON

The part of JSON that a dump of tokens needs, printed over several lines with two blanks per level,
and the dump itself.
-/

namespace GrammarFormat.Text

inductive Json where
  | number (value : Nat)
  | string (value : String)
  | array (items : List Json)
  | object (members : List (String × Json))

namespace Json

/-- A character inside quotes. -/
def escape (c : Char) : List Char :=
  if c = '"' then ['\\', '"']
  else if c = '\\' then ['\\', '\\']
  else if c = '\x08' then ['\\', 'b']
  else if c = '\x0c' then ['\\', 'f']
  else if c = '\n' then ['\\', 'n']
  else if c = '\r' then ['\\', 'r']
  else if c = '\t' then ['\\', 't']
  else if c.toNat < 0x20 then
    "\\u00".toList ++ [Nat.digitChar (c.toNat / 16), Nat.digitChar (c.toNat % 16)]
  else [c]

def quote (text : String) : String :=
  String.ofList ('"' :: text.toList.flatMap escape ++ ['"'])

def newline (depth : Nat) : String :=
  "\n" ++ String.join (List.replicate depth "  ")

mutual

/-- The text of a value that stands `depth` levels deep. -/
def pretty (depth : Nat) : Json → String
  | number value => toString value
  | string value => quote value
  | array [] => "[]"
  | array items => "[" ++ ",".intercalate (prettyItems (depth + 1) items) ++ newline depth ++ "]"
  | object [] => "\x7b\x7d"
  | object members =>
    "\x7b" ++ ",".intercalate (prettyMembers (depth + 1) members) ++ newline depth ++ "\x7d"

def prettyItems (depth : Nat) : List Json → List String
  | [] => []
  | item :: rest => (newline depth ++ item.pretty depth) :: prettyItems depth rest

def prettyMembers (depth : Nat) : List (String × Json) → List String
  | [] => []
  | (key, value) :: rest =>
    (newline depth ++ quote key ++ ": " ++ value.pretty depth) :: prettyMembers depth rest

end

end Json

end GrammarFormat.Text

namespace GrammarFormat

open Text (Json)

def TokenKind.toJson : TokenKind → Json
  | keyword k => .object [("Keyword", .string k.name)]
  | kind => .string kind.name

def Trivia.toJson (trivia : Trivia) : Json :=
  .object
    [("kind", .string trivia.kind.name),
     ("image", .string trivia.image),
     ("begin_line", .number trivia.firstLine),
     ("end_line", .number trivia.lastLine)]

def Token.toJson (token : Token) : Json :=
  .object
    [("kind", token.kind.toJson),
     ("image", .string token.image),
     ("begin_line", .number token.first.line),
     ("begin_column", .number token.first.column),
     ("end_line", .number token.last.line),
     ("end_column", .number token.last.column),
     ("specials", .array (token.trivia.map Trivia.toJson))]

def TokenStream.toJson (s : TokenStream) : Json :=
  .object [("tokens", .array (s.tokens.toList.map Token.toJson))]

end GrammarFormat
