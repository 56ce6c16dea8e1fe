import GrammarFormat.Toml.Blanks
import GrammarFormat.Toml.Value

/-!
# Strings of settings files

A string stands between quotes on one line, or between triple quotes over several lines. Double
quotes allow escapes, single quotes do not. Reading has two steps: the body between the quotes is
found first, and its escapes are resolved then.
-/

namespace GrammarFormat.Toml

/-! ### Bodies -/

/-- The body of a string with escapes, behind its opening quote. -/
def escapedBody : Reader (List Char)
  | '"' :: rest => some ([], rest)
  | '\\' :: c :: rest => do
    if !isPlain c then none
    let (body, rest) ← escapedBody rest
    return ('\\' :: c :: body, rest)
  | c :: rest => do
    if !isPlain c then none
    let (body, rest) ← escapedBody rest
    return (c :: body, rest)
  | [] => none

/-- The body of a string without escapes, behind its opening quote. -/
def rawBody : Reader (List Char)
  | '\'' :: rest => some ([], rest)
  | c :: rest => do
    if !isPlain c then none
    let (body, rest) ← rawBody rest
    return (c :: body, rest)
  | [] => none

/-- The body of a string with escapes over several lines. Up to two quotes may stand in front of the
closing ones, and every line end counts as one line feed. -/
def escapedLines : Reader (List Char)
  | '"' :: '"' :: '"' :: '"' :: '"' :: rest => some (['"', '"'], rest)
  | '"' :: '"' :: '"' :: '"' :: rest => some (['"'], rest)
  | '"' :: '"' :: '"' :: rest => some ([], rest)
  | '\\' :: '\\' :: rest => do
    let (body, rest) ← escapedLines rest
    return ('\\' :: '\\' :: body, rest)
  | '\\' :: '"' :: rest => do
    let (body, rest) ← escapedLines rest
    return ('\\' :: '"' :: body, rest)
  | '\r' :: '\n' :: rest => do
    let (body, rest) ← escapedLines rest
    return ('\n' :: body, rest)
  | c :: rest => do
    if !isPlain c && c != '\n' then none
    let (body, rest) ← escapedLines rest
    return (c :: body, rest)
  | [] => none

/-- The body of a string without escapes over several lines. -/
def rawLines : Reader (List Char)
  | '\'' :: '\'' :: '\'' :: '\'' :: '\'' :: rest => some (['\'', '\''], rest)
  | '\'' :: '\'' :: '\'' :: '\'' :: rest => some (['\''], rest)
  | '\'' :: '\'' :: '\'' :: rest => some ([], rest)
  | '\r' :: '\n' :: rest => do
    let (body, rest) ← rawLines rest
    return ('\n' :: body, rest)
  | c :: rest => do
    if !isPlain c && c != '\n' then none
    let (body, rest) ← rawLines rest
    return (c :: body, rest)
  | [] => none

/-! ### Escapes -/

/-- The character with that number, in hexadecimal digits. -/
def codePoint? (word : List Char) : Option Char :=
  let number := ofDigits 16 word
  if word.all isHexDigit && number.isValidChar then some (Char.ofNat number) else none

/-- The characters that an escape names by a letter. -/
def namedEscape? (c : Char) : Option Char :=
  let names :=
    [('b', '\x08'), ('t', '\t'), ('n', '\n'), ('f', '\x0c'), ('r', '\r'), ('"', '"'), ('\\', '\\')]
  (names.find? (·.1 == c)).map (·.2)

/-- The text that a body stands for. A line that ends in an escape goes on with the next character
that is neither blank nor a line end; `skipping` says whether that one is still to come. -/
def unescape (skipping : Bool) : List Char → Option (List Char)
  | [] => some []
  | '\\' :: 'u' :: a :: b :: c :: d :: rest => do
    return (← codePoint? [a, b, c, d]) :: (← unescape false rest)
  | '\\' :: 'U' :: a :: b :: c :: d :: e :: f :: g :: h :: rest => do
    return (← codePoint? [a, b, c, d, e, f, g, h]) :: (← unescape false rest)
  | '\\' :: c :: rest =>
    match namedEscape? c with
    | some named => (unescape false rest).map (named :: ·)
    | none =>
      if (newline? (skipBlanks (c :: rest))).isSome then unescape true rest else none
  | c :: rest =>
    if c == '\\' then none
    else if skipping && (isBlank c || c == '\n') then unescape true rest
    else (unescape false rest).map (c :: ·)

/-! ### Strings -/

/-- The text of a body with escapes. -/
def resolved (found : Option (List Char × List Char)) : Option (String × List Char) := do
  let (body, rest) ← found
  return (String.ofList (← unescape false body), rest)

/-- The text of a body without escapes. -/
def verbatim (found : Option (List Char × List Char)) : Option (String × List Char) :=
  found.map fun (body, rest) => (String.ofList body, rest)

/-- A string on one line, or nothing if there is no quote. -/
def shortString? : List Char → Option (Option (String × List Char))
  | '"' :: rest => some (resolved (escapedBody rest))
  | '\'' :: rest => some (verbatim (rawBody rest))
  | _ => none

/-- A string of either kind, or nothing if there is no quote. A line end right behind the opening
quotes of a long string does not belong to it. -/
def string? : List Char → Option (Option (String × List Char))
  | '"' :: '"' :: '"' :: rest => some (resolved (escapedLines ((newline? rest).getD rest)))
  | '\'' :: '\'' :: '\'' :: rest => some (verbatim (rawLines ((newline? rest).getD rest)))
  | s => shortString? s

end GrammarFormat.Toml
