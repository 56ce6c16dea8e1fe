/-!
# Blanks, comments and line ends

Readers of settings files take a text and give what they read with the rest of the text. The ones
here skip what stands between the parts of a file.
-/

namespace GrammarFormat.Toml

/-- A reader gives what it read and the rest of the text, or nothing where the text is wrong. -/
abbrev Reader (α : Type) := List Char → Option (α × List Char)

def isBlank (c : Char) : Bool :=
  c == ' ' || c == '\t'

/-- The characters of comments and strings: no control characters but the tab. -/
def isPlain (c : Char) : Bool :=
  c == '\t' || (0x20 ≤ c.toNat && c.toNat != 0x7F)

def skipBlanks (s : List Char) : List Char :=
  s.dropWhile isBlank

/-- The rest behind an optional comment. -/
def skipComment : List Char → List Char
  | '#' :: rest => rest.dropWhile isPlain
  | s => s

/-- The rest behind a line end. -/
def newline? : List Char → Option (List Char)
  | '\n' :: rest => some rest
  | '\r' :: '\n' :: rest => some rest
  | _ => none

/-- The rest behind blanks, an optional comment and the end of the line or of the text. -/
def endOfLine? (s : List Char) : Option (List Char) :=
  match skipComment (skipBlanks s) with
  | [] => some []
  | rest => newline? rest

/-- The rest behind any blanks, comments and line ends. -/
def skipLines : (steps : Nat) → List Char → List Char
  | 0, s => s
  | steps + 1, s =>
    let rest := skipComment (skipBlanks s)
    match newline? rest with
    | some rest => skipLines steps rest
    | none => rest

end GrammarFormat.Toml
