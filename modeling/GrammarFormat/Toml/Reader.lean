import GrammarFormat.Toml.Date
import GrammarFormat.Toml.Strings
import GrammarFormat.Toml.Table

/-!
# Reading settings files

Settings files are TOML: comments, headers, dotted keys, inline tables, arrays, strings, scalars and
dates. A date is read as its text.

Readers that read repeatedly have a bound on the number of steps; every step takes a character, so
the length of the text is enough.
-/

namespace GrammarFormat.Toml

/-- Keys have fewer parts than this, and so many arrays and inline tables cannot stand in one
another. -/
def depthLimit : Nat := 80

/-! ### Keys -/

/-- One part of a key. -/
def simpleKey : Reader String
  | s =>
    match shortString? s with
    | some found => found
    | none =>
      let isPart (c : Char) := c.isAlphanum || c == '_' || c == '-'
      match s.takeWhile isPart with
      | [] => none
      | word => some (String.ofList word, s.dropWhile isPart)

/-- A key of at most `parts` parts between dots, and the blanks around it. -/
def keyParts : (parts : Nat) → Reader (List String)
  | 0, _ => none
  | parts + 1, s => do
    let (key, rest) ← simpleKey (skipBlanks s)
    match skipBlanks rest with
    | '.' :: rest =>
      let (path, rest) ← keyParts parts rest
      return (key :: path, rest)
    | rest => return ([key], rest)

/-- A key, which may be dotted, and the blanks around it. -/
def keyPath : Reader (List String) :=
  keyParts (depthLimit - 1)

/-! ### Values -/

def isScalarPart (c : Char) : Bool :=
  c.isAlphanum || c == '_' || c == '+' || c == '-' || c == '.' || c == ':'

/-- A value that holds no other values. -/
def simpleValue (s : List Char) : Option (Value × List Char) :=
  match string? s with
  | some found => found.map fun (text, rest) => (.string text, rest)
  | none =>
    match dateTime s with
    | some (d, rest) => some (.string d.text, rest)
    | none => (scalar? (s.takeWhile isScalarPart)).map (·, s.dropWhile isScalarPart)

mutual

/-- A value in which arrays and inline tables can stand in one another `depth` times. -/
def value : (steps depth : Nat) → Reader Value
  | 0, _, _ => none
  | steps + 1, depth + 1, '[' :: rest =>
    (items steps depth rest).map fun (items, rest) => (.array items, rest)
  | steps + 1, depth + 1, '\x7b' :: rest =>
    match skipBlanks rest with
    | '\x7d' :: rest => some (.table [], rest)
    | rest =>
      (pairs steps depth [] rest).map fun (members, rest) => (.table (toValues members), rest)
  | _ + 1, _, s => simpleValue s

/-- The rest of an array. A comma may stand behind the last item. -/
def items : (steps depth : Nat) → Reader (List Value)
  | 0, _, _ => none
  | steps + 1, depth, s =>
    match skipLines s.length s with
    | ']' :: rest => some ([], rest)
    | s => do
      let (item, rest) ← value steps depth s
      match skipLines rest.length rest with
      | ',' :: rest =>
        let (following, rest) ← items steps depth rest
        return (item :: following, rest)
      | ']' :: rest => return ([item], rest)
      | _ => none

/-- The rest of an inline table with the given members; it stands on one line. -/
def pairs : (steps depth : Nat) → Members → Reader Members
  | 0, _, _, _ => none
  | steps + 1, depth, members, s => do
    let (path, rest) ← keyPath s
    match rest with
    | '=' :: rest =>
      let (item, rest) ← value steps depth (skipBlanks rest)
      let members ← addPair none item path members
      match skipBlanks rest with
      | ',' :: rest => pairs steps depth members rest
      | '\x7d' :: rest => return (members, rest)
      | _ => none
    | _ => none

end

/-! ### Documents -/

/-- One line: what it makes of the header and the members before it, and the rest of the text. -/
def line (header : List String) (members : Members) (s : List Char) :
    Option (List String × Members × List Char) :=
  match skipBlanks s with
  | '[' :: '[' :: rest => do
    let (path, rest) ← keyPath rest
    match rest with
    | ']' :: ']' :: rest => return (path, ← openHeader .item path members, ← endOfLine? rest)
    | _ => none
  | '[' :: rest => do
    let (path, rest) ← keyPath rest
    match rest with
    | ']' :: rest => return (path, ← openHeader .table path members, ← endOfLine? rest)
    | _ => none
  | s =>
    match endOfLine? s with
    | some rest => some (header, members, rest)
    | none => do
      let (path, rest) ← keyPath s
      match rest with
      | '=' :: rest =>
        let (item, rest) ← value s.length (depthLimit - 1) (skipBlanks rest)
        let members ← within (addPair none item path) header members
        return (header, members, ← endOfLine? rest)
      | _ => none

def lines (header : List String) (members : Members) : (steps : Nat) → List Char → Option Members
  | _, [] => some members
  | 0, _ => none
  | steps + 1, s => do
    let (header, members, rest) ← line header members s
    lines header members steps rest

/-- The members of the root table of a settings file. -/
def read? (text : String) : Option (List (String × Value)) :=
  let s := text.toList
  let s := if s.head? = some '\uFEFF' then s.tail else s
  (lines [] [] s.length s).map toValues

end GrammarFormat.Toml
