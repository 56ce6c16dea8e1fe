import GrammarFormat.Toml.Value

/-!
# Layers of settings

Settings are a tree of tables. A later layer changes only what it names: a table goes into the table
that was there, member by member, and any other value replaces what was there. Keys are compared
without regard to letter case.
-/

namespace GrammarFormat.Settings

open Toml (Value member? put)

/-- The members of a table; other values have none. -/
def members : Value → List (String × Value)
  | .table members => members
  | _ => []

mutual

/-- Sets one key of a table. What is no table becomes one. -/
def assign (key : String) (value : Value) (root : Value) : Value :=
  let key := key.toLower
  match value with
  | .table incoming =>
    let target := (member? key (members root)).getD (.table [])
    .table (put key (assignAll incoming target) (members root))
  | value => .table (put key value (members root))

/-- Sets the keys of a table one by one; without any, everything stays as it was. -/
def assignAll : List (String × Value) → Value → Value
  | [], root => root
  | (key, value) :: rest, root => assignAll rest (assign key value root)

end

/-- A step on the way to a setting. -/
inductive Step where
  | key (name : String)
  /-- The item of an array; a negative index counts from the end. -/
  | item (index : Int)
  deriving DecidableEq, Repr

/-- The items of an array; other values have none. -/
def items : Value → List Value
  | .array items => items
  | _ => []

/-- The place that an index stands for among so many items, or none in front of the first. -/
def place? (size : Nat) (index : Int) : Option Nat :=
  let place := if index < 0 then size + index else index
  if place < 0 then none else some place.toNat

/-- The items with the one at a place changed. Places in front of it that were not given are left
unset. -/
def changeItem (change : Value → Value) : (place : Nat) → List Value → List Value
  | 0, [] => [change .unset]
  | 0, item :: rest => change item :: rest
  | place + 1, [] => .unset :: changeItem change place []
  | place + 1, item :: rest => item :: changeItem change place rest

/-- Sets what a path leads to. What is on the way and does not fit the path makes room for it. -/
def assignPath (value : Value) : List Step → Value → Value
  | [], _ => value
  | [.key name], root => assign name value root
  | .key name :: path, root =>
    let inner := (member? name.toLower (members root)).getD .unset
    .table (put name.toLower (assignPath value path inner) (members root))
  | .item index :: path, root =>
    match place? (items root).length index with
    | some place => .array (changeItem (assignPath value path) place (items root))
    | none => .array (items root)

/-! ### Paths -/

def isPathChar (c : Char) : Bool :=
  c.isAlphanum || c == '_' || c == ' ' || c == '-'

/-- An index with blanks around it, in the range of 64 bits. -/
def index? (word : List Char) : Option Int :=
  let isBlank (c : Char) := c == ' ' || c == '\t'
  let word := ((word.dropWhile isBlank).reverse.dropWhile isBlank).reverse
  let (negative, digits) :=
    match word with
    | '-' :: rest => (true, rest)
    | digits => (false, digits)
  let size := digits.foldl (fun n c => n * 10 + (c.toNat - '0'.toNat)) 0
  if digits.isEmpty || !digits.all Char.isDigit || 0x8000000000000000 ≤ size then none
  else some (if negative then -(size : Int) else size)

/-- The steps behind the first name of a path: names behind dots, and indices in brackets. -/
def steps? : (bound : Nat) → List Char → Option (List Step)
  | _, [] => some []
  | bound + 1, '.' :: rest =>
    match rest.takeWhile isPathChar with
    | [] => none
    | name => (steps? bound (rest.dropWhile isPathChar)).map (.key (String.ofList name) :: ·)
  | bound + 1, '[' :: rest =>
    match rest.dropWhile (· != ']') with
    | _ :: following => do
      let index ← index? (rest.takeWhile (· != ']'))
      return .item index :: (← steps? bound following)
    | [] => none
  | _, _ => none

/-- The steps of a path, which starts with a name. -/
def path? (key : String) : Option (List Step) :=
  steps? (key.length + 1) ('.' :: key.toList)

/-- The members of a file go over what was there. A key at its root may be a path. -/
def mergeFile (file : List (String × Value)) (root : Value) : Value :=
  file.foldl (fun root (key, value) => assignPath value ((path? key).getD [.key key]) root) root

end GrammarFormat.Settings
