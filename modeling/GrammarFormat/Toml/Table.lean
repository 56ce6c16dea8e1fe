import GrammarFormat.Toml.Value

/-!
# Building tables

A table of a settings file can be written down in several places: under headers, with dotted keys,
and inline. What may be added where depends on how a table came about, so that no key is ever given
twice. Headers in double brackets each add a table to an array, and the last one is the one that
can be added to.
-/

namespace GrammarFormat.Toml

/-- How a table came about. -/
inductive Origin where
  /-- As part of the path of a header. -/
  | onPath
  /-- By a header of its own. -/
  | header
  /-- As part of a dotted key. -/
  | dotted
  deriving DecidableEq, Repr

inductive Node where
  | leaf (value : Value)
  | table (origin : Origin) (members : List (String × Node))
  /-- An array of tables, the last of which is open. -/
  | tables (earlier : List Value) (last : List (String × Node))

/-- Members of a table that is being built. -/
abbrev Members := List (String × Node)

mutual

def Node.toValue : Node → Value
  | .leaf value => value
  | .table _ members => .table (toValues members)
  | .tables earlier last => .array (earlier ++ [.table (toValues last)])

def toValues : List (String × Node) → List (String × Value)
  | [] => []
  | (key, node) :: rest => (key, node.toValue) :: toValues rest

end

/-- The kind of a header. -/
inductive Header where
  /-- In single brackets: a table. -/
  | table
  /-- In double brackets: another table of an array. -/
  | item
  deriving DecidableEq, Repr

/-- What a header makes of the node that it names. A table must not have been opened before, nor
made by a dotted key. -/
def Header.opened? : Header → Option Node → Option Node
  | table, none => some (.table .header [])
  | table, some (.table .onPath members) => some (.table .header members)
  | item, none => some (.tables [] [])
  | item, some (.tables earlier last) =>
    some (.tables (earlier ++ [.table (toValues last)]) [])
  | _, some _ => none

/-- Opens what a header names. -/
def openHeader (header : Header) : List String → Members → Option Members
  | [], _ => none
  | [key], members => (header.opened? (member? key members)).map fun node => put key node members
  | key :: path, members =>
    match member? key members with
    | none => (openHeader header path []).map fun inner => put key (.table .onPath inner) members
    | some (.table origin inner) =>
      (openHeader header path inner).map fun inner => put key (.table origin inner) members
    | some (.tables earlier last) =>
      (openHeader header path last).map fun last => put key (.tables earlier last) members
    | some (.leaf _) => none

/-- Adds a value under a dotted key; `reached` is the origin of the table that earlier parts of the
key led to. A dotted key goes through no table with a header, and ends in a table of dotted keys. -/
def addPair (reached : Option Origin) (value : Value) : List String → Members → Option Members
  | [], _ => none
  | [key], members =>
    if (reached.all (· == .dotted)) && (member? key members).isNone then
      some (put key (.leaf value) members)
    else none
  | key :: path, members =>
    match member? key members with
    | none =>
      (addPair (some .dotted) value path []).map fun inner =>
        put key (.table .dotted inner) members
    | some (.table .header _) => none
    | some (.table origin inner) =>
      (addPair (some origin) value path inner).map fun inner =>
        put key (.table origin inner) members
    | some (.tables earlier last) =>
      (addPair (some .header) value path last).map fun last =>
        put key (.tables earlier last) members
    | some (.leaf _) => none

/-- Changes the table of an open header. -/
def within (change : Members → Option Members) : List String → Members → Option Members
  | [], members => change members
  | key :: path, members =>
    match member? key members with
    | some (.table origin inner) =>
      (within change path inner).map fun inner => put key (.table origin inner) members
    | some (.tables earlier last) =>
      (within change path last).map fun last => put key (.tables earlier last) members
    | _ => none

end GrammarFormat.Toml
