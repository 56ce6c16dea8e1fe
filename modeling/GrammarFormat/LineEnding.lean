/-!
# Line endings

Which line terminator a formatted text gets: a fixed one, or the first one of its source.
-/

namespace GrammarFormat

inductive LineEnding where
  | auto | lf | crlf | cr
  deriving DecidableEq, Repr

namespace LineEnding

def all : List LineEnding := [auto, lf, crlf, cr]

def name : LineEnding → String
  | auto => "auto"
  | lf => "lf"
  | crlf => "crlf"
  | cr => "cr"

/-- The line ending of that name; letter case counts. -/
def ofName? (name : String) : Option LineEnding :=
  all.find? (·.name == name)

/-- The first line terminator of a text, `\n` if it has none. -/
def firstTerminator : List Char → String
  | [] => "\n"
  | '\r' :: '\n' :: _ => "\r\n"
  | '\r' :: _ => "\r"
  | '\n' :: _ => "\n"
  | _ :: rest => firstTerminator rest

/-- The line terminator to use for `source`. -/
def resolve (ending : LineEnding) (source : String) : String :=
  match ending with
  | auto => firstTerminator source.toList
  | lf => "\n"
  | crlf => "\r\n"
  | cr => "\r"

end LineEnding

end GrammarFormat
