import GrammarFormat.Layout.Render
import GrammarFormat.LineEnding
import GrammarFormat.Text.Quoted

/-!
# What a run reports

The steps of a run that are worth a line in a log, as data, and the wording of those lines.
-/

namespace GrammarFormat

inductive Event where
  | tokenized (bytes tokens : Nat)
  | formatting (tokens : Nat) (range : LineRange)
  /-- The first piece inside of the range was reached. -/
  | firstPiece (line : Nat)
  | bodyStarts (line : Nat)
  | gapAfter (kind : TokenKind) (index : Nat) (gap : Gap)
  | settings (unit : String) (ending : LineEnding)
  | reformatted (path : String)
  deriving DecidableEq, Repr

inductive Level where
  | info | debug | trace
  deriving DecidableEq, Repr

def Level.name : Level → String
  | info => "INFO"
  | debug => "DEBUG"
  | trace => "TRACE"

def Gap.describe (gap : Gap) : String :=
  "Gap \x7b newlines: " ++ toString gap.newlines ++ ", indent: " ++ toString gap.indent ++
    ", space: " ++ toString gap.space ++ " \x7d"

namespace Event

def level : Event → Level
  | gapAfter .. => .trace
  | reformatted _ => .info
  | _ => .debug

def message : Event → String
  | tokenized bytes tokens =>
    "tokenized " ++ toString bytes ++ " bytes into " ++ toString tokens ++ " tokens"
  | formatting tokens range =>
    "formatting " ++ toString tokens ++ " tokens, lines " ++ toString range.first ++ "..=" ++
      toString range.lastShown
  | firstPiece line => "first piece in range at line " ++ toString line
  | bodyStarts line => "body starts at line " ++ toString line
  | gapAfter kind index gap =>
    "gap after " ++ kind.name ++ " at " ++ toString index ++ ": " ++ gap.describe
  | settings unit ending =>
    "indent unit " ++ Text.quoted unit ++ ", line ending " ++ ending.name
  | reformatted path => "reformatted " ++ path

/-- The part of the program that an event comes from. -/
def origin : Event → String
  | tokenized .. => "jjformat::jj::lexing"
  | formatting .. => "jjformat::jj::formatting"
  | firstPiece _ => "jjformat::jj::formatting::output"
  | bodyStarts _ => "jjformat::jj::formatting::context"
  | gapAfter .. => "jjformat::jj::formatting::layout"
  | settings .. | reformatted _ => "jjformat"

end Event

end GrammarFormat
