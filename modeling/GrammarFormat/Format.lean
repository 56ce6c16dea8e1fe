import GrammarFormat.Event
import GrammarFormat.Layout.Render
import GrammarFormat.Token.Lexer

/-!
# Formatting

`format` lays a token stream out anew, `formatSource` does so for a text. Both have a companion that
lists the events of the same run.
-/

namespace GrammarFormat

inductive FormatError where
  /-- The stream has no token but end marks. -/
  | noFirstToken
  /-- The source could not be cut into tokens. -/
  | lex (error : LexError)
  deriving DecidableEq, Repr

def FormatError.message : FormatError → String
  | noFirstToken => "nothing to format: no first token"
  | lex error => "cannot tokenize: " ++ error.message

/-- The text of the lines in `range`, formatted. -/
def format (s : TokenStream) (style : Style) (range : LineRange) : Except FormatError String :=
  if s.isEmpty then .error .noFirstToken
  else .ok (Layout.render style range (Layout.pieces s))

def formatSource (source : String) (style : Style) (range : LineRange) :
    Except FormatError String :=
  match tokenize source with
  | .ok s => format s style range
  | .error e => .error (.lex e)

/-! ### The events of a run -/

/-- The events of tokenizing; there are none if it fails. -/
def tokenizeEvents (source : String) : List Event :=
  match tokenize source with
  | .ok s => [.tokenized source.utf8ByteSize s.size]
  | .error _ => []

/-- The events of laying out the tokens from `i` on, where `started` says whether a piece in the
range was reached before, and `body` whether the body was. -/
def layoutEvents (s : TokenStream) (range : LineRange) (i : Nat) (started body : Bool) :
    List (List Piece) → List Layout.Decision → List Event
  | [], _ => []
  | group :: groups, decisions =>
    let first? := group.find? (·.isIn range)
    let reached := if started then [] else (first?.map (.firstPiece ·.firstLine)).toList
    match decisions with
    | [] => reached
    | decision :: decisions =>
      let line := ((s.get? i).map (·.first.line)).getD 0
      let bodyStart := if decision.scope.body && !body then [.bodyStarts line] else []
      reached ++ bodyStart ++ [.gapAfter (s.kind i) i decision.gap] ++
        layoutEvents s range (i + 1) (started || first?.isSome) decision.scope.body groups decisions

def formatEvents (s : TokenStream) (range : LineRange) : List Event :=
  if s.isEmpty then []
  else .formatting s.size range ::
    layoutEvents s range 0 false false (Layout.groups s) (Layout.decisions s)

def formatSourceEvents (source : String) (range : LineRange) : List Event :=
  match tokenize source with
  | .ok s => tokenizeEvents source ++ formatEvents s range
  | .error _ => []

end GrammarFormat
