import GrammarFormat.Command.Arguments
import GrammarFormat.Format
import GrammarFormat.Settings.Load
import GrammarFormat.Token.Json

/-!
# Runs of the program

`run` carries out a command line: it says from the arguments, the files and the standard input what
is printed, what is written, and the exit status. The status is 0 on success, 1 if a check finds a
text that is not formatted, and 2 on errors.
-/

namespace GrammarFormat.Command

/-- What a run leaves behind. -/
structure Outcome where
  status : Nat := 0
  output : String := ""
  /-- The lines of the standard error. -/
  errors : List String := []
  /-- The file that was written, and its new text. -/
  written? : Option (String × String) := none
  deriving DecidableEq, Repr

def programName : String := "jjformat"

def versionLine : String := programName ++ " 0.1.0\n"

/-- The settings file that is used if it stands in the working directory. -/
def projectFile : String := "jjformat.toml"

/-- A line of the help for an option with that short form, or with blanks in its place. -/
def helpLine (short : String) (option : Parameter) : String :=
  let values :=
    if option = .lineEnding then
      " [possible values: " ++ ", ".intercalate (LineEnding.all.map LineEnding.name) ++ "]"
    else ""
  "  " ++ short ++ option.name ++ Text.copies (27 - option.name.length) " " ++ "  " ++ option.about ++
    values ++ "\n"

def helpText : String :=
  "A formatter for JavaCC, JJTree and JTB grammar files\n\n" ++
  "Usage: " ++ programName ++ " [OPTIONS] [path]\n\n" ++
  "Arguments:\n  " ++ Parameter.path.name ++ "  " ++ Parameter.path.about ++ "\n\n" ++
  "Options:\n" ++ String.join
    [helpLine "    " .lines, helpLine "-c, " .config, helpLine "    " .indent, helpLine "    " .lineEnding,
     helpLine "-i, " .inPlace, helpLine "    " .check, helpLine "    " .tokens, helpLine "-v, " .verbose,
     helpLine "-h, " .help, helpLine "-V, " .version]

/-- A line of the log. -/
def logLine (event : Event) : String :=
  let level := event.level.name
  "[" ++ level ++ Text.copies (5 - level.length) " " ++ " " ++ event.origin ++ "] " ++ event.message

/-- The log of events, which is shown on request and without the smallest steps. -/
def logLines (request : Request) (events : List Event) : List String :=
  if request.verbose then (events.filter fun e => e.level != .trace).map logLine else []

/-- A run that ends with an error. -/
def failure (log : List String) (message : String) : Outcome where
  status := 2
  errors := log ++ [programName ++ ": " ++ message]

/-- The source text, or the message why there is none. -/
def readSource (files : Files) (stdin : ByteArray) : Option String → Except String String
  | some path =>
    (files.readText path).mapError fun e => "cannot read " ++ path ++ ": " ++ e.message
  | none => (decodeText stdin).mapError fun e => "cannot read stdin: " ++ e.message

/-- The layers of settings: the project's file, the file that is asked for, and what the command
line sets itself. -/
def layers (request : Request) : List Settings.Layer :=
  [.file projectFile false] ++
  (request.config?.map (.file · true)).toList ++
  (request.indent?.map fun unit => .override "formatting.indent_unit" (.string unit)).toList ++
  (request.lineEnding?.map fun ending =>
    .override "formatting.line_ending" (.string ending.name)).toList

/-- Prints the tokens of a source. -/
def runTokens (request : Request) (source : String) : Outcome :=
  let log := logLines request (tokenizeEvents source)
  match tokenize source with
  | .ok s => { output := s.toJson.pretty 0 ++ "\n", errors := log }
  | .error e => failure log e.message

/-- What becomes of a formatted text that ends with a line end. -/
def deliver (request : Request) (log : List String) (source text : String) : Outcome :=
  if request.check then
    if text == source then { errors := log }
    else { status := 1, errors := log ++ [request.path?.getD "<stdin>" ++ ": not formatted"] }
  else
    match request.inPlace, request.path? with
    | true, some path =>
      if text == source then { errors := log }
      else
        { errors := log ++ logLines request [.reformatted path], written? := some (path, text) }
    | _, _ => { output := text, errors := log }

/-- Formats a source with the given settings. -/
def runFormat (request : Request) (settings : Settings) (source : String) : Outcome :=
  let delimiter := settings.lineEnding.resolve source
  let range := request.lines?.getD .all
  let log := logLines request
    (.settings settings.indentUnit settings.lineEnding :: formatSourceEvents source range)
  match formatSource source ⟨delimiter, settings.indentUnit⟩ range with
  | .error .noFirstToken => failure log "nothing to format"
  | .error e => failure log e.message
  | .ok text =>
    if request.lines?.isSome then { output := text ++ "\n", errors := log }
    else deliver request log source (text ++ delimiter)

/-- Carries out a request. The source is read first, and printing tokens needs no settings. -/
def runRequest (files : Files) (stdin : ByteArray) (request : Request) : Outcome :=
  match readSource files stdin request.path? with
  | .error message => failure [] message
  | .ok source =>
    if request.tokens then runTokens request source
    else
      match Settings.load files (layers request) with
      | .error e => failure [] ("configuration error: " ++ e.message)
      | .ok settings => runFormat request settings source

/-- Carries out a command line. -/
def run (files : Files) (stdin : ByteArray) (args : List String) : Outcome :=
  match parse args with
  | .ok request => runRequest files stdin request
  | .error .help => { output := helpText }
  | .error .version => { output := versionLine }
  | .error (.usage e) => { status := 2, errors := ["error: " ++ e.message] }

/-! ### What a run looks at -/

/-- Whether carrying out a command line reads the standard input. -/
def readsStdin (args : List String) : Bool :=
  match parse args with
  | .ok request => request.path?.isNone
  | .error _ => false

/-- The paths that carrying out a command line looks at. -/
def paths (args : List String) : List String :=
  match parse args with
  | .error _ => []
  | .ok request =>
    let settings := projectFile :: request.config?.toList
    request.path?.toList ++ settings ++ settings.map (· ++ ".toml")

end GrammarFormat.Command
