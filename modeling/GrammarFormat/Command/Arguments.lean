import GrammarFormat.Command.Lines
import GrammarFormat.LineEnding

/-!
# The command line

`parse` reads the arguments of a call into a `Request`. Arguments are taken from left to right. The
value of an option that stands in an argument of its own is looked at only when the next argument is
taken, so that an unknown argument right behind it is reported first.
-/

namespace GrammarFormat.Command

/-- What can be given on the command line. -/
inductive Parameter where
  | path | lines | config | indent | lineEnding | inPlace
  | check | tokens | verbose | help | version
  deriving DecidableEq, Repr

namespace Parameter

/-- How messages call a parameter. -/
def name : Parameter → String
  | path => "[path]"
  | lines => "--lines <FIRST:LAST>"
  | config => "--config <FILE>"
  | indent => "--indent <STR>"
  | lineEnding => "--line-ending <line-ending>"
  | inPlace => "--in-place"
  | check => "--check"
  | tokens => "--tokens"
  | verbose => "--verbose"
  | help => "--help"
  | version => "--version"

/-- What the help says about a parameter. -/
def about : Parameter → String
  | path => "Grammar file to format (reads stdin when absent)"
  | lines => "Only format this inclusive, 1-based line range"
  | config => "Configuration file layered over the defaults and ./jjformat.toml"
  | indent => "Indent unit, overriding the configuration"
  | lineEnding => "Line terminator, overriding the configuration"
  | inPlace => "Rewrite the file instead of printing it"
  | check => "Exit with status 1 when the input is not formatted"
  | tokens => "Print the token stream as JSON instead of formatting"
  | verbose => "Log debug information to stderr"
  | help => "Print help"
  | version => "Print version"

def ofLong? (word : String) : Option Parameter :=
  let words :=
    [("lines", lines), ("config", config), ("indent", indent), ("line-ending", lineEnding),
     ("in-place", inPlace), ("check", check), ("tokens", tokens), ("verbose", verbose),
     ("help", help), ("version", version)]
  (words.find? (·.1 == word)).map (·.2)

def ofShort? : Char → Option Parameter
  | 'c' => some config
  | 'i' => some inPlace
  | 'v' => some verbose
  | 'h' => some help
  | 'V' => some version
  | _ => none

def takesValue : Parameter → Bool
  | path | lines | config | indent | lineEnding => true
  | _ => false

/-- Parameters that cannot be given together. -/
def conflicts : Parameter → Parameter → Bool
  | lines, inPlace | inPlace, lines | lines, check | check, lines => true
  | inPlace, check | check, inPlace => true
  | tokens, lines | tokens, inPlace | tokens, check => true
  | lines, tokens | inPlace, tokens | check, tokens => true
  | _, _ => false

end Parameter

/-- What is asked for. -/
structure Request where
  path? : Option String := none
  lines? : Option LineRange := none
  config? : Option String := none
  indent? : Option String := none
  lineEnding? : Option LineEnding := none
  inPlace : Bool := false
  check : Bool := false
  tokens : Bool := false
  verbose : Bool := false
  deriving DecidableEq, Repr

/-- What is wrong with the arguments. -/
inductive UsageError where
  | unexpected (argument : String)
  | missingValue (parameter : Parameter)
  | unneededValue (parameter : Parameter) (value : String)
  | badRange (value : String) (cause : RangeError)
  | badLineEnding (value : String)
  | repeated (parameter : Parameter)
  | conflict (parameter : Parameter) (others : List Parameter)
  /-- A file is to be changed in place, and none is given. -/
  | missingPath
  deriving DecidableEq, Repr

def UsageError.message : UsageError → String
  | unexpected argument => "unexpected argument '" ++ argument ++ "' found"
  | missingValue parameter =>
    "a value is required for '" ++ parameter.name ++ "' but none was supplied"
  | unneededValue parameter value =>
    "unexpected value '" ++ value ++ "' for '" ++ parameter.name ++
      "' found; no more were expected"
  | badRange value cause =>
    "invalid value '" ++ value ++ "' for '" ++ Parameter.lines.name ++ "': " ++ cause.message
  | badLineEnding value =>
    "invalid value '" ++ value ++ "' for '" ++ Parameter.lineEnding.name ++ "'"
  | repeated parameter => "the argument '" ++ parameter.name ++ "' cannot be used multiple times"
  | conflict parameter [other] =>
    "the argument '" ++ parameter.name ++ "' cannot be used with '" ++ other.name ++ "'"
  | conflict parameter others =>
    "the argument '" ++ parameter.name ++ "' cannot be used with:" ++
      String.join (others.map fun other => "\n  " ++ other.name)
  | missingPath => "the following required arguments were not provided:\n  <path>"

/-- Why reading the arguments ends before they are all read. -/
inductive Stop where
  | usage (error : UsageError)
  | help
  | version
  deriving DecidableEq, Repr

/-- What has been read so far. -/
structure Reading where
  request : Request := {}
  /-- The parameters that were taken, in order. -/
  given : List Parameter := []
  /-- The parameter whose value is not looked at yet, and that value if it was read. -/
  pending? : Option (Parameter × Option String) := none
  /-- Whether a path was read. -/
  pathRead : Bool := false
  deriving DecidableEq, Repr

namespace Reading

/-- Puts a value into the request. -/
def store (r : Request) (value : String) : Parameter → Except UsageError Request
  | .path => .ok { r with path? := some value }
  | .config => .ok { r with config? := some value }
  | .indent => .ok { r with indent? := some value }
  | .lines =>
    match parseRange value with
    | .ok range => .ok { r with lines? := some range }
    | .error cause => .error (.badRange value cause)
  | .lineEnding =>
    match LineEnding.ofName? value with
    | some ending => .ok { r with lineEnding? := some ending }
    | none => .error (if value.isEmpty then .missingValue .lineEnding else .badLineEnding value)
  | .inPlace => .ok { r with inPlace := true }
  | .check => .ok { r with check := true }
  | .tokens => .ok { r with tokens := true }
  | .verbose => .ok { r with verbose := true }
  | .help | .version => .ok r

/-- Takes a parameter with its value; a flag has none. -/
def take (st : Reading) (parameter : Parameter) (value : String) : Except Stop Reading :=
  if st.given.contains parameter then .error (.usage (.repeated parameter))
  else
    match store st.request value parameter with
    | .ok request => .ok { st with request := request, given := st.given ++ [parameter] }
    | .error e => .error (.usage e)

/-- Looks at the value that is pending. -/
def settle (st : Reading) : Except Stop Reading :=
  match st.pending? with
  | none => .ok st
  | some (parameter, none) => .error (.usage (.missingValue parameter))
  | some (parameter, some value) => { st with pending? := none }.take parameter value

/-- A flag, or an option with its value in the same argument. -/
def takeNow (st : Reading) (parameter : Parameter) (value : String) : Except Stop Reading := do
  let st ← st.settle
  match parameter with
  | .help => throw .help
  | .version => throw .version
  | _ => st.take parameter value

/-- An option whose value is to come in the next argument. -/
def await (st : Reading) (parameter : Parameter) : Except Stop Reading := do
  return { ← st.settle with pending? := some (parameter, none) }

/-- An argument `--word` or `--word=value`. -/
def long (st : Reading) (word : String) (value? : Option String) : Except Stop Reading :=
  match Parameter.ofLong? word, value? with
  | none, _ => .error (.usage (.unexpected ("--" ++ word)))
  | some parameter, some value =>
    if parameter.takesValue then st.takeNow parameter value
    else .error (.usage (.unneededValue parameter value))
  | some parameter, none =>
    if parameter.takesValue then st.await parameter else st.takeNow parameter ""

/-- The letters of an argument `-abc`. The first that takes a value has it in the rest, or in the
next argument if there is no rest. -/
def short (st : Reading) : List Char → Except Stop Reading
  | [] => .ok st
  | c :: rest =>
    match Parameter.ofShort? c with
    | none => .error (.usage (.unexpected (String.ofList ['-', c])))
    | some parameter =>
      if parameter.takesValue then
        match rest with
        | [] => st.await parameter
        | '=' :: value => st.takeNow parameter (String.ofList value)
        | value => st.takeNow parameter (String.ofList value)
      else do
        (← st.takeNow parameter "").short rest

/-- An argument that is no option. -/
def plain (st : Reading) (argument : String) : Except Stop Reading :=
  if st.pathRead then .error (.usage (.unexpected argument))
  else do
    return { ← st.settle with pending? := some (.path, some argument), pathRead := true }

/-- One argument in front of `--`. -/
def argument (st : Reading) (arg : String) : Except Stop Reading :=
  match arg.toList, st.pending? with
  | '-' :: '-' :: word, _ =>
    match word.span (· != '=') with
    | (word, []) => st.long (String.ofList word) none
    | (word, _ :: value) => st.long (String.ofList word) (some (String.ofList value))
  | '-' :: c :: rest, _ => st.short (c :: rest)
  | _, some (parameter, none) => .ok { st with pending? := some (parameter, some arg) }
  | _, _ => st.plain arg

/-- All arguments; `ended` says whether `--` was read. -/
def arguments (st : Reading) (ended : Bool) : List String → Except Stop Reading
  | [] => st.settle
  | arg :: rest => do
    if ended then (← st.plain arg).arguments true rest
    else if arg == "--" then st.arguments true rest
    else (← st.argument arg).arguments false rest

/-- What does not fit together: the first parameter that conflicts with others. -/
def conflict? (st : Reading) : Option UsageError :=
  st.given.findSome? fun parameter =>
    match st.given.filter parameter.conflicts with
    | [] => none
    | others => some (.conflict parameter others)

end Reading

/-- The request that the arguments make. -/
def parse (args : List String) : Except Stop Request := do
  let st ← Reading.arguments {} false args
  match st.conflict? with
  | some e => throw (.usage e)
  | none =>
    if st.request.inPlace && st.request.path?.isNone then throw (.usage .missingPath)
    else return st.request

end GrammarFormat.Command
