import GrammarFormat.Decimal.Shortest
import GrammarFormat.Files
import GrammarFormat.LineEnding
import GrammarFormat.Settings.Layer
import GrammarFormat.Text.Quoted
import GrammarFormat.Toml.Reader

/-!
# Loading settings

`load` puts layers over the built-in settings: files in the order in which they are given, and after
them all overrides. Only what comes out at the end has to make sense.
-/

namespace GrammarFormat

structure Settings where
  indentUnit : String
  lineEnding : LineEnding
  deriving DecidableEq, Repr

namespace Settings

open Toml (Value member?)

inductive Layer where
  /-- A file; one that is not required may be missing. -/
  | file (path : String) (required : Bool)
  /-- One setting, under the path of its key. -/
  | override (key : String) (value : Value)

inductive Error where
  /-- A file is not written in the format of settings files. -/
  | badFile (path : String)
  | badPath (key : String)
  | missingFile (path : String)
  | unreadable (cause : ReadError)
  /-- The value of a key is an array or a table where a text is needed. -/
  | notText (key : String)
  | unknownLineEnding (name : String)
  /-- The line ending is neither a text nor a table with one key. -/
  | lineEndingShape
  /-- The formatting settings are not a table but what is described. -/
  | notTable (found : String)
  /-- The formatting settings are a list that is too short. -/
  | tooShort (length : Nat)
  | missingField (name : String)
  deriving DecidableEq, Repr

def Error.message : Error → String
  | badFile path => "cannot parse " ++ path
  | badPath key => "invalid path " ++ Text.quoted key
  | missingFile path => "configuration file \"" ++ path ++ "\" not found"
  | unreadable cause => cause.message
  | notText key => "invalid type for key " ++ Text.quoted key ++ ", expected a string"
  | unknownLineEnding name => "enum LineEnding does not have variant constructor " ++ name
  | lineEndingShape =>
    "value of enum LineEnding should be represented by either string or table with exactly one key"
  | notTable found => "invalid type: " ++ found ++ ", expected struct FormattingConfig"
  | tooShort length =>
    "invalid length " ++ toString length ++ ", expected struct FormattingConfig with 2 elements"
  | missingField name => "missing field `" ++ name ++ "`"

/-! ### Reading the merged settings -/

/-- Scalars stand for their text. -/
def textOf (key : String) : Value → Except Error String
  | .string text => .ok text
  | .integer n => .ok (toString n)
  | .boolean b => .ok (toString b)
  | .float x => .ok (Decimal.textOf x)
  | .array _ | .table _ | .unset => .error (.notText key)

def lineEndingNamed (name : String) : Except Error LineEnding :=
  match LineEnding.ofName? name.toLower with
  | some ending => .ok ending
  | none => .error (.unknownLineEnding name)

def lineEndingOf : Value → Except Error LineEnding
  | .string name => lineEndingNamed name
  | .table [(name, _)] => lineEndingNamed name
  | _ => .error .lineEndingShape

def required {α : Type} (name : String) : Option α → Except Error α
  | some a => .ok a
  | none => .error (.missingField name)

/-- The two settings, from a table by their names or from a list in this order. -/
def formattingOf : Value → Except Error Settings
  | .table members => do
    let unit? ← (member? "indent_unit" members).mapM (textOf "indent_unit")
    let ending? ← (member? "line_ending" members).mapM lineEndingOf
    return ⟨← required "indent_unit" unit?, ← required "line_ending" ending?⟩
  | .array [] => .error (.tooShort 0)
  | .array [unit] => do
    discard (textOf "indent_unit" unit)
    throw (.tooShort 1)
  | .array (unit :: ending :: _) => do
    return ⟨← textOf "indent_unit" unit, ← lineEndingOf ending⟩
  | .string text => .error (.notTable ("string " ++ Text.quoted text))
  | .integer n => .error (.notTable ("integer `" ++ toString n ++ "`"))
  | .boolean b => .error (.notTable ("boolean `" ++ toString b ++ "`"))
  | .float x =>
    let text := Decimal.textOf x
    let shown := if x.isFinite && !text.toList.contains '.' then text ++ ".0" else text
    .error (.notTable ("floating point `" ++ shown ++ "`"))
  | .unset => .error (.notTable "unit value")

/-! ### Layers -/

/-- The built-in settings. -/
def builtIn : Value :=
  .table [("formatting",
    .table [("indent_unit", .string "\t"), ("line_ending", .string LineEnding.auto.name)])]

/-- The file that a path stands for: the ending of settings files may be left out. -/
def locate? (files : Files) (path : String) : Option String :=
  [path, path ++ ".toml"].find? files.isFile

/-- The text of a settings file; an optional one that cannot be read is as good as none. -/
def fileText? (files : Files) (path : String) (required : Bool) : Except Error (Option String) :=
  let found : Except Error String :=
    match locate? files path with
    | none => .error (.missingFile path)
    | some path => (files.readText path).mapError .unreadable
  match found with
  | .ok text => .ok (some text)
  | .error e => if required then .error e else .ok none

/-- What a file layer makes of the settings before it. -/
def Layer.mergeInto (files : Files) (root : Value) : Layer → Except Error Value
  | .override .. => .ok root
  | .file path required => do
    match ← fileText? files path required with
    | none => return root
    | some text =>
      match Toml.read? text with
      | some members => return mergeFile members root
      | none => throw (.badFile path)

/-- The path and value of an override. -/
def Layer.override? : Layer → Except Error (Option (List Step × Value))
  | .file .. => .ok none
  | .override key value =>
    match path? key with
    | some path => .ok (some (path, value))
    | none => .error (.badPath key)

/-- The settings that the layers lead to. The keys of overrides are looked at before any file. -/
def load (files : Files) (layers : List Layer) : Except Error Settings := do
  let overrides ← layers.mapM Layer.override?
  let root ← layers.foldlM (fun root layer => layer.mergeInto files root) builtIn
  let root := overrides.reduceOption.foldl (fun root (path, value) => assignPath value path root)
    root
  match member? "formatting" (members root) with
  | some value => formattingOf value
  | none => throw (.missingField "formatting")

end Settings

end GrammarFormat
