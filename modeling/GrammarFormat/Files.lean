/-!
# Files

What a run can see of the file system: for every path, what is found there.
-/

namespace GrammarFormat

/-- What is found at a path. -/
inductive FileEntry where
  | missing
  | directory
  /-- The path goes through a file as if it were a directory. -/
  | blocked
  | file (bytes : ByteArray)

abbrev Files := String → FileEntry

/-- Why a text could not be read. -/
inductive ReadError where
  | notFound | isDirectory | notDirectory | notText
  deriving DecidableEq, Repr

def ReadError.message : ReadError → String
  | notFound => "No such file or directory (os error 2)"
  | isDirectory => "Is a directory (os error 21)"
  | notDirectory => "Not a directory (os error 20)"
  | notText => "stream did not contain valid UTF-8"

/-- The text that bytes encode. -/
def decodeText (bytes : ByteArray) : Except ReadError String :=
  match String.fromUTF8? bytes with
  | some text => .ok text
  | none => .error .notText

namespace Files

def readText (files : Files) (path : String) : Except ReadError String :=
  match files path with
  | .missing => .error .notFound
  | .directory => .error .isDirectory
  | .blocked => .error .notDirectory
  | .file bytes => decodeText bytes

def isFile (files : Files) (path : String) : Bool :=
  match files path with
  | .file _ => true
  | _ => false

/-! ### A directory

A working directory is given by the names of its files, each as the list of its parts. Where paths
lead that leave the directory is not known; nothing is found there.
-/

/-- Whether so many names lead to a directory. -/
def isDirectory (known : List (List String)) (names : List String) : Bool :=
  names.isEmpty || known.any fun file => names.isPrefixOf file && file != names

/-- The names that the parts of a path lead to from a place in the directory. Every part but the
last has to be a directory. -/
def follow (known : List (List String)) (names : List String) :
    (parts : List String) → Except ReadError (List String)
  | [] => .ok names
  | part :: rest =>
    if isDirectory known names then
      if part == "" || part == "." then follow known names rest
      else if part == ".." then
        if names.isEmpty then
          .error (if rest.all (["", ".", ".."].contains ·) then .isDirectory else .notFound)
        else follow known names.dropLast rest
      else follow known (names ++ [part]) rest
    else .error (if known.contains names then .notDirectory else .notFound)

/-- The names that a path leads to. -/
def locate (known : List (List String)) (path : String) : Except ReadError (List String) :=
  if path == "" then .error .notFound
  else if path.startsWith "/" then
    .error (if path.toList.all (· == '/') then .isDirectory else .notFound)
  else follow known [] (path.splitOn "/")

/-- The file name that a path stands for in a directory with these files. -/
def nameOf (files : List String) (path : String) : String :=
  match locate (files.map (·.splitOn "/")) path with
  | .ok names => "/".intercalate names
  | .error _ => path

/-- A working directory that holds exactly these files. -/
def ofList (entries : List (String × ByteArray)) : Files := fun path =>
  let known := entries.map (·.1.splitOn "/")
  match locate known path with
  | .ok names =>
    match entries.find? fun (name, _) => name.splitOn "/" == names with
    | some (_, bytes) => .file bytes
    | none => if isDirectory known names then .directory else .missing
  | .error .isDirectory => .directory
  | .error .notDirectory => .blocked
  | .error _ => .missing

end Files

end GrammarFormat
