import Monkey.Repl

/-!
# Files

Sources can be kept in files.  The content of a working directory is a list of files and
directories with their paths, and a path is followed in it from one name to the next.

## Main definitions

* `Directory`, `Directory.read` — the content of a working directory, and reading a file in it.
* `ReadFailure` — why a file cannot be read.
* `Session.runFile` — evaluating the source in a file.
-/

namespace Monkey

/-- What a path leads to. -/
inductive Entry
  | file (bytes : List UInt8)
  | directory

/-- The content of a working directory: each file and directory with the names that lead to it. -/
abbrev Directory := List (List String × Entry)

/-- Why a file cannot be read. -/
inductive ReadFailure
  | notFound
  | permissionDenied
  /-- The content is not text. -/
  | invalidText
  | isADirectory
  /-- The path leads through a file. -/
  | notADirectory
  | nameTooLong
  /-- The path holds the character of code zero. -/
  | nulInPath
  /-- Anything else, in the words of the system. -/
  | other (text : String)
  deriving DecidableEq, Repr, Inhabited

/-- The wording of a failure to read the file of a given path. -/
def ReadFailure.message (path : String) : ReadFailure → String
  | .notFound => "cannot find file '" ++ path ++ "'"
  | .permissionDenied => "permission denied reading '" ++ path ++ "'"
  | .invalidText => "'" ++ path ++ "' contains invalid UTF-8 data"
  | .isADirectory => "error reading '" ++ path ++ "': Is a directory (os error 21)"
  | .notADirectory => "error reading '" ++ path ++ "': Not a directory (os error 20)"
  | .nameTooLong => "error reading '" ++ path ++ "': File name too long (os error 36)"
  | .nulInPath =>
    "error reading '" ++ path ++ "': file name contained an unexpected NUL byte"
  | .other text => "error reading '" ++ path ++ "': " ++ text

/-- The names in a path, which slashes part. -/
def pathNames (path : String) : List String := path.splitOn "/"

/-- Whether a name in a path stays where it is: nothing between two slashes, or one dot. -/
def staysInPlace (name : String) : Bool := name == "" || name == "."

/-- The names in a path that lead on. -/
def properNames (path : String) : List String :=
  (pathNames path).filter fun name => !staysInPlace name

/-- Where a path has led to. -/
inductive Place
  /-- From the working directory along the names. -/
  | inside (names : List String)
  /-- Out of the working directory, to a directory around it; nothing else is known there. -/
  | outside

namespace Directory

/-- What a sequence of names leads to.  Every proper beginning of the path of an entry is a
directory, and so is the working directory itself. -/
def entry? (d : Directory) (names : List String) : Option Entry :=
  match d.find? fun e => e.1 == names with
  | some e => some e.2
  | none =>
    if names.isEmpty || d.any fun e => names.isPrefixOf e.1 then some .directory else none

/-- The longest name in bytes. -/
def maxNameLength : Nat := 255

/-- The longest path in bytes. -/
def maxPathLength : Nat := 4095

/-- What is found at a place. -/
def entryAt (d : Directory) : Place → Except ReadFailure Entry
  | .outside => .ok .directory
  | .inside names =>
    match d.entry? names with
    | some e => .ok e
    | none => .error .notFound

/-- The place that a name leads to from a directory. -/
def step (name : String) : Place → Except ReadFailure Place
  | .outside =>
    if staysInPlace name || name == ".." then .ok .outside
    else if maxNameLength < name.utf8ByteSize then .error .nameTooLong
    else .error .notFound
  | .inside names =>
    if staysInPlace name then .ok (.inside names)
    else if name = ".." then .ok (if names.isEmpty then .outside else .inside names.dropLast)
    else if maxNameLength < name.utf8ByteSize then .error .nameTooLong
    else .ok (.inside (names ++ [name]))

/-- Follows names from a place. -/
def follow (d : Directory) : Place → List String → Except ReadFailure Entry
  | here, [] => d.entryAt here
  | here, name :: rest =>
    match d.entryAt here with
    | .error failure => .error failure
    | .ok (.file _) => .error .notADirectory
    | .ok .directory =>
      match step name here with
      | .error failure => .error failure
      | .ok there => d.follow there rest

/-- The text of a file.  A path that starts with a slash starts outside. -/
def read (d : Directory) (path : String) : Except ReadFailure String :=
  if path.toList.contains '\x00' then .error .nulInPath
  else if path = "" then .error .notFound
  else if maxPathLength < path.utf8ByteSize then .error .nameTooLong
  else
    match d.follow (if path.startsWith "/" then .outside else .inside []) (pathNames path) with
    | .error failure => .error failure
    | .ok .directory => .error .isADirectory
    | .ok (.file bytes) =>
      match decodeText? bytes with
      | some text => .ok text
      | none => .error .invalidText

end Directory

/-- Why the source in a file has no value. -/
inductive FileError
  | unreadable (path : String) (failure : ReadFailure)
  | session (error : SessionError)
  /-- The value of the source is an error. -/
  | runtime (message : String)

/-- The wording of a file error. -/
def FileError.message : FileError → String
  | .unreadable path failure => failure.message path
  | .session error => error.message
  | .runtime message => "ERROR: " ++ message

/-- What the evaluation of the source of a file amounts to; without a value it is `null`. -/
def fileResult : Except SessionError (Option Value) → Except FileError Value
  | .error error => .error (.session error)
  | .ok none => .ok .null
  | .ok (some (.error _ message)) => .error (.runtime message)
  | .ok (some value) => .ok value

/-- Evaluates the source of a file, given what reading the file gave. -/
def Session.runFile (budget : Nat) (path : String) (content : Except ReadFailure String)
    (s : Session) : Option (Except FileError Value × Session) :=
  match content with
  | .error failure => some (.error (.unreadable path failure), s)
  | .ok source => (s.run budget source).map fun (result, s) => (fileResult result, s)

end Monkey
