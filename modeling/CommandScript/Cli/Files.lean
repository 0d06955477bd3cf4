import CommandScript.ScriptPath

/-!
# Files

Why a file cannot be read, and a set of files that can stand in for a
directory.
-/

namespace CommandScript.Cli

/-- Why a file has no text. -/
inductive ReadError where
  | notFound
  | notDirectory
  | isDirectory
  | nameTooLong
  | notText
  deriving DecidableEq, Repr

/-- The wording of a reason. -/
def ReadError.message : ReadError → String
  | notFound => "No such file or directory (os error 2)"
  | notDirectory => "Not a directory (os error 20)"
  | isDirectory => "Is a directory (os error 21)"
  | nameTooLong => "File name too long (os error 36)"
  | notText => "stream did not contain valid UTF-8"

/-- What reading a file gives: its bytes, or why there are none. -/
abbrev Contents := Except ReadError ByteArray

/-- The text in the bytes of a file. -/
def textOf (c : Contents) : Except ReadError String := do
  match String.fromUTF8? (← c) with
  | some text => .ok text
  | none => .error .notText

/-- Files by their paths below a directory, which has no others. -/
structure Files where
  entries : List (List String × ByteArray)

namespace Files

/-- The files with the given paths and contents. -/
def ofList (entries : List (String × ByteArray)) : Files :=
  ⟨entries.map fun (path, bytes) =>
    ((ScriptPath.components path).filterMap fun
      | .name text => some text
      | _ => none, bytes)⟩

def file? (fs : Files) (place : List String) : Option ByteArray :=
  fs.entries.lookup place

/-- Whether there is a file below a place. -/
def isDirectory (fs : Files) (place : List String) : Bool :=
  place.isEmpty || fs.entries.any fun (path, _) =>
    place.length < path.length && place.isPrefixOf path

/-- Where a path leads: to a place below the directory, or out of it. -/
inductive Place where
  | inside (place : List String)
  | outside
  deriving DecidableEq, Repr

/-- How many bytes the name of a file may have. -/
def longestName : Nat := 255

/-- How many bytes a path may have. -/
def longestPath : Nat := 4095

/-- The place reached from another one by the texts between the slashes of a
path. Each text needs a directory to start from. What is outside is known to
be a directory, and nothing is known to be in it. -/
def walk (fs : Files) : Place → List String → Except ReadError Place
  | place, [] => .ok place
  | .outside, text :: rest =>
    if text = "" ∨ text = "." ∨ text = ".." then fs.walk .outside rest
    else if longestName < text.utf8ByteSize then .error .nameTooLong
    else .error .notFound
  | .inside place, text :: rest =>
    if fs.isDirectory place then
      match text with
      | "" | "." => fs.walk (.inside place) rest
      | ".." => fs.walk (if place.isEmpty then .outside else .inside place.dropLast) rest
      | text =>
        if longestName < text.utf8ByteSize then .error .nameTooLong
        else fs.walk (.inside (place ++ [text])) rest
    else if (fs.file? place).isSome then .error .notDirectory
    else .error .notFound

/-- Reads the file at a path. -/
def read (fs : Files) (path : String) : Contents := do
  if longestPath < path.utf8ByteSize then throw .nameTooLong
  let start := if path.toList.head? = some '/' then .outside else .inside []
  match ← fs.walk start (ScriptPath.segments path) with
  | .outside => .error .isDirectory
  | .inside place =>
    if fs.isDirectory place then .error .isDirectory
    else
      match fs.file? place with
      | some bytes => .ok bytes
      | none => .error .notFound

end Files

end CommandScript.Cli
