/-!
# Paths of script files

A script is named after its file and the directory it is in: `demo:wave` for
`packs/demo/wave.cmd`. Paths have `/` between their components; empty
components and `.` count for nothing, except a `.` in front.
-/

namespace CommandScript.ScriptPath

/-- A part of a path. -/
inductive Component where
  | root
  /-- A `.` in front. -/
  | here
  /-- The component `..`. -/
  | up
  | name (text : String)
  deriving DecidableEq, Repr

/-- The texts between slashes. -/
def segments (path : String) : List String :=
  go path.toList |>.map .ofList
where
  go : List Char → List (List Char)
    | [] => [[]]
    | '/' :: cs => [] :: go cs
    | c :: cs =>
      match go cs with
      | [] => [[c]]
      | s :: ss => (c :: s) :: ss

/-- The component a text between slashes is. -/
def component? : String → Option Component
  | "" => none
  | "." => none
  | ".." => some .up
  | text => some (.name text)

/-- The parts of a path, those that count for nothing left out. -/
def components (path : String) : List Component :=
  match segments path with
  | "" :: rest =>
    if rest.isEmpty then [] else .root :: rest.filterMap component?
  | "." :: rest => .here :: rest.filterMap component?
  | all => all.filterMap component?

/-- The last component, if it is a name. -/
def fileName? (cs : List Component) : Option String :=
  match cs.getLast? with
  | some (.name text) => some text
  | _ => none

/-- The components before the last one; the root has none. -/
def parent? (cs : List Component) : Option (List Component) :=
  match cs.getLast? with
  | none | some .root => none
  | some _ => some cs.dropLast

/-- A file name without what follows its last dot, unless that dot is its
first character. -/
def stem (name : String) : String :=
  let reversed := name.toList.reverse
  let before := (reversed.dropWhile (· != '.')).drop 1
  if before.isEmpty then name else .ofList before.reverse

/-- The name of the script in a file. -/
def functionId (path : String) : String :=
  let cs := components path
  let name := (fileName? cs).elim "main" stem
  let space := ((parent? cs).bind fileName?).getD "local"
  space ++ ":" ++ name

end CommandScript.ScriptPath
