import CommandScript.Diagnostic

/-!
# Reports

The text shown to the author of a script: for each diagnostic a headline, and
below it the lines around the one it is about, with their numbers in a column
and the line itself marked.
-/

namespace CommandScript

/-- A text for the author of a script, and whether it tells of errors. -/
structure Report where
  text : String := ""
  hasErrors : Bool := false
  deriving DecidableEq, Repr

namespace Report

/-- The number in the gutter, with blanks behind it up to the gutter's width. -/
def gutter (width number : Nat) : String :=
  let digits := number.repr
  digits ++ String.ofList (List.replicate (width - digits.length) ' ')

/-- A line of the script in a window around line `here`. -/
def row (width here index : Nat) (text : String) : String :=
  if index = here then gutter width (index + 1) ++ " * " ++ text ++ " <- HERE\n"
  else gutter width (index + 1) ++ " | " ++ text ++ "\n"

/-- The rows of the lines at most `radius` away from line `here`. -/
def window (here radius : Nat) (source : List String) : String :=
  let first := here - radius
  let last := min (here + radius) (source.length - 1)
  if source.isEmpty || last < first then ""
  else
    let width := (last + 1).repr.length
    let shown := (source.zipIdx.take (last + 1)).drop first
    String.join (shown.map fun (text, index) => row width here index text)

/-- The headline of a diagnostic about a script of the given name. -/
def headline (unit : String) (d : Diagnostic) : String :=
  s!"{d.severity.label} ({unit}:{d.line + 1}): {d.message}\n"

/-- The report on a script; nothing is said if there are no diagnostics. -/
def ofDiagnostics (unit : String) (radius : Nat) (source : List String)
    (ds : List Diagnostic) : Report :=
  if ds.isEmpty then {}
  else
    { text := s!"While compiling function '{unit}'\n" ++
        String.join (ds.map fun d => headline unit d ++ window d.line radius source)
      hasErrors := CommandScript.hasErrors ds }

end Report

end CommandScript
