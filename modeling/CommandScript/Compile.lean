import CommandScript.Listing
import CommandScript.Lowering
import CommandScript.Reading
import CommandScript.Report
import CommandScript.Statement.Builtin

/-!
# Compiling a script

The lines of a file are assembled, read into a tree, lowered to directives
and linked. Every problem found on the way becomes a diagnostic; the tree is
lowered even if reading it found errors, so that one compile reports all
there is to report. A script with an error gives no program.
-/

namespace CommandScript

/-- Settings of a compiler. -/
structure Options where
  /-- How many lines around a diagnostic its report shows. -/
  radius : Nat := 2
  /-- The features before the first pragma. -/
  features : Features := {}
  deriving DecidableEq, Repr

/-- A grammar, the statement forms beside it, and the options of each compile. -/
structure Compiler (A : Type) where
  grammar : Grammar A
  forms : FormTable A := .builtin
  options : Options := {}

/-- All that a compile gives. -/
structure Compilation (A : Type) where
  id : String
  /-- The program, if there was no error. -/
  program : Option (Program A)
  diagnostics : List Diagnostic
  report : Report
  /-- The tree, if the feature for dumps was on at the end of the script. -/
  outline : Option String
  /-- The instructions with their labels, under the same condition. -/
  disassembly : Option String

namespace Compilation

variable {A : Type}

/-- What is said of a rejected script. -/
def rejection (c : Compilation A) : String :=
  s!"function '{c.id}' rejected with {errorCount c.diagnostics} error(s)\n{c.report.text}"

/-- The program, or what is said of a rejected script. -/
def result (c : Compilation A) : Except String (Program A) :=
  match c.program with
  | some p => .ok p
  | none => .error c.rejection

end Compilation

namespace Draft

variable {A : Type}

/-- The program a draft describes. -/
def toProgram (d : Draft A) (id : String) : Except Fault (Program A) := do
  let g ← Assembly.run {} d.code.toList
  g.toProgram id

/-- The program a draft describes, and its disassembly. -/
def toListing (d : Draft A) (id : String) : Except Fault (Program A × String) := do
  let l ← Listing.run {} (d.code.toList ++ [.link])
  let program ← l.assembly.toProgram id
  .ok (program, l.dump)

end Draft

namespace Compiler

variable {A : Type} [Shown A]

/-- Compiles the lines of a file to a program of the given name. -/
def compile (c : Compiler A) (id : String) (source : List String) :
    Except Fault (Compilation A) := do
  let reader : Reader A := { grammar := c.grammar, table := c.forms }
  let (tree, reading) ← match reader.read c.options.features (Line.assemble source) with
    | .ok tree reading => .ok (tree, reading)
    | .error fault _ => .error fault
  let draft ← tree.lower {}
  let (program, outline, disassembly) ←
    if reading.features.debugDump then do
      let (program, disassembly) ← draft.toListing id
      pure (program, some tree.outline, some disassembly)
    else do
      pure (← draft.toProgram id, none, none)
  let diagnostics := reading.journal ++ draft.journal
  let report := Report.ofDiagnostics id c.options.radius source diagnostics
  .ok
    { id, diagnostics, report, outline, disassembly
      program := if report.hasErrors then none else some program }

end Compiler

end CommandScript
