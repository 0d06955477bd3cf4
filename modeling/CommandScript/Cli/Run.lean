import CommandScript.Cli.Arguments
import CommandScript.Cli.Files
import CommandScript.Cli.Style
import CommandScript.Compile
import CommandScript.Host.Lexicon

/-!
# The commands

What the program prints, and the code it ends with. Files are read through a
function the caller gives, in whatever monad it lives in.
-/

namespace CommandScript.Cli

/-- What a run of the program shows. -/
structure Output where
  code : Nat := 0
  stdout : String := ""
  stderr : String := ""
  deriving DecidableEq, Repr

/-- Why a command could not do its work. -/
inductive Failure where
  | unreadableSource (path : String) (reason : ReadError)
  | unreadableGrammar (path : String) (reason : ReadError)
  | invalidGrammar (path : String)
  | rejected (message : String)
  | fault (f : Fault)

/-- The line for a failure. That of an invalid grammar ends with the name of
the file and is left open. -/
def Failure.line : Failure → String
  | unreadableSource path reason =>
    s!"Error: Failed to read source file: {path}: {reason.message}\n"
  | unreadableGrammar path reason =>
    s!"Error: Failed to read grammar file: {path}: {reason.message}\n"
  | invalidGrammar path => s!"Error: Invalid grammar file: {path}"
  | rejected message => s!"Error: {message}\n"
  | fault f => f.message ++ "\n"

/-- The output of a command that failed after it had printed `stdout`. -/
def Failure.output (f : Failure) (stdout : String) : Output where
  code := match f with
    | fault _ => 101
    | _ => 1
  stdout := stdout
  stderr := f.line

/-- What is shown if nothing was asked for. -/
def greeting : Output where
  stdout := "cmdflow - structured control flow for command scripts\n" ++
    "Run 'cmdflow --help' for usage information.\n"

/-- How the program is called. -/
def usage : String :=
  "Usage: cmdflow check <FILE> [--grammar <FILE>] [--id <ID>] [--context <N>]\n" ++
  "       cmdflow disasm <FILE> [--grammar <FILE>] [--id <ID>] [--json]\n"

/-- The lexicon in the contents of a file. -/
def lexiconOf (path : String) (contents : Contents) : Except Failure Host.Lexicon :=
  match textOf contents with
  | .error reason => .error (.unreadableGrammar path reason)
  | .ok text =>
    match Host.Lexicon.parse? text with
    | some lexicon => .ok lexicon
    | none => .error (.invalidGrammar path)

/-- Compiles the script a command is about. -/
def compileSource {m : Type → Type} [Monad m] (read : String → m Contents) (source : Source)
    (options : Options) : m (Except Failure (Compilation Host.LexiconAction)) := do
  match textOf (← read source.file) with
  | .error reason => return .error (.unreadableSource source.file reason)
  | .ok text =>
    let lexicon ← match source.grammar with
      | none => pure (.ok {})
      | some path => do pure (lexiconOf path (← read path))
    match lexicon with
    | .error failure => return .error failure
    | .ok lexicon =>
      let compiler : Compiler Host.LexiconAction := { grammar := lexicon.grammar, options }
      let id := source.id.getD (ScriptPath.functionId source.file)
      return (compiler.compile id (Text.lines text)).mapError .fault

/-- The output of `check`. -/
def checkOutput (colour : Bool) (c : Compilation Host.LexiconAction) : Output :=
  let report := styledReport colour c.report.text
  let errors := errorCount c.diagnostics
  let warnings := warningCount c.diagnostics
  match c.program with
  | some p =>
    { stdout := report ++ Style.success.apply colour "✓" ++ "  " ++
        Style.subject.apply colour c.id ++
        s!": {p.size} instructions ({p.plainCount} commands), {warnings} warning(s)\n" }
  | none =>
    (Failure.rejected s!"{c.id} rejected with {errors} error(s), {warnings} warning(s)").output
      report

/-- The output of `disasm`. -/
def disassemblyOutput (colour json : Bool) (c : Compilation Host.LexiconAction) : Output :=
  match c.program with
  | none =>
    (Failure.rejected s!"{c.id} rejected with {errorCount c.diagnostics} error(s)").output
      (styledReport colour c.report.text)
  | some p =>
    if json then { stdout := p.toJson.pretty ++ "\n" }
    else
      let off := "(disabled by pragma)"
      { stdout := Style.title.apply colour "AST" ++ "\n" ++ c.outline.getD off ++ "\n" ++
          Style.title.apply colour "Instructions" ++ "\n" ++
          Text.trimRight (c.disassembly.getD off) ++ "\n" }

/-- Carries out a command. -/
def Command.run {m : Type → Type} [Monad m] (read : String → m Contents) (colour : Bool) :
    Command → m Output
  | .greet => return greeting
  | .help => return { stdout := usage }
  | .check source radius => do
    match ← compileSource read source { radius } with
    | .ok c => return checkOutput colour c
    | .error failure => return failure.output ""
  | .disassemble source json => do
    match ← compileSource read source { features := { debugDump := true } } with
    | .ok c => return disassemblyOutput colour json c
    | .error failure => return failure.output ""

end CommandScript.Cli
