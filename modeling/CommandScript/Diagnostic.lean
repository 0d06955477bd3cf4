import CommandScript.Grammar

/-!
# Diagnostics

What a compile has to say about a script. A diagnostic keeps its cause;
`Cause.message` has the wording of all of them.
-/

namespace CommandScript

/-- How grave a diagnostic is. -/
inductive Severity where
  /-- The script is rejected. -/
  | error
  /-- The script may still compile. -/
  | warning
  deriving DecidableEq, Repr

def Severity.label : Severity → String
  | error => "ERROR"
  | warning => "WARNING"

/-- What is wrong with a line of a script. -/
inductive Cause where
  /-- The last line asks for another one to join it. -/
  | openContinuation
  | slashComment
  | slashCommand (word : String)
  | pragmaForm
  | unknownFeature (name : String)
  | blocksOff
  | strayBrace
  | badSelector (kind : Iteration) (reason : String)
  | unclosedBlock (kind : Iteration)
  | subroutinesOff
  | unclosedSubroutine
  | nestedSubroutine
  | definitionForm
  | callForm
  | returnForm
  | returnOutside
  | badCommand (reason : String)
  /-- A subroutine defined again; `first` is the line of the definition that
  counts. -/
  | redefinition (name : String) (first : Nat)
  | unknownSubroutine (name : String)
  | strayBreak
  /-- Said by a statement form of the host. -/
  | host (text : String)
  deriving DecidableEq, Repr

/-- The greatest number of a line, counted from 0. -/
def lastLine : Nat := 18446744073709551615

/-- The number of a line, counted from 1. Numbers have 64 bits: the last line has no
number of its own, and is counted as 0. -/
def ordinal (line : Nat) : Nat := (line + 1) % (lastLine + 1)

theorem ordinal_of_lt {line : Nat} (h : line < lastLine) : ordinal line = line + 1 :=
  Nat.mod_eq_of_lt (Nat.succ_lt_succ h)

/-- The wording of a cause. -/
def Cause.message : Cause → String
  | openContinuation => "line continuation at end of input"
  | slashComment => "use '#' not '//' for comments"
  | slashCommand word => s!"unknown command (did you mean '{word}'?)"
  | pragmaForm =>
    "failed to parse pragma: expected 'pragma enable <flag>' or 'pragma disable <flag>'"
  | unknownFeature name => s!"unknown pragma feature flag '{name}'"
  | blocksOff =>
    "'run' and 'loop' statements not enabled when 'control flow v2' is enabled, " ++
      "consider disabling it with 'pragma disable cfv2'"
  | strayBrace => "extraneous '\x7d' (consider removing it)"
  | badSelector kind reason =>
    s!"failed to parse '{kind.keyword}' control flow statement: {reason}"
  | unclosedBlock kind => s!"unclosed '{kind.keyword}' statement"
  | subroutinesOff =>
    "subroutines are not enabled, use 'pragma enable subroutines' to enable this feature"
  | unclosedSubroutine => "unclosed subroutine definition"
  | nestedSubroutine => "subroutine definition is only allowed at the top level"
  | definitionForm => "bad subroutine definition, expected 'subroutine <identifier>'"
  | callForm => "bad subroutine call, expected 'subroutine_call <identifier>'"
  | returnForm => "subroutine_return takes no parameters"
  | returnOutside => "subroutine_return is not valid outside of a subroutine"
  | badCommand reason => s!"failed to parse command: {reason}"
  | redefinition name first =>
    s!"re-definition of subroutine '{name}' (previously defined on line {ordinal first})"
  | unknownSubroutine name => s!"subroutine '{name}' not defined"
  | strayBreak => "'break' may only be used inside iterative control flow"
  | host text => text

/-- A cause at a line of the script, counted from 0. -/
structure Diagnostic where
  severity : Severity
  line : Nat
  cause : Cause
  deriving DecidableEq, Repr

namespace Diagnostic

def error (line : Nat) (cause : Cause) : Diagnostic := ⟨.error, line, cause⟩

def warning (line : Nat) (cause : Cause) : Diagnostic := ⟨.warning, line, cause⟩

def message (d : Diagnostic) : String := d.cause.message

def isError (d : Diagnostic) : Bool := d.severity == .error

end Diagnostic

/-- The number of errors in a list of diagnostics. -/
def errorCount (ds : List Diagnostic) : Nat := ds.countP (·.isError)

/-- The number of warnings in a list of diagnostics. -/
def warningCount (ds : List Diagnostic) : Nat := ds.countP (!·.isError)

/-- Whether a script with these diagnostics is rejected. -/
def hasErrors (ds : List Diagnostic) : Bool := ds.any (·.isError)

end CommandScript
