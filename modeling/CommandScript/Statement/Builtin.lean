import CommandScript.Statement
import CommandScript.Token

/-!
# The built-in statement forms

`pragma`, `return` and `break`; the blocks `run` and `loop` with the closing
brace that belongs to none; and the three statements on subroutines.
-/

namespace CommandScript

namespace Form

open Handling

variable {A : Type}

/-! ## Always available -/

/-- `pragma enable <flag>` and `pragma disable <flag>`. -/
def pragma : Form A := .once none fun _ s => do
  move
  let features := (← standing).features
  let switch (flag : String) (on : Bool) : Handling A (Outcome A) := do
    match features.setNamed? flag on with
    | some f => putFeatures f
    | none => say (.error s.line (.unknownFeature flag))
    return .consumed
  match Token.words s.text with
  | ["pragma", "enable", flag] => switch flag true
  | ["pragma", "disable", flag] => switch flag false
  | _ =>
    say (.error s.line .pragmaForm)
    return .consumed

/-- A form that is its keyword and nothing else, and gives the node `node`. -/
def bare (keyword : String) (node : Nat → Node A) : Form A := .once none fun _ s => do
  if s.text = keyword then
    move
    return .node (node s.line)
  else return .declined

/-- Bare `return`: the invocation ends here. -/
def exit : Form A := bare "return" fun _ => .exit

/-- Bare `break`. Whether an iteration encloses it shows when the tree is
lowered. -/
def leave : Form A := bare "break" .leave

/-! ## Blocks -/

def blockGate : Gate := ⟨Features.blocksOn, .blocksOff⟩

/-- `run <selector> {` and `loop <selector> {`, up to a closing brace. -/
def iteration (kind : Iteration) : Form A := .once (some blockGate) fun g s => do
  match Header.ofText? s.text with
  | none => return .declined
  | some header =>
    if header.keyword = kind.keyword then
      move
      let selector ← match g.selector kind header.selector with
        | .ok a => pure (some a)
        | .error e => do
          say (.error s.line (.badSelector kind e.message))
          pure none
      let body ← readBlock ⟨s.line, "\x7d", .unclosedBlock kind, s.inSubroutine⟩
      return .node (.iterate kind selector body s.line)
    else return .declined

/-- A closing brace that no block waits for. -/
def closingBrace : Form A := .once none fun _ s => do
  say (.error s.line .strayBrace)
  move
  return .consumed

/-! ## Subroutines -/

def subroutineGate : Gate := ⟨Features.subroutines, .subroutinesOff⟩

/-- `subroutine <name>`, up to the line `end`. Without a name there is nothing
the lines below could belong to, and they are read where they stand. -/
def definition : Form A := .once (some subroutineGate) fun _ s => do
  move
  unless s.topLevel do
    say (.error s.line .nestedSubroutine)
  let words := Token.words s.text
  unless words.length = 2 do
    say (.error s.line .definitionForm)
  match words[1]? with
  | none => return .consumed
  | some name =>
    let body ← readBlock ⟨s.line, "end", .unclosedSubroutine, true⟩
    return .node (.define name s.line body)

/-- `subroutine_call <name>`. Whether there is such a subroutine shows when
the tree is lowered. -/
def call : Form A := .once (some subroutineGate) fun _ s => do
  move
  let words := Token.words s.text
  unless words.length = 2 do
    say (.error s.line .callForm)
  match words[1]? with
  | none => return .consumed
  | some name => return .node (.call name s.line)

/-- `subroutine_return`. -/
def subroutineReturn : Form A := .once (some subroutineGate) fun _ s => do
  move
  unless (Token.words s.text).length = 1 do
    say (.error s.line .returnForm)
  unless s.inSubroutine do
    say (.error s.line .returnOutside)
  return .node .subroutineReturn

end Form

/-- The built-in forms. -/
def FormTable.builtin {A : Type} : FormTable A where
  entries := [
    ("pragma", Form.pragma),
    ("return", Form.exit),
    ("break", Form.leave),
    ("run", Form.iteration .run),
    ("loop", Form.iteration .loop),
    ("\x7d", Form.closingBrace),
    ("subroutine", Form.definition),
    ("subroutine_call", Form.call),
    ("subroutine_return", Form.subroutineReturn)]

end CommandScript
