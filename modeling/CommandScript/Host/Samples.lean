import CommandScript.Statement
import CommandScript.Text.Blank

/-!
# Sample hosts

Two grammars whose actions are plain texts, and a set of small statement
forms. Each form shows one thing that a host's own form can do, or one way in
which a form can break the rules of the reader.
-/

namespace CommandScript.Host

open Handling

/-! ## Grammars -/

/-- Accepts every text as it is. -/
def echo : Grammar String where
  command text := .ok text
  selector _ text := .ok text

/-- Accepts commands that do not start with `bad`, and selectors that start
with `as`. -/
def wordsGrammar : Grammar String where
  command text :=
    if (Text.after? "bad" text).isSome then .error ⟨s!"unknown command '{text}'", some 0⟩
    else .ok text
  selector kind text :=
    match Text.after? "as " text with
    | some rest => .ok (kind.keyword ++ ":" ++ rest)
    | none => .error ⟨s!"expected 'as', found '{text}'", none⟩

/-! ## Statement forms -/

variable {A : Type}

/-- `twice <command>`: the command two times. -/
def twice : Form A := .once none fun g s => do
  match Text.after? "twice " s.text with
  | none => return .declined
  | some rest =>
    move
    match g.command rest with
    | .ok a => return .node (.block [.command a, .command a])
    | .error e =>
      say (.error s.line (.host s!"bad twice: {e.message}"))
      return .consumed

/-- Passes over its line. -/
def skip : Form A := .once none fun _ _ => do
  move
  return .consumed

/-- Claims to be done without having moved. -/
def stuck : Form A := .once none fun _ _ => return .consumed

/-- Gives a node without having moved. -/
def stuckNode : Form A := .once none fun _ _ => return .node .exit

/-- Moves, and then declines. -/
def sloppy : Form A := .once none fun _ _ => do
  move
  return .declined

/-- Declines every line. -/
def never : Form A := .once none fun _ _ => return .declined

/-- A flag as it is written in a message. -/
def flagText (b : Bool) : String := if b then "true" else "false"

/-- Moves, and reports where the reader stands. -/
def whereabouts : Form A := .once none fun _ s => do
  move
  let here ← standing
  say (.warning s.line (.host (
    "pos=" ++ here.position.repr ++ " end=" ++ flagText here.atEnd ++ " top=" ++
    flagText s.topLevel ++ " sub=" ++ flagText s.inSubroutine ++ " text=" ++ s.text)))
  return .consumed

/-- A block up to the line `endblock`. -/
def blockForm : Form A := .once none fun _ s => do
  move
  let nodes ← readBlock ⟨s.line, "endblock", .host "unclosed block", s.inSubroutine⟩
  return .node (.block nodes)

/-- Has the next statement read as part of a subroutine. -/
def inline : Form A := .once none fun _ s => do
  move
  match ← readStatement s.topLevel true with
  | some node => return .node (.block [node])
  | none => return .consumed

/-- Hands its line to the host's grammar. -/
def commandForm : Form A := .once none fun _ s => do
  match ← readCommand s with
  | some node => return .node node
  | none => return .consumed

/-- Ends the invocation, while dumps are on. -/
def gated : Form A := .once (some ⟨Features.debugDump, .host "debug gate is closed"⟩) fun _ _ => do
  move
  return .node .exit

/-- The sample forms by name. -/
def sampleForms : List (String × Form A) := [
  ("twice", twice), ("skip", skip), ("stuck", stuck), ("stuck_node", stuckNode),
  ("sloppy", sloppy), ("never", never), ("where", whereabouts), ("block", blockForm),
  ("inline", inline), ("command", commandForm), ("gated", gated)]

end CommandScript.Host
