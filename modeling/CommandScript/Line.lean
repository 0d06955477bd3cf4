import CommandScript.Diagnostic
import CommandScript.Text.Blank

/-!
# Logical lines

The lines of a file become the logical lines of a script: a line that ends in
`\` is joined with the next one, blank lines and comments are dropped, and
lines that start with `/` are refused with a hint. A `Cursor` walks over the
result.
-/

namespace CommandScript

/-- A statement of the script and the number, from 0, of the file line it
starts on. -/
structure Line where
  text : String
  number : Nat
  deriving DecidableEq, Repr

namespace Line

/-- What the lines of a file amount to. -/
structure Assembled where
  lines : List Line := []
  diagnostics : List Diagnostic := []
  deriving DecidableEq, Repr

/-- A complete group of joined lines, put before what follows it. -/
def Assembled.add (text : String) (number : Nat) (a : Assembled) : Assembled :=
  let text := Text.trim text
  match text.toList with
  | [] => a
  | '#' :: _ => a
  | '/' :: '/' :: _ => { a with diagnostics := .error number .slashComment :: a.diagnostics }
  | '/' :: rest =>
    let word := (Text.leading? (.ofList rest)).getD ""
    { a with diagnostics := .error number (.slashCommand word) :: a.diagnostics }
  | _ => { a with lines := ⟨text, number⟩ :: a.lines }

/-- A group of joined lines that asks for another one: its text so far, the
number of its first line and that of its last. -/
structure Pending where
  text : String
  number : Nat
  last : Nat
  deriving DecidableEq, Repr

/-- A text without its last character, if that is the mark of a line to be
joined with the next. -/
def unmarked? (text : String) : Option String :=
  if text.toList.getLast? = some '\\' then some (.ofList text.toList.dropLast) else none

/-- Reads the numbered lines of a file, of which the group in `pending`, if
any, has been read and waits for its next line. -/
def assembleFrom : Option Pending → List (String × Nat) → Assembled
  | none, [] => {}
  | some p, [] =>
    let a := Assembled.add p.text p.number {}
    { a with diagnostics := .error p.last .openContinuation :: a.diagnostics }
  | pending, (raw, index) :: rest =>
    let text := (pending.elim "" (·.text)) ++ Text.trim raw
    let number := pending.elim index (·.number)
    match unmarked? text with
    | some text => assembleFrom (some ⟨text, number, index⟩) rest
    | none => Assembled.add text number (assembleFrom none rest)

/-- The logical lines of a file. -/
def assemble (raw : List String) : Assembled :=
  assembleFrom none raw.zipIdx

end Line

/-! ## Walking over the lines -/

/-- A place among the lines of a script: how many lines are behind it, and
the lines from there on. -/
structure Cursor where
  position : Nat
  rest : List Line
  deriving DecidableEq, Repr

namespace Cursor

def ofLines (lines : List Line) : Cursor := ⟨0, lines⟩

def current? (c : Cursor) : Option Line := c.rest.head?

/-- Past the current line; at the end, nothing changes. -/
def advance : Cursor → Cursor
  | ⟨n, []⟩ => ⟨n, []⟩
  | ⟨n, _ :: rest⟩ => ⟨n + 1, rest⟩

def isAtEnd (c : Cursor) : Bool := c.rest.isEmpty

/-- The number of lines, behind and ahead. -/
def size (c : Cursor) : Nat := c.position + c.rest.length

end Cursor

end CommandScript
