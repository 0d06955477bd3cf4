import CommandScript.Diagnostic
import CommandScript.Feature
import CommandScript.Tree

/-!
# Statement forms

A statement form says what to do with a line that starts with its keyword. It
is given the statement and answers with a `Handling`, a plan of the moves a form
can make: move past the line, look at where the reader stands, report a
diagnostic, change the features or the journal, read a nested statement or
block, hand the line to the host's grammar. A form sees nothing of the lines but
through these moves, and the reader that carries out the plan decides what they
do.

A plan is finite, and a form may go on with another when one is carried out. How
many such rounds there are may depend on all that the form has seen, so a form
can go over lines until it comes to one that it looks for, or never end.
-/

namespace CommandScript

/-- A line to be handled, and where it stands. -/
structure Statement where
  text : String
  line : Nat
  topLevel : Bool
  inSubroutine : Bool
  deriving DecidableEq, Repr

/-- What a form made of its line. -/
inductive Outcome (A : Type) where
  | node (n : Node A)
  /-- The line is done with and gives no node. -/
  | consumed
  /-- The line is not of this form after all. -/
  | declined

/-- What a form can see of the reader. -/
structure Standing where
  position : Nat
  atEnd : Bool
  features : Features
  journal : List Diagnostic
  deriving DecidableEq, Repr

/-- A block about to be read: the line that opened it, the line that will
close it, what to report if there is no such line, and whether it is part of
a subroutine. -/
structure Opening where
  line : Nat
  terminator : String
  unclosed : Cause
  inSubroutine : Bool
  deriving DecidableEq, Repr

/-- A plan that ends with a value of type `α`. -/
inductive Handling (A α : Type) where
  | done (a : α)
  /-- Move past the current line. -/
  | advance (next : Handling A α)
  | report (d : Diagnostic) (next : Handling A α)
  | survey (next : Standing → Handling A α)
  | setFeatures (f : Features) (next : Handling A α)
  | setJournal (ds : List Diagnostic) (next : Handling A α)
  /-- Read one statement at the cursor. -/
  | statement (topLevel inSubroutine : Bool) (next : Option (Node A) → Handling A α)
  /-- Read statements up to the end of a block. -/
  | block (b : Opening) (next : List (Node A) → Handling A α)
  /-- Hand a statement to the host's grammar and move past the current line. -/
  | command (s : Statement) (next : Option (Node A) → Handling A α)

namespace Handling

variable {A α β : Type}

/-- Goes on with `f` from where a plan ends. -/
def bind (p : Handling A α) (f : α → Handling A β) : Handling A β :=
  match p with
  | done a => f a
  | advance next => advance (next.bind f)
  | report d next => report d (next.bind f)
  | survey next => survey fun s => (next s).bind f
  | setFeatures fs next => setFeatures fs (next.bind f)
  | setJournal ds next => setJournal ds (next.bind f)
  | statement t i next => statement t i fun n => (next n).bind f
  | block b next => block b fun ns => (next ns).bind f
  | command s next => command s fun n => (next n).bind f

instance : Monad (Handling A) where
  pure := done
  bind := bind

/-! The moves, each as a plan of its own. -/

def move : Handling A Unit := advance (done ())

def say (d : Diagnostic) : Handling A Unit := report d (done ())

def standing : Handling A Standing := survey done

def putFeatures (f : Features) : Handling A Unit := setFeatures f (done ())

def putJournal (ds : List Diagnostic) : Handling A Unit := setJournal ds (done ())

def readStatement (topLevel inSubroutine : Bool) : Handling A (Option (Node A)) :=
  statement topLevel inSubroutine done

def readBlock (b : Opening) : Handling A (List (Node A)) := block b done

def readCommand (s : Statement) : Handling A (Option (Node A)) := command s done

end Handling

/-- A condition under which a form is available, and the warning given where
it is not. -/
structure Gate where
  isOpen : Features → Bool
  closed : Cause

/-- A statement form. A line is handled in rounds: each ends with the outcome, or
with what the form keeps in mind for the next. -/
structure Form (A : Type) : Type 1 where
  gate : Option Gate := none
  Memory : Type
  start : Memory
  round : Grammar A → Statement → Memory → Handling A (Memory ⊕ Outcome A)

/-- A form that handles a line in one round. -/
def Form.once {A : Type} (gate : Option Gate)
    (handle : Grammar A → Statement → Handling A (Outcome A)) : Form A where
  gate := gate
  Memory := Unit
  start := ()
  round g s _ := do return .inr (← handle g s)

/-- The statement forms by keyword, each keyword once. -/
structure FormTable (A : Type) where
  entries : List (String × Form A) := []

namespace FormTable

variable {A : Type}

def empty : FormTable A := {}

def find? (t : FormTable A) (keyword : String) : Option (Form A) :=
  t.entries.lookup keyword

def erase (t : FormTable A) (keyword : String) : FormTable A :=
  ⟨t.entries.filter (·.1 != keyword)⟩

/-- The table with a form for a keyword, in place of the one it had. -/
def insert (t : FormTable A) (keyword : String) (form : Form A) : FormTable A :=
  ⟨(keyword, form) :: (t.erase keyword).entries⟩

def size (t : FormTable A) : Nat := t.entries.length

end FormTable

end CommandScript
