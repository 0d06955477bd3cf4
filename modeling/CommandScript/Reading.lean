import CommandScript.Fault
import CommandScript.Line
import CommandScript.Statement

/-!
# Reading a tree

A `Reader` turns logical lines into a tree. It looks up the form for the
first word of a line and carries out the plans of that form; lines without a
form, and lines their form declines, go to the host's grammar.

Reading ends for every table of forms. Each line that is read leaves fewer
lines to read (`Progress`), and a form that takes no line can have its own line
read again, or go on for another round, only as often in a row as the reader's
patience allows. What is read does not otherwise depend on it.
-/

namespace CommandScript

/-- The state of a reader. -/
structure Reading where
  cursor : Cursor
  features : Features
  journal : List Diagnostic
  deriving DecidableEq, Repr

namespace Reading

/-- The number of lines ahead. -/
def remaining (s : Reading) : Nat := s.cursor.rest.length

def advance (s : Reading) : Reading := { s with cursor := s.cursor.advance }

def report (s : Reading) (d : Diagnostic) : Reading := { s with journal := s.journal ++ [d] }

def standing (s : Reading) : Standing :=
  ⟨s.cursor.position, s.cursor.isAtEnd, s.features, s.journal⟩

theorem remaining_advance (s : Reading) : s.advance.remaining = s.remaining - 1 := by
  rcases s with ⟨⟨n, _ | ⟨l, ls⟩⟩, f, j⟩ <;> simp [advance, remaining, Cursor.advance]

@[simp] theorem remaining_report (s : Reading) (d : Diagnostic) :
    (s.report d).remaining = s.remaining := rfl

end Reading

/-- What a reader works with. `patience` bounds how often in a row a form may
have its own line read again, or go on for another round, with no line taken. -/
structure Reader (A : Type) : Type 1 where
  grammar : Grammar A
  table : FormTable A
  patience : Nat := 1000

/-- A part of reading: it goes on from one state of the reader to another, or
ends in a fault and leaves the state it was in. -/
abbrev ReadM := EStateM Fault Reading

/-- A line read in state `s`: the node it gave, and the state behind it. -/
structure Progress (A : Type) (s : Reading) where
  node : Option (Node A)
  next : Reading
  fewer : next.remaining < s.remaining

/-! ## Carrying out a plan -/

/-- The reader's own operations, as the plan of a form calls them. -/
structure Nested (A : Type) where
  statement (topLevel inSubroutine : Bool) : ReadM (Option (Node A))
  block (b : Opening) : ReadM (List (Node A))

/-- Hands a statement to the host's grammar, and moves past the current line. -/
def Reading.command {A : Type} (g : Grammar A) (st : Statement) (s : Reading) :
    Option (Node A) × Reading :=
  match g.command st.text with
  | .ok a => (some (.command a), s.advance)
  | .error e => (none, s.advance.report (.error st.line (.badCommand e.message)))

theorem Reading.remaining_command {A : Type} (g : Grammar A) (st : Statement) (s : Reading) :
    (s.command g st).2.remaining = s.remaining - 1 := by
  unfold Reading.command
  split <;> simp [Reading.remaining_advance]

/-- Carries out the plan of a form. -/
def Handling.run {A α : Type} (g : Grammar A) (nested : Nested A) : Handling A α → ReadM α
  | done a => pure a
  | advance next => do
    modify Reading.advance
    next.run g nested
  | report d next => do
    modify (·.report d)
    next.run g nested
  | survey next => do
    (next (← get).standing).run g nested
  | setFeatures f next => do
    modify ({ · with features := f })
    next.run g nested
  | setJournal ds next => do
    modify ({ · with journal := ds })
    next.run g nested
  | statement topLevel inSubroutine next => do
    (next (← nested.statement topLevel inSubroutine)).run g nested
  | block b next => do
    (next (← nested.block b)).run g nested
  | command s next => do
    (next (← modifyGet (Reading.command g s))).run g nested

/-! ## Statements and blocks -/

namespace Reader

variable {A : Type}

/-- How much patience is left in state `t` of that which was left in state `s`:
all of it if a line has been taken, and one less than before if not. -/
def respite (r : Reader A) (p : Nat) (s t : Reading) : Option Nat :=
  if t.remaining < s.remaining then some r.patience
  else if t.remaining = s.remaining then
    match p with
    | 0 => none
    | q + 1 => some q
  else none

/-- What bounds the calls and the rounds that can follow on state `s`. -/
def effort (r : Reader A) (p : Nat) (s : Reading) : Nat :=
  s.remaining * (r.patience + 1) + p

theorem effort_fewer (r : Reader A) (p : Nat) {s t : Reading} (h : t.remaining < s.remaining) :
    r.effort r.patience t < r.effort p s := by
  have := Nat.mul_le_mul_right (r.patience + 1) h
  simp only [effort]
  rw [Nat.succ_mul] at this
  omega

theorem effort_respite {r : Reader A} {p q : Nat} {s t : Reading}
    (h : r.respite p s t = some q) : r.effort q t < r.effort p s := by
  unfold respite at h
  split at h
  · next fewer => cases h; exact effort_fewer r p fewer
  · split at h
    · next same =>
      cases p with
      | zero => cases h
      | succ p => cases h; simp only [effort, same]; omega
    · cases h

/-- Handles a line in rounds, with what the form has in mind and the patience that
is left. -/
def rounds (r : Reader A) (nested : Nested A) (keyword : String) (st : Statement) (form : Form A)
    (patience : Nat) (memory : form.Memory) (s : Reading) :
    EStateM.Result Fault Reading (Outcome A) :=
  match (form.round r.grammar st memory).run r.grammar nested s with
  | .error fault t => .error fault t
  | .ok (.inr outcome) t => .ok outcome t
  | .ok (.inl memory) t =>
    match _left : r.respite patience s t with
    | none => .error (.runaway keyword) t
    | some p => r.rounds nested keyword st form p memory t
termination_by r.effort patience s
decreasing_by exact effort_respite _left

/-- Hands a line to a form. -/
def call (r : Reader A) (nested : Nested A) (keyword : String) (st : Statement) (form : Form A) :
    ReadM (Outcome A) :=
  r.rounds nested keyword st form r.patience form.start

/-- The statement a line is, where it stands. -/
def statementOf (l : Line) (topLevel inSubroutine : Bool) : Statement :=
  ⟨l.text, l.number, topLevel, inSubroutine⟩

/-- The word that selects a form for a line. -/
def keywordOf (l : Line) : String := (Text.leading? l.text).getD ""

/-- The line `st` read by the host's grammar in state `t`, in which as many
lines are ahead as in `s`. -/
def commandStep (r : Reader A) (st : Statement) {s : Reading} (t : Reading)
    (same : t.remaining = s.remaining) (ahead : 0 < s.remaining) : Progress A s where
  node := (t.command r.grammar st).1
  next := (t.command r.grammar st).2
  fewer := by rw [Reading.remaining_command]; omega

/-- What comes of the outcome of a form that was called in state `s` and
ended in state `t`. -/
def settle (r : Reader A) (keyword : String) (st : Statement) {s : Reading}
    (ahead : 0 < s.remaining) (outcome : Outcome A) (t : Reading) :
    Except (Fault × Reading) (Progress A s) :=
  match outcome with
  | .node n =>
    if fewer : t.remaining < s.remaining then .ok ⟨n, t, fewer⟩
    else .error (.stalled keyword, t)
  | .consumed =>
    if fewer : t.remaining < s.remaining then .ok ⟨none, t, fewer⟩
    else .error (.stalled keyword, t)
  | .declined =>
    if same : t.remaining = s.remaining then .ok (r.commandStep st t same ahead)
    else .error (.slipped keyword, t)

mutual

/-- Reads the statement on the current line. -/
def step (r : Reader A) (patience : Nat) (topLevel inSubroutine : Bool) (s : Reading)
    (ahead : 0 < s.remaining) : Except (Fault × Reading) (Progress A s) :=
  let line := s.cursor.rest.head (List.ne_nil_of_length_pos ahead)
  let st := statementOf line topLevel inSubroutine
  let keyword := keywordOf line
  match r.table.find? keyword with
  | none => .ok (r.commandStep st s rfl ahead)
  | some form =>
    match form.gate.filter (!·.isOpen s.features) with
    | some gate => .ok (r.commandStep st (s.report (.warning st.line gate.closed)) rfl ahead)
    | none =>
      let nested : Nested A :=
        { statement := fun topLevel inSubroutine t =>
            match _left : r.respite patience s t with
            | none => .error (.runaway keyword) t
            | some p =>
              if more : 0 < t.remaining then
                match r.step p topLevel inSubroutine t more with
                | .ok read => .ok read.node read.next
                | .error (fault, t) => .error fault t
              else .ok none t
          block := fun b t =>
            match _left : r.respite patience s t with
            | none => .error (.runaway keyword) t
            | some p => r.block p b t }
      match r.call nested keyword st form s with
      | .ok outcome t => r.settle keyword st ahead outcome t
      | .error fault t => .error (fault, t)
termination_by 2 * r.effort patience s
decreasing_by
  all_goals
    have := effort_respite _left
    omega

/-- Reads the statements of a block, and the line that closes it. -/
def block (r : Reader A) (patience : Nat) (b : Opening) (s : Reading) :
    EStateM.Result Fault Reading (List (Node A)) :=
  if ahead : 0 < s.remaining then
    if (s.cursor.rest.head (List.ne_nil_of_length_pos ahead)).text = b.terminator then
      .ok [] s.advance
    else
      match r.step patience false b.inSubroutine s ahead with
      | .error (fault, t) => .error fault t
      | .ok read =>
        match r.block r.patience b read.next with
        | .error fault t => .error fault t
        | .ok nodes t => .ok (read.node.toList ++ nodes) t
  else .ok [] (s.report (.error b.line b.unclosed))
termination_by 2 * r.effort patience s + 1
decreasing_by
  · omega
  · have := r.effort_fewer patience read.fewer
    omega

end

/-- Reads one statement; none at the end. -/
def readStatement (r : Reader A) (topLevel inSubroutine : Bool) :
    ReadM (Option (Node A)) := fun s =>
  if ahead : 0 < s.remaining then
    match r.step r.patience topLevel inSubroutine s ahead with
    | .ok read => .ok read.node read.next
    | .error (fault, t) => .error fault t
  else .ok none s

/-- Reads a block. -/
def readBlock (r : Reader A) (b : Opening) : ReadM (List (Node A)) := r.block r.patience b

/-! ## Scripts -/

/-- Reads all statements there are. -/
def readTree (r : Reader A) : ReadM (Tree A) := fun s =>
  if ahead : 0 < s.remaining then
    match r.step r.patience true false s ahead with
    | .error (fault, t) => .error fault t
    | .ok read =>
      match r.readTree read.next with
      | .error fault t => .error fault t
      | .ok tree t => .ok (read.node.elim tree tree.cons) t
  else .ok {} s
termination_by s => s.remaining
decreasing_by exact read.fewer

/-- Reads a script, given as logical lines, from the features it starts with. -/
def read (r : Reader A) (features : Features) (lines : Line.Assembled) :
    EStateM.Result Fault Reading (Tree A) :=
  r.readTree ⟨.ofLines lines.lines, features, lines.diagnostics⟩

end Reader

end CommandScript
