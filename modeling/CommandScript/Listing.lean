import CommandScript.Assembly

/-!
# Listings

An assembly that also keeps what its dump needs: a name for each instruction,
where one was given, and the labels in the order in which they were bound.
-/

namespace CommandScript

/-- An assembly with the names of its instructions and the places of its labels. -/
structure Listing (A : Type) where
  assembly : Assembly A := {}
  /-- The name of each instruction, where it has one. -/
  names : Array (Option String) := #[]
  /-- The labels bound so far, each with its offset. -/
  marks : Array (Nat × Label) := #[]

namespace Listing

variable {A : Type}

/-- The listing that has taken note of a directive. -/
def note (l : Listing A) : Directive A → Listing A
  | .define _ => l
  | .bind label => { l with marks := l.marks.push (l.assembly.size, label) }
  | .plain _ => { l with names := l.names.push (some "plain") }
  | .control name _ => { l with names := l.names.push name }
  | .defer d => { l with names := l.names.push d.name }
  | .link => l

/-- Performs one directive, and takes note of it. -/
def perform (l : Listing A) (x : Directive A) : Except Fault (Listing A) := do
  .ok { l.note x with assembly := ← l.assembly.perform x }

/-- Performs directives in order. -/
def run (l : Listing A) (code : List (Directive A)) : Except Fault (Listing A) :=
  code.foldlM perform l

/-! ## The dump -/

/-- The line of a bound label. -/
def markRow (l : Listing A) (label : Label) : String :=
  let name := l.assembly.labels[label.index]?.elim "" (·.name)
  s!"{name}@{label.index}:\n"

/-- The line of the instruction at an offset. -/
def instructionRow (l : Listing A) (offset : Nat) (slot : Slot A) : String :=
  let name := match l.names[offset]?.join with
    | some name => name
    | none => slot.ready?.elim "<unlinked>" (·.mnemonic)
  s!"{offset}: {name}\n"

/-- The lines of the labels bound to an offset, in the order of binding. -/
def marksAt (l : Listing A) (offset : Nat) : String :=
  String.join (l.marks.toList.filterMap fun (bound, label) =>
    if bound = offset then some (l.markRow label) else none)

/-- One line for each instruction, and before it one for each label bound to
its offset. -/
def dump (l : Listing A) : String :=
  String.join (l.assembly.slots.toList.zipIdx.map fun (slot, offset) =>
    l.marksAt offset ++ l.instructionRow offset slot) ++ l.marksAt l.assembly.size

end Listing

end CommandScript
