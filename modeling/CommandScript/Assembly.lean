import CommandScript.Fault
import CommandScript.Instruction

/-!
# Assembly

Instructions are emitted in order, and a jump may be emitted before the place
it leads to is known. Such an instruction refers to labels; each label is
bound, once, to the offset reached when its binding is emitted, and linking
puts the offsets into the instructions that wait for them.

Emission is a list of `Directive`s, which an `Assembly` performs.
-/

namespace CommandScript

/-- A label, by its number among the labels of an assembly. -/
structure Label where
  index : Nat
  deriving DecidableEq, Repr

/-- What an assembly knows of a label: its name, and its offset once it is
bound. -/
structure LabelEntry where
  name : String
  offset : Option Nat := none
  deriving DecidableEq, Repr

/-- An instruction that waits for the offsets of labels. -/
structure Deferred (A : Type) where
  name : Option String
  targets : List Label
  /-- The instruction, given the offsets of `targets` in their order. -/
  resolve : List Nat → Instruction A

namespace Deferred

variable {A : Type}

/-- An instruction with a single label, made by `make` from where it leads. -/
def jump (make : Target → Instruction A) (name : String) (target : Label) : Deferred A where
  name := name
  targets := [target]
  resolve offsets := make (.offset (offsets.headD 0))

def shownLabel (l : Label) : String := s!"Label({l.index})"

/-- The line that shows a deferred instruction: its name and its labels. -/
def shown (d : Deferred A) : String :=
  let name := d.name.elim "None" fun name => "Some(" ++ Text.quoted name ++ ")"
  let targets := "[" ++ ", ".intercalate (d.targets.map shownLabel) ++ "]"
  "Linkable \x7b name: " ++ name ++ ", targets: " ++ targets ++ ", .. \x7d"

end Deferred

/-- One step in putting a program together. -/
inductive Directive (A : Type) where
  /-- A new label. -/
  | define (name : String)
  /-- Binds a label to the offset reached. -/
  | bind (label : Label)
  | plain (action : A)
  /-- A finished instruction, perhaps with a name for listings. -/
  | control (name : Option String) (instruction : Instruction A)
  | defer (deferred : Deferred A)
  /-- Puts offsets into all instructions that wait for them. -/
  | link

/-- An emitted instruction. -/
inductive Slot (A : Type) where
  | ready (instruction : Instruction A)
  | pending (deferred : Deferred A)

namespace Slot

variable {A : Type}

/-- The instruction in a slot that does not wait for offsets. -/
def ready? : Slot A → Option (Instruction A)
  | ready i => some i
  | pending _ => none

def isPending : Slot A → Bool
  | ready _ => false
  | pending _ => true

end Slot

/-- A program being put together: its labels, and the instructions so far. -/
structure Assembly (A : Type) where
  labels : Array LabelEntry := #[]
  slots : Array (Slot A) := #[]

namespace Assembly

variable {A : Type}

/-- The number of instructions emitted. -/
def size (g : Assembly A) : Nat := g.slots.size

/-- The number of instructions that wait to be linked. -/
def pendingCount (g : Assembly A) : Nat := g.slots.countP (·.isPending)

/-- What is known of a label. -/
def entry (g : Assembly A) (l : Label) : Except Fault LabelEntry :=
  match g.labels[l.index]? with
  | some e => .ok e
  | none => .error (.noLabel g.labels.size l.index)

/-- The offset a label is bound to. -/
def resolve (g : Assembly A) (l : Label) : Except Fault Nat := do
  let e ← g.entry l
  match e.offset with
  | some offset => .ok offset
  | none => .error (.unbound e.name)

/-- Binds a label to the offset of the next instruction. -/
def bind (g : Assembly A) (l : Label) : Except Fault (Assembly A) := do
  let e ← g.entry l
  match e.offset with
  | some first => .error (.boundTwice e.name first)
  | none =>
    .ok { g with labels := g.labels.setIfInBounds l.index { e with offset := some g.size } }

/-- The instruction in a slot, with the offsets it waits for. -/
def finish (g : Assembly A) : Slot A → Except Fault (Instruction A)
  | .ready i => .ok i
  | .pending d => do
    let offsets ← d.targets.mapM g.resolve
    .ok (d.resolve offsets)

/-- All instructions, linked. -/
def instructions (g : Assembly A) : Except Fault (List (Instruction A)) :=
  g.slots.toList.mapM g.finish

/-- Puts the offsets into all instructions that wait for them. -/
def link (g : Assembly A) : Except Fault (Assembly A) := do
  let linked ← g.instructions
  .ok { g with slots := (linked.map .ready).toArray }

def push (g : Assembly A) (slot : Slot A) : Assembly A :=
  { g with slots := g.slots.push slot }

/-- Performs one directive. -/
def perform (g : Assembly A) : Directive A → Except Fault (Assembly A)
  | .define name => .ok { g with labels := g.labels.push { name } }
  | .bind label => g.bind label
  | .plain action => .ok (g.push (.ready (.plain action)))
  | .control _ i => .ok (g.push (.ready i))
  | .defer d => .ok (g.push (.pending d))
  | .link => g.link

/-- Performs directives in order. -/
def run (g : Assembly A) (code : List (Directive A)) : Except Fault (Assembly A) :=
  code.foldlM perform g

/-- The program an assembly amounts to. -/
def toProgram (g : Assembly A) (id : String) : Except Fault (Program A) := do
  .ok ⟨id, ← g.instructions⟩

end Assembly

end CommandScript
