import CommandScript.Arena.Action
import CommandScript.Arena.World
import CommandScript.Instruction

/-!
# The machine

Runs a program on the arena, one instruction at a time. All control state is
in the fields of `Machine`, so that it can stop behind any instruction and go
on later as if it had not. Stacks are lists with their top in front.
-/

namespace CommandScript.Arena

/-- A subroutine call under way: where to go on behind it, and how deep the
frames and the saved addresses were. -/
structure Return where
  address : Nat
  frames : Nat
  addresses : Nat
  deriving DecidableEq, Repr

/-- The state of a run. -/
structure Machine where
  world : World := {}
  log : List String := []
  /-- The number of instructions executed. -/
  executed : Nat := 0
  /-- The offset of the next instruction. -/
  ip : Nat := 0
  /-- The entity that acts. -/
  source : Nat := server
  /-- The sources to return to, one for each open frame. -/
  sources : List Nat := []
  /-- The matches still to come, for each open frame. -/
  pending : List (List Nat) := []
  addresses : List Target := []
  returns : List Return := []
  /-- Whether the invocation was ended. -/
  ended : Bool := false
  deriving DecidableEq, Repr

/-- What a program can do that no machine can follow. -/
inductive MachineFault where
  | noInstruction
  | noAddress
  | noReturn
  | noPending
  | noSource
  | noEntity (id : Nat)
  | notSelector (action : Action)
  | selectorAsCommand (tag : String)
  deriving DecidableEq, Repr

/-- The wording of a fault. -/
def MachineFault.message : MachineFault → String
  | noInstruction => "ip out of range"
  | noAddress => "address stack underflow"
  | noReturn => "subroutine stack underflow"
  | noPending => "no pending list"
  | noSource => "source stack underflow"
  | noEntity id => s!"no entity {id}"
  | notSelector action => s!"not a selector: {action.shown}"
  | selectorAsCommand tag => s!"selector 'as {tag}' executed as a command"

/-- The lowest entries of a stack. -/
def cut {α : Type} (depth : Nat) (stack : List α) : List α :=
  stack.drop (stack.length - depth)

namespace Machine

/-- The machine after a jump. -/
def jump (m : Machine) : Target → Machine
  | .offset n => { m with ip := n }
  | .exit => { m with ended := true }

/-- The machine after an action of the current source. -/
def perform (m : Machine) : Action → Except MachineFault Machine
  | .say text =>
    match m.world.name? m.source with
    | some name => .ok { m with log := m.log ++ [name ++ ": " ++ text] }
    | none => .error (.noEntity m.source)
  | .spawn name tag => .ok { m with world := m.world.spawn name tag }
  | .untag tag =>
    if m.source < m.world.entities.length then .ok { m with world := m.world.untag m.source tag }
    else .error (.noEntity m.source)
  | .select tag => .error (.selectorAsCommand tag)

/-- The machine after an instruction, of which the offset has been passed. -/
def execute (m : Machine) : Instruction Action → Except MachineFault Machine
  | .plain action => m.perform action
  | .branch t => .ok (m.jump t)
  | .call t => .ok ({ m with addresses := .offset m.ip :: m.addresses }.jump t)
  | .pushAddress t => .ok { m with addresses := t :: m.addresses }
  | .ret =>
    match m.addresses with
    | [] => .error .noAddress
    | t :: rest => .ok ({ m with addresses := rest }.jump t)
  | .subroutineCall t =>
    let note : Return := ⟨m.ip, m.sources.length, m.addresses.length⟩
    .ok ({ m with returns := note :: m.returns }.jump t)
  | .subroutineReturn =>
    match m.returns with
    | [] => .error .noReturn
    | note :: rest =>
      let source :=
        if note.frames < m.sources.length then (cut (note.frames + 1) m.sources).headD m.source
        else m.source
      .ok
        { m with
          source
          sources := cut note.frames m.sources
          pending := cut note.frames m.pending
          addresses := cut note.addresses m.addresses
          returns := rest
          ip := note.address }
  | .pushSourceAndMatch (.select tag) =>
    .ok
      { m with
        sources := m.source :: m.sources
        pending := m.world.matching tag :: m.pending }
  | .pushSourceAndMatch action => .error (.notSelector action)
  | .popSourceOrBranch t =>
    match m.pending with
    | [] => .error .noPending
    | [] :: _ => .ok (m.jump t)
    | (next :: rest) :: lists => .ok { m with source := next, pending := rest :: lists }
  | .popFrame =>
    match m.pending, m.sources with
    | [], _ => .error .noPending
    | _, [] => .error .noSource
    | _ :: lists, source :: sources => .ok { m with source, sources, pending := lists }

/-- Whether the invocation was ended or has run past its last instruction. -/
def isFinished (code : List (Instruction Action)) (m : Machine) : Bool :=
  m.ended || code.length ≤ m.ip

/-- Executes the next instruction. -/
def step (code : List (Instruction Action)) (m : Machine) : Except MachineFault Machine :=
  match code[m.ip]? with
  | none => .error .noInstruction
  | some i => { m with ip := m.ip + 1, executed := m.executed + 1 }.execute i

/-- Executes as many instructions as `budget` allows, or until the program is
finished. -/
def run (code : List (Instruction Action)) : Nat → Machine → Except MachineFault Machine
  | 0, m => .ok m
  | budget + 1, m =>
    if m.isFinished code then .ok m
    else do run code budget (← m.step code)

end Machine

end CommandScript.Arena
