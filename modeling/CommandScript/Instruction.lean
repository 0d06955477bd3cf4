import CommandScript.Grammar

/-!
# Instructions

What a script is compiled to: a flat list of instructions for a machine that
keeps all of its control state in explicit stacks, so that it can stop and go
on between any two of them. The machine has a stack of frames (the source to
return to and the matches still pending), a stack of saved addresses, and a
stack of subroutine returns.
-/

namespace CommandScript

/-- Where a jump leads. -/
inductive Target where
  | offset (n : Nat)
  /-- Out of the program: the whole invocation ends. -/
  | exit
  deriving DecidableEq, Repr

/-- An instruction whose host actions are of type `A`. -/
inductive Instruction (A : Type) where
  /-- An action of the host. -/
  | plain (action : A)
  | branch (target : Target)
  /-- Saves the address of the next instruction and jumps. -/
  | call (target : Target)
  /-- Saves an address. -/
  | pushAddress (target : Target)
  /-- Jumps to the address saved last, and forgets it. -/
  | ret
  /-- Jumps, and notes where to go on and how deep the frames and the saved
  addresses are. -/
  | subroutineCall (target : Target)
  /-- Cuts frames and saved addresses back to the depths noted last, restores
  the source that was current then, and goes on at the noted place. -/
  | subroutineReturn
  /-- Opens a frame: keeps the current source, and lets the selector list its
  matches as pending. -/
  | pushSourceAndMatch (selector : A)
  /-- Takes the next pending match as current source, or jumps if there is
  none. -/
  | popSourceOrBranch (target : Target)
  /-- Closes the frame and restores the source it kept. -/
  | popFrame
  deriving DecidableEq, Repr

namespace Instruction

variable {A : Type}

/-- Ends the invocation. -/
def exit : Instruction A := branch .exit

/-- The name of the operation. -/
def mnemonic : Instruction A → String
  | plain _ => "plain"
  | branch .exit => "exit"
  | branch (.offset _) => "branch"
  | call _ => "call"
  | pushAddress _ => "push_instr_address"
  | ret => "return"
  | subroutineCall _ => "subroutine_call"
  | subroutineReturn => "subroutine_return"
  | pushSourceAndMatch _ => "push_source_and_match"
  | popSourceOrBranch _ => "pop_source_or_branch"
  | popFrame => "pop_frame"

/-- The target of an instruction that has one. -/
def target? : Instruction A → Option Target
  | branch t => some t
  | call t => some t
  | pushAddress t => some t
  | subroutineCall t => some t
  | popSourceOrBranch t => some t
  | _ => none

def isPlain : Instruction A → Bool
  | plain _ => true
  | _ => false

/-- The line that shows an instruction: its mnemonic with the action or the
offset it carries. -/
def listing [Shown A] (i : Instruction A) : String :=
  match i with
  | plain action => i.mnemonic ++ " " ++ Shown.shown action
  | pushSourceAndMatch selector => i.mnemonic ++ " " ++ Shown.shown selector
  | i =>
    match i.target? with
    | some (.offset n) => i.mnemonic ++ " " ++ n.repr
    | _ => i.mnemonic

end Instruction

/-- A compiled script: its name, and its instructions, numbered from 0. -/
structure Program (A : Type) where
  id : String
  instructions : List (Instruction A)
  deriving DecidableEq, Repr

namespace Program

variable {A : Type}

def size (p : Program A) : Nat := p.instructions.length

/-- The number of instructions that are actions of the host. -/
def plainCount (p : Program A) : Nat := p.instructions.countP (·.isPlain)

end Program

end CommandScript
