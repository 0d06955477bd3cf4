import CommandScript.Text.Quoted

/-!
# The host's grammar of single statements

A statement that is not control flow belongs to the host: a `Grammar` binds
its text to an action, or says why it cannot. The compiler carries actions
around and never looks into them; it only asks, through `Shown`, how dumps
and listings are to write one.
-/

namespace CommandScript

/-- The two constructs that run a body for each match of a selector. -/
inductive Iteration where
  | run
  | loop
  deriving DecidableEq, Repr

namespace Iteration

def keyword : Iteration → String
  | run => "run"
  | loop => "loop"

end Iteration

/-- Why a grammar refuses a text, with the byte offset at which it stopped
reading if it says so. -/
structure SyntaxError where
  message : String
  cursor : Option Nat := none
  deriving DecidableEq, Repr

/-- What a host binds texts to actions with: `command` reads an ordinary
statement, `selector` the selector of a block header. -/
structure Grammar (A : Type) where
  command : String → Except SyntaxError A
  selector : Iteration → String → Except SyntaxError A

/-- How an action is written in dumps and listings. -/
class Shown (A : Type) where
  shown : A → String

instance : Shown String := ⟨Text.quoted⟩

end CommandScript
