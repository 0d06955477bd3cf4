import CommandScript.Grammar
import CommandScript.Text.Blank

/-!
# Actions in the arena

The host's grammar: `say <text>`, `spawn <name> <tag>` and `untag <tag>` are
commands, `as <tag>` is a selector.
-/

namespace CommandScript.Arena

/-- What a script can ask for in the arena. -/
inductive Action where
  /-- Speaks as the current source. -/
  | say (text : String)
  | spawn (name tag : String)
  /-- Takes a tag from the current source. -/
  | untag (tag : String)
  /-- Selects every entity that carries a tag. -/
  | select (tag : String)
  deriving DecidableEq, Repr

namespace Action

/-- Reads a command; the first blank ends its name. -/
def command (text : String) : Except SyntaxError Action :=
  let (head, rest) := Text.cutAt (· == ' ') text
  let rest := Text.trim rest
  match head, Text.fields rest with
  | "say", _ :: _ => .ok (.say rest)
  | "spawn", [name, tag] => .ok (.spawn name tag)
  | "untag", [tag] => .ok (.untag tag)
  | head, _ =>
    if head = "say" ∨ head = "spawn" ∨ head = "untag" then
      .error ⟨s!"bad arguments for '{head}'", some head.utf8ByteSize⟩
    else .error ⟨s!"unknown command '{head}'", some 0⟩

/-- Reads a selector, which is the same in both kinds of block. -/
def selector (_ : Iteration) (text : String) : Except SyntaxError Action :=
  match Text.fields text with
  | ["as", tag] => .ok (.select tag)
  | _ => .error ⟨s!"expected 'as <tag>', found '{text}'", none⟩

def grammar : Grammar Action := ⟨command, selector⟩

def shown : Action → String
  | say text => "Say(" ++ Text.quoted text ++ ")"
  | spawn name tag =>
    "Spawn \x7b name: " ++ Text.quoted name ++ ", tag: " ++ Text.quoted tag ++ " \x7d"
  | untag tag => "Untag(" ++ Text.quoted tag ++ ")"
  | select tag => "Select(" ++ Text.quoted tag ++ ")"

instance : Shown Action := ⟨shown⟩

end Action

end CommandScript.Arena
