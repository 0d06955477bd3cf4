import CommandScript.Json.Artifact
import CommandScript.Json.Reader
import CommandScript.Text.Blank

/-!
# Lexicon hosts

A host that only knows which words may start a command and which may start a
selector. Its lexicon comes from a JSON file.
-/

namespace CommandScript.Host

/-- The words a host knows. No commands at all means that every word may start
a command. -/
structure Lexicon where
  commands : List String := [
    "say", "tell", "tellraw", "give", "tp", "teleport", "summon", "kill", "tag", "effect",
    "setblock", "fill", "scoreboard", "function", "execute", "particle", "playsound"]
  selectors : List String := ["as", "at"]
  deriving DecidableEq, Repr

/-- A command or a selector, in words. -/
inductive LexiconAction where
  | command (name : String) (args : List String)
  /-- A selector of the iteration `context`, which starts with the word `word`. -/
  | selector (context : Iteration) (word target : String)
  deriving DecidableEq, Repr

namespace Lexicon

/-! ## Reading a lexicon -/

/-- A list of words that may be left out, but not given twice. -/
def listOr (default : List String) : List Json → Option (List String)
  | [] => some default
  | [v] => v.strings?
  | _ => none

/-- A lexicon, as an object or as the array of its two lists. What is left out
is as in the built-in lexicon. -/
def ofJson? : Json → Option Lexicon
  | .object fields => do
    let base : Lexicon := {}
    let commands ← listOr base.commands (Json.valuesOf "commands" fields)
    let selectors ← listOr base.selectors (Json.valuesOf "selectors" fields)
    some { commands, selectors }
  | .array [] => some {}
  | .array [commands] => do some { commands := ← commands.strings? }
  | .array [commands, selectors] => do
    some { commands := ← commands.strings?, selectors := ← selectors.strings? }
  | _ => none

/-- The lexicon in the text of a file. -/
def parse? (text : String) : Option Lexicon := do ofJson? (← Json.parse? text)

/-! ## The grammar -/

/-- Whether a word is a command; an empty list of commands allows every word. -/
def isCommand (l : Lexicon) (name : String) : Bool :=
  l.commands.isEmpty || l.commands.contains name

def command (l : Lexicon) (text : String) : Except SyntaxError LexiconAction :=
  match Text.fields text with
  | [] => .error ⟨"empty command", some 0⟩
  | name :: args =>
    if l.isCommand name then .ok (.command name args)
    else .error ⟨s!"unknown command '{name}'", some 0⟩

def selector (l : Lexicon) (kind : Iteration) (text : String) : Except SyntaxError LexiconAction :=
  let (word, target) := Text.cutAt Text.isBlank text
  let target := Text.trim target
  if !l.selectors.contains word then
    .error ⟨"expected one of [" ++ ", ".intercalate l.selectors ++ "], found '" ++ word ++ "'",
      some 0⟩
  else if target.isEmpty then
    .error ⟨s!"missing target after '{word}'", some word.utf8ByteSize⟩
  else .ok (.selector kind word target)

def grammar (l : Lexicon) : Grammar LexiconAction := ⟨l.command, l.selector⟩

end Lexicon

namespace LexiconAction

def shown : LexiconAction → String
  | command name args =>
    "Command \x7b name: " ++ Text.quoted name ++ ", args: " ++ Text.quotedList args ++ " \x7d"
  | selector context word target =>
    "Selector \x7b context: " ++ Text.quoted context.keyword ++ ", prefix: " ++ Text.quoted word ++
      ", target: " ++ Text.quoted target ++ " \x7d"

def toJson : LexiconAction → Json
  | command name args => .object [
      ("kind", .string "command"), ("name", .string name), ("args", .array (args.map .string))]
  | selector context word target => .object [
      ("kind", .string "selector"), ("context", .string context.keyword),
      ("prefix", .string word), ("target", .string target)]

instance : Shown LexiconAction := ⟨shown⟩

instance : ToJson LexiconAction := ⟨toJson⟩

end LexiconAction

end CommandScript.Host
