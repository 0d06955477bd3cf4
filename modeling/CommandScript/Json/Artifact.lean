import CommandScript.Instruction
import CommandScript.Json

/-!
# Programs as JSON

An instruction is an object with one field, named for its operation, that
holds what it carries; an instruction that carries nothing is a string. A
target is a number, and the largest 64-bit number stands for the exit.
-/

namespace CommandScript

/-- Values that have a JSON form. -/
class ToJson (A : Type) where
  toJson : A → Json

/-- Values that can be read from their JSON form. -/
class OfJson (A : Type) where
  ofJson? : Json → Option A

instance : ToJson String := ⟨.string⟩

instance : OfJson String := ⟨Json.string?⟩

namespace Target

/-- The number that stands for the exit. -/
def exitNumber : Nat := 18446744073709551615

/-- A target as a number; leaving the program is the largest of 64 bits. -/
def toNumber : Target → Nat
  | offset n => n
  | exit => exitNumber

/-- The target a 64-bit number stands for. -/
def ofNumber? (n : Nat) : Option Target :=
  if n < exitNumber then some (offset n)
  else if n = exitNumber then some exit
  else none

def ofJson? : Json → Option Target
  | .number n => ofNumber? n
  | _ => none

end Target

namespace Instruction

variable {A : Type}

/-- An object with one field. -/
def tagged (tag : String) (content : Json) : Json := .object [(tag, content)]

/-- An operation with a target in a field of the given name. -/
def jumpJson (tag field : String) (t : Target) : Json :=
  tagged tag (tagged field (.number t.toNumber))

def toJson [ToJson A] : Instruction A → Json
  | plain action => tagged "Plain" (ToJson.toJson action)
  | branch t => jumpJson "Branch" "target" t
  | call t => jumpJson "Call" "target" t
  | pushAddress t => jumpJson "PushInstrAddress" "target" t
  | ret => .string "Return"
  | subroutineCall t => jumpJson "SubroutineCall" "target" t
  | subroutineReturn => .string "SubroutineReturn"
  | pushSourceAndMatch selector =>
    tagged "Control" (tagged "PushSourceAndMatch" (tagged "selector" (ToJson.toJson selector)))
  | popSourceOrBranch t => tagged "Control" (jumpJson "PopSourceOrBranch" "exit" t)
  | popFrame => tagged "Control" (.string "PopFrame")

instance [ToJson A] : ToJson (Instruction A) := ⟨toJson⟩

/-- A field of an object, read by `read`; other fields do not matter. -/
def fieldOf {α : Type} (field : String) (read : Json → Option α) : Json → Option α
  | .object fields => do read (← Json.field? field fields)
  | _ => none

/-- The operations on frames. -/
def controlOfJson? [OfJson A] : Json → Option (Instruction A)
  | .string "PopFrame" => some popFrame
  | .object [("PopFrame", .null)] => some popFrame
  | .object [("PushSourceAndMatch", v)] =>
    (fieldOf "selector" OfJson.ofJson? v).map pushSourceAndMatch
  | .object [("PopSourceOrBranch", v)] => (fieldOf "exit" Target.ofJson? v).map popSourceOrBranch
  | _ => none

def ofJson? [OfJson A] : Json → Option (Instruction A)
  | .string "Return" => some ret
  | .string "SubroutineReturn" => some subroutineReturn
  | .object [("Return", .null)] => some ret
  | .object [("SubroutineReturn", .null)] => some subroutineReturn
  | .object [("Plain", v)] => (OfJson.ofJson? v).map plain
  | .object [("Branch", v)] => (fieldOf "target" Target.ofJson? v).map branch
  | .object [("Call", v)] => (fieldOf "target" Target.ofJson? v).map call
  | .object [("PushInstrAddress", v)] => (fieldOf "target" Target.ofJson? v).map pushAddress
  | .object [("SubroutineCall", v)] => (fieldOf "target" Target.ofJson? v).map subroutineCall
  | .object [("Control", v)] => controlOfJson? v
  | _ => none

instance [OfJson A] : OfJson (Instruction A) := ⟨ofJson?⟩

end Instruction

namespace Program

variable {A : Type}

def toJson [ToJson A] (p : Program A) : Json :=
  .object [("id", .string p.id), ("instructions", .array (p.instructions.map ToJson.toJson))]

def instructionsOfJson? [OfJson A] (v : Json) : Option (List (Instruction A)) := do
  (← v.array?).mapM OfJson.ofJson?

/-- A program, as an object or as the array of its two parts. -/
def ofJson? [OfJson A] : Json → Option (Program A)
  | .object fields => do
    let id ← (← Json.field? "id" fields).string?
    let instructions ← instructionsOfJson? (← Json.field? "instructions" fields)
    some ⟨id, instructions⟩
  | .array [id, instructions] => do
    some ⟨← id.string?, ← instructionsOfJson? instructions⟩
  | _ => none

instance [ToJson A] : ToJson (Program A) := ⟨toJson⟩

instance [OfJson A] : OfJson (Program A) := ⟨ofJson?⟩

end Program

end CommandScript
