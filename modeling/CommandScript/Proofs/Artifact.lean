import CommandScript.Json.Artifact
import CommandScript.Proofs.JsonText

/-!
# Programs survive JSON

A program that is written as JSON, on one line or over several, is the program
that is read from the text. Its actions and selectors may be any texts, and
its targets any offsets that a 64-bit number can tell from the exit.
-/

namespace CommandScript

/-- An offset that is not the number that stands for the exit, and not beyond
it. -/
def Target.Fits : Target → Prop
  | offset n => n < exitNumber
  | exit => True

theorem Target.ofNumber?_toNumber {t : Target} (h : t.Fits) : ofNumber? t.toNumber = some t := by
  cases t with
  | offset n => exact if_pos h
  | exit => rfl

namespace Instruction

variable {A : Type}

/-- The target of an instruction, if it has one, fits. -/
def Fits (i : Instruction A) : Prop := ∀ t, i.target? = some t → t.Fits

/-- A field is found in the object that holds nothing else. -/
theorem fieldOf_tagged {α : Type} (field : String) (read : Json → Option α) (v : Json) :
    fieldOf field read (tagged field v) = read v := by
  simp [fieldOf, tagged, Json.field?, Json.valuesOf]

theorem fieldOf_target (field : String) {t : Target} (h : t.Fits) :
    fieldOf field Target.ofJson? (tagged field (.number t.toNumber)) = some t := by
  rw [fieldOf_tagged]
  exact Target.ofNumber?_toNumber h

variable [ToJson A]

theorem legible_tagged {tag : String} {v : Json} (h : v.Legible) : (tagged tag v).Legible :=
  .object fun _ hp => List.mem_singleton.mp hp ▸ h

theorem legible_toJson (hA : ∀ a : A, (ToJson.toJson a).Legible) (i : Instruction A) :
    i.toJson.Legible := by
  cases i with
  | plain a => exact legible_tagged (hA a)
  | branch t | call t | pushAddress t | subroutineCall t =>
    exact legible_tagged (legible_tagged (.number _))
  | ret | subroutineReturn => exact .string _
  | pushSourceAndMatch a => exact legible_tagged (legible_tagged (legible_tagged (hA a)))
  | popSourceOrBranch t => exact legible_tagged (legible_tagged (legible_tagged (.number _)))
  | popFrame => exact legible_tagged (.string _)

variable [OfJson A]

/-- An instruction is read back from its JSON form, if its action is. -/
theorem ofJson?_toJson (hA : ∀ a : A, OfJson.ofJson? (ToJson.toJson a) = some a)
    {i : Instruction A} (h : i.Fits) : ofJson? i.toJson = some i := by
  cases i with
  | plain a => exact congrArg (Option.map plain) (hA a)
  | branch t => exact congrArg (Option.map branch) (fieldOf_target "target" (h t rfl))
  | call t => exact congrArg (Option.map call) (fieldOf_target "target" (h t rfl))
  | pushAddress t => exact congrArg (Option.map pushAddress) (fieldOf_target "target" (h t rfl))
  | ret => rfl
  | subroutineCall t =>
    exact congrArg (Option.map subroutineCall) (fieldOf_target "target" (h t rfl))
  | subroutineReturn => rfl
  | pushSourceAndMatch a =>
    have hselector : fieldOf "selector" OfJson.ofJson? (tagged "selector" (ToJson.toJson a)) =
        some a := (fieldOf_tagged _ _ _).trans (hA a)
    exact congrArg (Option.map pushSourceAndMatch) hselector
  | popSourceOrBranch t =>
    exact congrArg (Option.map popSourceOrBranch) (fieldOf_target "exit" (h t rfl))
  | popFrame => rfl

end Instruction

namespace Program

variable {A : Type} [ToJson A]

theorem legible_toJson (hA : ∀ a : A, (ToJson.toJson a).Legible) (p : Program A) :
    p.toJson.Legible := by
  have hinstructions : (Json.array (p.instructions.map ToJson.toJson)).Legible := by
    refine .array fun v hv => ?_
    obtain ⟨i, -, rfl⟩ := List.mem_map.mp hv
    exact Instruction.legible_toJson hA i
  refine .object fun q hq => ?_
  simp only [List.mem_cons, List.not_mem_nil, or_false] at hq
  rcases hq with rfl | rfl
  · exact .string _
  · exact hinstructions

variable [OfJson A]

theorem ofJson?_toJson (hA : ∀ a : A, OfJson.ofJson? (ToJson.toJson a) = some a) {p : Program A}
    (h : ∀ i ∈ p.instructions, i.Fits) : ofJson? p.toJson = some p := by
  have hinstructions : instructionsOfJson? (.array (p.instructions.map ToJson.toJson)) =
      some p.instructions :=
    mapM_map_eq_pure fun i hi => Instruction.ofJson?_toJson hA (h i hi)
  simp [toJson, ofJson?, Json.field?, Json.valuesOf, Json.string?, hinstructions]

end Program

/-- A program survives JSON: written on one line or over several and read
back, it is the same, whatever the texts of its name, actions and selectors,
and with targets up to the largest 64-bit number, which is the exit. -/
theorem program_survives_json (p : Program String)
    (h : ∀ i ∈ p.instructions, ∀ n, i.target? = some (.offset n) → n < Target.exitNumber) :
    (Json.parse? p.toJson.compact).bind Program.ofJson? = some p ∧
    (Json.parse? p.toJson.pretty).bind Program.ofJson? = some p := by
  have hlegible : p.toJson.Legible := p.legible_toJson .string
  have hfits : ∀ i ∈ p.instructions, i.Fits := by
    intro i hi t ht
    cases t with
    | offset n => exact h i hi n ht
    | exit => trivial
  have hread : Program.ofJson? p.toJson = some p := Program.ofJson?_toJson (fun _ => rfl) hfits
  rw [hlegible.parse?_compact, hlegible.parse?_pretty, Option.bind_some, hread]
  exact ⟨rfl, rfl⟩

/-- Quotes, backslashes, control characters and characters beyond the first
plane, the last offset and the exit. -/
def curio : Program String where
  id := "museum:\"curio\""
  instructions :=
    [.plain "say \"\\\n\x00\x1f\x7f\u2028😀\"", .pushSourceAndMatch "@e[name=\"\\\"]",
      .popSourceOrBranch (.offset 18446744073709551614), .branch .exit, .ret, .popFrame]

theorem curio_survives_json :
    (∀ i ∈ curio.instructions, ∀ n, i.target? = some (.offset n) → n < Target.exitNumber) ∧
    (Json.parse? curio.toJson.compact).bind Program.ofJson? = some curio ∧
    (Json.parse? curio.toJson.pretty).bind Program.ofJson? = some curio := by
  have h : ∀ i ∈ curio.instructions, ∀ n, i.target? = some (.offset n) →
      n < Target.exitNumber := by
    simp [curio, Instruction.target?, Target.exitNumber]
  exact ⟨h, program_survives_json curio h⟩

end CommandScript
