import CommandScript.Grammar

/-!
# Trees

The structure of a script: statements nested in blocks, with the subroutines
defined at its top level kept apart from its main block. `Tree.outline` shows
a tree with one line to a node.
-/

namespace CommandScript

/-- A statement. Lines are those of the script, counted from 0. -/
inductive Node (A : Type) where
  | block (children : List (Node A))
  /-- An action of the host. -/
  | command (action : A)
  /-- A `run` or `loop` block. It has no selector if the host's grammar
  refused the one it was written with. -/
  | iterate (kind : Iteration) (selector : Option A) (body : List (Node A)) (line : Nat)
  /-- A subroutine definition, which has a meaning only at the top level. -/
  | define (name : String) (line : Nat) (body : List (Node A))
  | call (name : String) (line : Nat)
  | subroutineReturn
  /-- The end of the innermost iteration. -/
  | leave (line : Nat)
  /-- The end of the whole invocation. -/
  | exit
  deriving Repr

instance {A : Type} : Inhabited (Node A) := ⟨.exit⟩

/-- A subroutine of a script. -/
structure Subroutine (A : Type) where
  name : String
  line : Nat
  body : List (Node A)
  deriving Inhabited, Repr

/-- A script. -/
structure Tree (A : Type) where
  main : List (Node A) := []
  subroutines : List (Subroutine A) := []
  deriving Repr

namespace Tree

variable {A : Type}

/-- The script with a statement put before all others; a definition joins the
subroutines. -/
def cons (n : Node A) (t : Tree A) : Tree A :=
  match n with
  | .define name line body => { t with subroutines := ⟨name, line, body⟩ :: t.subroutines }
  | n => { t with main := n :: t.main }

end Tree

/-! ## Outlines -/

/-- A line of an outline, two blanks deeper for each level. -/
def outlineRow (depth : Nat) (text : String) : String :=
  String.ofList (List.replicate (2 * depth) ' ') ++ text ++ "\n"

variable {A : Type} [Shown A]

namespace Node

/-- A node in one line. -/
def headline : Node A → String
  | block _ => "Block"
  | command action => "Command[" ++ Shown.shown action ++ "]"
  | iterate kind selector _ _ =>
    let name := match kind with
      | .run => "Run"
      | .loop => "Loop"
    name ++ "[" ++ selector.elim "<invalid>" Shown.shown ++ "]"
  | define name _ _ => "SubroutineDefinition[" ++ name ++ "]"
  | call name _ => "SubroutineCall[" ++ name ++ "]"
  | subroutineReturn => "SubroutineReturn"
  | leave _ => "Break"
  | exit => "Exit"

mutual

/-- A node and all below it. The body of a block statement counts as a node
of its own. -/
def outline (depth : Nat) (n : Node A) : String :=
  outlineRow depth n.headline ++
    match n with
    | block children => outlineAll (depth + 1) children
    | iterate _ _ body _ => outlineRow (depth + 1) "Block" ++ outlineAll (depth + 2) body
    | define _ _ body => outlineRow (depth + 1) "Block" ++ outlineAll (depth + 2) body
    | _ => ""

def outlineAll (depth : Nat) : List (Node A) → String
  | [] => ""
  | n :: ns => outline depth n ++ outlineAll depth ns

end

end Node

/-- A list of nodes under one `Block` line. -/
def outlineBlock (depth : Nat) (ns : List (Node A)) : String :=
  outlineRow depth "Block" ++ Node.outlineAll (depth + 1) ns

/-- The definition of a subroutine, as a node. -/
def Subroutine.toNode {A : Type} (s : Subroutine A) : Node A := .define s.name s.line s.body

/-- A script: its main block, then its subroutines. -/
def Tree.outline (t : Tree A) : String :=
  outlineRow 0 "TopLevel" ++ outlineBlock 1 t.main ++
    Node.outlineAll 1 (t.subroutines.map (·.toNode))

end CommandScript
