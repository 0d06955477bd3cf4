import CommandScript.Assembly
import CommandScript.Diagnostic
import CommandScript.Tree

/-!
# Lowering

A tree becomes directives for an assembly. The two iterations are laid out so
that all their state is in the machine's stacks:

```
run <sel> { body }                  loop <sel> { body }

  push_source_and_match <sel>         push_instr_address end
begin:                              wrapper:
  pop_source_or_branch exit           push_source_and_match <sel>
  body                              begin:
  branch begin                        pop_source_or_branch exit
exit:                                 body
  pop_frame                           call wrapper
                                      branch begin
                                    exit:
                                      pop_frame
                                      return
                                    end:
```

A `loop` body is followed by a call of the whole construct, which finds the
matches that the body has made. `break` leads to `exit`, and an iteration
without selector is only its body.
-/

namespace CommandScript

/-! ## Scopes -/

/-- The names in force at a place of the script: the entry of each subroutine,
and where `break` leads. -/
structure Scope where
  subroutines : List (String × Label) := []
  breakTarget : Option Label := none
  deriving DecidableEq, Repr

namespace Scope

def find? (s : Scope) (name : String) : Option Label := s.subroutines.lookup name

/-- The scope with an entry for a name that has none yet. -/
def declare? (s : Scope) (name : String) (label : Label) : Option Scope :=
  match s.find? name with
  | some _ => none
  | none => some { s with subroutines := s.subroutines ++ [(name, label)] }

/-- The scope inside an iteration that ends at `label`. -/
def enter (s : Scope) (label : Label) : Scope := { s with breakTarget := some label }

/-- The scope with the break target that was in force before. -/
def restore (s : Scope) (saved : Option Label) : Scope := { s with breakTarget := saved }

end Scope

/-! ## Drafts -/

/-- A lowering under way: what has been emitted, how many labels that defines,
the scope reached, and what was found wrong with the script. -/
structure Draft (A : Type) where
  code : Array (Directive A) := #[]
  labels : Nat := 0
  scope : Scope := {}
  journal : List Diagnostic := []

namespace Draft

variable {A : Type}

/-- Adds a directive. -/
def emit (d : Draft A) (x : Directive A) : Draft A := { d with code := d.code.push x }

def report (d : Draft A) (x : Diagnostic) : Draft A := { d with journal := d.journal ++ [x] }

/-- The label that `define` makes next. -/
def fresh (d : Draft A) : Label := ⟨d.labels⟩

/-- Adds a new label, which is `d.fresh`. -/
def define (d : Draft A) (name : String) : Draft A :=
  { d.emit (.define name) with labels := d.labels + 1 }

def bind (d : Draft A) (label : Label) : Draft A := d.emit (.bind label)

def control (d : Draft A) (name : String) (i : Instruction A) : Draft A :=
  d.emit (.control name i)

/-- A jump to a label. -/
def jump (d : Draft A) (make : Target → Instruction A) (name : String) (label : Label) : Draft A :=
  d.emit (.defer (.jump make name label))

/-- Defines a label for a name, unless the name has one. -/
def declare (d : Draft A) (name label : String) : Draft A :=
  let entry := d.fresh
  let d := d.define label
  { d with scope := (d.scope.declare? name entry).getD d.scope }

/-- A body in which `break` leads to `exit`. -/
def within (d : Draft A) (exit : Label) (body : Draft A → Draft A) : Draft A :=
  let saved := d.scope.breakTarget
  let d := body { d with scope := d.scope.enter exit }
  { d with scope := d.scope.restore saved }

/-- The iteration over the matches of a selector. After each run of the body
`again` is called, if it is given. -/
def frame (d : Draft A) (kind : Iteration) (selector : A) (again : Option Label)
    (body : Draft A → Draft A) : Draft A :=
  let op (name : String) := kind.keyword ++ "::" ++ name
  let exit := d.fresh
  let d := d.define (kind.keyword ++ ".loop_exit")
  let start := d.fresh
  let d := d.define (kind.keyword ++ ".loop_begin")
  let d := d.control (op "push_source_and_match") (.pushSourceAndMatch selector)
  let d := d.bind start
  let d := d.jump .popSourceOrBranch (op "pop_source_or_branch") exit
  let d := d.within exit body
  let d := again.elim d (d.jump .call (op "call"))
  let d := d.jump .branch (op "branch") start
  let d := d.bind exit
  d.control (op "pop_frame") .popFrame

/-- An iteration. -/
def iterate (d : Draft A) (kind : Iteration) (selector : Option A) (body : Draft A → Draft A) :
    Draft A :=
  match kind, selector with
  | kind, none =>
    let exit := d.fresh
    let d := d.define (kind.keyword ++ ".loop_exit")
    let d := d.within exit body
    d.bind exit
  | .run, some selector => d.frame .run selector none body
  | .loop, some selector =>
    let wrapper := d.fresh
    let d := d.define "loop.wrapper"
    let done := d.fresh
    let d := d.define "loop.end"
    let d := d.jump .pushAddress "loop::push_instr_address" done
    let d := d.bind wrapper
    let d := d.frame .loop selector (some wrapper) body
    let d := d.control "loop::return" .ret
    d.bind done

end Draft

/-! ## Trees -/

namespace Node

variable {A : Type}

mutual

/-- The draft with the code of a statement. A definition in a block has none:
it was reported when it was read. -/
def lower (n : Node A) (d : Draft A) : Draft A :=
  match n with
  | block children => lowerAll children d
  | command action => d.emit (.plain action)
  | iterate kind selector body _ => d.iterate kind selector (lowerAll body)
  | define _ _ _ => d
  | call name line =>
    match d.scope.find? name with
    | some entry => d.jump .subroutineCall "subroutine::call" entry
    | none => d.report (.error line (.unknownSubroutine name))
  | subroutineReturn => d.control "subroutine::return" .subroutineReturn
  | leave line =>
    match d.scope.breakTarget with
    | some target => d.jump .branch "break" target
    | none => d.report (.error line .strayBreak)
  | exit => d.control "exit" .exit

def lowerAll (ns : List (Node A)) (d : Draft A) : Draft A :=
  match ns with
  | [] => d
  | n :: ns => lowerAll ns (lower n d)

end

end Node

/-- The draft with the code of a subroutine, whose entry has been declared. -/
def Subroutine.lower {A : Type} (s : Subroutine A) (d : Draft A) : Except Fault (Draft A) :=
  match d.scope.find? s.name with
  | none => .error (.undeclared s.name)
  | some entry =>
    .ok ((Node.lowerAll s.body (d.bind entry)).control "subroutine::return" .subroutineReturn)

namespace Tree

variable {A : Type}

/-- Declares the subroutines of a script, of which those in `seen`, with their
lines, have been declared. A name counts once, for its first definition. -/
def declareAll (seen : List (String × Nat)) : List (Subroutine A) → Draft A → Draft A
  | [], d => d
  | s :: rest, d =>
    match seen.lookup s.name with
    | some first => declareAll seen rest (d.report (.error s.line (.redefinition s.name first)))
    | none => declareAll ((s.name, s.line) :: seen) rest (d.declare s.name ("subroutine." ++ s.name))

/-- The first definitions of each name that is not in `seen`. -/
def firsts (seen : List String) : List (Subroutine A) → List (Subroutine A)
  | [] => []
  | s :: rest =>
    if seen.contains s.name then firsts seen rest else s :: firsts (s.name :: seen) rest

/-- The draft with the code of a script: its main block, and behind it, where
the main block does not run into them, its subroutines. -/
def lower (t : Tree A) (d : Draft A) : Except Fault (Draft A) :=
  let d := declareAll [] t.subroutines d
  let d := Node.lowerAll t.main d
  let d := if t.subroutines.isEmpty then d else d.control "top_level::exit" .exit
  (firsts [] t.subroutines).foldlM (fun d s => s.lower d) d

end Tree

end CommandScript
