import CommandScript.Arena.Machine
import CommandScript.Tree

/-!
# What a script means

`Evaluates` runs a script in the arena straight on its tree, with no
instructions and no stacks. An iteration is a level: it lists its matches
once and has one pass over its body for each. A `loop` has a whole further
level after each pass, before its own next one, and so goes on for as long as
there are matches. `break` ends the level it stands in and no other, a
subroutine is run by the source that called it, and `return` ends everything.

The rules are a relation because a script need not end. `Tree.Evaluates` is
the run of a whole script.
-/

namespace CommandScript.Arena

/-- What a script acts on and has said so far, and the entity it acts as. -/
structure Stage where
  world : World
  log : List String := []
  source : Nat := server
  deriving DecidableEq, Repr

namespace Stage

/-- The same with another source. -/
def as (s : Stage) (id : Nat) : Stage := { s with source := id }

/-- What an action of the current source does. A selector is no action, and
someone who is not there cannot act. -/
def act (s : Stage) : Action → Option Stage
  | .say text =>
    (s.world.name? s.source).map fun name => { s with log := s.log ++ [name ++ ": " ++ text] }
  | .spawn name tag => some { s with world := s.world.spawn name tag }
  | .untag tag =>
    if s.source < s.world.entities.length then
      some { s with world := s.world.untag s.source tag }
    else none
  | .select _ => none

theorem source_act {s s' : Stage} {a : Action} (h : s.act a = some s') : s'.source = s.source := by
  cases a with
  | say text =>
    obtain ⟨name, -, rfl⟩ := Option.map_eq_some_iff.mp h
    rfl
  | spawn name tag =>
    obtain rfl := Option.some.inj h
    rfl
  | untag tag =>
    rw [act] at h
    split at h
    · obtain rfl := Option.some.inj h
      rfl
    · cases h
  | select tag => cases h

end Stage

/-- How a part of a script ends. -/
inductive Completion where
  /-- It went through to its end. -/
  | done
  /-- With a `break`, for the innermost level around it. -/
  | left
  /-- With a return, for the innermost call around it. -/
  | returned
  /-- With the end of the whole invocation. -/
  | ended
  deriving DecidableEq, Repr

/-- A part of a script. -/
inductive Task where
  | node (n : Node Action)
  | nodes (ns : List (Node Action))
  /-- An iteration: list the matches of the tag, and pass over the body for
  each. -/
  | level (kind : Iteration) (tag : String) (body : List (Node Action))
  /-- The passes of a level that are left, one for each of `ids`. Behind them
  the source is `saved` again. -/
  | passes (kind : Iteration) (tag : String) (body : List (Node Action)) (saved : Nat)
      (ids : List Nat)

/-- `Evaluates subs task s c s'`: in a script with the subroutines `subs`,
`task` can be run on stage `s`, ends as `c` says, and leaves stage `s'`. -/
inductive Evaluates (subs : String → Option (List (Node Action))) :
    Task → Stage → Completion → Stage → Prop where
  | nil {s : Stage} : Evaluates subs (.nodes []) s .done s
  | next {n : Node Action} {ns : List (Node Action)} {s s₁ s' : Stage} {c : Completion}
      (first : Evaluates subs (.node n) s .done s₁)
      (others : Evaluates subs (.nodes ns) s₁ c s') : Evaluates subs (.nodes (n :: ns)) s c s'
  | stop {n : Node Action} {ns : List (Node Action)} {s s' : Stage} {c : Completion}
      (first : Evaluates subs (.node n) s c s') (stops : c ≠ .done) :
      Evaluates subs (.nodes (n :: ns)) s c s'
  | block {ns : List (Node Action)} {s s' : Stage} {c : Completion}
      (children : Evaluates subs (.nodes ns) s c s') : Evaluates subs (.node (.block ns)) s c s'
  | command {a : Action} {s s' : Stage} (acts : s.act a = some s') :
      Evaluates subs (.node (.command a)) s .done s'
  | iterate {kind : Iteration} {tag : String} {body : List (Node Action)} {line : Nat}
      {s s' : Stage} {c : Completion} (level : Evaluates subs (.level kind tag body) s c s') :
      Evaluates subs (.node (.iterate kind (some (.select tag)) body line)) s c s'
  /-- A definition inside a block is passed over. -/
  | define {name : String} {line : Nat} {body : List (Node Action)} {s : Stage} :
      Evaluates subs (.node (.define name line body)) s .done s
  /-- A call goes on behind it whether its subroutine came to its end or
  returned before, and the caller acts again. -/
  | call {name : String} {line : Nat} {body : List (Node Action)} {s s' : Stage} {c : Completion}
      (found : subs name = some body) (callee : Evaluates subs (.nodes body) s c s')
      (back : c = .done ∨ c = .returned) :
      Evaluates subs (.node (.call name line)) s .done (s'.as s.source)
  | callEnded {name : String} {line : Nat} {body : List (Node Action)} {s s' : Stage}
      (found : subs name = some body) (callee : Evaluates subs (.nodes body) s .ended s') :
      Evaluates subs (.node (.call name line)) s .ended s'
  | subroutineReturn {s : Stage} : Evaluates subs (.node .subroutineReturn) s .returned s
  | leave {line : Nat} {s : Stage} : Evaluates subs (.node (.leave line)) s .left s
  | exit {s : Stage} : Evaluates subs (.node .exit) s .ended s
  | level {kind : Iteration} {tag : String} {body : List (Node Action)} {s s' : Stage}
      {c : Completion}
      (passes : Evaluates subs (.passes kind tag body s.source (s.world.matching tag)) s c s') :
      Evaluates subs (.level kind tag body) s c s'
  | exhausted {kind : Iteration} {tag : String} {body : List (Node Action)} {saved : Nat}
      {s : Stage} :
      Evaluates subs (.passes kind tag body saved []) s .done (s.as saved)
  /-- A `break` ends the level, with matches left or not. -/
  | passLeft {kind : Iteration} {tag : String} {body : List (Node Action)} {saved id : Nat}
      {ids : List Nat} {s s' : Stage} (pass : Evaluates subs (.nodes body) (s.as id) .left s') :
      Evaluates subs (.passes kind tag body saved (id :: ids)) s .done (s'.as saved)
  | passStop {kind : Iteration} {tag : String} {body : List (Node Action)} {saved id : Nat}
      {ids : List Nat} {s s' : Stage} {c : Completion}
      (pass : Evaluates subs (.nodes body) (s.as id) c s') (stops : c = .returned ∨ c = .ended) :
      Evaluates subs (.passes kind tag body saved (id :: ids)) s c s'
  | passRun {tag : String} {body : List (Node Action)} {saved id : Nat} {ids : List Nat}
      {s s₁ s' : Stage} {c : Completion}
      (pass : Evaluates subs (.nodes body) (s.as id) .done s₁)
      (others : Evaluates subs (.passes .run tag body saved ids) s₁ c s') :
      Evaluates subs (.passes .run tag body saved (id :: ids)) s c s'
  /-- After a pass of a `loop` comes a further level, and only then the next
  pass of this one. -/
  | passLoop {tag : String} {body : List (Node Action)} {saved id : Nat} {ids : List Nat}
      {s s₁ s₂ s' : Stage} {c : Completion}
      (pass : Evaluates subs (.nodes body) (s.as id) .done s₁)
      (again : Evaluates subs (.level .loop tag body) s₁ .done s₂)
      (others : Evaluates subs (.passes .loop tag body saved ids) s₂ c s') :
      Evaluates subs (.passes .loop tag body saved (id :: ids)) s c s'
  | passLoopStop {tag : String} {body : List (Node Action)} {saved id : Nat} {ids : List Nat}
      {s s₁ s' : Stage} {c : Completion}
      (pass : Evaluates subs (.nodes body) (s.as id) .done s₁)
      (again : Evaluates subs (.level .loop tag body) s₁ c s')
      (stops : c = .returned ∨ c = .ended) :
      Evaluates subs (.passes .loop tag body saved (id :: ids)) s c s'

/-- The source behind a task that came to its end: the one before it, or the
one that a level has kept. -/
def Task.sourceAfter (s : Stage) : Task → Nat
  | passes _ _ _ saved _ => saved
  | _ => s.source

theorem Evaluates.source_of_done {subs : String → Option (List (Node Action))} {task : Task}
    {s s' : Stage} {c : Completion} (h : Evaluates subs task s c s') :
    c = .done → s'.source = task.sourceAfter s := by
  induction h with
  | nil | define | call | exhausted | passLeft => exact fun _ => rfl
  | next _ _ ih₁ ih₂ => exact fun hc => (ih₂ hc).trans (ih₁ rfl)
  | stop _ stops => exact fun hc => absurd hc stops
  | block _ ih | iterate _ ih | level _ ih => exact ih
  | command acts => exact fun _ => Stage.source_act acts
  | callEnded | subroutineReturn | leave | exit => exact nofun
  | passStop _ stops | passLoopStop _ _ stops => exact fun hc => by simp [hc] at stops
  | passRun _ _ _ ih => exact ih
  | passLoop _ _ _ _ _ ih => exact ih

end CommandScript.Arena

namespace CommandScript.Tree

open Arena

/-- The body of the subroutine of a name: its first definition counts. -/
def bodyOf (t : Tree Action) (name : String) : Option (List (Node Action)) :=
  (t.subroutines.find? (·.name == name)).map (·.body)

/-- Run in the world `w`, the script ends on stage `s`: its main block went
through to its end, or the invocation was ended. -/
def Evaluates (t : Tree Action) (w : World) (c : Completion) (s : Stage) : Prop :=
  Arena.Evaluates t.bodyOf (.nodes t.main) { world := w } c s ∧ (c = .done ∨ c = .ended)

end CommandScript.Tree
