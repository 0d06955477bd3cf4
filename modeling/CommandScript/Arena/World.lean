/-!
# The arena

A small world for compiled scripts to act on: entities that have a name and
carry tags. Entities are numbered in the order in which they appeared; the
first is the server, whom a script starts as.
-/

namespace CommandScript.Arena

/-- Someone in the arena. -/
structure Entity where
  name : String
  tags : List String
  deriving DecidableEq, Repr

/-- The entities, in the order in which they appeared. -/
structure World where
  entities : List Entity := [⟨"server", []⟩]
  deriving DecidableEq, Repr

/-- The number of the server. -/
def server : Nat := 0

namespace World

/-- A new entity, unless its name is taken. -/
def spawn (w : World) (name tag : String) : World :=
  if w.entities.any (·.name == name) then w
  else ⟨w.entities ++ [⟨name, [tag]⟩]⟩

/-- Takes a tag from an entity. -/
def untag (w : World) (id : Nat) (tag : String) : World :=
  ⟨w.entities.modify id fun e => { e with tags := e.tags.filter (· != tag) }⟩

/-- The numbers of the entities that carry a tag, ascending. -/
def matching (w : World) (tag : String) : List Nat :=
  w.entities.zipIdx.filterMap fun (e, id) => if e.tags.contains tag then some id else none

def name? (w : World) (id : Nat) : Option String := w.entities[id]?.map (·.name)

end World

end CommandScript.Arena
