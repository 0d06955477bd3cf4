/-!
# Features

The switches a script flips with `pragma enable` and `pragma disable`.
-/

namespace CommandScript

/-- A switch. -/
inductive Feature where
  /-- The structured control-flow style, under which `run` and `loop` blocks
  are off. -/
  | controlFlowV2
  /-- Subroutine definitions, calls and returns. -/
  | subroutines
  /-- The dump of tree and instructions beside the compiled program. -/
  | debugDump
  deriving DecidableEq, Repr

namespace Feature

/-- The features in the order in which they are listed. -/
def all : List Feature := [controlFlowV2, subroutines, debugDump]

/-- The name a pragma gives a feature. -/
def name : Feature → String
  | controlFlowV2 => "cfv2"
  | subroutines => "subroutines"
  | debugDump => "debug"

/-- The feature of a name. -/
def ofName? (name : String) : Option Feature :=
  all.find? (·.name == name)

end Feature

/-- The features that are on. -/
structure Features where
  controlFlowV2 : Bool := false
  subroutines : Bool := false
  debugDump : Bool := false
  deriving DecidableEq, Repr

namespace Features

def set (f : Features) (feature : Feature) (on : Bool) : Features :=
  match feature with
  | .controlFlowV2 => { f with controlFlowV2 := on }
  | .subroutines => { f with subroutines := on }
  | .debugDump => { f with debugDump := on }

def isOn (f : Features) : Feature → Bool
  | .controlFlowV2 => f.controlFlowV2
  | .subroutines => f.subroutines
  | .debugDump => f.debugDump

/-- The features with the one of the given name switched; `none` if there is
no feature of that name. -/
def setNamed? (f : Features) (name : String) (on : Bool) : Option Features :=
  (Feature.ofName? name).map (f.set · on)

/-- Whether `run` and `loop` open blocks. -/
def blocksOn (f : Features) : Bool := !f.controlFlowV2

end Features

end CommandScript
