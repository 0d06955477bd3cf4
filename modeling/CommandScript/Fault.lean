/-!
# Faults

What can go wrong in a compile through no fault of the script: a statement
form that mishandles the lines it is given, or labels that are misused. A
compile with the built-in statement forms has none of these.
-/

namespace CommandScript

/-- A misuse of the reader or of labels. -/
inductive Fault where
  /-- A statement form said it was done and had not moved on. -/
  | stalled (keyword : String)
  /-- A statement form moved on and then declined the line. -/
  | slipped (keyword : String)
  /-- A statement form kept having its own line read again. -/
  | runaway (keyword : String)
  /-- A subroutine's code was asked for before its label was declared. -/
  | undeclared (name : String)
  /-- A label was bound again; `first` is the offset it has. -/
  | boundTwice (name : String) (first : Nat)
  /-- An instruction refers to a label that was never bound. -/
  | unbound (name : String)
  /-- A label that is not among the `count` ones there are. -/
  | noLabel (count index : Nat)
  deriving DecidableEq, Repr

/-- The wording of a fault. -/
def Fault.message : Fault → String
  | stalled keyword => s!"internal error: parser failed to advance past '{keyword}'"
  | slipped keyword =>
    s!"internal error: handler for '{keyword}' advanced the cursor and fell through"
  | runaway keyword => s!"internal error: handler for '{keyword}' keeps reading its own line"
  | undeclared name =>
    s!"internal error: subroutine '{name}' emitted before it was declared"
  | boundTwice name first =>
    s!"internal error: label '{name}' emitted twice (first at offset {first})"
  | unbound name => s!"internal error: label '{name}' linked but never emitted"
  | noLabel count index =>
    s!"index out of bounds: the len is {count} but the index is {index}"

end CommandScript
