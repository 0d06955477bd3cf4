import CommandScript.Proofs.Sites

/-!
# What lowering finds wrong

Three things can be wrong with a script that was read: a subroutine is defined
again, a call names no subroutine, or a `break` has no iteration around it.
`Tree.redefined` and `Tree.visits` say where, by the places in the script:
which subroutines stand before a definition, and which statements are around a
statement. Lowering goes through the script with a record of names and a break
target instead, and reports the same (`Tree.complaints_eq`). A redefinition is
reported with the line of the first definition (`Tree.redefinedTexts`), which is
counted from one, and so cannot be named if it is the last line there is.

What was reported earlier stays in front, and makes no difference to the code
(`Tree.lower_after`).
-/

namespace CommandScript

variable {A : Type}

/-! ## Earlier reports -/

namespace Draft

/-- The draft with earlier reports in front of its own. -/
def after (earlier : List Diagnostic) (d : Draft A) : Draft A :=
  { d with journal := earlier ++ d.journal }

variable (earlier : List Diagnostic)

theorem report_after (d : Draft A) (x : Diagnostic) :
    (d.after earlier).report x = (d.report x).after earlier := by
  simp only [report, after, List.append_assoc]

section Bodies

variable {earlier} {body : Draft A → Draft A}
  (hbody : ∀ d, body (d.after earlier) = (body d).after earlier)

include hbody

theorem within_after (d : Draft A) (exit : Label) :
    (d.after earlier).within exit body = (d.within exit body).after earlier := by
  have hinside := hbody { d with scope := d.scope.enter exit }
  exact congrArg (fun d' : Draft A => { d' with scope := d'.scope.restore d.scope.breakTarget })
    hinside

theorem frame_after (d : Draft A) (kind : Iteration) (selector : A) (again : Option Label) :
    (d.after earlier).frame kind selector again body =
      (d.frame kind selector again body).after earlier := by
  have hopen : (d.after earlier).frameOpen kind selector =
      (d.frameOpen kind selector).after earlier := rfl
  rw [frame_eq, frame_eq, hopen, within_after hbody]
  cases again <;> rfl

theorem iterate_after (d : Draft A) (kind : Iteration) (selector : Option A) :
    (d.after earlier).iterate kind selector body =
      (d.iterate kind selector body).after earlier := by
  cases selector with
  | none =>
    show (((d.after earlier).define _).within d.fresh body).bind d.fresh = _
    exact congrArg (·.bind d.fresh) (within_after hbody (d.define _) d.fresh)
  | some selector =>
    cases kind with
    | run => exact frame_after hbody d .run selector none
    | loop =>
      rw [iterate_loop, iterate_loop]
      have hframe := frame_after hbody d.loopOpen .loop selector (some d.fresh)
      exact congrArg (fun d' => (d'.control "loop::return" .ret).bind
        (d.define "loop.wrapper").fresh) hframe

end Bodies

end Draft

namespace Node

variable (earlier : List Diagnostic)

mutual

theorem lower_after (n : Node A) (d : Draft A) :
    n.lower (d.after earlier) = (n.lower d).after earlier := by
  cases n with
  | block children =>
    simp only [lower]
    exact lowerAll_after children d
  | iterate kind selector body line =>
    simp only [lower]
    exact Draft.iterate_after (lowerAll_after body) d kind selector
  | call name line =>
    have hscope : (d.after earlier).scope = d.scope := rfl
    simp only [lower, hscope]
    cases d.scope.find? name with
    | some entry => rfl
    | none => exact d.report_after earlier _
  | leave line =>
    have hscope : (d.after earlier).scope = d.scope := rfl
    simp only [lower, hscope]
    cases d.scope.breakTarget with
    | some target => rfl
    | none => exact d.report_after earlier _
  | command | define | subroutineReturn | exit => rfl

theorem lowerAll_after (ns : List (Node A)) (d : Draft A) :
    lowerAll ns (d.after earlier) = (lowerAll ns d).after earlier := by
  cases ns with
  | nil => rfl
  | cons n ns =>
    simp only [lowerAll]
    rw [lower_after n d, lowerAll_after ns]

end

end Node

theorem Subroutine.lower_after (earlier : List Diagnostic) (s : Subroutine A) (d : Draft A) :
    s.lower (d.after earlier) = (s.lower d).map (·.after earlier) := by
  have hscope : (d.after earlier).scope = d.scope := rfl
  rw [lower, lower, hscope]
  cases d.scope.find? s.name with
  | none => rfl
  | some entry =>
    have hbody := Node.lowerAll_after earlier s.body (d.bind entry)
    exact congrArg (fun d => Except.ok (d.control "subroutine::return" .subroutineReturn)) hbody

namespace Tree

variable (earlier : List Diagnostic)

theorem declareAll_after (seen : List (String × Nat)) (subs : List (Subroutine A)) (d : Draft A) :
    declareAll seen subs (d.after earlier) = (declareAll seen subs d).after earlier := by
  induction subs generalizing seen d with
  | nil => rfl
  | cons s subs ih =>
    rw [declareAll, declareAll]
    cases seen.lookup s.name with
    | some first =>
      dsimp only
      rw [d.report_after, ih]
    | none => exact ih _ (d.declare s.name ("subroutine." ++ s.name))

theorem lowerEach_after (fs : List (Subroutine A)) (d : Draft A) :
    fs.foldlM (fun d s => Subroutine.lower s d) (d.after earlier) =
      (fs.foldlM (fun d s => Subroutine.lower s d) d).map (·.after earlier) := by
  induction fs generalizing d with
  | nil => rfl
  | cons s fs ih =>
    rw [List.foldlM_cons, List.foldlM_cons, s.lower_after]
    cases s.lower d with
    | error fault => rfl
    | ok d' => exact ih d'

/-- Earlier reports change nothing in a lowering. -/
theorem lower_after (t : Tree A) (d : Draft A) :
    t.lower (d.after earlier) = (t.lower d).map (·.after earlier) := by
  rw [lower, lower, declareAll_after, Node.lowerAll_after, ← lowerEach_after]
  split <;> rfl

end Tree

/-! ## Statements and what is around them -/

/-- Whether a statement is a `run` or `loop` block. -/
def Node.isIteration : Node A → Bool
  | iterate _ _ _ _ => true
  | _ => false

/-- A statement that is lowered, and the statements around it, the innermost
first. -/
structure Visit (A : Type) where
  around : List (Node A)
  node : Node A

/-- What is wrong with a statement where it stands. -/
def Visit.offence? (known : String → Bool) (v : Visit A) : Option Diagnostic :=
  match v.node with
  | .call name line => if known name then none else some (.error line (.unknownSubroutine name))
  | .leave line => if v.around.any (·.isIteration) then none else some (.error line .strayBreak)
  | _ => none

namespace Node

mutual

/-- A statement, and after it those in its block, in the order of the script.
What is in a definition is not lowered here, and not visited. -/
def visits (around : List (Node A)) (n : Node A) : List (Visit A) :=
  ⟨around, n⟩ ::
    match n with
    | block children => visitsAll (n :: around) children
    | iterate _ _ body _ => visitsAll (n :: around) body
    | _ => []

def visitsAll (around : List (Node A)) (ns : List (Node A)) : List (Visit A) :=
  match ns with
  | [] => []
  | n :: ns => visits around n ++ visitsAll around ns

end

variable (known : String → Bool)

mutual

/-- The break target tells whether there is an iteration around a statement. -/
theorem filterMap_visits (around : List (Node A)) (n : Node A) :
    (n.visits around).filterMap (·.offence? known) =
      n.complaints known (around.any (·.isIteration)) := by
  cases n with
  | block children =>
    simp only [visits, complaints]
    rw [List.filterMap_cons_none rfl, filterMap_visitsAll]
    rfl
  | iterate kind selector body line =>
    simp only [visits, complaints]
    rw [List.filterMap_cons_none rfl, filterMap_visitsAll]
    rfl
  | call name line => cases h : known name <;> simp [visits, complaints, Visit.offence?, h]
  | leave line =>
    simp only [visits, complaints, List.filterMap_cons, List.filterMap_nil, Visit.offence?]
    cases around.any (·.isIteration) <;> rfl
  | command | define | subroutineReturn | exit => rfl

theorem filterMap_visitsAll (around : List (Node A)) (ns : List (Node A)) :
    (visitsAll around ns).filterMap (·.offence? known) =
      complaintsAll known (around.any (·.isIteration)) ns := by
  cases ns with
  | nil => rfl
  | cons n ns =>
    simp only [visitsAll, complaintsAll]
    rw [List.filterMap_append, filterMap_visits, filterMap_visitsAll]

end

end Node

/-! ## Subroutines and what stands before them -/

namespace Tree

/-- The first definition of a name among the first `i` subroutines. -/
def definedBefore? (t : Tree A) (i : Nat) (name : String) : Option (Subroutine A) :=
  (t.subroutines.take i).find? (·.name == name)

/-- What is wrong with the subroutines: each that has the name of an earlier
one is reported, with the line of the first of that name. -/
def redefined (t : Tree A) : List Diagnostic :=
  t.subroutines.zipIdx.filterMap fun p => (t.definedBefore? p.2 p.1.name).map fun first =>
    .error p.1.line (.redefinition p.1.name first.line)

/-- The subroutines that have the name of no earlier one. -/
def originals (t : Tree A) : List (Subroutine A) :=
  (t.subroutines.zipIdx.filter fun p => (t.definedBefore? p.2 p.1.name).isNone).map (·.1)

/-- The statements that are lowered: those of the main block, and behind them
those of the original subroutines. -/
def visits (t : Tree A) : List (Visit A) :=
  Node.visitsAll [] t.main ++ t.originals.flatMap fun s => Node.visitsAll [] s.body

/-- The names in `seen` are those of the first `i` subroutines, each with the
line of the first that has it. -/
def Seen (t : Tree A) (i : Nat) (seen : List (String × Nat)) : Prop :=
  ∀ name, seen.lookup name = (t.definedBefore? i name).map (·.line)

variable {t : Tree A} {i : Nat} {s : Subroutine A} {rest : List (Subroutine A)}
  {seen : List (String × Nat)}

theorem definedBefore?_succ (hs : t.subroutines[i]? = some s) (name : String) :
    t.definedBefore? (i + 1) name =
      (t.definedBefore? i name).or (if s.name == name then some s else none) := by
  rw [definedBefore?, List.take_add_one, hs, Option.toList_some, List.find?_append,
    List.find?_singleton]
  rfl

/-- A name that was seen keeps its line. -/
theorem Seen.again (h : t.Seen i seen) (hs : t.subroutines[i]? = some s) {first : Nat}
    (hfirst : seen.lookup s.name = some first) : t.Seen (i + 1) seen := by
  intro name
  rw [definedBefore?_succ hs, h name]
  by_cases hname : s.name = name
  · subst hname
    rw [h] at hfirst
    obtain ⟨original, horiginal, -⟩ := Option.map_eq_some_iff.mp hfirst
    rw [horiginal]
    rfl
  · rw [if_neg (by simpa using hname), Option.or_none]

theorem Seen.new (h : t.Seen i seen) (hs : t.subroutines[i]? = some s)
    (hnew : seen.lookup s.name = none) : t.Seen (i + 1) ((s.name, s.line) :: seen) := by
  intro name
  rw [definedBefore?_succ hs, List.lookup_cons]
  by_cases hname : s.name = name
  · subst hname
    rw [h, Option.map_eq_none_iff] at hnew
    simp [hnew]
  · have hne : (name == s.name) = false := beq_false_of_ne (Ne.symm hname)
    rw [if_neg (by simpa using hname), Option.or_none, hne]
    exact h name

/-- The subroutine with which a rest begins, and the rest behind it. -/
theorem of_drop_eq_cons (h : t.subroutines.drop i = s :: rest) :
    t.subroutines[i]? = some s ∧ t.subroutines.drop (i + 1) = rest := by
  rw [← List.head?_drop, ← List.tail_drop, h]
  exact ⟨rfl, rfl⟩

theorem redefinitions_eq (h : t.Seen i seen) (hrest : t.subroutines.drop i = rest) :
    redefinitions seen rest = (rest.zipIdx i).filterMap fun p =>
      (t.definedBefore? p.2 p.1.name).map fun first =>
        .error p.1.line (.redefinition p.1.name first.line) := by
  induction rest generalizing i seen with
  | nil => rfl
  | cons s rest ih =>
    obtain ⟨hs, htail⟩ := of_drop_eq_cons hrest
    have hseen := h s.name
    rw [redefinitions, List.zipIdx_cons, List.filterMap_cons]
    cases hfound : t.definedBefore? i s.name with
    | some first =>
      rw [hfound] at hseen
      rw [hseen]
      exact congrArg _ (ih (h.again hs hseen) htail)
    | none =>
      rw [hfound] at hseen
      rw [hseen]
      exact ih (h.new hs hseen) htail

theorem firsts_eq (h : t.Seen i seen) (hrest : t.subroutines.drop i = rest) :
    firsts (seen.map (·.1)) rest =
      ((rest.zipIdx i).filter fun p => (t.definedBefore? p.2 p.1.name).isNone).map (·.1) := by
  induction rest generalizing i seen with
  | nil => rfl
  | cons s rest ih =>
    obtain ⟨hs, htail⟩ := of_drop_eq_cons hrest
    have hseen := h s.name
    rw [firsts, ← isSome_lookup, List.zipIdx_cons, List.filter_cons]
    cases hfound : t.definedBefore? i s.name with
    | some first =>
      rw [hfound] at hseen
      rw [hseen]
      exact ih (h.again hs hseen) htail
    | none =>
      rw [hfound] at hseen
      rw [hseen]
      exact congrArg (s :: ·) (ih (h.new hs hseen) htail)

/-- Lowering reports what is wrong with the subroutines, and after it what is
wrong with the statements. -/
theorem complaints_eq (t : Tree A) :
    t.complaints = t.redefined ++ t.visits.filterMap (·.offence? t.known) := by
  have hstart : t.Seen 0 [] := fun _ => rfl
  have hredefined : redefinitions [] t.subroutines = t.redefined :=
    redefinitions_eq hstart (List.drop_zero ..)
  have hfirsts : firsts [] t.subroutines = t.originals := firsts_eq hstart (List.drop_zero ..)
  rw [complaints, hredefined, hfirsts, visits, List.filterMap_append, List.filterMap_flatMap,
    Node.filterMap_visitsAll, List.append_assoc]
  simp only [Node.filterMap_visitsAll]
  rfl

end Tree

/-- The wording of the reports on subroutines that are defined again: each names the
first definition by its line, counted from 1. -/
def Tree.redefinedTexts (t : Tree A) : List String :=
  t.subroutines.zipIdx.filterMap fun p => (t.definedBefore? p.2 p.1.name).map fun first =>
    "re-definition of subroutine '" ++ p.1.name ++ "' (previously defined on line " ++
      (first.line + 1).repr ++ ")"

theorem Tree.mem_of_definedBefore? {t : Tree A} {i : Nat} {name : String} {s : Subroutine A}
    (h : t.definedBefore? i name = some s) : s ∈ t.subroutines :=
  List.mem_of_mem_take (List.mem_of_find?_eq_some h)

theorem message_redefinition (name : String) {first : Nat} (h : first < lastLine) :
    (Cause.redefinition name first).message =
      "re-definition of subroutine '" ++ name ++ "' (previously defined on line " ++
        (first + 1).repr ++ ")" := by
  rw [← ordinal_of_lt h]
  rfl

theorem Tree.message_redefined {t : Tree A} (h : ∀ s ∈ t.subroutines, s.line < lastLine) :
    t.redefined.map (·.message) = t.redefinedTexts := by
  rw [redefined, redefinedTexts, List.map_filterMap]
  refine congrArg (List.filterMap · t.subroutines.zipIdx) (funext fun p => ?_)
  rw [Option.map_map]
  cases hfirst : t.definedBefore? p.2 p.1.name with
  | none => rw [Option.map_none, Option.map_none]
  | some first =>
    exact congrArg some (message_redefinition p.1.name (h first (mem_of_definedBefore? hfirst)))

/-- A subroutine that is defined again, first on the last line but one, beside a
stray `break` and a call that names no subroutine. -/
def encore : Tree String where
  main := [.leave 7]
  subroutines := [⟨"a", lastLine - 1, []⟩, ⟨"b", 3, [.call "c" 4]⟩, ⟨"a", 5, []⟩]

/-- A subroutine that is defined again, first on the last line there is. -/
def frontier : Tree String where
  main := []
  subroutines := [⟨"a", lastLine, []⟩, ⟨"a", 0, []⟩]

end CommandScript
