import CommandScript.Proofs.Divergence
import CommandScript.Proofs.Wholeness
import Mathlib.Data.Set.Card
import Mathlib.Logic.Relation

/-!
# Scripts without `loop` come to an end

A `run` lists its matches once. What its body spawns and untags changes
neither the list nor who is on it, so that there are as many passes as there
were matches at the start. A script without `loop` can then go on for ever
only through subroutines that call each other in a circle. Where they do not,
each subroutine calls only such that reach fewer others
(`Tree.ncard_reached_lt`), and every part of the script has an evaluation
(`Halts`), from whatever stage it is started.

A command needs someone to act. The entities never get fewer
(`Evaluates.entities_le`), so whoever was listed is still there when the turn
comes.
-/

namespace CommandScript

variable {A : Type}

/-! ## Loops and calls -/

namespace Node

mutual

/-- Whether there is no `loop` in a statement. A definition is passed over
where it stands, and not looked into. -/
def runOnly (n : Node A) : Bool :=
  match n with
  | block children => runOnlyAll children
  | iterate .run _ body _ => runOnlyAll body
  | iterate .loop _ _ _ => false
  | _ => true

def runOnlyAll (ns : List (Node A)) : Bool :=
  match ns with
  | [] => true
  | n :: ns => runOnly n && runOnlyAll ns

end

mutual

/-- The names a statement calls, itself or in its block. -/
def calls (n : Node A) : List String :=
  match n with
  | block children => callsAll children
  | iterate _ _ body _ => callsAll body
  | call name _ => [name]
  | _ => []

def callsAll (ns : List (Node A)) : List String :=
  match ns with
  | [] => []
  | n :: ns => calls n ++ callsAll ns

end

end Node

namespace Tree

/-- No `loop` stands in the main block or in a subroutine. -/
def runOnly (t : Tree A) : Bool :=
  Node.runOnlyAll t.main && t.subroutines.all fun s => Node.runOnlyAll s.body

/-- Each subroutine with the names it calls. -/
def callGraph (t : Tree A) : List (String × List String) :=
  t.subroutines.map fun s => (s.name, Node.callsAll s.body)

/-- The subroutine `caller` calls `callee` in its body. -/
def Calls (t : Tree A) (caller callee : String) : Prop :=
  ∃ callees, (caller, callees) ∈ t.callGraph ∧ callee ∈ callees

/-- No subroutine calls itself, directly or through others. -/
def Acyclic (t : Tree A) : Prop := ∀ name, ¬ Relation.TransGen t.Calls name name

/-- The subroutines that a subroutine calls, directly or through others. -/
def reached (t : Tree A) (name : String) : Set String :=
  {other | Relation.TransGen t.Calls name other}

theorem finite_reached (t : Tree A) (name : String) : (t.reached name).Finite := by
  refine (t.callGraph.flatMap (·.2)).finite_toSet.subset fun other hother => ?_
  obtain ⟨_, -, callees, hmem, hcall⟩ := Relation.TransGen.tail'_iff.mp hother
  exact List.mem_flatMap.mpr ⟨_, hmem, hcall⟩

/-- A subroutine reaches more than those it calls: what they reach, and them. -/
theorem ncard_reached_lt {t : Tree A} (h : t.Acyclic) {caller callee : String}
    (hcall : t.Calls caller callee) : (t.reached callee).ncard < (t.reached caller).ncard := by
  refine Set.ncard_lt_ncard ⟨fun other hother => ?_, fun hle => ?_⟩ (t.finite_reached caller)
  · exact Relation.TransGen.head hcall hother
  · exact h callee (hle (.single hcall))

/-- Subroutines that can be ranked above those they call are acyclic. -/
theorem acyclic_of_rank {t : Tree A} (rank : String → Nat)
    (h : ∀ caller callee, t.Calls caller callee → rank callee < rank caller) : t.Acyclic := by
  have hreached {name other : String} (hr : Relation.TransGen t.Calls name other) :
      rank other < rank name := by
    induction hr with
    | single hcall => exact h _ _ hcall
    | tail _ hcall ih => exact Nat.lt_trans (h _ _ hcall) ih
  exact fun name hr => Nat.lt_irrefl _ (hreached hr)

end Tree

namespace Arena

/-! ## Who is there -/

/-- The entity that acts is there. -/
def Stage.Staffed (s : Stage) : Prop := s.source < s.world.entities.length

namespace Stage

theorem entities_act {s s' : Stage} {a : Action} (h : s.act a = some s') :
    s.world.entities.length ≤ s'.world.entities.length := by
  cases a with
  | say text =>
    obtain ⟨name, -, rfl⟩ := Option.map_eq_some_iff.mp h
    exact Nat.le_refl _
  | spawn name tag =>
    obtain rfl := Option.some.inj h
    exact World.length_spawn _ _ _
  | untag tag =>
    rw [act] at h
    split at h
    · obtain rfl := Option.some.inj h
      exact Nat.le_of_eq (World.length_untag _ _ _).symm
    · cases h
  | select tag => cases h

/-- Someone who is there can do all that is asked for by a command. -/
theorem Staffed.act {s : Stage} (h : s.Staffed) {a : Action} (ha : ∀ tag, a ≠ .select tag) :
    ∃ s', s.act a = some s' := by
  have hsource : (Point.machine ⟨s, 0, {}⟩ 0).source <
      (Point.machine ⟨s, 0, {}⟩ 0).world.entities.length := h
  obtain ⟨w, log, hperform, -⟩ := Machine.perform_eq_ok hsource ha
  exact act_of_perform hperform

end Stage

section Evaluations

variable {subs : String → Option (List (Node Action))} {task : Task} {s s' : Stage}
  {c : Completion}

/-- Nobody vanishes. -/
theorem Evaluates.entities_le (h : Evaluates subs task s c s') :
    s.world.entities.length ≤ s'.world.entities.length := by
  induction h with
  | nil | define | subroutineReturn | leave | exit | exhausted => exact Nat.le_refl _
  | command acts => exact Stage.entities_act acts
  | stop _ _ ih | block _ ih | iterate _ ih | call _ _ _ ih | callEnded _ _ ih | level _ ih
  | passLeft _ ih | passStop _ _ ih => exact ih
  | next _ _ ih₁ ih₂ | passRun _ _ ih₁ ih₂ | passLoopStop _ _ _ ih₁ ih₂ => exact ih₁.trans ih₂
  | passLoop _ _ _ ih₁ ih₂ ih₃ => exact (ih₁.trans ih₂).trans ih₃

/-- Statements that come to their end leave someone to go on. -/
theorem Evaluates.staffed {n : Node Action} (h : Evaluates subs (.node n) s .done s')
    (hs : s.Staffed) : s'.Staffed := by
  rw [Stage.Staffed, h.source_of_done rfl]
  exact Nat.lt_of_lt_of_le hs h.entities_le

end Evaluations

/-! ## Evaluations that end -/

/-- The task has an evaluation from every stage with someone to act. -/
def Halts (subs : String → Option (List (Node Action))) (task : Task) : Prop :=
  ∀ s : Stage, s.Staffed → ∃ c s', Evaluates subs task s c s'

section Halts

variable {subs : String → Option (List (Node Action))} {known : String → Bool}

/-- A `run` ends if its body does: each pass takes one of the matches. -/
theorem halts_passes {body : List (Node Action)} (hbody : Halts subs (.nodes body)) (tag : String)
    (saved : Nat) {ids : List Nat} {s : Stage} (hids : ∀ id ∈ ids, id < s.world.entities.length) :
    ∃ c s', Evaluates subs (.passes .run tag body saved ids) s c s' := by
  induction ids generalizing s with
  | nil => exact ⟨_, _, .exhausted⟩
  | cons id ids ih =>
    rw [List.forall_mem_cons] at hids
    obtain ⟨c, s₁, hpass⟩ := hbody (s.as id) hids.1
    cases c with
    | left => exact ⟨_, _, .passLeft hpass⟩
    | returned => exact ⟨_, _, .passStop hpass (.inl rfl)⟩
    | ended => exact ⟨_, _, .passStop hpass (.inr rfl)⟩
    | done =>
      obtain ⟨c, s', hothers⟩ :=
        ih fun other hother => Nat.lt_of_lt_of_le (hids.2 other hother) hpass.entities_le
      exact ⟨c, s', .passRun hpass hothers⟩

theorem halts_run {body : List (Node Action)} (hbody : Halts subs (.nodes body)) (tag : String)
    (line : Nat) : Halts subs (.node (.iterate .run (some (.select tag)) body line)) := by
  intro s _
  obtain ⟨c, s', hpasses⟩ :=
    halts_passes hbody tag s.source fun _ hid => World.lt_of_mem_matching hid
  exact ⟨c, s', .iterate (.level hpasses)⟩

/-- A call ends if the subroutine does. -/
theorem halts_call (hclosed : Closed subs known) {name : String} (hknown : known name = true)
    (hbody : ∀ body, subs name = some body → Halts subs (.nodes body)) (line : Nat) :
    Halts subs (.node (.call name line)) := by
  intro s hs
  obtain ⟨body, hfound, hrun⟩ := hclosed name hknown
  obtain ⟨c, s', hcallee⟩ := hbody body hfound s hs
  cases c with
  | done => exact ⟨_, _, .call hfound hcallee (.inl rfl)⟩
  | returned => exact ⟨_, _, .call hfound hcallee (.inr rfl)⟩
  | ended => exact ⟨_, _, .callEnded hfound hcallee⟩
  | left => exact absurd (hcallee.allowed { inSubroutine := true } hrun) Bool.false_ne_true

mutual

/-- A sound statement without `loop` ends if the subroutines it calls do. -/
theorem halts_node (hclosed : Closed subs known) {site : Site} (n : Node Action)
    (hsound : n.Sound site.inSubroutine) (hrun : n.Throughout (Node.Runnable known) site)
    (hloop : n.runOnly = true)
    (hcalls : ∀ name ∈ n.calls, ∀ body, subs name = some body → Halts subs (.nodes body)) :
    Halts subs (.node n) := by
  cases n with
  | block children =>
    simp only [Node.Sound, Node.Throughout, Node.runOnly, Node.calls] at hsound hrun hloop hcalls
    intro s hs
    obtain ⟨c, s', h⟩ := halts_nodes hclosed children hsound hrun.2 hloop hcalls s hs
    exact ⟨c, s', .block h⟩
  | command a =>
    intro s hs
    obtain ⟨s', hacts⟩ := hs.act hsound
    exact ⟨.done, s', .command hacts⟩
  | iterate kind selector body line =>
    cases kind with
    | loop => cases hloop
    | run =>
      simp only [Node.Sound, Node.Throughout, Node.runOnly, Node.calls] at hsound hrun hloop hcalls
      obtain ⟨⟨tag, rfl⟩, hinside⟩ := hrun
      have hbody : Node.SoundAll site.inside.inSubroutine body := hsound.2
      exact halts_run (halts_nodes hclosed body hbody hinside hloop hcalls) tag line
  | define name line body => exact fun _ _ => ⟨_, _, .define⟩
  | call name line => exact halts_call hclosed hrun.1 (hcalls name List.mem_cons_self) line
  | subroutineReturn => exact fun _ _ => ⟨_, _, .subroutineReturn⟩
  | leave line => exact fun _ _ => ⟨_, _, .leave⟩
  | exit => exact fun _ _ => ⟨_, _, .exit⟩

theorem halts_nodes (hclosed : Closed subs known) {site : Site} (ns : List (Node Action))
    (hsound : Node.SoundAll site.inSubroutine ns)
    (hrun : Node.ThroughoutAll (Node.Runnable known) site ns) (hloop : Node.runOnlyAll ns = true)
    (hcalls : ∀ name ∈ Node.callsAll ns, ∀ body, subs name = some body →
      Halts subs (.nodes body)) :
    Halts subs (.nodes ns) := by
  cases ns with
  | nil => exact fun _ _ => ⟨_, _, .nil⟩
  | cons n ns =>
    simp only [Node.SoundAll, Node.ThroughoutAll, Node.runOnlyAll, Node.callsAll,
      Bool.and_eq_true, List.mem_append] at hsound hrun hloop hcalls
    intro s hs
    obtain ⟨c, s₁, hfirst⟩ := halts_node hclosed n hsound.1 hrun.1 hloop.1
      (fun name hname => hcalls name (.inl hname)) s hs
    by_cases hc : c = .done
    · subst hc
      obtain ⟨c, s', hothers⟩ := halts_nodes hclosed ns hsound.2 hrun.2 hloop.2
        (fun name hname => hcalls name (.inr hname)) s₁ (hfirst.staffed hs)
      exact ⟨c, s', .next hfirst hothers⟩
    · exact ⟨c, s₁, .stop hfirst hc⟩

end

end Halts

end Arena

/-! ## Scripts -/

open Arena

namespace Tree

variable {t : Tree Action}

/-- The subroutines of a script that has no `loop` and no circle of calls end,
by induction on how many others they reach. -/
theorem halts_body (hsound : t.Sound) (hrun : t.Throughout (Node.Runnable t.known))
    (hloop : t.runOnly = true) (hacyclic : t.Acyclic) {name : String} {body : List (Node Action)}
    (h : t.bodyOf name = some body) : Halts t.bodyOf (.nodes body) := by
  generalize hn : (t.reached name).ncard = n
  induction n using Nat.strongRecOn generalizing name body with
  | ind n ih =>
    obtain ⟨s, hfind, rfl⟩ := Option.map_eq_some_iff.mp h
    have hs : s ∈ t.subroutines := List.mem_of_find?_eq_some hfind
    obtain rfl : s.name = name := by simpa using List.find?_some hfind
    rw [runOnly, Bool.and_eq_true, List.all_eq_true] at hloop
    refine halts_nodes (closed hrun) s.body (hsound.subroutines s hs) (hrun.subroutines s hs)
      (hloop.2 s hs) fun callee hcallee _ hbody => ?_
    have hcall : t.Calls s.name callee := ⟨_, List.mem_map_of_mem hs, hcallee⟩
    exact ih _ (hn ▸ ncard_reached_lt hacyclic hcall) hbody rfl

theorem evaluates_of_runOnly (hsound : t.Sound) (hrun : t.Throughout (Node.Runnable t.known))
    (hloop : t.runOnly = true) (hacyclic : t.Acyclic) {w : World}
    (hw : server < w.entities.length) : ∃ c s, t.Evaluates w c s := by
  have hmain : Node.runOnlyAll t.main = true := (Bool.and_eq_true_iff.mp hloop).1
  obtain ⟨c, s, heval⟩ := halts_nodes (closed hrun) t.main hsound.main hrun.main hmain
    (fun _ _ _ hbody => halts_body hsound hrun hloop hacyclic hbody) { world := w } hw
  exact ⟨c, s, evaluates_of_main hrun heval⟩

end Tree

/-- What is well read has its selectors. -/
theorem Tree.selected_of_wellRead {t : Tree A} (h : t.Throughout Node.WellRead) :
    t.Throughout Node.Selected := by
  have hselected (site : Site) (n : Node A) (hn : n.WellRead site) (_ : n.WellRead site) :
      n.Selected site := by
    cases n with
    | iterate kind selector body line => exact hn
    | block | command | define | call | subroutineReturn | leave | exit => trivial
  exact .combine hselected h h

/-- The program of an accepted script is the layout of what was read, which is
sound and can be run. -/
theorem Compiler.runnable_of_accepted {options : Options} {id : String} {source : List String}
    {c : Compilation Action} {p : Program Action}
    (hc : Compiler.compile { grammar := Action.grammar, options } id source = .ok c)
    (hp : c.program = some p) {tree : Tree Action} {s : Reading}
    (hread : Reader.read { grammar := Action.grammar, table := .builtin } options.features
      (Line.assemble source) = .ok tree s) :
    p.instructions = tree.layout ∧ tree.Sound ∧ tree.Throughout (Node.Runnable tree.known) := by
  obtain ⟨tree', s', d, hread', hreads, hlower, hclean, hcode⟩ := Compiler.of_accepted hc hp
  cases hread.symm.trans hread'
  have hquiet : hasErrors s.journal = false := hasErrors_mono hclean (List.prefix_append _ _)
  have hsound := hreads.sound hquiet
  have hselected := Tree.selected_of_wellRead (hreads.wellRead hquiet)
  exact ⟨hcode, hsound, Tree.throughout_runnable hsound hselected
    (Tree.complaints_eq_nil hlower hclean)⟩

/-- An accepted script without `loop`, whose subroutines do not call each other
in a circle, comes to an end in every world that has the server, as every world
does (`World.server_lt_spawned`): after some number of instructions the machine
has finished. -/
theorem run_only_script_finishes {options : Options} {id : String} {source : List String}
    {c : Compilation Action} {p : Program Action}
    (hc : Compiler.compile { grammar := Action.grammar, options } id source = .ok c)
    (hp : c.program = some p) {tree : Tree Action} {s : Reading}
    (hread : Reader.read { grammar := Action.grammar, table := .builtin } options.features
      (Line.assemble source) = .ok tree s)
    (hloop : tree.runOnly = true) (hacyclic : tree.Acyclic) {w : World}
    (hw : server < w.entities.length) :
    ∃ n m, Machine.run p.instructions n { world := w } = .ok m ∧
      m.isFinished p.instructions = true := by
  obtain ⟨hcode, hsound, hrun⟩ := Compiler.runnable_of_accepted hc hp hread
  obtain ⟨c, s, heval⟩ := Tree.evaluates_of_runOnly hsound hrun hloop hacyclic hw
  obtain ⟨n, m, hm, hfinishes⟩ := Tree.run_of_evaluates heval
  rw [hcode]
  exact ⟨n, m, hm, hfinishes.finished⟩

/-- What a reading has given and reported, unless it faulted. -/
def givenBy {α : Type} : EStateM.Result Fault Reading α → Option (α × List Diagnostic)
  | .ok a s => some (a, s.journal)
  | .error _ _ => none

/-- Each guest brings a friend, who is a guest too but has no turn in the same
`run`; each host says a toast and is a host no more. -/
def reception : List String :=
  ["pragma enable subroutines", "run as guest \x7b", "subroutine_call welcome", "\x7d",
    "subroutine welcome", "spawn friend guest", "subroutine_call toast", "end",
    "subroutine toast", "run as host \x7b", "say cheers", "untag host", "\x7d", "end"]

def partyRoom : World := (({} : World).spawn "ann" "guest").spawn "eve" "host"

theorem reception_finishes : ∃ c p tree s,
    Compiler.compile { grammar := Action.grammar } "reception" reception = .ok c ∧
    c.program = some p ∧
    Reader.read { grammar := Action.grammar, table := .builtin } {} (Line.assemble reception) =
      .ok tree s ∧
    tree.runOnly = true ∧ tree.Acyclic ∧ server < partyRoom.entities.length ∧
    ∃ n m, Machine.run p.instructions n { world := partyRoom } = .ok m ∧
      m.isFinished p.instructions = true := by
  obtain ⟨tree, s, hread, -⟩ := Compiler.read_reads Action.grammar {} reception
  -- The script is evaluated once, up to what was read of it.
  have hgiven : (givenBy (Reader.read { grammar := Action.grammar, table := .builtin } {}
      (Line.assemble reception))).map
        (fun given => (given.1.runOnly, given.1.callGraph, given.2 ++ given.1.complaints)) =
      some (true, [("welcome", ["toast"]), ("toast", [])], []) := by decide +kernel
  rw [hread, givenBy, Option.map_some, Option.some_inj, Prod.mk.injEq, Prod.mk.injEq] at hgiven
  obtain ⟨hloop, hgraph, hquiet⟩ := hgiven
  obtain ⟨d, hlower, hlinks⟩ := tree.lower_links
  obtain ⟨c, hc, -, hp⟩ := Compiler.compile_eq_ok hread hlower hlinks "reception"
  rw [Tree.journal_lower hlower, hquiet] at hp
  have hacyclic : tree.Acyclic := by
    refine Tree.acyclic_of_rank (fun name => if name = "welcome" then 1 else 0) ?_
    rintro caller callee ⟨callees, hmem, hcallee⟩
    rw [hgraph] at hmem
    have hedge : caller = "welcome" ∧ callee = "toast" := by
      rcases List.mem_cons.mp hmem with hfirst | hsecond
      · cases hfirst
        exact ⟨rfl, List.mem_singleton.mp hcallee⟩
      · cases List.mem_singleton.mp hsecond
        cases hcallee
    rw [hedge.1, hedge.2]
    decide
  have hw : server < partyRoom.entities.length :=
    World.server_lt_spawned [("ann", "guest"), ("eve", "host")]
  exact ⟨c, _, tree, s, hc, hp, hread, hloop, hacyclic, hw,
    run_only_script_finishes hc hp hread hloop hacyclic hw⟩

end CommandScript
