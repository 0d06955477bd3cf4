import CommandScript.Proofs.Safety
import CommandScript.Proofs.Simulation
import CommandScript.Proofs.Sites

/-!
# The machine finishes only what ends

`Evaluates.simulates` leads from the evaluation of a script to a run of the
machine. This is the way back: where the machine finishes, the script has an
evaluation, and so a script that goes on for ever keeps the machine running.

The induction is on the number of instructions left to the machine
(`FinishesIn`). To open a level, to take a match and to call a subroutine is
an instruction each, so that less is left for what is inside
(`FinishesIn.of_reaches_ne`). Within a body the statements are taken one by
one, and what the ones before did to the machine is known from their
evaluation.
-/

namespace CommandScript.Arena

variable {code : List (Instruction Action)}

/-! ## Runs that finish -/

/-- From the point `x` the machine finishes within `n` instructions. -/
def FinishesIn (code : List (Instruction Action)) (n : Nat) (x : Point) : Prop :=
  ∃ k m, Machine.run code n (x.machine k) = .ok m ∧ m.isFinished code = true

theorem Point.eq_of_machine_eq {x y : Point} {j k : Nat} (h : x.machine j = y.machine k) :
    x = y := by
  obtain ⟨⟨world, log, source⟩, ip, ⟨frames, addresses, returns⟩⟩ := x
  obtain ⟨⟨world', log', source'⟩, ip', ⟨frames', addresses', returns'⟩⟩ := y
  simp only [Point.machine, Machine.mk.injEq] at h
  obtain ⟨rfl, rfl, -, rfl, rfl, hsources, hpending, rfl, rfl, -⟩ := h
  have hframes : frames = frames' := by
    rw [← List.zip_unzip frames, ← List.zip_unzip frames', List.unzip_eq_map, List.unzip_eq_map,
      hsources, hpending]
  rw [hframes]

namespace FinishesIn

variable {x y : Point} {n : Nat}

/-- A point further on is nearer to the end. -/
theorem of_reaches_ne (h : FinishesIn code n x) (hr : Reaches code x y) (hne : x ≠ y) :
    ∃ m < n, FinishesIn code m y := by
  obtain ⟨k, m, hrun, hfinished⟩ := h
  obtain ⟨j, hj⟩ := hr k
  have hj₀ : j ≠ 0 := by
    rintro rfl
    exact hne (Point.eq_of_machine_eq (Except.ok.inj hj))
  have hn₀ : n ≠ 0 := by
    rintro rfl
    obtain rfl : x.machine k = m := Except.ok.inj hrun
    rw [Machine.run_of_isFinished hfinished] at hj
    exact hne (Point.eq_of_machine_eq (Except.ok.inj hj))
  rcases Nat.le_total j n with hle | hle
  · obtain ⟨left, rfl⟩ := Nat.exists_eq_add_of_le hle
    rw [Machine.run_add, hj] at hrun
    exact ⟨left, by omega, k + j, m, hrun, hfinished⟩
  · -- The machine had finished on the way, so it finished at `y`.
    obtain ⟨left, rfl⟩ := Nat.exists_eq_add_of_le hle
    rw [Machine.run_add, hrun] at hj
    have hm : m = y.machine (k + (n + left)) :=
      Except.ok.inj ((Machine.run_of_isFinished hfinished left).symm.trans hj)
    exact ⟨0, by omega, k + (n + left), m, congrArg Except.ok hm.symm, hfinished⟩

theorem mono {m : Nat} (h : FinishesIn code m x) (hle : m ≤ n) : FinishesIn code n x := by
  obtain ⟨k, m', hrun, hfinished⟩ := h
  obtain ⟨left, rfl⟩ := Nat.exists_eq_add_of_le hle
  refine ⟨k, m', ?_, hfinished⟩
  rw [Machine.run_add, hrun]
  exact Machine.run_of_isFinished hfinished left

theorem of_reaches (h : FinishesIn code n x) (hr : Reaches code x y) : FinishesIn code n y := by
  by_cases hxy : x = y
  · exact hxy ▸ h
  · obtain ⟨m, hm, hy⟩ := h.of_reaches_ne hr hxy
    exact hy.mono (Nat.le_of_lt hm)

/-- An instruction on the way to the end is executed without fault. -/
theorem executes (h : FinishesIn code n x) {i : Instruction Action} (hi : code[x.ip]? = some i) :
    ∃ k m, (Point.machine { x with ip := x.ip + 1 } k).execute i = .ok m := by
  obtain ⟨k, m, hrun, hfinished⟩ := h
  cases n with
  | zero =>
    obtain rfl : x.machine k = m := Except.ok.inj hrun
    have hle : code.length ≤ x.ip := of_decide_eq_true hfinished
    exact absurd (List.getElem?_eq_some_iff.mp hi).1 (Nat.not_lt.mpr hle)
  | succ n =>
    rw [Point.run_succ hi] at hrun
    obtain ⟨m', hm', -⟩ := bind_eq_ok hrun
    exact ⟨k + 1, m', hm'⟩

end FinishesIn

/-- What the machine can perform is an action of the stage. -/
theorem act_of_perform {x : Point} {k : Nat} {m : Machine} {a : Action}
    (h : (x.machine k).perform a = .ok m) : ∃ s, x.stage.act a = some s := by
  cases a with
  | say text =>
    cases hname : x.stage.world.name? x.stage.source with
    | none => simp [Machine.perform, Point.machine, hname] at h
    | some name => simp [Stage.act, hname]
  | spawn name tag => exact ⟨_, rfl⟩
  | untag tag =>
    by_cases hlt : x.stage.source < x.stage.world.entities.length
    · exact ⟨_, if_pos hlt⟩
    · simp [Machine.perform, Point.machine, hlt] at h
  | select tag => cases h

end CommandScript.Arena

/-! ## What can be run -/

namespace CommandScript

open Arena

/-- An iteration has its selector. -/
def Node.Selected {A : Type} (_ : Site) : Node A → Prop
  | iterate _ selector _ _ => selector.isSome = true
  | _ => True

/-- A statement that can be followed where it stands: an iteration selects by
a tag, a call leads to a subroutine, a return out of one, and a `break` out of
an iteration. -/
def Node.Runnable (known : String → Bool) (site : Site) : Node Action → Prop
  | iterate _ selector _ _ => ∃ tag, selector = some (.select tag)
  | call name _ => known name = true
  | subroutineReturn => site.inSubroutine = true
  | leave _ => site.enclosed = true
  | _ => True

namespace Node

mutual

theorem throughout_runnable {known : String → Bool} {site : Site} (n : Node Action)
    (hsound : n.Sound site.inSubroutine) (hselected : n.Throughout Selected site)
    (hresolved : n.Throughout (Resolved known) site) : n.Throughout (Runnable known) site := by
  cases n with
  | block children =>
    simp only [Throughout, Sound] at *
    exact ⟨trivial, throughoutAll_runnable children hsound hselected.2 hresolved.2⟩
  | iterate kind selector body line =>
    simp only [Throughout, Sound] at *
    obtain ⟨a, rfl⟩ := Option.isSome_iff_exists.mp hselected.1
    obtain ⟨tag, rfl⟩ := hsound.1 a rfl
    exact ⟨⟨tag, rfl⟩, throughoutAll_runnable body hsound.2 hselected.2 hresolved.2⟩
  | subroutineReturn => exact ⟨hsound, trivial⟩
  | command | define | call | leave | exit => exact hresolved

theorem throughoutAll_runnable {known : String → Bool} {site : Site} (ns : List (Node Action))
    (hsound : SoundAll site.inSubroutine ns) (hselected : ThroughoutAll Selected site ns)
    (hresolved : ThroughoutAll (Resolved known) site ns) :
    ThroughoutAll (Runnable known) site ns := by
  cases ns with
  | nil => trivial
  | cons n ns =>
    simp only [ThroughoutAll, SoundAll] at *
    exact ⟨throughout_runnable n hsound.1 hselected.1 hresolved.1,
      throughoutAll_runnable ns hsound.2 hselected.2 hresolved.2⟩

end

end Node

namespace Arena

/-- How a statement may end that stands at a site. -/
def Completion.Allowed (site : Site) : Completion → Prop
  | left => site.enclosed = true
  | returned => site.inSubroutine = true
  | _ => True

/-- All statements of a task can be followed. Those of a level stand inside
it, and the level itself at `site`. -/
def Task.Runnable (known : String → Bool) (site : Site) : Task → Prop
  | node n => n.Throughout (Node.Runnable known) site
  | nodes ns => Node.ThroughoutAll (Node.Runnable known) site ns
  | level _ _ body => Node.ThroughoutAll (Node.Runnable known) site.inside body
  | passes _ _ body _ _ => Node.ThroughoutAll (Node.Runnable known) site.inside body

theorem Evaluates.allowed {subs : String → Option (List (Node Action))} {known : String → Bool}
    {task : Task} {s s' : Stage} {c : Completion} (h : Evaluates subs task s c s') :
    ∀ site, task.Runnable known site → c.Allowed site := by
  induction h with
  | nil | command | define | call | callEnded | exit | exhausted | passLeft =>
    exact fun _ _ => trivial
  | next _ _ _ ih => exact fun site hrun => ih site hrun.2
  | stop _ _ ih => exact fun site hrun => ih site hrun.1
  | block _ ih | iterate _ ih =>
    intro site hrun
    simp only [Task.Runnable, Node.Throughout] at hrun
    exact ih site hrun.2
  | subroutineReturn | leave => exact fun _ hrun => hrun.1
  | level _ ih => exact ih
  | passStop _ stops ih =>
    intro site hrun
    have hinside := ih site.inside hrun
    obtain rfl | rfl := stops
    · exact hinside
    · trivial
  | passRun _ _ _ ih => exact ih
  | passLoop _ _ _ _ _ ih => exact ih
  | passLoopStop _ _ _ _ ih => exact ih

/-- A `break` does not leave more than the level around it. -/
theorem Evaluates.level_ne_left {subs : String → Option (List (Node Action))}
    {known : String → Bool} {kind : Iteration} {tag : String} {body : List (Node Action)}
    {s s' : Stage} {c : Completion} (h : Evaluates subs (.level kind tag body) s c s') {site : Site}
    (hbody : Node.ThroughoutAll (Node.Runnable known) site.inside body) : c ≠ .left := by
  rintro rfl
  exact Bool.false_ne_true (h.allowed { site with enclosed := false } hbody)

/-! ## From runs to evaluations -/

/-- The point `x` is one where the machine begins to run the task on stage
`s`. -/
def Task.StartsAt (code : List (Instruction Action)) (entry : String → Option Nat) (s : Stage)
    (x : Point) : Task → Prop
  | node n => ∃ b out k, CodeAt code b (n.layout entry b out) ∧ x = ⟨s, b, k⟩
  | nodes ns => ∃ b out k, CodeAt code b (Node.layoutAll entry b out ns) ∧ x = ⟨s, b, k⟩
  | level kind tag body => ∃ p next, ∃ k : Stacks, LevelAt code entry kind tag body p ∧
    (kind = .run → next = lastOf entry kind body p + 2) ∧ x = ⟨s, p, k.enter kind next⟩
  | passes kind tag body saved ids => ∃ p next, ∃ k : Stacks, LevelAt code entry kind tag body p ∧
    (kind = .run → next = lastOf entry kind body p + 2) ∧
    x = ⟨s, p + 1, (k.enter kind next).push saved ids⟩

/-- A task has an evaluation wherever the machine begins to run it and then
finishes within `n` instructions. -/
def Settles (code : List (Instruction Action)) (entry : String → Option Nat)
    (subs : String → Option (List (Node Action))) (known : String → Bool) (n : Nat) : Prop :=
  ∀ task site s x, Task.StartsAt code entry s x task → task.Runnable known site →
    FinishesIn code n x → ∃ c s', Evaluates subs task s c s'

/-- Every known subroutine is there, and can be run. -/
def Closed (subs : String → Option (List (Node Action))) (known : String → Bool) : Prop :=
  ∀ name, known name = true → ∃ body, subs name = some body ∧
    Node.ThroughoutAll (Node.Runnable known) { inSubroutine := true } body

section Settles

variable {code : List (Instruction Action)} {entry : String → Option Nat}
  {subs : String → Option (List (Node Action))} {known : String → Bool} {n : Nat}

/-- The passes of a level have evaluations if all has that takes less. -/
theorem settles_passes (hsubs : Linked code entry subs)
    (ih : ∀ m < n, Settles code entry subs known m) {kind : Iteration} {tag : String}
    {body : List (Node Action)} {p next saved : Nat} {ids : List Nat} {k : Stacks} {site : Site}
    {s : Stage} (hl : LevelAt code entry kind tag body p)
    (hnext : kind = .run → next = lastOf entry kind body p + 2)
    (hbody : Node.ThroughoutAll (Node.Runnable known) site.inside body)
    (h : FinishesIn code n ⟨s, p + 1, (k.enter kind next).push saved ids⟩) :
    ∃ c s', Evaluates subs (.passes kind tag body saved ids) s c s' := by
  cases ids with
  | nil => exact ⟨_, _, .exhausted⟩
  | cons id ids =>
    obtain ⟨m, hm, hinside⟩ := h.of_reaches_ne (hl.reaches_pass s _ saved id ids) (by simp)
    obtain ⟨c, s₁, hpass⟩ := ih m hm (.nodes body) site.inside (s.as id) _
      ⟨_, _, _, hl.inside, rfl⟩ hbody hinside
    cases c with
    | left => exact ⟨_, _, .passLeft hpass⟩
    | returned => exact ⟨_, _, .passStop hpass (.inl rfl)⟩
    | ended => exact ⟨_, _, .passStop hpass (.inr rfl)⟩
    | done =>
      have hbehind : Reaches code _ _ :=
        hl.lands_pass (hpass.simulates hsubs) (k.enter kind next) saved ids
      obtain ⟨m, hm, hleft⟩ := h.of_reaches_ne hbehind fun he => by
        have hip := congrArg Point.ip he
        simp only at hip
        omega
      cases kind with
      | run =>
        obtain ⟨c, s', hothers⟩ := ih m hm (.passes .run tag body saved ids) site s₁ _
          ⟨p, next, k, hl, hnext, rfl⟩ hbody (hleft.of_reaches (hl.reaches_back s₁ _))
        exact ⟨c, s', .passRun hpass hothers⟩
      | loop =>
        have hagain := hleft.of_reaches (hl.reaches_again s₁ _ rfl)
        obtain ⟨c, s₂, hlevel⟩ := ih m hm (.level .loop tag body) site s₁ _
          ⟨p, _, (k.enter .loop next).push saved ids, hl, nofun, rfl⟩ hbody hagain
        cases c with
        | left => exact absurd rfl (hlevel.level_ne_left hbody)
        | returned => exact ⟨_, _, .passLoopStop hpass hlevel (.inl rfl)⟩
        | ended => exact ⟨_, _, .passLoopStop hpass hlevel (.inr rfl)⟩
        | done =>
          have hlast : Reaches code _ _ :=
            hlevel.simulates hsubs p ((k.enter .loop next).push saved ids)
              (p + 2 + bodyExtent entry body + 1) none hl nofun
          obtain ⟨c, s', hothers⟩ := ih m hm (.passes .loop tag body saved ids) site s₂ _
            ⟨p, next, k, hl, hnext, rfl⟩ hbody
            ((hagain.of_reaches hlast).of_reaches (hl.reaches_back s₂ _))
          exact ⟨c, s', .passLoop hpass hlevel hothers⟩

theorem settles_level (ih : ∀ m < n, Settles code entry subs known m) {kind : Iteration}
    {tag : String} {body : List (Node Action)} {p next : Nat} {k : Stacks} {site : Site} {s : Stage}
    (hl : LevelAt code entry kind tag body p)
    (hnext : kind = .run → next = lastOf entry kind body p + 2)
    (hbody : Node.ThroughoutAll (Node.Runnable known) site.inside body)
    (h : FinishesIn code n ⟨s, p, k.enter kind next⟩) :
    ∃ c s', Evaluates subs (.level kind tag body) s c s' := by
  obtain ⟨m, hm, hpasses⟩ := h.of_reaches_ne (hl.reaches_passes s _) (by simp)
  obtain ⟨c, s', heval⟩ := ih m hm (.passes kind tag body s.source (s.world.matching tag)) site s _
    ⟨p, next, k, hl, hnext, rfl⟩ hbody hpasses
  exact ⟨c, s', .level heval⟩

/-- A call has an evaluation if its subroutine has, which is entered with one
instruction less. -/
theorem settles_call (hsubs : Linked code entry subs) (hclosed : Closed subs known)
    (ih : ∀ m < n, Settles code entry subs known m) {name : String} {line b : Nat}
    {out : Option Nat} {k : Stacks} {s : Stage} (hknown : known name = true)
    (hcode : CodeAt code b ((Node.call name line).layout entry b out))
    (h : FinishesIn code n ⟨s, b, k⟩) :
    ∃ c s', Evaluates subs (.node (.call name line)) s c s' := by
  obtain ⟨body, hfound, hbody⟩ := hclosed name hknown
  obtain ⟨e, he, hat⟩ := hsubs name body hfound
  simp only [Node.layout, he, Option.elim_some] at hcode
  -- A subroutine may begin with a call of itself: then only the stack shows
  -- that the machine has moved.
  obtain ⟨m, hm, hentered⟩ := h.of_reaches_ne (reaches_call (codeAt_cons.mp hcode).1 s k)
    fun heq => by
      have hreturns := congrArg (fun x : Point => x.control.returns.length) heq
      simp [Stacks.note] at hreturns
  obtain ⟨c, s', hcallee⟩ := ih m hm (.nodes body) { inSubroutine := true } s _
    ⟨e, none, _, (codeAt_append.mp hat).1, rfl⟩ hbody hentered
  cases c with
  | done => exact ⟨_, _, .call hfound hcallee (.inl rfl)⟩
  | returned => exact ⟨_, _, .call hfound hcallee (.inr rfl)⟩
  | ended => exact ⟨_, _, .callEnded hfound hcallee⟩
  | left => exact absurd (hcallee.allowed { inSubroutine := true } hbody) Bool.false_ne_true

mutual

theorem settles_node (hsubs : Linked code entry subs) (hclosed : Closed subs known)
    (ih : ∀ m < n, Settles code entry subs known m) (nd : Node Action) {site : Site} {s : Stage}
    {b : Nat} {out : Option Nat} {k : Stacks} (hcode : CodeAt code b (nd.layout entry b out))
    (hrun : nd.Throughout (Node.Runnable known) site) (h : FinishesIn code n ⟨s, b, k⟩) :
    ∃ c s', Evaluates subs (.node nd) s c s' := by
  cases nd with
  | block children =>
    simp only [Node.layout] at hcode
    simp only [Node.Throughout] at hrun
    obtain ⟨c, s', heval⟩ := settles_nodes hsubs hclosed ih children hcode hrun.2 h
    exact ⟨c, s', .block heval⟩
  | command a =>
    obtain ⟨_, m, hm⟩ := h.executes (codeAt_cons.mp hcode).1
    obtain ⟨s', hs'⟩ := act_of_perform hm
    exact ⟨.done, s', .command hs'⟩
  | iterate kind selector body line =>
    simp only [Node.Throughout] at hrun
    obtain ⟨⟨tag, rfl⟩, hbody⟩ := hrun
    cases kind with
    | run =>
      obtain ⟨c, s', heval⟩ := settles_level ih (levelAt_run hcode) (fun _ => rfl) hbody h
      exact ⟨c, s', .iterate heval⟩
    | loop =>
      obtain ⟨hpush, hl⟩ := levelAt_loop hcode
      have hsave : Reaches code ⟨s, b, k⟩ ⟨s, b + 1, k.save (b + 7 + bodyExtent entry body)⟩ :=
        reaches_step hpush fun _ => rfl
      obtain ⟨c, s', heval⟩ := settles_level ih hl nofun hbody (h.of_reaches hsave)
      exact ⟨c, s', .iterate heval⟩
  | define name line body => exact ⟨_, _, .define⟩
  | call name line => exact settles_call hsubs hclosed ih hrun.1 hcode h
  | subroutineReturn => exact ⟨_, _, .subroutineReturn⟩
  | leave line => exact ⟨_, _, .leave⟩
  | exit => exact ⟨_, _, .exit⟩

theorem settles_nodes (hsubs : Linked code entry subs) (hclosed : Closed subs known)
    (ih : ∀ m < n, Settles code entry subs known m) (ns : List (Node Action)) {site : Site}
    {s : Stage} {b : Nat} {out : Option Nat} {k : Stacks}
    (hcode : CodeAt code b (Node.layoutAll entry b out ns))
    (hrun : Node.ThroughoutAll (Node.Runnable known) site ns) (h : FinishesIn code n ⟨s, b, k⟩) :
    ∃ c s', Evaluates subs (.nodes ns) s c s' := by
  cases ns with
  | nil => exact ⟨_, _, .nil⟩
  | cons nd ns =>
    simp only [Node.layoutAll, codeAt_append] at hcode
    simp only [Node.ThroughoutAll] at hrun
    obtain ⟨c, s₁, hfirst⟩ := settles_node hsubs hclosed ih nd hcode.1 hrun.1 h
    by_cases hc : c = .done
    · subst hc
      have hbehind : Reaches code _ _ := hfirst.simulates hsubs b out k hcode.1
      obtain ⟨c, s', hothers⟩ :=
        settles_nodes hsubs hclosed ih ns hcode.2 hrun.2 (h.of_reaches hbehind)
      exact ⟨c, s', .next hfirst hothers⟩
    · exact ⟨c, s₁, .stop hfirst hc⟩

end

theorem settles (hsubs : Linked code entry subs) (hclosed : Closed subs known) (n : Nat) :
    Settles code entry subs known n := by
  induction n using Nat.strongRecOn with
  | ind n ih =>
    intro task site s x hstarts hrun h
    cases task with
    | node nd =>
      obtain ⟨b, out, k, hcode, rfl⟩ := hstarts
      exact settles_node hsubs hclosed ih nd hcode hrun h
    | nodes ns =>
      obtain ⟨b, out, k, hcode, rfl⟩ := hstarts
      exact settles_nodes hsubs hclosed ih ns hcode hrun h
    | level kind tag body =>
      obtain ⟨p, next, k, hl, hnext, rfl⟩ := hstarts
      exact settles_level ih hl hnext hrun h
    | passes kind tag body saved ids =>
      obtain ⟨p, next, k, hl, hnext, rfl⟩ := hstarts
      exact settles_passes hsubs ih hl hnext hrun h

end Settles

end Arena

/-! ## Scripts -/

namespace Tree

/-- What lowering is silent about can be run, if it is sound and has its
selectors. -/
theorem throughout_runnable {t : Tree Action} (hsound : t.Sound)
    (hselected : t.Throughout Node.Selected) (hcomplaints : t.complaints = []) :
    t.Throughout (Node.Runnable t.known) := by
  obtain ⟨-, hresolved⟩ := t.complaints_eq_nil_iff.mp hcomplaints
  refine ⟨?_, fun s hs => ?_⟩
  · exact Node.throughoutAll_runnable t.main hsound.main hselected.main hresolved.main
  · exact Node.throughoutAll_runnable s.body (hsound.subroutines s hs) (hselected.subroutines s hs)
      (hresolved.subroutines s hs)

theorem closed {t : Tree Action} (h : t.Throughout (Node.Runnable t.known)) :
    Closed t.bodyOf t.known := by
  intro name hknown
  obtain ⟨s, hs⟩ := Option.isSome_iff_exists.mp (List.find?_isSome.mpr (List.any_eq_true.mp hknown))
  exact ⟨s.body, by rw [bodyOf, hs, Option.map_some], h.subroutines s (List.mem_of_find?_eq_some hs)⟩

/-- The main block comes to its end or ends the invocation: there is nothing
around it to leave or to return from. -/
theorem evaluates_of_main {t : Tree Action} (hrun : t.Throughout (Node.Runnable t.known))
    {w : World} {c : Completion} {s : Stage}
    (h : Arena.Evaluates t.bodyOf (.nodes t.main) { world := w } c s) : t.Evaluates w c s := by
  have hallowed := h.allowed {} hrun.main
  refine ⟨h, ?_⟩
  cases c with
  | done => exact .inl rfl
  | ended => exact .inr rfl
  | left | returned => exact absurd hallowed Bool.false_ne_true

/-- A script on which the machine finishes has an evaluation. -/
theorem evaluates_of_finishes {t : Tree Action} (hrun : t.Throughout (Node.Runnable t.known))
    {w : World} {n : Nat} (h : FinishesIn t.layout n ⟨{ world := w }, 0, {}⟩) :
    ∃ c s, t.Evaluates w c s := by
  have hmain := (codeAt_append.mp t.codeAt_main).1
  obtain ⟨c, s, heval⟩ := settles t.linked (closed hrun) n (.nodes t.main) {} { world := w } _
    ⟨0, none, {}, hmain, rfl⟩ hrun.main h
  exact ⟨c, s, evaluates_of_main hrun heval⟩

end Tree

/-- Where the machine finishes the program of a script, the evaluation of the
script ends; and if the evaluation does not end, in a world with the server in
it, the machine is still running after any number of steps. -/
theorem finished_script_evaluates {t : Tree Action} (hsound : t.Sound)
    (hselected : t.Throughout Node.Selected) {d : Draft Action} (hd : t.lower {} = .ok d)
    (hsilent : d.journal = []) (w : World) (id : String) :
    ∃ p, d.toProgram id = .ok p ∧
      (∀ n m, Machine.run p.instructions n { world := w } = .ok m →
        m.isFinished p.instructions = true → ∃ c s, t.Evaluates w c s) ∧
      (server < w.entities.length → (¬ ∃ c s, t.Evaluates w c s) → ∀ n, ∃ m,
        Machine.run p.instructions n { world := w } = .ok m ∧
          m.isFinished p.instructions = false) := by
  obtain ⟨d', hd', hlinks⟩ := t.lower_links
  obtain rfl : d = d' := Except.ok.inj (hd.symm.trans hd')
  have hrun := Tree.throughout_runnable hsound hselected (Tree.journal_lower hd ▸ hsilent)
  have hevaluates (n : Nat) (m : Machine) (hm : Machine.run t.layout n { world := w } = .ok m)
      (hfinished : m.isFinished t.layout = true) : ∃ c s, t.Evaluates w c s :=
    Tree.evaluates_of_finishes hrun (n := n) ⟨0, m, hm, hfinished⟩
  refine ⟨⟨id, t.layout⟩, hlinks.toProgram id, hevaluates, fun hw hnot n => ?_⟩
  obtain ⟨m, hm, -⟩ := (t.safe_start hw).run (Tree.fits_layout hsound) n
  exact ⟨m, hm, Bool.eq_false_iff.mpr fun hfinished => hnot (hevaluates n m hm hfinished)⟩

/-- A subroutine that does nothing but call itself. -/
def rounds : Tree Action where
  main := [.call "round" 0]
  subroutines := [⟨"round", 1, [.call "round" 2]⟩]

theorem rounds_not_evaluates {task : Task} {s s' : Stage} {c : Completion}
    (h : Arena.Evaluates rounds.bodyOf task s c s') (line : Nat) :
    task ≠ .node (.call "round" line) ∧ task ≠ .nodes [.call "round" line] := by
  induction h generalizing line with
  | next _ _ ih _ | stop _ _ ih =>
    refine ⟨nofun, fun htask => ?_⟩
    injection htask with hns
    exact (ih line).1 (congrArg Task.node (List.cons.inj hns).1)
  | @call name line' body _ _ _ found _ _ ih | @callEnded name line' body _ _ found _ ih =>
    refine ⟨fun htask => ?_, nofun⟩
    injection htask with hn
    injection hn with hname
    subst hname
    exact (ih 2).2 (congrArg Task.nodes (Option.some.inj found).symm)
  | _ => exact ⟨nofun, nofun⟩

theorem rounds_never_finish :
    rounds.Sound ∧ rounds.Throughout Node.Selected ∧ server < crowd.entities.length ∧
      ∃ d, rounds.lower {} = .ok d ∧ d.journal = [] ∧
        ∃ p, d.toProgram "rounds" = .ok p ∧ ∀ n, ∃ m,
          Machine.run p.instructions n { world := crowd } = .ok m ∧
            m.isFinished p.instructions = false := by
  have hsound : rounds.Sound := ⟨⟨trivial, trivial⟩, by simp [rounds, Node.SoundAll, Node.Sound]⟩
  have hselected : rounds.Throughout Node.Selected :=
    ⟨by simp [rounds, Node.ThroughoutAll, Node.Throughout, Node.Selected],
      by simp [rounds, Node.ThroughoutAll, Node.Throughout, Node.Selected]⟩
  have hw : server < crowd.entities.length := by decide
  obtain ⟨d, hd, -⟩ := rounds.lower_links
  have hsilent : d.journal = [] := (Tree.journal_lower hd).trans rfl
  obtain ⟨p, hp, -, hrunning⟩ := finished_script_evaluates hsound hselected hd hsilent crowd "rounds"
  refine ⟨hsound, hselected, hw, d, hd, hsilent, p, hp, hrunning hw ?_⟩
  rintro ⟨c, s, heval, -⟩
  exact (rounds_not_evaluates heval 0).2 rfl

end CommandScript
