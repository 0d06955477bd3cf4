import CommandScript.Proofs.Evaluation
import CommandScript.Proofs.Linking
import CommandScript.Proofs.Runs

/-!
# The machine does what a script means

Every rule of `Evaluates` is followed by the machine on the layout of the
script. A part that comes to its end leaves the machine behind its code with
the stacks it found; a `break` leaves it at the break target, also with the
stacks it found; a return leaves it at a return instruction, on top of
whatever frames and addresses were opened since; and where the script is
ended, so is the machine (`Lands`). This is proved by one induction on the
rules (`Evaluates.simulates`).
-/

namespace CommandScript.Arena

variable {code : List (Instruction Action)}

/-! ## Points of a run -/

/-- The control stacks of a machine. A frame is the source to return to and
the matches still to come. -/
structure Stacks where
  frames : List (Nat × List Nat) := []
  addresses : List Target := []
  returns : List Return := []

namespace Stacks

def push (k : Stacks) (saved : Nat) (ids : List Nat) : Stacks :=
  { k with frames := (saved, ids) :: k.frames }

def save (k : Stacks) (address : Nat) : Stacks :=
  { k with addresses := .offset address :: k.addresses }

/-- What a call of a subroutine notes. -/
def note (k : Stacks) (address : Nat) : Stacks :=
  { k with returns := ⟨address, k.frames.length, k.addresses.length⟩ :: k.returns }

end Stacks

/-- A point of a run: all there is of a machine that has not ended but the
number of instructions executed. -/
structure Point where
  stage : Stage
  ip : Nat
  control : Stacks

def Point.machine (x : Point) (n : Nat) : Machine where
  world := x.stage.world
  log := x.stage.log
  executed := n
  ip := x.ip
  source := x.stage.source
  sources := x.control.frames.map (·.1)
  pending := x.control.frames.map (·.2)
  addresses := x.control.addresses
  returns := x.control.returns

/-- A run leads from one point to another. -/
def Reaches (code : List (Instruction Action)) (x y : Point) : Prop :=
  ∀ n, ∃ j, Machine.run code j (x.machine n) = .ok (y.machine (n + j))

namespace Reaches

variable {x y z : Point}

theorem refl (x : Point) : Reaches code x x := fun _ => ⟨0, rfl⟩

theorem trans (h₁ : Reaches code x y) (h₂ : Reaches code y z) : Reaches code x z := by
  intro n
  obtain ⟨j, hj⟩ := h₁ n
  obtain ⟨k, hk⟩ := h₂ (n + j)
  exact ⟨j + k, by rw [Machine.run_add, hj, ← Nat.add_assoc]; exact hk⟩

end Reaches

theorem Point.run_succ {x : Point} {i : Instruction Action} (hi : code[x.ip]? = some i)
    (j n : Nat) :
    Machine.run code (j + 1) (x.machine n) =
      (Point.machine { x with ip := x.ip + 1 } (n + 1)).execute i >>= Machine.run code j := by
  have hlt : x.ip < code.length := (List.getElem?_eq_some_iff.mp hi).1
  have hnot : ¬ (x.machine n).isFinished code := by
    rw [Machine.isFinished, show (x.machine n).ended = false from rfl, Bool.false_or,
      decide_eq_true_eq]
    exact Nat.not_le.mpr hlt
  rw [Machine.run, if_neg hnot, Machine.step, show (x.machine n).ip = x.ip from rfl, hi]
  rfl

/-- An instruction that leads to another point. -/
theorem reaches_step {x y : Point} {i : Instruction Action} (hi : code[x.ip]? = some i)
    (he : ∀ n, (Point.machine { x with ip := x.ip + 1 } n).execute i = .ok (y.machine n)) :
    Reaches code x y := fun n => ⟨1, by rw [Point.run_succ hi, he]; rfl⟩

theorem Point.run_exit {x : Point} (hi : code[x.ip]? = some .exit) (n : Nat) :
    Machine.run code 1 (x.machine n) =
      .ok { Point.machine { x with ip := x.ip + 1 } (n + 1) with ended := true } :=
  Point.run_succ hi 0 n

/-- A run from `x` comes to the end of the invocation, on stage `s`. -/
def Ends (code : List (Instruction Action)) (x : Point) (s : Stage) : Prop :=
  ∀ n, ∃ j m, Machine.run code j (x.machine n) = .ok m ∧ m.ended = true ∧
    m.world = s.world ∧ m.log = s.log ∧ m.source = s.source

/-- A run from `x` comes to a return of the subroutine that was called with
the stacks `k` and the source `source`. The frames and addresses opened since
are on top of those; the lowest of these frames has kept the source. -/
def Returns (code : List (Instruction Action)) (x : Point) (k : Stacks) (source : Nat) (s : Stage) :
    Prop :=
  ∃ ip frames addresses, code[ip]? = some .subroutineReturn ∧
    Reaches code x ⟨s, ip, ⟨frames ++ k.frames, addresses ++ k.addresses, k.returns⟩⟩ ∧
    (frames.getLast?.map (·.1)).getD s.source = source

/-- Where the machine is led by a task that ends as `c` says, on stage `s`. The
task was started with the stacks `k` and the source `source`; `next` is
behind its code and `out` is where `break` leads. -/
def Lands (code : List (Instruction Action)) (x : Point) (k : Stacks) (source next : Nat)
    (out : Option Nat) (c : Completion) (s : Stage) : Prop :=
  match c with
  | .done => Reaches code x ⟨s, next, k⟩
  | .left => ∀ t, out = some t → Reaches code x ⟨s, t, k⟩
  | .returned => Returns code x k source s
  | .ended => Ends code x s

theorem Ends.of_reaches {x y : Point} {s : Stage} (h : Reaches code x y) (hy : Ends code y s) :
    Ends code x s := by
  intro n
  obtain ⟨j, hj⟩ := h n
  obtain ⟨k, m, hk, hm⟩ := hy (n + j)
  exact ⟨j + k, m, by rw [Machine.run_add, hj]; exact hk, hm⟩

theorem Returns.of_reaches {x y : Point} {k : Stacks} {source : Nat} {s : Stage}
    (h : Reaches code x y) (hy : Returns code y k source s) : Returns code x k source s := by
  obtain ⟨ip, frames, addresses, hi, hr, hs⟩ := hy
  exact ⟨ip, frames, addresses, hi, h.trans hr, hs⟩

theorem Lands.of_reaches {x y : Point} {k : Stacks} {source next : Nat} {out : Option Nat}
    {c : Completion} {s : Stage} (h : Reaches code x y) (hy : Lands code y k source next out c s) :
    Lands code x k source next out c s := by
  cases c with
  | done => exact h.trans hy
  | left => exact fun t ht => h.trans (hy t ht)
  | returned => exact Returns.of_reaches h hy
  | ended => exact Ends.of_reaches h hy

/-- Only a task that comes to its end gets behind its code. -/
theorem Lands.of_ne_done {x : Point} {k : Stacks} {source next : Nat} {out : Option Nat}
    {c : Completion} {s : Stage} (h : Lands code x k source next out c s) (hc : c ≠ .done)
    (next' : Nat) : Lands code x k source next' out c s := by
  cases c with
  | done => exact absurd rfl hc
  | left => exact h
  | returned => exact h
  | ended => exact h

/-! ## The code of a level -/

/-- The number of instructions of the body of an iteration. -/
def bodyExtent (entry : String → Option Nat) (body : List (Node Action)) : Nat :=
  Node.extentAll (fun name => (entry name).isSome) true body

theorem extentAll_eq (entry : String → Option Nat) (body : List (Node Action)) :
    Node.extentAll (fun name => (entry name).isSome) true body = bodyExtent entry body := rfl

/-- Where the next pass is taken up in a level that starts at `p`: behind the
body, and in a `loop` behind the call of the further level. The frame is
closed at the offset behind it. -/
def lastOf (entry : String → Option Nat) (kind : Iteration) (body : List (Node Action)) (p : Nat) :
    Nat :=
  match kind with
  | .run => p + 2 + bodyExtent entry body
  | .loop => p + 2 + bodyExtent entry body + 1

/-- The code of a level stands at `p`. -/
structure LevelAt (code : List (Instruction Action)) (entry : String → Option Nat)
    (kind : Iteration) (tag : String) (body : List (Node Action)) (p : Nat) : Prop where
  opens : code[p]? = some (.pushSourceAndMatch (.select tag))
  takes : code[p + 1]? = some (.popSourceOrBranch (.offset (lastOf entry kind body p + 1)))
  inside : CodeAt code (p + 2)
    (Node.layoutAll entry (p + 2) (some (lastOf entry kind body p + 1)) body)
  again : kind = .loop → code[p + 2 + bodyExtent entry body]? = some (.call (.offset p))
  back : code[lastOf entry kind body p]? = some (.branch (.offset (p + 1)))
  closes : code[lastOf entry kind body p + 1]? = some .popFrame
  returns : kind = .loop → code[lastOf entry kind body p + 2]? = some .ret

section Level

variable {entry : String → Option Nat} {tag : String} {body : List (Node Action)} {line b : Nat}
  {out : Option Nat}

theorem levelAt_run
    (h : CodeAt code b ((Node.iterate .run (some (.select tag)) body line).layout entry b out)) :
    LevelAt code entry .run tag body b := by
  simp only [Node.layout, codeAt_append, codeAt_cons, List.length_append, List.length_cons,
    List.length_nil, Node.length_layoutAll, Option.isSome_some, extentAll_eq, Nat.zero_add,
    Nat.reduceAdd] at h
  obtain ⟨⟨⟨hopens, htakes, -⟩, hbody⟩, hback, hcloses, -⟩ := h
  have hlast : b + (2 + bodyExtent entry body) = lastOf entry .run body b := by
    simp only [lastOf]; omega
  have hexit : b + 3 + bodyExtent entry body = lastOf entry .run body b + 1 := by
    simp only [lastOf]; omega
  rw [hlast] at hback hcloses
  rw [hexit] at htakes hbody
  exact ⟨hopens, htakes, hbody, nofun, hback, hcloses, nofun⟩

theorem levelAt_loop
    (h : CodeAt code b ((Node.iterate .loop (some (.select tag)) body line).layout entry b out)) :
    code[b]? = some (.pushAddress (.offset (b + 7 + bodyExtent entry body))) ∧
      LevelAt code entry .loop tag body (b + 1) := by
  simp only [Node.layout, codeAt_append, codeAt_cons, List.length_append, List.length_cons,
    List.length_nil, Node.length_layoutAll, Option.isSome_some, extentAll_eq, Nat.zero_add,
    Nat.reduceAdd] at h
  obtain ⟨⟨⟨hpush, hopens, htakes, -⟩, hbody⟩, hagain, hback, hcloses, hret, -⟩ := h
  have hcall : b + (3 + bodyExtent entry body) = b + 1 + 2 + bodyExtent entry body := by
    omega
  have hlast : b + 1 + 2 + bodyExtent entry body + 1 = lastOf entry .loop body (b + 1) := rfl
  have hexit : b + 5 + bodyExtent entry body = lastOf entry .loop body (b + 1) + 1 := by
    simp only [lastOf]; omega
  rw [hcall] at hagain
  rw [hcall, hlast] at hback hcloses hret
  rw [hexit] at htakes hbody
  exact ⟨hpush, hopens, htakes, hbody, fun _ => hagain, hback, hcloses, fun _ => hret⟩

end Level

/-- The stacks inside a level behind which the machine goes on at `next`. The
level of a `loop` was called, with the address on the stack. -/
def Stacks.enter (k : Stacks) (kind : Iteration) (next : Nat) : Stacks :=
  match kind with
  | .run => k
  | .loop => k.save next

namespace LevelAt

variable {entry : String → Option Nat} {kind : Iteration} {tag : String}
  {body : List (Node Action)} {p : Nat} (hl : LevelAt code entry kind tag body p)
  (s : Stage) (k : Stacks)

include hl

theorem reaches_passes :
    Reaches code ⟨s, p, k⟩ ⟨s, p + 1, k.push s.source (s.world.matching tag)⟩ :=
  reaches_step hl.opens fun _ => rfl

theorem reaches_pass (saved id : Nat) (ids : List Nat) :
    Reaches code ⟨s, p + 1, k.push saved (id :: ids)⟩ ⟨s.as id, p + 2, k.push saved ids⟩ :=
  reaches_step hl.takes fun _ => rfl

theorem reaches_exit (saved : Nat) :
    Reaches code ⟨s, p + 1, k.push saved []⟩ ⟨s, lastOf entry kind body p + 1, k.push saved []⟩ :=
  reaches_step hl.takes fun _ => rfl

theorem reaches_back : Reaches code ⟨s, lastOf entry kind body p, k⟩ ⟨s, p + 1, k⟩ :=
  reaches_step hl.back fun _ => rfl

theorem reaches_again (hk : kind = .loop) :
    Reaches code ⟨s, p + 2 + bodyExtent entry body, k⟩
      ⟨s, p, k.save (p + 2 + bodyExtent entry body + 1)⟩ :=
  reaches_step (hl.again hk) fun _ => rfl

/-- Behind the last pass the frame is closed, and a `loop` goes on where it
was called. -/
theorem reaches_next {next : Nat} (hnext : kind = .run → next = lastOf entry kind body p + 2)
    (saved : Nat) (ids : List Nat) :
    Reaches code ⟨s, lastOf entry kind body p + 1, (k.enter kind next).push saved ids⟩
      ⟨s.as saved, next, k⟩ := by
  cases kind with
  | run =>
    obtain rfl := hnext rfl
    exact reaches_step hl.closes fun _ => rfl
  | loop =>
    have hclose : Reaches code ⟨s, lastOf entry .loop body p + 1, (k.save next).push saved ids⟩
        ⟨s.as saved, lastOf entry .loop body p + 2, k.save next⟩ :=
      reaches_step hl.closes fun _ => rfl
    exact hclose.trans (reaches_step (hl.returns rfl) fun _ => rfl)

end LevelAt

/-! ## Returns -/

/-- A return takes the machine behind the call, with the stacks and the
source of the caller. -/
theorem Returns.reaches {x : Point} {k : Stacks} {address source : Nat} {s : Stage}
    (h : Returns code x (k.note address) source s) :
    Reaches code x ⟨s.as source, address, k⟩ := by
  obtain ⟨ip, frames, addresses, hi, hr, hs⟩ := h
  refine hr.trans (reaches_step hi fun n => ?_)
  have hframes : cut k.frames.length ((frames ++ k.frames).map (·.1)) = k.frames.map (·.1) := by
    rw [List.map_append, cut_append _ (List.length_map _)]
  have hpending : cut k.frames.length ((frames ++ k.frames).map (·.2)) = k.frames.map (·.2) := by
    rw [List.map_append, cut_append _ (List.length_map _)]
  have haddresses : cut k.addresses.length (addresses ++ k.addresses) = k.addresses :=
    cut_append _ rfl
  have hsource : (if k.frames.length < ((frames ++ k.frames).map (·.1)).length then
      (cut (k.frames.length + 1) ((frames ++ k.frames).map (·.1))).headD s.source
      else s.source) = source := by
    rcases List.eq_nil_or_concat frames with rfl | ⟨inner, ⟨kept, ids⟩, rfl⟩
    · simpa using hs
    · rw [if_pos (by simp; omega), List.concat_append, List.map_append, cut_append _ (by simp)]
      simpa using hs
  dsimp only [Machine.execute, Point.machine, Stacks.note]
  rw [Except.ok.injEq, Machine.mk.injEq]
  exact ⟨rfl, rfl, rfl, rfl, hsource, hframes, hpending, haddresses, rfl, rfl⟩

/-- A return out of a level is a return out of what is around it: the frame of
the level has kept the source. -/
theorem Returns.outside {x : Point} {k : Stacks} {kind : Iteration} {next saved source : Nat}
    {ids : List Nat} {s : Stage}
    (h : Returns code x ((k.enter kind next).push saved ids) source s) :
    Returns code x k saved s := by
  obtain ⟨ip, frames, addresses, hi, hr, -⟩ := h
  cases kind with
  | run =>
    refine ⟨ip, frames ++ [(saved, ids)], addresses, hi, ?_, by simp⟩
    rw [List.append_assoc]
    exact hr
  | loop =>
    refine ⟨ip, frames ++ [(saved, ids)], addresses ++ [.offset next], hi, ?_, by simp⟩
    rw [List.append_assoc, List.append_assoc]
    exact hr

theorem Lands.outside {x : Point} {k : Stacks} {kind : Iteration} {next saved source : Nat}
    {ids : List Nat} {c : Completion} {s : Stage} {b : Nat} {out : Option Nat}
    (h : Lands code x ((k.enter kind next).push saved ids) source b out c s)
    (hc : c = .returned ∨ c = .ended) (b' : Nat) (out' : Option Nat) :
    Lands code x k saved b' out' c s := by
  rcases hc with rfl | rfl
  · exact Returns.outside h
  · exact h

/-! ## The simulation -/

theorem reaches_act {s s' : Stage} {a : Action} {b : Nat} (hi : code[b]? = some (.plain a))
    (h : s.act a = some s') (k : Stacks) : Reaches code ⟨s, b, k⟩ ⟨s', b + 1, k⟩ := by
  refine reaches_step hi fun n => ?_
  cases a with
  | say text =>
    obtain ⟨name, hname, rfl⟩ := Option.map_eq_some_iff.mp h
    simp only [Machine.execute, Machine.perform, Point.machine, hname]
  | spawn name tag =>
    obtain rfl := Option.some.inj h
    rfl
  | untag tag =>
    rw [Stage.act] at h
    split at h
    · rename_i hlt
      obtain rfl := Option.some.inj h
      exact if_pos hlt
    · cases h
  | select tag => cases h

theorem reaches_call {b e : Nat} (hi : code[b]? = some (.subroutineCall (.offset e))) (s : Stage)
    (k : Stacks) : Reaches code ⟨s, b, k⟩ ⟨s, e, k.note (b + 1)⟩ :=
  reaches_step hi fun _ => by
    simp only [Machine.execute, Machine.jump, Point.machine, Stacks.note, List.length_map]

/-- The code has the bodies of subroutines where `entry` says, each with a
return behind it. -/
def Linked (code : List (Instruction Action)) (entry : String → Option Nat)
    (subs : String → Option (List (Node Action))) : Prop :=
  ∀ name body, subs name = some body → ∃ e, entry name = some e ∧
    CodeAt code e (Node.layoutAll entry e none body ++ [.subroutineReturn])

/-- Wherever the code of a task stands, the machine does what the task does. -/
def Task.Simulates (code : List (Instruction Action)) (entry : String → Option Nat) (task : Task)
    (s : Stage) (c : Completion) (s' : Stage) : Prop :=
  match task with
  | node n => ∀ b out k, CodeAt code b (n.layout entry b out) →
    Lands code ⟨s, b, k⟩ k s.source (b + (n.layout entry b out).length) out c s'
  | nodes ns => ∀ b out k, CodeAt code b (Node.layoutAll entry b out ns) →
    Lands code ⟨s, b, k⟩ k s.source (b + (Node.layoutAll entry b out ns).length) out c s'
  | level kind tag body => ∀ p k next out, LevelAt code entry kind tag body p →
    (kind = .run → next = lastOf entry kind body p + 2) →
    Lands code ⟨s, p, k.enter kind next⟩ k s.source next out c s'
  | passes kind tag body saved ids => ∀ p k next out, LevelAt code entry kind tag body p →
    (kind = .run → next = lastOf entry kind body p + 2) →
    Lands code ⟨s, p + 1, (k.enter kind next).push saved ids⟩ k saved next out c s'

/-- A subroutine that comes to its end runs into the return behind it. -/
theorem Lands.returns {e : Nat} {body : List (Node Action)} {entry : String → Option Nat}
    {x : Point} {k : Stacks} {s : Stage} {c : Completion} {source : Nat}
    (hcode : CodeAt code e (Node.layoutAll entry e none body ++ [.subroutineReturn]))
    (h : Lands code x k source (e + (Node.layoutAll entry e none body).length) none c s)
    (hsource : c = .done → s.source = source) (hc : c = .done ∨ c = .returned) :
    Returns code x k source s := by
  rcases hc with rfl | rfl
  · have hi := (codeAt_cons.mp (codeAt_append.mp hcode).2).1
    exact ⟨_, [], [], hi, h, hsource rfl⟩
  · exact h

/-- What a pass of a level does to the machine: it takes the next match and
runs the body. -/
theorem LevelAt.lands_pass {entry : String → Option Nat} {kind : Iteration} {tag : String}
    {body : List (Node Action)} {p : Nat} (hl : LevelAt code entry kind tag body p)
    {id : Nat} {s s' : Stage} {c : Completion}
    (h : (Task.nodes body).Simulates code entry (s.as id) c s') (k : Stacks) (saved : Nat)
    (ids : List Nat) :
    Lands code ⟨s, p + 1, k.push saved (id :: ids)⟩ (k.push saved ids) id
      (p + 2 + bodyExtent entry body) (some (lastOf entry kind body p + 1)) c s' := by
  have hbody := h _ _ (k.push saved ids) hl.inside
  rw [Node.length_layoutAll] at hbody
  exact hbody.of_reaches (hl.reaches_pass s k saved id ids)

theorem Evaluates.simulates {entry : String → Option Nat}
    {subs : String → Option (List (Node Action))} (hsubs : Linked code entry subs) {task : Task}
    {s s' : Stage} {c : Completion} (h : Evaluates subs task s c s') :
    task.Simulates code entry s c s' := by
  induction h with
  | nil => exact fun b out k _ => Reaches.refl _
  | @next n ns s s₁ s' c first others ih₁ ih₂ =>
    intro b out k hcode
    simp only [Node.layoutAll] at hcode ⊢
    obtain ⟨hcode₁, hcode₂⟩ := codeAt_append.mp hcode
    have hfirst : Reaches code _ _ := ih₁ b out k hcode₁
    have hothers := ih₂ _ out k hcode₂
    rw [first.source_of_done rfl] at hothers
    rw [List.length_append, ← Nat.add_assoc]
    exact hothers.of_reaches hfirst
  | stop first stops ih =>
    intro b out k hcode
    simp only [Node.layoutAll] at hcode ⊢
    exact (ih b out k (codeAt_append.mp hcode).1).of_ne_done stops _
  | block children ih =>
    intro b out k hcode
    simp only [Node.layout] at hcode ⊢
    exact ih b out k hcode
  | command acts =>
    intro b out k hcode
    exact reaches_act (codeAt_cons.mp hcode).1 acts k
  | @iterate kind tag body line s s' c level ih =>
    intro b out k hcode
    cases kind with
    | run =>
      have hl := levelAt_run hcode
      refine ih b k _ out hl fun _ => ?_
      rw [Node.length_layout]
      simp only [Node.extent, lastOf, extentAll_eq]
      omega
    | loop =>
      obtain ⟨hpush, hl⟩ := levelAt_loop hcode
      have hsave : Reaches code ⟨s, b, k⟩ ⟨s, b + 1, k.save (b + 7 + bodyExtent entry body)⟩ :=
        reaches_step hpush fun _ => rfl
      have hnext : b + ((Node.iterate .loop (some (.select tag)) body line).layout entry b
          out).length = b + 7 + bodyExtent entry body := by
        rw [Node.length_layout]
        simp only [Node.extent, extentAll_eq]
        omega
      rw [hnext]
      exact (ih (b + 1) k _ out hl nofun).of_reaches hsave
  | define => exact fun b out k _ => Reaches.refl _
  | @call name line body s s' c found callee back ih =>
    intro b out k hcode
    obtain ⟨e, he, hbody⟩ := hsubs name body found
    simp only [Node.layout, he, Option.elim_some] at hcode ⊢
    have hcall := reaches_call (codeAt_cons.mp hcode).1 s k
    have hcallee := ih e none (k.note (b + 1)) (codeAt_append.mp hbody).1
    exact hcall.trans (hcallee.returns hbody callee.source_of_done back).reaches
  | @callEnded name line body s s' found callee ih =>
    intro b out k hcode
    obtain ⟨e, he, hbody⟩ := hsubs name body found
    simp only [Node.layout, he, Option.elim_some] at hcode
    have hcall := reaches_call (codeAt_cons.mp hcode).1 s k
    exact Ends.of_reaches hcall (ih e none (k.note (b + 1)) (codeAt_append.mp hbody).1)
  | subroutineReturn =>
    intro b out k hcode
    exact ⟨b, [], [], (codeAt_cons.mp hcode).1, Reaches.refl _, rfl⟩
  | leave =>
    rintro b out k hcode t rfl
    exact reaches_step (codeAt_cons.mp hcode).1 fun _ => rfl
  | exit =>
    intro b out k hcode n
    exact ⟨1, _, Point.run_exit (codeAt_cons.mp hcode).1 n, rfl, rfl, rfl, rfl⟩
  | level passes ih =>
    intro p k next out hl hnext
    exact (ih p k next out hl hnext).of_reaches (hl.reaches_passes _ _)
  | exhausted =>
    intro p k next out hl hnext
    exact (hl.reaches_exit _ _ _).trans (hl.reaches_next _ k hnext _ _)
  | @passLeft kind tag body saved id ids s s' pass ih =>
    intro p k next out hl hnext
    have hpass : Reaches code _ _ := hl.lands_pass ih (k.enter kind next) saved ids _ rfl
    exact hpass.trans (hl.reaches_next s' k hnext saved ids)
  | @passStop kind tag body saved id ids s s' c pass stops ih =>
    intro p k next out hl hnext
    exact (hl.lands_pass ih (k.enter kind next) saved ids).outside stops next out
  | @passRun tag body saved id ids s s₁ s' c pass others ih₁ ih₂ =>
    intro p k next out hl hnext
    have hpass : Reaches code _ _ := hl.lands_pass ih₁ (k.enter .run next) saved ids
    exact (ih₂ p k next out hl hnext).of_reaches (hpass.trans (hl.reaches_back s₁ _))
  | @passLoop tag body saved id ids s s₁ s₂ s' c pass again others ih₁ ih₂ ih₃ =>
    intro p k next out hl hnext
    have hpass : Reaches code _ _ := hl.lands_pass ih₁ (k.enter .loop next) saved ids
    -- The further level is called on top of this one's frame, and goes on
    -- behind the call, where the frame is still open.
    have hagain : Reaches code _ _ := ih₂ p ((k.enter .loop next).push saved ids)
      (p + 2 + bodyExtent entry body + 1) none hl nofun
    have hlevel := (hpass.trans (hl.reaches_again s₁ _ rfl)).trans hagain
    exact (ih₃ p k next out hl hnext).of_reaches (hlevel.trans (hl.reaches_back s₂ _))
  | @passLoopStop tag body saved id ids s s₁ s' c pass again stops ih₁ ih₂ =>
    intro p k next out hl hnext
    have hpass : Reaches code _ _ := hl.lands_pass ih₁ (k.enter .loop next) saved ids
    have hagain := ih₂ p ((k.enter .loop next).push saved ids)
      (p + 2 + bodyExtent entry body + 1) none hl nofun
    have hlevel := hagain.of_reaches (hpass.trans (hl.reaches_again s₁ _ rfl))
    exact hlevel.outside stops next out

end CommandScript.Arena

namespace CommandScript.Tree

open Arena

theorem linked (t : Tree Action) : Linked t.layout t.entry t.bodyOf := by
  intro name body h
  obtain ⟨sub, hsub, rfl⟩ := Option.map_eq_some_iff.mp h
  exact codeAt_entry hsub

/-- How the machine ends a script: on stage `s`, ended or behind the last
instruction, and with nothing left on its stacks if the script came to its
end. -/
structure Finishes (code : List (Instruction Action)) (m : Machine) (c : Completion) (s : Stage) :
    Prop where
  finished : m.isFinished code = true
  world : m.world = s.world
  log : m.log = s.log
  source : m.source = s.source
  ended : c = .ended → m.ended = true
  emptied : c = .done → m.source = server ∧ m.sources = [] ∧ m.pending = [] ∧ m.addresses = [] ∧
    m.returns = []

/-- Behind the main block is the end of the code, or an exit. -/
theorem behind_main (t : Tree Action) :
    t.layout.length = (Node.layoutAll t.entry 0 none t.main).length ∨
      t.layout[(Node.layoutAll t.entry 0 none t.main).length]? = some .exit := by
  have hmain := t.codeAt_main
  rw [mainLayout] at hmain
  cases hsubs : t.subroutines with
  | nil =>
    left
    simp [layout, mainLayout, hsubs, firsts, Subroutine.inRow]
  | cons sub subs =>
    right
    simp only [hsubs, List.isEmpty_cons, Bool.false_eq_true, if_false] at hmain
    have hexit := (codeAt_cons.mp (codeAt_append.mp hmain).2).1
    rwa [Nat.zero_add] at hexit

/-- The layout of a script, run by the machine, does what the script means. -/
theorem run_of_evaluates {t : Tree Action} {w : World} {c : Completion} {s : Stage}
    (h : t.Evaluates w c s) :
    ∃ n m, Machine.run t.layout n { world := w } = .ok m ∧ Finishes t.layout m c s := by
  obtain ⟨heval, hc⟩ := h
  have hmain := (codeAt_append.mp t.codeAt_main).1
  have hlands := heval.simulates t.linked 0 none {} hmain
  rcases hc with rfl | rfl
  · have hsource : s.source = server := heval.source_of_done rfl
    obtain ⟨j, hj⟩ := hlands 0
    rw [Nat.zero_add] at hj
    rcases t.behind_main with hend | hexit
    · refine ⟨j, _, hj, ?_, rfl, rfl, rfl, fun h => absurd h (by decide),
        fun _ => ⟨hsource, rfl, rfl, rfl, rfl⟩⟩
      rw [Machine.isFinished, hend]
      exact decide_eq_true (Nat.le_refl _)
    · have hlast := Machine.run_add t.layout j 1 (Point.machine ⟨{ world := w }, 0, {}⟩ 0)
      rw [hj] at hlast
      exact ⟨j + 1, _, hlast.trans (Point.run_exit hexit _), rfl, rfl, rfl, rfl, fun _ => rfl,
        fun _ => ⟨hsource, rfl, rfl, rfl, rfl⟩⟩
  · obtain ⟨j, m, hj, hended, hworld, hlog, hsource⟩ := hlands 0
    refine ⟨j, m, hj, ?_, hworld, hlog, hsource, fun _ => hended, fun h => absurd h (by decide)⟩
    rw [Machine.isFinished, hended, Bool.true_or]

end CommandScript.Tree

namespace CommandScript

open Arena

/-- The compiled program of a script does what the script means: if the
evaluation of the tree ends, the machine finishes, with the same world and
log, and with its stacks empty if the script came to its end. -/
theorem compiled_script_runs_as_evaluated (t : Tree Action) (id : String) {w : World}
    {c : Completion} {s : Stage} (h : t.Evaluates w c s) :
    ∃ d p, t.lower {} = .ok d ∧ d.toProgram id = .ok p ∧
      ∃ n m, (∀ budget, n ≤ budget → Machine.run p.instructions budget { world := w } = .ok m) ∧
        Tree.Finishes p.instructions m c s := by
  obtain ⟨d, hd, hlinks⟩ := t.lower_links
  obtain ⟨n, m, hm, hf⟩ := Tree.run_of_evaluates h
  refine ⟨d, ⟨id, t.layout⟩, hd, hlinks.toProgram id, n, m, fun budget hle => ?_, hf⟩
  obtain ⟨more, rfl⟩ := Nat.exists_eq_add_of_le hle
  rw [Machine.run_add, hm]
  exact Machine.run_of_isFinished hf.finished more

/-- A script in which a `loop` calls a subroutine that returns early, and a
`run` is left by a `break`. -/
def greeting : Tree Action where
  main :=
    [.iterate .loop (some (.select "mob")) [.command (.untag "mob"), .call "greet" 2] 0,
      .iterate .run (some (.select "kid")) [.command (.say "bye"), .leave 6] 4]
  subroutines := [⟨"greet", 8, [.command (.say "hi"), .subroutineReturn, .exit]⟩]

/-- One of the tag the `loop` selects, and two that the `run` does. -/
def crowd : World := ((({} : World).spawn "zed" "mob").spawn "amy" "kid").spawn "bob" "kid"

theorem greeting_runs_as_evaluated :
    greeting.Evaluates crowd .done ⟨crowd.untag 1 "mob", ["zed: hi", "amy: bye"], server⟩ ∧
    ∃ d p, greeting.lower {} = .ok d ∧ d.toProgram "greeting" = .ok p ∧
      ∃ n m, (∀ budget, n ≤ budget → Machine.run p.instructions budget { world := crowd } = .ok m) ∧
        Tree.Finishes p.instructions m .done
          ⟨crowd.untag 1 "mob", ["zed: hi", "amy: bye"], server⟩ := by
  have callee : Evaluates greeting.bodyOf (.nodes [.command (.say "hi"), .subroutineReturn, .exit])
      ⟨crowd.untag 1 "mob", [], 1⟩ .returned ⟨crowd.untag 1 "mob", ["zed: hi"], 1⟩ :=
    .next (.command rfl) (.stop .subroutineReturn nofun)
  have greet : Evaluates greeting.bodyOf (.node (.call "greet" 2))
      ⟨crowd.untag 1 "mob", [], 1⟩ .done ⟨crowd.untag 1 "mob", ["zed: hi"], 1⟩ :=
    .call rfl callee (.inr rfl)
  have again : Evaluates greeting.bodyOf
      (.level .loop "mob" [.command (.untag "mob"), .call "greet" 2])
      ⟨crowd.untag 1 "mob", ["zed: hi"], 1⟩ .done ⟨crowd.untag 1 "mob", ["zed: hi"], 1⟩ :=
    .level .exhausted
  have first : Evaluates greeting.bodyOf
      (.level .loop "mob" [.command (.untag "mob"), .call "greet" 2]) { world := crowd } .done
      ⟨crowd.untag 1 "mob", ["zed: hi"], server⟩ :=
    .level (.passLoop (.next (.command rfl) (.next greet .nil)) again .exhausted)
  have pass : Evaluates greeting.bodyOf (.nodes [.command (.say "bye"), .leave 6])
      ⟨crowd.untag 1 "mob", ["zed: hi"], 2⟩ .left
      ⟨crowd.untag 1 "mob", ["zed: hi", "amy: bye"], 2⟩ :=
    .next (.command rfl) (.stop .leave nofun)
  have second : Evaluates greeting.bodyOf (.level .run "kid" [.command (.say "bye"), .leave 6])
      ⟨crowd.untag 1 "mob", ["zed: hi"], server⟩ .done
      (Stage.as ⟨crowd.untag 1 "mob", ["zed: hi", "amy: bye"], 2⟩ server) := .level (.passLeft pass)
  have evaluates : greeting.Evaluates crowd .done
      ⟨crowd.untag 1 "mob", ["zed: hi", "amy: bye"], server⟩ :=
    ⟨.next (.iterate first) (.next (.iterate second) .nil), .inl rfl⟩
  exact ⟨evaluates, compiled_script_runs_as_evaluated greeting "greeting" evaluates⟩

end CommandScript
