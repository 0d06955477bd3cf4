import CommandScript.Proofs.Runs

/-!
# Shapes of the stacks

A shape says what the machine's stacks hold at an offset of a program:
frames, saved addresses, and below these nothing or a subroutine's return. A
shape can be given to each offset once and for all, although a `loop` that
calls itself makes the stacks as deep as it likes: the address saved last is
that of the end of the loop, or else that of the place behind the call, where
the frame of the caller is still open and its own address under it. `Stacked`
has a rule for each.

If every instruction fits the shape of its offset (`Fits`), the machine keeps
to the shapes and never faults (`Safe.step`, `Safe.run`).
-/

namespace CommandScript.Arena

/-- What is on the stacks, from the top. -/
inductive Shape where
  /-- Nothing: the main block is under way. -/
  | main
  /-- A return, noted with the stacks as they are. -/
  | sub
  | frame (below : Shape)
  /-- The address saved by a `loop`: that of its end, or, if it was called by
  itself, that of the place behind the call. -/
  | hinge (done again : Nat) (below : Shape)
  deriving DecidableEq, Repr

/-- Whether a subroutine is under way. -/
def Shape.inSubroutine : Shape → Bool
  | main => false
  | sub => true
  | frame σ => σ.inSubroutine
  | hinge _ _ σ => σ.inSubroutine

/-- The shapes at the offsets of a program. -/
abbrev Shapes := List Shape

/-- `Stacked T σ n A R`: stacks with `n` frames, the saved addresses `A` and
the returns `R` are as `σ` says. -/
inductive Stacked (T : Shapes) : Shape → Nat → List Target → List Return → Prop where
  | main : Stacked T .main 0 [] []
  | sub {σ : Shape} {n : Nat} {A : List Target} {R : List Return} {note : Return}
      (caller : T[note.address]? = some σ) (below : Stacked T σ n A R) (frames : note.frames = n)
      (addresses : note.addresses = A.length) : Stacked T .sub n A (note :: R)
  | frame {σ : Shape} {n : Nat} {A : List Target} {R : List Return} (below : Stacked T σ n A R) :
      Stacked T (.frame σ) (n + 1) A R
  | entered {done again : Nat} {σ : Shape} {n : Nat} {A : List Target} {R : List Return}
      (below : Stacked T σ n A R) : Stacked T (.hinge done again σ) n (.offset done :: A) R
  | called {done again : Nat} {σ : Shape} {n : Nat} {A : List Target} {R : List Return}
      (below : Stacked T (.frame (.hinge done again σ)) n A R) :
      Stacked T (.hinge done again σ) n (.offset again :: A) R

namespace Stacked

variable {T : Shapes} {σ : Shape} {n : Nat} {A : List Target} {R : List Return}

/-- No return was noted with more on the stacks than there is. -/
theorem returns_le (h : Stacked T σ n A R) :
    ∀ note ∈ R, note.frames ≤ n ∧ note.addresses ≤ A.length := by
  induction h with
  | main => simp
  | sub _ _ frames addresses ih =>
    rintro note hn
    rcases List.mem_cons.mp hn with rfl | hn
    · exact ⟨Nat.le_of_eq frames, Nat.le_of_eq addresses⟩
    · exact ih note hn
  | frame _ ih => exact fun note hn => ⟨Nat.le_succ_of_le (ih note hn).1, (ih note hn).2⟩
  | entered _ ih | called _ ih =>
    exact fun note hn => ⟨(ih note hn).1, Nat.le_succ_of_le (ih note hn).2⟩

/-- In a subroutine there is a return to go back to, and under what was opened
since its call the stacks are as the caller left them. -/
theorem return_to (h : Stacked T σ n A R) (hs : σ.inSubroutine = true) :
    ∃ note R' τ n' top A', R = note :: R' ∧ T[note.address]? = some τ ∧ Stacked T τ n' A' R' ∧
      note.frames = n' ∧ n' ≤ n ∧ A = top ++ A' ∧ note.addresses = A'.length := by
  induction h with
  | main => cases hs
  | @sub σ n A R note caller below frames addresses =>
    exact ⟨note, R, σ, n, [], A, rfl, caller, below, frames, Nat.le_refl n, rfl, addresses⟩
  | frame _ ih =>
    obtain ⟨note, R', τ, n', top, A', hR, hτ, hb, hf, hle, hA, ha⟩ := ih hs
    exact ⟨note, R', τ, n', top, A', hR, hτ, hb, hf, Nat.le_succ_of_le hle, hA, ha⟩
  | entered _ ih | called _ ih =>
    obtain ⟨note, R', τ, n', top, A', hR, hτ, hb, hf, hle, rfl, ha⟩ := ih hs
    exact ⟨note, R', τ, n', _ :: top, A', hR, hτ, hb, hf, hle, rfl, ha⟩

end Stacked

/-- `Fits T ip σ i`: the instruction `i` at offset `ip` can be executed on
stacks of shape `σ`, and leads to where `T` expects the stacks it leaves. -/
inductive Fits (T : Shapes) (ip : Nat) : Shape → Instruction Action → Prop where
  | plain {σ : Shape} {a : Action} (command : ∀ tag, a ≠ .select tag)
      (next : T[ip + 1]? = some σ) : Fits T ip σ (.plain a)
  | branch {σ : Shape} {t : Nat} (leads : T[t]? = some σ) : Fits T ip σ (.branch (.offset t))
  | exit {σ : Shape} : Fits T ip σ .exit
  | pushAddress {σ : Shape} {done again : Nat} (next : T[ip + 1]? = some (.hinge done again σ)) :
      Fits T ip σ (.pushAddress (.offset done))
  | call {σ : Shape} {done t : Nat} (leads : T[t]? = some (.hinge done (ip + 1) σ)) :
      Fits T ip (.frame (.hinge done (ip + 1) σ)) (.call (.offset t))
  | ret {σ : Shape} {done again : Nat} (finishes : T[done]? = some σ)
      (continues : T[again]? = some (.frame (.hinge done again σ))) :
      Fits T ip (.hinge done again σ) .ret
  | subroutineCall {σ : Shape} {t : Nat} (leads : T[t]? = some .sub) (next : T[ip + 1]? = some σ) :
      Fits T ip σ (.subroutineCall (.offset t))
  | subroutineReturn {σ : Shape} (inside : σ.inSubroutine = true) : Fits T ip σ .subroutineReturn
  | pushSourceAndMatch {σ : Shape} {tag : String} (next : T[ip + 1]? = some (.frame σ)) :
      Fits T ip σ (.pushSourceAndMatch (.select tag))
  | popSourceOrBranch {σ : Shape} {t : Nat} (next : T[ip + 1]? = some (.frame σ))
      (leads : T[t]? = some (.frame σ)) : Fits T ip (.frame σ) (.popSourceOrBranch (.offset t))
  | popFrame {σ : Shape} (next : T[ip + 1]? = some σ) : Fits T ip (.frame σ) .popFrame

/-- Every instruction of `part`, which stands at offset `b`, fits. -/
def FitsAt (T : Shapes) (b : Nat) (part : List (Instruction Action)) : Prop :=
  ∀ j i, part[j]? = some i → ∃ σ, T[b + j]? = some σ ∧ Fits T (b + j) σ i

theorem fitsAt_nil (T : Shapes) (b : Nat) : FitsAt T b [] := by
  intro j i h
  simp at h

theorem fitsAt_cons {T : Shapes} {b : Nat} {σ : Shape} {i : Instruction Action}
    {is : List (Instruction Action)} (hσ : T[b]? = some σ) (hi : Fits T b σ i)
    (his : FitsAt T (b + 1) is) : FitsAt T b (i :: is) := by
  rintro (_ | j) i' h
  · obtain rfl := Option.some.inj h
    exact ⟨σ, hσ, hi⟩
  · have h' := his j i' h
    rwa [Nat.add_assoc, Nat.add_comm 1] at h'

theorem fitsAt_append {T : Shapes} {b : Nat} {is js : List (Instruction Action)}
    (his : FitsAt T b is) (hjs : FitsAt T (b + is.length) js) : FitsAt T b (is ++ js) := by
  intro j i h
  rcases Nat.lt_or_ge j is.length with hlt | hge
  · rw [List.getElem?_append_left hlt] at h
    exact his j i h
  · rw [List.getElem?_append_right hge] at h
    have h' := hjs (j - is.length) i h
    rwa [Nat.add_assoc, Nat.add_sub_cancel' hge] at h'

/-- The action of an instruction is one that the instruction can use. -/
def Proper : Instruction Action → Prop
  | .plain action => ∀ tag, action ≠ .select tag
  | .pushSourceAndMatch action => ∃ tag, action = .select tag
  | _ => True

theorem Fits.proper {T : Shapes} {ip : Nat} {σ : Shape} {i : Instruction Action}
    (h : Fits T ip σ i) : Proper i := by
  cases h with
  | plain command => exact command
  | pushSourceAndMatch => exact ⟨_, rfl⟩
  | _ => trivial

/-- What an instruction needs on the stacks. -/
def Machine.Ready (m : Machine) : Instruction Action → Prop
  | .ret => m.addresses ≠ []
  | .subroutineReturn => m.returns ≠ []
  | .popSourceOrBranch _ => m.pending ≠ [] ∧ m.sources ≠ []
  | .popFrame => m.pending ≠ [] ∧ m.sources ≠ []
  | _ => True

theorem Fits.ready {T : Shapes} {m : Machine} {σ : Shape} {i : Instruction Action}
    (h : Fits T m.ip σ i) (hstacked : Stacked T σ m.sources.length m.addresses m.returns)
    (hbalanced : m.pending.length = m.sources.length) : m.Ready i := by
  have hframe {τ : Shape} (h : Stacked T (.frame τ) m.sources.length m.addresses m.returns) :
      m.pending ≠ [] ∧ m.sources ≠ [] := by
    have hpos : 0 < m.sources.length := by
      generalize m.sources.length = n at h
      cases h
      exact Nat.succ_pos _
    exact ⟨List.ne_nil_of_length_pos (hbalanced ▸ hpos), List.ne_nil_of_length_pos hpos⟩
  cases h with
  | ret =>
    show m.addresses ≠ []
    generalize m.addresses = A at hstacked
    cases hstacked <;> exact List.cons_ne_nil _ _
  | subroutineReturn inside =>
    obtain ⟨note, rest, -, -, -, -, hreturns, -⟩ := hstacked.return_to inside
    show m.returns ≠ []
    rw [hreturns]
    exact List.cons_ne_nil note rest
  | popSourceOrBranch | popFrame => exact hframe hstacked
  | _ => trivial

/-! ## Entities -/

theorem World.length_spawn (w : World) (name tag : String) :
    w.entities.length ≤ (w.spawn name tag).entities.length := by
  rw [spawn]
  split
  · exact Nat.le_refl _
  · simp

/-- The server is in every world that spawning makes of the first one. -/
theorem World.server_lt_spawned (spawns : List (String × String)) :
    server < (spawns.foldl (fun w s => w.spawn s.1 s.2) ({} : World)).entities.length := by
  have hgrows (w : World) : w.entities.length ≤
      (spawns.foldl (fun w s => w.spawn s.1 s.2) w).entities.length := by
    induction spawns generalizing w with
    | nil => exact Nat.le_refl _
    | cons s spawns ih => exact Nat.le_trans (w.length_spawn s.1 s.2) (ih _)
  exact Nat.lt_of_lt_of_le (by decide) (hgrows {})

theorem World.length_untag (w : World) (id : Nat) (tag : String) :
    (w.untag id tag).entities.length = w.entities.length := by
  simp [untag]

theorem World.lt_of_mem_matching {w : World} {tag : String} {id : Nat} (h : id ∈ w.matching tag) :
    id < w.entities.length := by
  obtain ⟨⟨e, i⟩, hm, he⟩ := List.mem_filterMap.mp h
  obtain ⟨-, rfl⟩ : e.tags.contains tag = true ∧ i = id := by simpa using he
  exact (List.mem_zipIdx' hm).1

/-- Everyone the machine acts as or may come to act as is there. -/
structure Present (w : World) (source : Nat) (sources : List Nat) (pending : List (List Nat)) :
    Prop where
  source : source < w.entities.length
  sources : ∀ id ∈ sources, id < w.entities.length
  pending : ∀ ids ∈ pending, ∀ id ∈ ids, id < w.entities.length

theorem Present.mono {w w' : World} {source : Nat} {sources : List Nat} {pending : List (List Nat)}
    (h : Present w source sources pending) (hw : w.entities.length ≤ w'.entities.length) :
    Present w' source sources pending where
  source := Nat.lt_of_lt_of_le h.source hw
  sources id hid := Nat.lt_of_lt_of_le (h.sources id hid) hw
  pending ids hids id hid := Nat.lt_of_lt_of_le (h.pending ids hids id hid) hw

/-- A command of someone who is there succeeds, touches nothing but the world
and the log, and lets no one vanish. -/
theorem Machine.perform_eq_ok {m : Machine} (h : m.source < m.world.entities.length) {a : Action}
    (ha : ∀ tag, a ≠ .select tag) :
    ∃ w log, m.perform a = .ok { m with world := w, log } ∧
      m.world.entities.length ≤ w.entities.length := by
  cases a with
  | say text =>
    obtain ⟨name, hname⟩ : ∃ name, m.world.name? m.source = some name := by
      rw [World.name?, List.getElem?_eq_getElem h]
      exact ⟨_, rfl⟩
    exact ⟨m.world, m.log ++ [name ++ ": " ++ text], by rw [perform, hname], Nat.le_refl _⟩
  | spawn name tag => exact ⟨_, m.log, rfl, World.length_spawn _ _ _⟩
  | untag tag => exact ⟨_, m.log, if_pos h, Nat.le_of_eq (World.length_untag _ _ _).symm⟩
  | select tag => exact absurd rfl (ha tag)

/-! ## Safety -/

/-- The stacks of a machine are as the shapes say, with as many sources as
lists of matches, and everyone on them is there. -/
structure Safe (T : Shapes) (m : Machine) : Prop where
  stacked : ∃ σ, Stacked T σ m.sources.length m.addresses m.returns ∧
    (m.ended = false → T[m.ip]? = some σ)
  balanced : m.pending.length = m.sources.length
  present : Present m.world m.source m.sources m.pending

theorem Present.pop {w : World} {source id : Nat} {sources : List Nat} {ids : List Nat}
    {pending : List (List Nat)} (h : Present w source sources ((id :: ids) :: pending)) :
    Present w id sources (ids :: pending) := by
  have htop := h.pending _ List.mem_cons_self
  refine ⟨htop id List.mem_cons_self, h.sources, fun ids' hids => ?_⟩
  rcases List.mem_cons.mp hids with rfl | hids
  · exact fun id' hid => htop id' (List.mem_cons_of_mem _ hid)
  · exact h.pending ids' (List.mem_cons_of_mem _ hids)

theorem Present.push {w : World} {source : Nat} {sources : List Nat} {pending : List (List Nat)}
    (h : Present w source sources pending) (tag : String) :
    Present w source (source :: sources) (w.matching tag :: pending) where
  source := h.source
  sources id hid := (List.mem_cons.mp hid).elim (fun e => e ▸ h.source) (h.sources id)
  pending ids hids := by
    rcases List.mem_cons.mp hids with rfl | hids
    · exact fun id hid => World.lt_of_mem_matching hid
    · exact h.pending ids hids

/-- Going back to the source of a caller. -/
theorem Present.cut {w : World} {source : Nat} {sources : List Nat} {pending : List (List Nat)}
    (h : Present w source sources pending) (depth : Nat) :
    Present w
      (if depth < sources.length then (Arena.cut (depth + 1) sources).headD source else source)
      (Arena.cut depth sources) (Arena.cut depth pending) where
  source := by
    split
    · cases hcut : Arena.cut (depth + 1) sources with
      | nil => exact h.source
      | cons id rest => exact h.sources id (mem_of_mem_cut (hcut ▸ List.mem_cons_self))
    · exact h.source
  sources id hid := h.sources id (mem_of_mem_cut hid)
  pending ids hids := h.pending ids (mem_of_mem_cut hids)

/-- An instruction that fits is executed, and leaves the machine safe. -/
theorem Safe.execute {T : Shapes} {m : Machine} {σ : Shape} {i : Instruction Action}
    (hi : Fits T m.ip σ i) (hstacked : Stacked T σ m.sources.length m.addresses m.returns)
    (hbalanced : m.pending.length = m.sources.length)
    (hpresent : Present m.world m.source m.sources m.pending) (n : Nat) :
    ∃ m', Machine.execute { m with ip := m.ip + 1, executed := n } i = .ok m' ∧ Safe T m' := by
  obtain ⟨world, log, executed, ip, source, sources, pending, addresses, returns, ended⟩ := m
  dsimp only at *
  cases hi with
  | plain command next =>
    obtain ⟨w, log', hp, hw⟩ := Machine.perform_eq_ok
      (m := ⟨world, log, n, ip + 1, source, sources, pending, addresses, returns, ended⟩)
      hpresent.source command
    exact ⟨_, hp, ⟨σ, hstacked, fun _ => next⟩, hbalanced, hpresent.mono hw⟩
  | branch leads => exact ⟨_, rfl, ⟨σ, hstacked, fun _ => leads⟩, hbalanced, hpresent⟩
  | exit => exact ⟨_, rfl, ⟨σ, hstacked, nofun⟩, hbalanced, hpresent⟩
  | pushAddress next =>
    exact ⟨_, rfl, ⟨_, .entered hstacked, fun _ => next⟩, hbalanced, hpresent⟩
  | call leads => exact ⟨_, rfl, ⟨_, .called hstacked, fun _ => leads⟩, hbalanced, hpresent⟩
  | ret finishes continues =>
    -- Which of the two addresses is on top decides which of the two expected
    -- shapes is met.
    cases hstacked with
    | entered below => exact ⟨_, rfl, ⟨_, below, fun _ => finishes⟩, hbalanced, hpresent⟩
    | called below => exact ⟨_, rfl, ⟨_, below, fun _ => continues⟩, hbalanced, hpresent⟩
  | subroutineCall leads next =>
    exact ⟨_, rfl, ⟨_, .sub next hstacked rfl rfl, fun _ => leads⟩, hbalanced, hpresent⟩
  | subroutineReturn inside =>
    obtain ⟨note, returns', τ, n', top, below, rfl, hτ, hbelow, rfl, hle, rfl, haddresses⟩ :=
      hstacked.return_to inside
    have hsources : (cut note.frames sources).length = note.frames := length_cut hle
    refine ⟨_, rfl, ⟨τ, ?_, fun _ => hτ⟩, ?_, hpresent.cut note.frames⟩
    · rw [hsources, cut_append top haddresses.symm]
      exact hbelow
    · rw [hsources, length_cut (hbalanced ▸ hle)]
  | pushSourceAndMatch next =>
    exact ⟨_, rfl, ⟨_, .frame hstacked, fun _ => next⟩, congrArg Nat.succ hbalanced,
      hpresent.push _⟩
  | popSourceOrBranch next leads =>
    cases pending with
    | nil =>
      rw [← hbalanced] at hstacked
      cases hstacked
    | cons ids pending =>
      cases ids with
      | nil => exact ⟨_, rfl, ⟨_, hstacked, fun _ => leads⟩, hbalanced, hpresent⟩
      | cons id ids =>
        exact ⟨_, rfl, ⟨_, hstacked, fun _ => next⟩, hbalanced, hpresent.pop⟩
  | popFrame next =>
    cases sources with
    | nil => cases hstacked
    | cons saved sources =>
      cases pending with
      | nil => cases hbalanced
      | cons ids pending =>
        cases hstacked with
        | frame below =>
          refine ⟨_, rfl, ⟨_, below, fun _ => next⟩, Nat.succ.inj hbalanced, ?_⟩
          exact ⟨hpresent.sources _ List.mem_cons_self,
            fun id hid => hpresent.sources id (List.mem_cons_of_mem _ hid),
            fun ids hids => hpresent.pending ids (List.mem_cons_of_mem _ hids)⟩

/-- While a safe machine has not finished, it is at an instruction that has
what it needs, and takes a step after which it is safe. -/
theorem Safe.step {T : Shapes} {code : List (Instruction Action)} (hfits : FitsAt T 0 code)
    {m : Machine} (h : Safe T m) (hnot : ¬ m.isFinished code) :
    ∃ i m', code[m.ip]? = some i ∧ m.Ready i ∧ m.step code = .ok m' ∧ Safe T m' := by
  obtain ⟨hended, i, hi⟩ := Machine.ip_of_not_isFinished hnot
  obtain ⟨σ, hstacked, hσ⟩ := h.stacked
  obtain ⟨σ', hσ', hfit⟩ := hfits m.ip i hi
  rw [Nat.zero_add] at hσ' hfit
  obtain rfl : σ = σ' := Option.some.inj ((hσ hended).symm.trans hσ')
  obtain ⟨m', hm, hsafe⟩ := Safe.execute hfit hstacked h.balanced h.present (m.executed + 1)
  refine ⟨i, m', hi, hfit.ready hstacked h.balanced, ?_, hsafe⟩
  rw [Machine.step, hi]
  exact hm

/-- A machine in the middle of a run: as many sources as lists of matches, no
return noted with more on the stacks than there is, everyone it acts as or may
come to act as there, and, unless it has finished, an instruction ahead that
has what it needs and is executed. -/
structure Machine.Intact (code : List (Instruction Action)) (m : Machine) : Prop where
  balanced : m.sources.length = m.pending.length
  returns : ∀ note ∈ m.returns,
    note.frames ≤ m.sources.length ∧ note.addresses ≤ m.addresses.length
  present : Present m.world m.source m.sources m.pending
  goesOn : ¬ m.isFinished code →
    ∃ i m', code[m.ip]? = some i ∧ m.Ready i ∧ m.step code = .ok m'

theorem Safe.intact {T : Shapes} {code : List (Instruction Action)} (hfits : FitsAt T 0 code)
    {m : Machine} (h : Safe T m) : m.Intact code where
  balanced := h.balanced.symm
  returns := by
    obtain ⟨σ, hstacked, -⟩ := h.stacked
    exact hstacked.returns_le
  present := h.present
  goesOn hnot := by
    obtain ⟨i, m', hi, hready, hstep, -⟩ := h.step hfits hnot
    exact ⟨i, m', hi, hready, hstep⟩

/-- What a step keeps, a run keeps. -/
theorem Safe.run {T : Shapes} {code : List (Instruction Action)} (hfits : FitsAt T 0 code)
    {m : Machine} (h : Safe T m) (n : Nat) : ∃ m', Machine.run code n m = .ok m' ∧ Safe T m' := by
  induction n generalizing m with
  | zero => exact ⟨m, rfl, h⟩
  | succ n ih =>
    rw [Machine.run]
    split
    · exact ⟨m, rfl, h⟩
    · rename_i hnot
      obtain ⟨i, m₁, -, -, hm₁, h₁⟩ := h.step hfits hnot
      rw [hm₁]
      exact ih h₁

end CommandScript.Arena
