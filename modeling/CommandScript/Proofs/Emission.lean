import CommandScript.Compile
import CommandScript.Proofs.Layout

/-!
# What lowering a statement emits

Emission is followed on the lists of labels and slots of an assembly
(`Draft.Gives`). Lowering a statement only adds to both (`Adds`): it binds
every label it defines, and refers to no labels but these and those of its
scope. The slots it adds read as the layout of the statement, under any
offsets that agree with the labels it bound (`Node.lower_emits`).

The offsets have to be any, and not those of the labels so far, because a
jump is emitted before the label it leads to is bound.
-/

namespace CommandScript

variable {A : Type}

/-! ## Slots and labels under given offsets -/

/-- The instruction in a slot if labels stand where `ρ` says. -/
def Slot.read (ρ : Label → Nat) : Slot A → Instruction A
  | ready i => i
  | pending x => x.resolve (x.targets.map ρ)

@[simp] theorem Slot.read_ready (ρ : Label → Nat) (i : Instruction A) :
    (Slot.ready i).read ρ = i := rfl

@[simp] theorem Slot.read_jump (ρ : Label → Nat) (make : Target → Instruction A) (name : String)
    (l : Label) : (Slot.pending (.jump make name l)).read ρ = make (.offset (ρ l)) := rfl

/-- Every label in `ls`, of which the first is number `k`, is bound, and `ρ`
has its offset. -/
def Agrees (ρ : Label → Nat) (k : Nat) (ls : List LabelEntry) : Prop :=
  ∀ i e, ls[i]? = some e → e.offset = some (ρ ⟨k + i⟩)

theorem agrees_nil (ρ : Label → Nat) (k : Nat) : Agrees ρ k [] := by
  intro i e h
  simp at h

theorem agrees_cons {ρ : Label → Nat} {k : Nat} {e : LabelEntry} {ls : List LabelEntry} :
    Agrees ρ k (e :: ls) ↔ e.offset = some (ρ ⟨k⟩) ∧ Agrees ρ (k + 1) ls := by
  constructor
  · intro h
    refine ⟨h 0 e rfl, fun i e' he => ?_⟩
    rw [Nat.add_right_comm]
    exact h (i + 1) e' he
  · rintro ⟨h₀, h⟩ (_ | i) e' he
    · obtain rfl := Option.some.inj he
      exact h₀
    · rw [← Nat.add_assoc, Nat.add_right_comm]
      exact h i e' he

theorem agrees_append {ρ : Label → Nat} {k : Nat} {ls ls' : List LabelEntry} :
    Agrees ρ k (ls ++ ls') ↔ Agrees ρ k ls ∧ Agrees ρ (k + ls.length) ls' := by
  induction ls generalizing k with
  | nil => simp [agrees_nil]
  | cons e ls ih =>
    rw [List.cons_append, agrees_cons, agrees_cons, ih, and_assoc, List.length_cons,
      Nat.add_right_comm, Nat.add_assoc k]

/-- Where the subroutines of a scope stand. -/
def Scope.places (s : Scope) (ρ : Label → Nat) (name : String) : Option Nat :=
  (s.find? name).map ρ

theorem Scope.isSome_places (s : Scope) (ρ : Label → Nat) (name : String) :
    (s.places ρ name).isSome = (s.find? name).isSome := by
  simp [Scope.places]

/-- A scope knows of a label: it is the break target or a subroutine's. -/
def Scope.Mentions (s : Scope) (l : Label) : Prop :=
  s.breakTarget = some l ∨ ∃ name, (name, l) ∈ s.subroutines

theorem Scope.mentions_of_find? {s : Scope} {name : String} {l : Label}
    (h : s.find? name = some l) : s.Mentions l := by
  obtain ⟨front, back, hs, -⟩ := List.lookup_eq_some_iff.mp h
  exact .inr ⟨name, by simp [hs]⟩

/-! ## Assemblies as lists -/

/-- The assembly with the given labels and slots. -/
def Assembly.of (ls : List LabelEntry) (ss : List (Slot A)) : Assembly A :=
  ⟨ls.toArray, ss.toArray⟩

theorem Assembly.run_concat {g g' g'' : Assembly A} {xs : List (Directive A)} {x : Directive A}
    (h : g.run xs = .ok g') (hx : g'.perform x = .ok g'') : g.run (xs ++ [x]) = .ok g'' := by
  rw [Assembly.run] at h ⊢
  rw [List.foldlM_append, h]
  show List.foldlM perform g' [x] = _
  rw [List.foldlM_cons, hx]
  rfl

/-- The directives of a draft can be performed, and give these labels and
slots. -/
def Draft.Gives (d : Draft A) (ls : List LabelEntry) (ss : List (Slot A)) : Prop :=
  Assembly.run {} d.code.toList = .ok (.of ls ss) ∧ d.labels = ls.length

namespace Draft.Gives

variable {d : Draft A} {ls ls' : List LabelEntry} {ss ss' : List (Slot A)}

theorem empty : Draft.Gives ({} : Draft A) [] [] := ⟨rfl, rfl⟩

theorem emit (h : d.Gives ls ss) {x : Directive A}
    (hx : (Assembly.of ls ss).perform x = .ok (.of ls' ss')) (hl : ls'.length = ls.length) :
    (d.emit x).Gives ls' ss' := by
  refine ⟨?_, h.2.trans hl.symm⟩
  rw [Draft.emit, Array.toList_push]
  exact Assembly.run_concat h.1 hx

theorem plain (h : d.Gives ls ss) (a : A) :
    (d.emit (.plain a)).Gives ls (ss ++ [.ready (.plain a)]) :=
  h.emit (by simp [Assembly.perform, Assembly.push, Assembly.of]) rfl

theorem control (h : d.Gives ls ss) (name : String) (i : Instruction A) :
    (d.control name i).Gives ls (ss ++ [.ready i]) :=
  h.emit (by simp [Assembly.perform, Assembly.push, Assembly.of]) rfl

theorem jump (h : d.Gives ls ss) (make : Target → Instruction A) (name : String) (l : Label) :
    (d.jump make name l).Gives ls (ss ++ [.pending (.jump make name l)]) :=
  h.emit (by simp [Assembly.perform, Assembly.push, Assembly.of]) rfl

theorem define (h : d.Gives ls ss) (name : String) :
    (d.define name).Gives (ls ++ [{ name := name }]) ss := by
  refine ⟨?_, by simp [Draft.define, h.2]⟩
  rw [Draft.define, Draft.emit, Array.toList_push]
  exact Assembly.run_concat h.1 (by simp [Assembly.perform, Assembly.of])

/-- Binding a label that is not bound yet. -/
theorem bind {name : String} (h : d.Gives (ls ++ ({ name := name } : LabelEntry) :: ls') ss)
    {l : Label} (hl : l = ⟨ls.length⟩) :
    (d.bind l).Gives (ls ++ ⟨name, some ss.length⟩ :: ls') ss := by
  subst hl
  refine h.emit ?_ (by simp)
  simp [Assembly.perform, Assembly.bind, Assembly.entry, Assembly.of, Assembly.size,
    Bind.bind, Except.bind]

theorem cast (h : d.Gives ls ss) (hl : ls = ls') (hs : ss = ss') : d.Gives ls' ss' := by
  rwa [← hl, ← hs]

theorem fresh (h : d.Gives ls ss) : d.fresh = ⟨ls.length⟩ := by
  rw [Draft.fresh, h.2]

end Draft.Gives

/-! ## What a statement adds -/

/-- From draft `d`, which gives `ls` and `ss`, lowering has come to `d'` and
added the labels `fresh` and the slots `more`. The new labels are bound, to
offsets among the new slots or right behind them, and a new slot that waits
does so for one label, a new one or one of the scope. -/
structure Adds (d d' : Draft A) (ls : List LabelEntry) (ss : List (Slot A))
    (fresh : List LabelEntry) (more : List (Slot A)) : Prop where
  gives : d'.Gives (ls ++ fresh) (ss ++ more)
  bound : ∀ e ∈ fresh, ∃ n, e.offset = some n ∧ ss.length ≤ n ∧ n ≤ ss.length + more.length
  refs : ∀ x, .pending x ∈ more → ∃ l, x.targets = [l] ∧
    ((ls.length ≤ l.index ∧ l.index < ls.length + fresh.length) ∨ d.scope.Mentions l)

/-- Lowering from `d` to `d'` leaves the scope as it was, and adds slots that
read as `code`, a function of the offsets of labels and of the offset it
starts at. -/
structure Emits (d d' : Draft A) (code : (Label → Nat) → Nat → List (Instruction A)) : Prop where
  scope : d'.scope = d.scope
  adds : ∀ ls ss, d.Gives ls ss → ∃ fresh more, Adds d d' ls ss fresh more ∧
    ∀ ρ, Agrees ρ ls.length fresh → more.map (·.read ρ) = code ρ ss.length

theorem emits_nothing (d : Draft A) (ds : List Diagnostic) :
    Emits d { d with journal := ds } fun _ _ => [] := by
  refine ⟨rfl, fun ls ss h => ⟨[], [], ⟨?_, by simp, by simp⟩, fun _ _ => rfl⟩⟩
  rw [List.append_nil, List.append_nil]
  exact h

theorem emits_ready {d d' : Draft A} {i : Instruction A} (hs : d'.scope = d.scope)
    (hd : ∀ ls ss, d.Gives ls ss → d'.Gives ls (ss ++ [.ready i])) :
    Emits d d' fun _ _ => [i] := by
  refine ⟨hs, fun ls ss h => ⟨[], [.ready i], ⟨?_, by simp, by simp⟩, fun _ _ => rfl⟩⟩
  rw [List.append_nil]
  exact hd ls ss h

theorem emits_jump (d : Draft A) (make : Target → Instruction A) (name : String) {l : Label}
    (hl : d.scope.Mentions l) :
    Emits d (d.jump make name l) fun ρ _ => [make (.offset (ρ l))] := by
  refine ⟨rfl, fun ls ss h => ⟨[], [.pending (.jump make name l)], ⟨?_, by simp, ?_⟩,
    fun _ _ => rfl⟩⟩
  · rw [List.append_nil]
    exact h.jump make name l
  intro x hx
  obtain rfl : x = .jump make name l := by simpa using hx
  exact ⟨l, rfl, .inr hl⟩

/-- One part after another. -/
theorem Emits.trans {d d₁ d₂ : Draft A} {code₁ code₂ : (Label → Nat) → Nat → List (Instruction A)}
    (h₁ : Emits d d₁ code₁) (h₂ : Emits d₁ d₂ code₂) :
    Emits d d₂ fun ρ b => code₁ ρ b ++ code₂ ρ (b + (code₁ ρ b).length) := by
  refine ⟨h₂.scope.trans h₁.scope, fun ls ss h => ?_⟩
  obtain ⟨fresh₁, more₁, a₁, r₁⟩ := h₁.adds ls ss h
  obtain ⟨fresh₂, more₂, a₂, r₂⟩ := h₂.adds _ _ a₁.gives
  refine ⟨fresh₁ ++ fresh₂, more₁ ++ more₂, ⟨?_, ?_, ?_⟩, ?_⟩
  · simpa only [List.append_assoc] using a₂.gives
  · intro e he
    rcases List.mem_append.mp he with he | he
    · obtain ⟨n, hn, hlo, hhi⟩ := a₁.bound e he
      exact ⟨n, hn, hlo, by rw [List.length_append]; omega⟩
    · obtain ⟨n, hn, hlo, hhi⟩ := a₂.bound e he
      rw [List.length_append] at hlo hhi
      exact ⟨n, hn, by omega, by rw [List.length_append]; omega⟩
  · intro x hx
    rw [List.length_append]
    rcases List.mem_append.mp hx with hx | hx
    · obtain ⟨l, hl, h⟩ := a₁.refs x hx
      exact ⟨l, hl, h.imp_left fun h => ⟨h.1, by omega⟩⟩
    · obtain ⟨l, hl, h⟩ := a₂.refs x hx
      rw [h₁.scope, List.length_append] at h
      exact ⟨l, hl, h.imp_left fun h => ⟨by omega, by omega⟩⟩
  · intro ρ hρ
    obtain ⟨hρ₁, hρ₂⟩ := agrees_append.mp hρ
    have e₁ := r₁ ρ hρ₁
    have e₂ := r₂ ρ (by rwa [List.length_append])
    show _ = code₁ ρ ss.length ++ code₂ ρ (ss.length + (code₁ ρ ss.length).length)
    rw [List.map_append, e₂, List.length_append, ← e₁, List.length_map]

/-! ## Iterations -/

theorem Scope.places_enter (s : Scope) (l : Label) : (s.enter l).places = s.places := rfl

theorem Scope.mentions_enter {s : Scope} {l l' : Label} (h : (s.enter l).Mentions l') :
    l' = l ∨ s.Mentions l' := by
  rcases h with h | h
  · exact .inl (Option.some.inj h).symm
  · exact .inr (.inr h)

/-- An iteration up to its body. -/
def Draft.frameOpen (d : Draft A) (kind : Iteration) (selector : A) : Draft A :=
  let exit := d.fresh
  let d := d.define (kind.keyword ++ ".loop_exit")
  let start := d.fresh
  let d := d.define (kind.keyword ++ ".loop_begin")
  let d := d.control (kind.keyword ++ "::" ++ "push_source_and_match")
    (.pushSourceAndMatch selector)
  let d := d.bind start
  d.jump .popSourceOrBranch (kind.keyword ++ "::" ++ "pop_source_or_branch") exit

/-- An iteration from the end of its body on. -/
def Draft.frameClose (d : Draft A) (kind : Iteration) (again : Option Label) (exit start : Label) :
    Draft A :=
  let d := again.elim d (d.jump .call (kind.keyword ++ "::" ++ "call"))
  let d := d.jump .branch (kind.keyword ++ "::" ++ "branch") start
  let d := d.bind exit
  d.control (kind.keyword ++ "::" ++ "pop_frame") .popFrame

theorem Draft.frame_eq (d : Draft A) (kind : Iteration) (selector : A) (again : Option Label)
    (body : Draft A → Draft A) :
    d.frame kind selector again body =
      ((d.frameOpen kind selector).within d.fresh body).frameClose kind again d.fresh
        (d.define (kind.keyword ++ ".loop_exit")).fresh := rfl

theorem Draft.scope_frameClose (d : Draft A) (kind : Iteration) (again : Option Label)
    (exit start : Label) : (d.frameClose kind again exit start).scope = d.scope := by
  cases again <;> rfl

/-- The slots of an iteration before its body. -/
def openSlots (kind : Iteration) (selector : A) (exit : Label) : List (Slot A) :=
  [.ready (.pushSourceAndMatch selector),
    .pending (.jump .popSourceOrBranch (kind.keyword ++ "::" ++ "pop_source_or_branch") exit)]

/-- The slots of an iteration behind its body. -/
def closeSlots (kind : Iteration) (again : Option Label) (start : Label) : List (Slot A) :=
  again.toList.map (fun l => .pending (.jump .call (kind.keyword ++ "::" ++ "call") l)) ++
    [.pending (.jump .branch (kind.keyword ++ "::" ++ "branch") start), .ready .popFrame]

theorem Draft.Gives.frameOpen {d : Draft A} {ls : List LabelEntry} {ss : List (Slot A)}
    (h : d.Gives ls ss) (kind : Iteration) (selector : A) :
    (d.frameOpen kind selector).Gives
      (ls ++ [{ name := kind.keyword ++ ".loop_exit" },
        ⟨kind.keyword ++ ".loop_begin", some (ss.length + 1)⟩])
      (ss ++ openSlots kind selector ⟨ls.length⟩) := by
  have h₁ := h.define (kind.keyword ++ ".loop_exit")
  have h₂ := (h₁.define (kind.keyword ++ ".loop_begin")).control
    (kind.keyword ++ "::" ++ "push_source_and_match") (.pushSourceAndMatch selector)
  have h₃ := (h₂.bind h₁.fresh).jump .popSourceOrBranch
    (kind.keyword ++ "::" ++ "pop_source_or_branch") d.fresh
  simpa [Draft.frameOpen, openSlots, h.fresh] using h₃

theorem Draft.Gives.frameClose {d : Draft A} {ls ls' : List LabelEntry} {ss : List (Slot A)}
    {name : String} (h : d.Gives (ls ++ ({ name := name } : LabelEntry) :: ls') ss)
    (kind : Iteration) (again : Option Label) (start : Label) :
    (d.frameClose kind again ⟨ls.length⟩ start).Gives
      (ls ++ ⟨name, some (ss.length + again.toList.length + 1)⟩ :: ls')
      (ss ++ closeSlots kind again start) := by
  cases again with
  | none =>
    have h₁ := (h.jump .branch (kind.keyword ++ "::" ++ "branch") start).bind rfl
    have h₂ := h₁.control (kind.keyword ++ "::" ++ "pop_frame") .popFrame
    simpa [Draft.frameClose, closeSlots] using h₂
  | some again =>
    have h₁ := ((h.jump .call (kind.keyword ++ "::" ++ "call") again).jump .branch
      (kind.keyword ++ "::" ++ "branch") start).bind rfl
    have h₂ := h₁.control (kind.keyword ++ "::" ++ "pop_frame") .popFrame
    simpa [Draft.frameClose, closeSlots] using h₂

/-- A `loop` up to its frame. -/
def Draft.loopOpen (d : Draft A) : Draft A :=
  let wrapper := d.fresh
  let d := d.define "loop.wrapper"
  let done := d.fresh
  let d := d.define "loop.end"
  let d := d.jump .pushAddress "loop::push_instr_address" done
  d.bind wrapper

theorem Draft.iterate_loop (d : Draft A) (selector : A) (body : Draft A → Draft A) :
    d.iterate .loop (some selector) body =
      ((d.loopOpen.frame .loop selector (some d.fresh) body).control "loop::return" .ret).bind
        (d.define "loop.wrapper").fresh := rfl

theorem Draft.Gives.loopOpen {d : Draft A} {ls : List LabelEntry} {ss : List (Slot A)}
    (h : d.Gives ls ss) :
    d.loopOpen.Gives (ls ++ [⟨"loop.wrapper", some (ss.length + 1)⟩, { name := "loop.end" }])
      (ss ++ [.pending (.jump .pushAddress "loop::push_instr_address" ⟨ls.length + 1⟩)]) := by
  have h₁ := h.define "loop.wrapper"
  have h₂ := (h₁.define "loop.end").jump .pushAddress "loop::push_instr_address" ⟨ls.length + 1⟩
  rw [List.append_assoc, List.singleton_append] at h₂
  have h₃ := h₂.bind rfl
  rw [Draft.loopOpen, h.fresh, h₁.fresh]
  simpa using h₃

/-- Whatever a body does, its scope is left behind it. -/
theorem Draft.scope_within {d : Draft A} (exit : Label) {body : Draft A → Draft A}
    (hbody : ∀ d' : Draft A, (body d').scope = d'.scope) :
    (d.within exit body).scope = d.scope := by
  rw [Draft.within, hbody]
  rfl

theorem Draft.scope_frame {d : Draft A} (kind : Iteration) (selector : A) (again : Option Label)
    {body : Draft A → Draft A} (hbody : ∀ d' : Draft A, (body d').scope = d'.scope) :
    (d.frame kind selector again body).scope = d.scope := by
  rw [Draft.frame_eq, Draft.scope_frameClose, Draft.scope_within _ hbody]
  rfl

/-- A body lowered where `break` leads to `exit`. -/
theorem Draft.Gives.within {d : Draft A} {ls : List LabelEntry} {ss : List (Slot A)}
    (h : d.Gives ls ss) (exit : Label) {body : Draft A → Draft A}
    {code : (Label → Nat) → Nat → List (Instruction A)}
    (hbody : ∀ d' : Draft A, d'.scope = d.scope.enter exit → Emits d' (body d') code) :
    ∃ fresh more, (d.within exit body).Gives (ls ++ fresh) (ss ++ more) ∧
      (∀ e ∈ fresh, ∃ n, e.offset = some n ∧ ss.length ≤ n ∧ n ≤ ss.length + more.length) ∧
      (∀ x, .pending x ∈ more → ∃ l, x.targets = [l] ∧
        ((ls.length ≤ l.index ∧ l.index < ls.length + fresh.length) ∨
          l = exit ∨ d.scope.Mentions l)) ∧
      ∀ ρ, Agrees ρ ls.length fresh → more.map (·.read ρ) = code ρ ss.length := by
  obtain ⟨fresh, more, a, r⟩ := (hbody { d with scope := d.scope.enter exit } rfl).adds ls ss h
  refine ⟨fresh, more, a.gives, a.bound, fun x hx => ?_, r⟩
  obtain ⟨l, hl, h⟩ := a.refs x hx
  exact ⟨l, hl, h.imp_right Scope.mentions_enter⟩

/-- An iteration adds two labels and a fixed number of slots to those of its
body. -/
theorem Draft.Gives.frame {d : Draft A} {ls : List LabelEntry} {ss : List (Slot A)}
    (h : d.Gives ls ss) (kind : Iteration) (selector : A) (again : Option Label)
    {body : Draft A → Draft A} {code : (Label → Nat) → Nat → List (Instruction A)}
    (hbody : ∀ d' : Draft A, d'.scope = d.scope.enter ⟨ls.length⟩ → Emits d' (body d') code) :
    ∃ fresh more,
      (d.frame kind selector again body).Gives
        (ls ++ (⟨kind.keyword ++ ".loop_exit",
            some (ss.length + 3 + more.length + again.toList.length)⟩ ::
          ⟨kind.keyword ++ ".loop_begin", some (ss.length + 1)⟩ :: fresh))
        (ss ++ (openSlots kind selector ⟨ls.length⟩ ++ more ++
          closeSlots kind again ⟨ls.length + 1⟩)) ∧
      (∀ e ∈ fresh, ∃ n, e.offset = some n ∧
        ss.length + 2 ≤ n ∧ n ≤ ss.length + 2 + more.length) ∧
      (∀ x, .pending x ∈ more → ∃ l, x.targets = [l] ∧
        ((ls.length ≤ l.index ∧ l.index < ls.length + 2 + fresh.length) ∨ d.scope.Mentions l)) ∧
      ∀ ρ, Agrees ρ (ls.length + 2) fresh → more.map (·.read ρ) = code ρ (ss.length + 2) := by
  obtain ⟨fresh, more, g, hb, hr, r⟩ := (h.frameOpen kind selector).within ⟨ls.length⟩ hbody
  rw [List.append_assoc] at g
  simp only [openSlots, List.length_append, List.length_cons, List.length_nil] at hb hr r
  have e : d.frame kind selector again body =
      ((d.frameOpen kind selector).within ⟨ls.length⟩ body).frameClose kind again ⟨ls.length⟩
        ⟨ls.length + 1⟩ := by
    rw [Draft.frame_eq, h.fresh, (h.define _).fresh, List.length_append, List.length_singleton]
  refine ⟨fresh, more, ?_, hb, ?_, r⟩
  · rw [e, show ss.length + 3 + more.length + again.toList.length =
      (ss ++ openSlots kind selector ⟨ls.length⟩ ++ more).length + again.toList.length + 1 by
        simp only [openSlots, List.length_append, List.length_cons, List.length_nil]; omega,
      ← List.append_assoc ss, ← List.append_assoc ss]
    exact g.frameClose kind again ⟨ls.length + 1⟩
  · intro x hx
    obtain ⟨l, hl, h⟩ := hr x hx
    refine ⟨l, hl, ?_⟩
    rcases h with h | rfl | h
    · exact .inl ⟨by omega, h.2⟩
    · exact .inl ⟨Nat.le_refl _, by show ls.length < _; omega⟩
    · exact .inr h

theorem Draft.scope_bind (d : Draft A) (l : Label) : (d.bind l).scope = d.scope := rfl

theorem Draft.scope_control (d : Draft A) (name : String) (i : Instruction A) :
    (d.control name i).scope = d.scope := rfl

theorem Draft.scope_loop {d : Draft A} (selector : A) {body : Draft A → Draft A}
    (hbody : ∀ d' : Draft A, (body d').scope = d'.scope) :
    (d.iterate .loop (some selector) body).scope = d.scope := by
  rw [Draft.iterate_loop, Draft.scope_bind, Draft.scope_control, Draft.scope_frame _ _ _ hbody]
  rfl

/-- A `loop` adds two labels and two slots to those of its frame. -/
theorem Draft.Gives.loop {d : Draft A} {ls : List LabelEntry} {ss : List (Slot A)}
    (h : d.Gives ls ss) (selector : A) {body : Draft A → Draft A}
    {code : (Label → Nat) → Nat → List (Instruction A)}
    (hbody : ∀ d' : Draft A, d'.scope = d.scope.enter ⟨ls.length + 2⟩ → Emits d' (body d') code) :
    ∃ fresh more,
      (d.iterate .loop (some selector) body).Gives
        (ls ++ (⟨"loop.wrapper", some (ss.length + 1)⟩ ::
          ⟨"loop.end", some (ss.length + more.length + 7)⟩ ::
          ⟨"loop.loop_exit", some (ss.length + more.length + 5)⟩ ::
          ⟨"loop.loop_begin", some (ss.length + 2)⟩ :: fresh))
        (ss ++ (.pending (.jump .pushAddress "loop::push_instr_address" ⟨ls.length + 1⟩) ::
          (openSlots .loop selector ⟨ls.length + 2⟩ ++ more ++
            closeSlots .loop (some ⟨ls.length⟩) ⟨ls.length + 3⟩ ++ [.ready .ret]))) ∧
      (∀ e ∈ fresh, ∃ n, e.offset = some n ∧
        ss.length + 3 ≤ n ∧ n ≤ ss.length + 3 + more.length) ∧
      (∀ x, .pending x ∈ more → ∃ l, x.targets = [l] ∧
        ((ls.length + 2 ≤ l.index ∧ l.index < ls.length + 4 + fresh.length) ∨
          d.scope.Mentions l)) ∧
      ∀ ρ, Agrees ρ (ls.length + 4) fresh → more.map (·.read ρ) = code ρ (ss.length + 3) := by
  have hopen := h.loopOpen
  have hlen : (ls ++ [⟨"loop.wrapper", some (ss.length + 1)⟩,
      ({ name := "loop.end" } : LabelEntry)]).length = ls.length + 2 := by simp
  obtain ⟨fresh, more, g, hb, hr, r⟩ :=
    hopen.frame .loop selector (some ⟨ls.length⟩) (hlen ▸ hbody)
  have e : d.iterate .loop (some selector) body =
      ((d.loopOpen.frame .loop selector (some ⟨ls.length⟩) body).control "loop::return" .ret).bind
        ⟨ls.length + 1⟩ := by
    rw [Draft.iterate_loop, h.fresh, (h.define _).fresh, List.length_append, List.length_singleton]
  simp only [List.length_append, List.length_cons, List.length_nil, Option.toList_some,
    Nat.zero_add, Nat.add_assoc, Nat.reduceAdd] at g hb hr r
  refine ⟨fresh, more, ?_, fun e he => ?_, fun x hx => ?_, r⟩
  · have g := g.control "loop::return" .ret
    rw [List.append_assoc ls, List.cons_append, List.singleton_append, List.append_cons] at g
    rw [e]
    refine (g.bind (l := ⟨ls.length + 1⟩) (by simp)).cast ?_ (by simp)
    simp [openSlots, closeSlots, Iteration.keyword]
    omega
  · obtain ⟨n, hn, hlo, hhi⟩ := hb e he
    exact ⟨n, hn, by omega, by omega⟩
  · obtain ⟨l, hl, h⟩ := hr x hx
    exact ⟨l, hl, h.imp_left fun h => ⟨by omega, by omega⟩⟩

section Iterate

variable {d : Draft A} {body : Draft A → Draft A} {ns : List (Node A)}
  (hbody : ∀ d' : Draft A, Emits d' (body d') fun ρ b =>
    Node.layoutAll (d'.scope.places ρ) b (d'.scope.breakTarget.map ρ) ns)

include hbody

/-- The body of an iteration, in the scope of which `exit` is the break
target. -/
theorem emits_body (s : Scope) (exit : Label) (d' : Draft A) (hd : d'.scope = s.enter exit) :
    Emits d' (body d') fun ρ b => Node.layoutAll (s.places ρ) b (some (ρ exit)) ns := by
  have h := hbody d'
  rw [hd, Scope.places_enter] at h
  exact h

theorem emits_unselected (kind : Iteration) (line : Nat) :
    Emits d (d.iterate kind none body) fun ρ b =>
      (Node.iterate kind none ns line).layout (d.scope.places ρ) b (d.scope.breakTarget.map ρ) := by
  refine ⟨Draft.scope_within _ fun d' => (hbody d').scope, fun ls ss h => ?_⟩
  obtain ⟨fresh, more, g, hb, hr, r⟩ := (h.define (kind.keyword ++ ".loop_exit")).within
    ⟨ls.length⟩ (emits_body hbody d.scope ⟨ls.length⟩)
  rw [List.append_assoc, List.singleton_append] at g
  simp only [List.length_append, List.length_singleton] at hr r
  refine ⟨⟨kind.keyword ++ ".loop_exit", some (ss.length + more.length)⟩ :: fresh, more,
    ⟨?_, ?_, ?_⟩, ?_⟩
  · rw [Draft.iterate, h.fresh, ← List.length_append]
    exact g.bind rfl
  · intro e he
    rcases List.mem_cons.mp he with rfl | he
    · exact ⟨_, rfl, by omega, by omega⟩
    · exact hb e he
  · intro x hx
    obtain ⟨l, hl, h⟩ := hr x hx
    refine ⟨l, hl, ?_⟩
    rw [List.length_cons]
    rcases h with h | rfl | h
    · exact .inl ⟨by omega, by omega⟩
    · exact .inl ⟨Nat.le_refl _, by show ls.length < _; omega⟩
    · exact .inr h
  · intro ρ hρ
    obtain ⟨hexit, hρ⟩ := agrees_cons.mp hρ
    have code := r ρ hρ
    have hlen := congrArg List.length code
    simp only [List.length_map, Node.length_layoutAll, Option.isSome_some] at hlen
    simp only [Node.layout]
    rw [← hlen, code, ← Option.some.inj hexit]

theorem emits_run (selector : A) (line : Nat) :
    Emits d (d.iterate .run (some selector) body) fun ρ b =>
      (Node.iterate .run (some selector) ns line).layout (d.scope.places ρ) b
        (d.scope.breakTarget.map ρ) := by
  refine ⟨Draft.scope_frame _ _ _ fun d' => (hbody d').scope, fun ls ss h => ?_⟩
  obtain ⟨fresh, more, g, hb, hr, r⟩ :=
    h.frame .run selector none (emits_body hbody d.scope ⟨ls.length⟩)
  refine ⟨_, _, ⟨g, ?_, ?_⟩, ?_⟩
  · intro e he
    simp only [openSlots, closeSlots, List.length_append, List.length_cons, List.length_nil,
      Option.toList_none, List.map_nil]
    simp only [List.mem_cons] at he
    rcases he with rfl | rfl | he
    · exact ⟨_, rfl, by omega, by simp; omega⟩
    · exact ⟨_, rfl, by omega, by omega⟩
    · obtain ⟨n, hn, hlo, hhi⟩ := hb e he
      exact ⟨n, hn, by omega, by omega⟩
  · intro x hx
    simp only [openSlots, closeSlots, List.mem_append, List.mem_cons, List.not_mem_nil, or_false,
      Slot.pending.injEq, reduceCtorEq, false_or, Option.toList_none, List.map_nil] at hx
    rw [List.length_cons, List.length_cons]
    rcases hx with (rfl | hx) | rfl
    · exact ⟨⟨ls.length⟩, rfl, .inl ⟨Nat.le_refl _, by show ls.length < _; omega⟩⟩
    · obtain ⟨l, hl, h⟩ := hr x hx
      exact ⟨l, hl, h.imp_left fun h => ⟨h.1, by omega⟩⟩
    · exact ⟨⟨ls.length + 1⟩, rfl, .inl ⟨Nat.le_succ _, by show ls.length + 1 < _; omega⟩⟩
  · intro ρ hρ
    obtain ⟨hexit, hρ⟩ := agrees_cons.mp hρ
    obtain ⟨hstart, hρ⟩ := agrees_cons.mp hρ
    have code := r ρ hρ
    have hlen := congrArg List.length code
    simp only [List.length_map, Node.length_layoutAll, Option.isSome_some] at hlen
    simp only [Option.toList_none, List.length_nil, Nat.add_zero] at hexit
    simp only [openSlots, closeSlots, List.map_append, List.map_cons, List.map_nil,
      Slot.read_ready, Slot.read_jump, Option.toList_none, code, Node.layout]
    rw [← hlen, ← Option.some.inj hexit, ← Option.some.inj hstart]
    simp

theorem emits_loop (selector : A) (line : Nat) :
    Emits d (d.iterate .loop (some selector) body) fun ρ b =>
      (Node.iterate .loop (some selector) ns line).layout (d.scope.places ρ) b
        (d.scope.breakTarget.map ρ) := by
  refine ⟨Draft.scope_loop selector fun d' => (hbody d').scope, fun ls ss h => ?_⟩
  obtain ⟨fresh, more, g, hb, hr, r⟩ := h.loop selector (emits_body hbody d.scope ⟨ls.length + 2⟩)
  refine ⟨_, _, ⟨g, ?_, ?_⟩, ?_⟩
  · intro e he
    simp only [openSlots, closeSlots, List.length_append, List.length_cons, List.length_nil,
      Option.toList_some, List.map_cons, List.map_nil]
    simp only [List.mem_cons] at he
    rcases he with rfl | rfl | rfl | rfl | he
    · exact ⟨_, rfl, by omega, by omega⟩
    · exact ⟨_, rfl, by omega, by omega⟩
    · exact ⟨_, rfl, by omega, by omega⟩
    · exact ⟨_, rfl, by omega, by omega⟩
    · obtain ⟨n, hn, hlo, hhi⟩ := hb e he
      exact ⟨n, hn, by omega, by omega⟩
  · intro x hx
    simp only [openSlots, closeSlots, List.mem_append, List.mem_cons, List.not_mem_nil, or_false,
      Slot.pending.injEq, reduceCtorEq, false_or, Option.toList_some, List.map_cons,
      List.map_nil] at hx
    simp only [List.length_cons]
    rcases hx with rfl | (rfl | hx) | rfl | rfl
    · exact ⟨⟨ls.length + 1⟩, rfl, .inl ⟨Nat.le_succ _, by show ls.length + 1 < _; omega⟩⟩
    · exact ⟨⟨ls.length + 2⟩, rfl,
        .inl ⟨Nat.le_add_right _ _, by show ls.length + 2 < _; omega⟩⟩
    · obtain ⟨l, hl, h⟩ := hr x hx
      exact ⟨l, hl, h.imp_left fun h => ⟨by omega, by omega⟩⟩
    · exact ⟨⟨ls.length⟩, rfl, .inl ⟨Nat.le_refl _, by show ls.length < _; omega⟩⟩
    · exact ⟨⟨ls.length + 3⟩, rfl,
        .inl ⟨Nat.le_add_right _ _, by show ls.length + 3 < _; omega⟩⟩
  · intro ρ hρ
    obtain ⟨hwrapper, hρ⟩ := agrees_cons.mp hρ
    obtain ⟨hdone, hρ⟩ := agrees_cons.mp hρ
    obtain ⟨hexit, hρ⟩ := agrees_cons.mp hρ
    obtain ⟨hstart, hρ⟩ := agrees_cons.mp hρ
    have code := r ρ hρ
    have hlen := congrArg List.length code
    simp only [List.length_map, Node.length_layoutAll, Option.isSome_some] at hlen
    simp only [openSlots, closeSlots, List.map_append, List.map_cons, List.map_nil,
      Slot.read_ready, Slot.read_jump, Option.toList_some, code, Node.layout]
    rw [← hlen, ← Option.some.inj hwrapper, ← Option.some.inj hdone, ← Option.some.inj hexit,
      ← Option.some.inj hstart, Nat.add_right_comm _ 7, Nat.add_right_comm _ 5]
    simp

end Iterate

/-! ## Statements -/

namespace Node

mutual

/-- Lowering a statement adds its layout. -/
theorem lower_emits (n : Node A) (d : Draft A) :
    Emits d (n.lower d) fun ρ b =>
      n.layout (d.scope.places ρ) b (d.scope.breakTarget.map ρ) := by
  cases n with
  | block children =>
    simp only [lower, layout]
    exact lowerAll_emits children d
  | command action => exact emits_ready rfl fun ls ss h => h.plain action
  | iterate kind selector body line =>
    simp only [lower]
    cases selector with
    | none => exact emits_unselected (lowerAll_emits body) kind line
    | some selector =>
      cases kind with
      | run => exact emits_run (lowerAll_emits body) selector line
      | loop => exact emits_loop (lowerAll_emits body) selector line
  | define name line body => exact emits_nothing d d.journal
  | call name line =>
    simp only [lower, layout, Scope.places]
    cases h : d.scope.find? name with
    | none => exact emits_nothing d _
    | some entry => exact emits_jump d _ _ (Scope.mentions_of_find? h)
  | subroutineReturn => exact emits_ready rfl fun ls ss h => h.control _ _
  | leave line =>
    simp only [lower, layout]
    cases h : d.scope.breakTarget with
    | none => exact emits_nothing d _
    | some target => exact emits_jump d _ _ (.inl h)
  | exit => exact emits_ready rfl fun ls ss h => h.control _ _

theorem lowerAll_emits (ns : List (Node A)) (d : Draft A) :
    Emits d (lowerAll ns d) fun ρ b =>
      layoutAll (d.scope.places ρ) b (d.scope.breakTarget.map ρ) ns := by
  cases ns with
  | nil => exact emits_nothing d d.journal
  | cons n ns =>
    have h₁ := lower_emits n d
    have h₂ := lowerAll_emits ns (n.lower d)
    rw [h₁.scope] at h₂
    simp only [lowerAll, layoutAll]
    exact h₁.trans h₂

end

end Node

end CommandScript
