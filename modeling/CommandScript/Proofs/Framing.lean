import CommandScript.Proofs.History

/-!
# What lowering leaves as it was

Lowering a statement adds directives behind those there are (`Node.lower_grows`)
and leaves the scope as it was. Of the assembly that the directives build, the
labels and slots so far stay as they are, bound or not, and what is new refers to
nothing but new labels and those of the scope (`Adds`).

No directive takes a binding back, and none can bind a label again. So the number
of bindings that a run performs is the number of labels it has bound
(`Assembly.bound_run`), and each new label is bound once.
-/

namespace CommandScript

variable {A : Type}

/-! ## Bindings -/

namespace Assembly

variable {g g' : Assembly A}

/-- Whether a label has an offset. -/
def isBound (g : Assembly A) (l : Label) : Bool := ((g.labels[l.index]?).bind (·.offset)).isSome

theorem isBound_of (ls : List LabelEntry) (ss : List (Slot A)) (l : Label) :
    (of ls ss).isBound l = ((ls[l.index]?).bind (·.offset)).isSome := by
  simp [isBound, of]

/-- A directive binds one label at most, and one that was not bound. -/
theorem bound_perform {x : Directive A} (h : g.perform x = .ok g') (l : Label) :
    (g.isBound l).toNat + (x.binds l).toNat = (g'.isBound l).toNat := by
  cases x with
  | define name =>
    obtain rfl := Except.ok.inj h
    simp only [isBound, Directive.binds, Array.getElem?_push]
    split
    · rename_i hl
      simp [hl]
    · rfl
  | bind l' =>
    obtain ⟨e, he, ho, rfl⟩ := bind_cases h
    by_cases hl : l' = l
    · subst hl
      have hlt : l'.index < g.labels.size := (Array.getElem?_eq_some_iff.mp he).1
      have hfree : g.isBound l' = false := by
        rw [isBound, he]
        exact congrArg Option.isSome ho
      rw [hfree]
      simp [isBound, Directive.binds, hlt]
    · have hne : l'.index ≠ l.index := fun heq => hl (congrArg Label.mk heq)
      simp [isBound, Directive.binds, hl, hne]
  | plain | control | defer =>
    obtain rfl := Except.ok.inj h
    rfl
  | link =>
    obtain ⟨linked, -, h⟩ := bind_eq_ok h
    obtain rfl := Except.ok.inj h
    rfl

/-- A run performs one binding for each label that it binds. -/
theorem bound_run {code : List (Directive A)} (h : g.run code = .ok g') (l : Label) :
    (g.isBound l).toNat + code.countP (·.binds l) = (g'.isBound l).toNat := by
  induction code generalizing g with
  | nil =>
    obtain rfl := Except.ok.inj h
    rfl
  | cons x code ih =>
    obtain ⟨g₁, hx, h⟩ := bind_eq_ok h
    have hone := bound_perform hx l
    have hothers := ih h
    rw [List.countP_cons]
    cases hb : x.binds l <;> simp [hb] at hone ⊢ <;> omega

end Assembly

/-! ## Directives -/

namespace Draft

/-- The directives of `d` are the first ones of `d'`. -/
def Grows (d d' : Draft A) : Prop := d.code.toList <+: d'.code.toList

theorem Grows.trans {d d₁ d₂ : Draft A} (h₁ : d.Grows d₁) (h₂ : d₁.Grows d₂) : d.Grows d₂ :=
  List.IsPrefix.trans h₁ h₂

theorem grows_emit (d : Draft A) (x : Directive A) : d.Grows (d.emit x) := by
  rw [Grows, emit, Array.toList_push]
  exact List.prefix_append _ _

theorem grows_frameOpen (d : Draft A) (kind : Iteration) (selector : A) :
    d.Grows (d.frameOpen kind selector) := by
  simp [Grows, frameOpen, define, control, bind, jump, emit]

theorem grows_frameClose (d : Draft A) (kind : Iteration) (again : Option Label)
    (exit start : Label) : d.Grows (d.frameClose kind again exit start) := by
  cases again <;> simp [Grows, frameClose, control, bind, jump, emit]

theorem grows_loopOpen (d : Draft A) : d.Grows d.loopOpen := by
  simp [Grows, loopOpen, define, bind, jump, emit]

section Bodies

variable {body : Draft A → Draft A} (hbody : ∀ d, Grows d (body d))

include hbody

theorem grows_within (d : Draft A) (exit : Label) : d.Grows (d.within exit body) :=
  hbody { d with scope := d.scope.enter exit }

theorem grows_frame (d : Draft A) (kind : Iteration) (selector : A) (again : Option Label) :
    d.Grows (d.frame kind selector again body) := by
  rw [frame_eq]
  exact ((d.grows_frameOpen kind selector).trans (grows_within hbody _ _)).trans
    (grows_frameClose _ kind again _ _)

theorem grows_iterate (d : Draft A) (kind : Iteration) (selector : Option A) :
    d.Grows (d.iterate kind selector body) := by
  cases selector with
  | none =>
    have hdefine : d.Grows (d.define (kind.keyword ++ ".loop_exit")) := d.grows_emit _
    exact (hdefine.trans (grows_within hbody _ d.fresh)).trans (grows_emit _ _)
  | some selector =>
    cases kind with
    | run => exact grows_frame hbody d .run selector none
    | loop =>
      rw [iterate_loop]
      have hframe := d.grows_loopOpen.trans (grows_frame hbody _ .loop selector (some d.fresh))
      exact (hframe.trans (grows_emit _ _)).trans (grows_emit _ _)

end Bodies

end Draft

namespace Node

mutual

theorem lower_grows (n : Node A) (d : Draft A) : d.Grows (n.lower d) := by
  cases n with
  | block children =>
    simp only [lower]
    exact lowerAll_grows children d
  | iterate kind selector body line =>
    simp only [lower]
    exact Draft.grows_iterate (lowerAll_grows body) d kind selector
  | call name line =>
    simp only [lower]
    cases d.scope.find? name with
    | some entry => exact d.grows_emit _
    | none => exact List.prefix_refl _
  | leave line =>
    simp only [lower]
    cases d.scope.breakTarget with
    | some target => exact d.grows_emit _
    | none => exact List.prefix_refl _
  | define => exact List.prefix_refl _
  | command | subroutineReturn | exit => exact d.grows_emit _

theorem lowerAll_grows (ns : List (Node A)) (d : Draft A) : d.Grows (lowerAll ns d) := by
  cases ns with
  | nil => exact List.prefix_refl _
  | cons n ns =>
    simp only [lowerAll]
    exact (lower_grows n d).trans (lowerAll_grows ns _)

end

end Node

/-! ## The frame of a lowering -/

/-- From draft `d`, which gives `ls` and `ss`, lowering has come to `d'` by
directives `code` that leave all there was as it was. -/
structure Frames (d d' : Draft A) (ls : List LabelEntry) (ss : List (Slot A))
    (code : List (Directive A)) (fresh : List LabelEntry) (more : List (Slot A)) : Prop where
  scope : d'.scope = d.scope
  behind : d'.code.toList = d.code.toList ++ code
  /-- The labels and the slots so far stay, and others are put behind them. -/
  gives : d'.Gives (ls ++ fresh) (ss ++ more)
  /-- New labels are bound to offsets from the end there was to the end there is. -/
  bound : ∀ e ∈ fresh, ∃ n, e.offset = some n ∧ ss.length ≤ n ∧ n ≤ ss.length + more.length
  /-- Each new label is bound once, and no other is. -/
  once : ∀ l, code.countP (·.binds l) =
    if ls.length ≤ l.index ∧ l.index < ls.length + fresh.length then 1 else 0
  /-- What is new waits for new labels, and for those of the scope. -/
  refs : ∀ x, .pending x ∈ more → ∀ l ∈ x.targets,
    l.index < ls.length + fresh.length ∧ (ls.length ≤ l.index ∨ d.scope.breakTarget = some l ∨
      ∃ name, (name, l) ∈ d.scope.subroutines)

/-- A part of a script that only adds directives, and what `Emits` says, leaves
all there was as it was. -/
theorem Emits.frames {d d' : Draft A} {layout : (Label → Nat) → Nat → List (Instruction A)}
    (h : Emits d d' layout) (hgrows : d.Grows d') {ls : List LabelEntry} {ss : List (Slot A)}
    (hd : d.Gives ls ss) (hscope : ∀ l, d.scope.Mentions l → l.index < ls.length) :
    ∃ code fresh more, Frames d d' ls ss code fresh more := by
  obtain ⟨fresh, more, hadds, -⟩ := h.adds ls ss hd
  obtain ⟨code, hcode⟩ := hgrows
  refine ⟨code, fresh, more, h.scope, hcode.symm, hadds.gives, hadds.bound, fun l => ?_,
    fun x hx l hl => ?_⟩
  · -- The new directives take the assembly of `d` to that of `d'`.
    have hrun : (Assembly.of ls ss).run code = .ok (.of (ls ++ fresh) (ss ++ more)) := by
      have hall := hadds.gives.1
      rw [← hcode, Assembly.run, List.foldlM_append, ← Assembly.run, hd.1] at hall
      exact hall
    have hcount := Assembly.bound_run hrun l
    rw [Assembly.isBound_of, Assembly.isBound_of] at hcount
    rcases Nat.lt_or_ge l.index ls.length with hold | hnew
    · rw [List.getElem?_append_left hold] at hcount
      rw [if_neg (by omega)]
      omega
    · rw [List.getElem?_eq_none hnew, List.getElem?_append_right hnew] at hcount
      split
      · rename_i hin
        have hlt : l.index - ls.length < fresh.length := by omega
        obtain ⟨n, hn, -⟩ := hadds.bound _ (List.getElem_mem hlt)
        rw [List.getElem?_eq_getElem hlt, Option.bind_some, hn] at hcount
        simpa using hcount
      · rw [List.getElem?_eq_none (by omega)] at hcount
        simpa using hcount
  · obtain ⟨l', hx', hl'⟩ := hadds.refs x hx
    obtain rfl : l = l' := by simpa [hx'] using hl
    rcases hl' with ⟨hlo, hhi⟩ | hmentions
    · exact ⟨hhi, .inl hlo⟩
    · exact ⟨Nat.lt_add_right _ (hscope l hmentions), .inr hmentions⟩

/-- Lowering a statement, or the statements of a block, only adds to what there
was. From any draft whose directives can be performed, and whose scope has only
labels that there are, it leaves the scope as it was, every slot as it was, and
every label as bound or unbound as it was. Each label that it defines is bound
once, to an offset among what it has added, and what waits for a label waits for
one of these or for one of the scope. -/
theorem lowering_only_adds (d : Draft A) (ls : List LabelEntry) (ss : List (Slot A))
    (hd : d.Gives ls ss) (hscope : ∀ l, d.scope.Mentions l → l.index < ls.length) :
    (∀ n : Node A, ∃ code fresh more, Frames d (n.lower d) ls ss code fresh more) ∧
    ∀ ns : List (Node A), ∃ code fresh more,
      Frames d (Node.lowerAll ns d) ls ss code fresh more :=
  ⟨fun n => (n.lower_emits d).frames (n.lower_grows d) hd hscope,
    fun ns => (Node.lowerAll_emits ns d).frames (Node.lowerAll_grows ns d) hd hscope⟩

/-- Inside of an iteration, with a subroutine that is declared but not yet
written. -/
def backstage : Draft String where
  code := #[.define "subroutine.bow", .define "run.loop_exit", .bind ⟨1⟩, .plain "say hush",
    .defer (.jump .branch "break" ⟨1⟩)]
  labels := 2
  scope := ⟨[("bow", ⟨0⟩)], some ⟨1⟩⟩

/-- A `break` of its own, one for a block without selector inside, and a call of
a subroutine that there is not. -/
def ovation : Node String :=
  .iterate .loop (some "as guest") [.leave 3, .iterate .run none [.call "bow" 5, .leave 6] 4,
    .call "encore" 8] 2

theorem ovation_only_adds :
    backstage.Gives [{ name := "subroutine.bow" }, ⟨"run.loop_exit", some 0⟩]
      [.ready (.plain "say hush"), .pending (.jump .branch "break" ⟨1⟩)] ∧
    (∀ l, backstage.scope.Mentions l → l.index < 2) ∧
    ∃ code fresh more, Frames backstage (ovation.lower backstage)
      [{ name := "subroutine.bow" }, ⟨"run.loop_exit", some 0⟩]
      [.ready (.plain "say hush"), .pending (.jump .branch "break" ⟨1⟩)] code fresh more := by
  have hgives : backstage.Gives [{ name := "subroutine.bow" }, ⟨"run.loop_exit", some 0⟩]
      [.ready (.plain "say hush"), .pending (.jump .branch "break" ⟨1⟩)] := ⟨rfl, rfl⟩
  have hscope : ∀ l, backstage.scope.Mentions l → l.index < 2 := by
    rintro l (hbreak | ⟨name, hname⟩)
    · obtain rfl : ⟨1⟩ = l := Option.some.inj hbreak
      decide
    · obtain ⟨-, rfl⟩ := Prod.mk.inj (List.mem_singleton.mp hname)
      decide
  exact ⟨hgives, hscope, (lowering_only_adds backstage _ _ hgives hscope).1 ovation⟩

end CommandScript
