import CommandScript.Proofs.Shapes
import CommandScript.Proofs.Totality

/-!
# Accepted scripts run without fault

The layout of a script has a shape at each offset (`Tree.shapes`), which its
instructions fit if the script is sound: its commands are commands, its
selectors are selectors, and it returns from subroutines only in subroutines
(`Tree.fits_layout`). The reader reports all else, so that a script without
errors is sound (`ReadsScript.sound`).
-/

namespace CommandScript

open Arena

/-! ## Sound scripts -/

namespace Node

mutual

/-- A statement the machine can follow, in a subroutine or not. -/
def Sound (inSubroutine : Bool) (n : Node Action) : Prop :=
  match n with
  | block children => SoundAll inSubroutine children
  | command action => ∀ tag, action ≠ .select tag
  | iterate _ selector body _ =>
    (∀ a, selector = some a → ∃ tag, a = .select tag) ∧ SoundAll inSubroutine body
  | define _ _ body => SoundAll true body
  | subroutineReturn => inSubroutine = true
  | call _ _ => True
  | leave _ => True
  | exit => True

def SoundAll (inSubroutine : Bool) (ns : List (Node Action)) : Prop :=
  match ns with
  | [] => True
  | n :: ns => n.Sound inSubroutine ∧ SoundAll inSubroutine ns

end

theorem soundAll_append {inSubroutine : Bool} {ns ns' : List (Node Action)}
    (h : SoundAll inSubroutine ns) (h' : SoundAll inSubroutine ns') :
    SoundAll inSubroutine (ns ++ ns') := by
  induction ns with
  | nil => exact h'
  | cons n ns ih => exact ⟨h.1, ih h.2⟩

/-! ## Shapes of statements -/

mutual

/-- The shapes at the offsets of a statement that starts at `b` with the
stacks as `σ` says. -/
def shapes (known : String → Bool) (enclosed : Bool) (b : Nat) (σ : Shape) (n : Node Action) :
    Shapes :=
  match n with
  | block children => shapesAll known enclosed b σ children
  | command _ => [σ]
  | iterate _ none body _ => shapesAll known true b σ body
  | iterate .run (some _) body _ =>
    [σ, .frame σ] ++ shapesAll known true (b + 2) (.frame σ) body ++ [.frame σ, .frame σ]
  | iterate .loop (some _) body _ =>
    let n := extentAll known true body
    let inner := Shape.hinge (b + 7 + n) (b + 3 + n + 1) σ
    [σ, inner, .frame inner] ++ shapesAll known true (b + 3) (.frame inner) body ++
      [.frame inner, .frame inner, .frame inner, inner]
  | define _ _ _ => []
  | call name _ => if known name then [σ] else []
  | subroutineReturn => [σ]
  | leave _ => if enclosed then [σ] else []
  | exit => [σ]

def shapesAll (known : String → Bool) (enclosed : Bool) (b : Nat) (σ : Shape)
    (ns : List (Node Action)) : Shapes :=
  match ns with
  | [] => []
  | n :: ns =>
    let part := shapes known enclosed b σ n
    part ++ shapesAll known enclosed (b + part.length) σ ns

end

mutual

theorem length_shapes (known : String → Bool) (enclosed : Bool) (b : Nat) (σ : Shape)
    (n : Node Action) : (n.shapes known enclosed b σ).length = n.extent known enclosed := by
  cases n with
  | block children => simp only [shapes, extent, length_shapesAll]
  | command action => rfl
  | iterate kind selector body line =>
    cases selector with
    | none => simp only [shapes, extent, length_shapesAll]
    | some selector =>
      cases kind <;>
        simp only [shapes, extent, List.length_append, List.length_cons, List.length_nil,
          length_shapesAll] <;>
        omega
  | define name line body => rfl
  | call name line => cases h : known name <;> simp [shapes, extent, h]
  | subroutineReturn => rfl
  | leave line => cases enclosed <;> rfl
  | exit => rfl

theorem length_shapesAll (known : String → Bool) (enclosed : Bool) (b : Nat) (σ : Shape)
    (ns : List (Node Action)) :
    (shapesAll known enclosed b σ ns).length = extentAll known enclosed ns := by
  cases ns with
  | nil => rfl
  | cons n ns =>
    simp only [shapesAll, extentAll, List.length_append, length_shapesAll]
    rw [length_shapes]

end

mutual

/-- A statement starts with the stacks it is given, and so does what follows
it. -/
theorem shapes_start (known : String → Bool) (enclosed : Bool) (b : Nat) (σ : Shape)
    (n : Node Action) (more : Shapes) :
    ∃ rest, n.shapes known enclosed b σ ++ σ :: more = σ :: rest := by
  cases n with
  | block children =>
    simp only [shapes]
    exact shapesAll_start known enclosed b σ children more
  | iterate kind selector body line =>
    cases selector with
    | none =>
      simp only [shapes]
      exact shapesAll_start known true b σ body more
    | some selector => cases kind <;> exact ⟨_, rfl⟩
  | call name line => cases h : known name <;> simp [shapes, h]
  | leave line => cases enclosed <;> exact ⟨_, rfl⟩
  | command | define | subroutineReturn | exit => exact ⟨_, rfl⟩

theorem shapesAll_start (known : String → Bool) (enclosed : Bool) (b : Nat) (σ : Shape)
    (ns : List (Node Action)) (more : Shapes) :
    ∃ rest, shapesAll known enclosed b σ ns ++ σ :: more = σ :: rest := by
  cases ns with
  | nil => exact ⟨more, rfl⟩
  | cons n ns =>
    obtain ⟨rest, h⟩ := shapesAll_start known enclosed
      (b + (n.shapes known enclosed b σ).length) σ ns more
    simp only [shapesAll]
    rw [List.append_assoc, h]
    exact shapes_start known enclosed b σ n rest

end

/-- The shape at the start of statements and of what follows them. -/
theorem shape_of_codeAt {T : Shapes} {known : String → Bool} {enclosed : Bool} {b : Nat} {σ : Shape}
    {ns : List (Node Action)} {more : Shapes}
    (h : CodeAt T b (shapesAll known enclosed b σ ns ++ σ :: more)) : T[b]? = some σ := by
  obtain ⟨rest, hr⟩ := shapesAll_start known enclosed b σ ns more
  rw [hr] at h
  exact (codeAt_cons.mp h).1

section Fits

variable {T : Shapes} {entry : String → Option Nat} {inSubroutine : Bool}

/-- What makes the layout of statements at `b` fit: the stacks are as `σ` says
there, behind them and where `break` leads, and in a subroutine if these are
in one. -/
structure Placed (T : Shapes) (inSubroutine : Bool) (out : Option Nat) (σ : Shape) (b : Nat)
    (part more : Shapes) : Prop where
  inside : inSubroutine = true → σ.inSubroutine = true
  leave : ∀ t, out = some t → T[t]? = some σ
  shapes : CodeAt T b (part ++ σ :: more)

section Iterate

variable {b : Nat} {out : Option Nat} {σ : Shape} {more : Shapes} {body : List (Node Action)}
  (hbody : ∀ b out σ more, Placed T inSubroutine out σ b
    (shapesAll (fun name => (entry name).isSome) out.isSome b σ body) more →
    FitsAt T b (layoutAll entry b out body))

include hbody

theorem fits_unselected (kind : Iteration) (line : Nat)
    (h : Placed T inSubroutine out σ b ((iterate kind none body line).shapes
      (fun name => (entry name).isSome) out.isSome b σ) more) :
    FitsAt T b ((iterate kind none body line).layout entry b out) := by
  have hs := h.shapes
  simp only [Node.shapes] at hs
  have hend := (codeAt_cons.mp (codeAt_append.mp hs).2).1
  rw [length_shapesAll] at hend
  simp only [layout]
  refine hbody b _ σ more ⟨h.inside, ?_, hs⟩
  rintro t ht
  obtain rfl := Option.some.inj ht
  exact hend

theorem fits_run (tag : String) (line : Nat)
    (h : Placed T inSubroutine out σ b ((iterate .run (some (.select tag)) body line).shapes
      (fun name => (entry name).isSome) out.isSome b σ) more) :
    FitsAt T b ((iterate .run (some (.select tag)) body line).layout entry b out) := by
  have hs := h.shapes
  simp only [Node.shapes, List.cons_append, List.nil_append, List.append_assoc] at hs
  simp only [layout, List.cons_append, List.nil_append]
  generalize hn : extentAll (fun name => (entry name).isSome) true body = n at ⊢
  obtain ⟨hopens, hs⟩ := codeAt_cons.mp hs
  obtain ⟨htakes, hs⟩ := codeAt_cons.mp hs
  have hstart := shape_of_codeAt hs
  obtain ⟨hback, hrest⟩ := codeAt_cons.mp (codeAt_append.mp hs).2
  obtain ⟨hcloses, hrest⟩ := codeAt_cons.mp hrest
  have hnext := (codeAt_cons.mp hrest).1
  rw [length_shapesAll, hn] at hback hcloses hnext
  have hexit : b + 3 + n = b + 1 + 1 + n + 1 := by omega
  have hinside := hbody (b + 2) (some (b + 3 + n)) (.frame σ) _
    ⟨h.inside, fun t ht => Option.some.inj ht ▸ hexit ▸ hcloses, hs⟩
  refine fitsAt_cons hopens (.pushSourceAndMatch htakes)
    (fitsAt_cons htakes (.popSourceOrBranch hstart (hexit ▸ hcloses)) (fitsAt_append hinside ?_))
  rw [length_layoutAll, Option.isSome_some, hn]
  exact fitsAt_cons hback (.branch htakes) (fitsAt_cons hcloses (.popFrame hnext) (fitsAt_nil _ _))

theorem fits_loop (tag : String) (line : Nat)
    (h : Placed T inSubroutine out σ b ((iterate .loop (some (.select tag)) body line).shapes
      (fun name => (entry name).isSome) out.isSome b σ) more) :
    FitsAt T b ((iterate .loop (some (.select tag)) body line).layout entry b out) := by
  have hs := h.shapes
  simp only [Node.shapes, List.cons_append, List.nil_append, List.append_assoc] at hs
  simp only [layout, List.cons_append, List.nil_append]
  generalize hn : extentAll (fun name => (entry name).isSome) true body = n at hs ⊢
  -- The address pushed at `b` is the first of the hinge, and the call at
  -- `b + 3 + n` pushes the second.
  generalize hinner : Shape.hinge (b + 7 + n) (b + 3 + n + 1) σ = inner at hs
  obtain ⟨hpush, hs⟩ := codeAt_cons.mp hs
  obtain ⟨hopens, hs⟩ := codeAt_cons.mp hs
  obtain ⟨htakes, hs⟩ := codeAt_cons.mp hs
  have hstart := shape_of_codeAt hs
  obtain ⟨hagain, hrest⟩ := codeAt_cons.mp (codeAt_append.mp hs).2
  obtain ⟨hback, hrest⟩ := codeAt_cons.mp hrest
  obtain ⟨hcloses, hrest⟩ := codeAt_cons.mp hrest
  obtain ⟨hret, hrest⟩ := codeAt_cons.mp hrest
  have hnext := (codeAt_cons.mp hrest).1
  rw [length_shapesAll, hn] at hagain hback hcloses hret hnext
  have hexit : b + 5 + n = b + 1 + 1 + 1 + n + 1 + 1 := by omega
  have hdone : b + 7 + n = b + 1 + 1 + 1 + n + 1 + 1 + 1 + 1 := by omega
  have hinside := hbody (b + 3) (some (b + 5 + n)) (.frame inner) _
    ⟨by rw [← hinner]; exact h.inside, fun t ht => Option.some.inj ht ▸ hexit ▸ hcloses, hs⟩
  subst hinner
  refine fitsAt_cons hpush (.pushAddress hopens) (fitsAt_cons hopens (.pushSourceAndMatch htakes)
    (fitsAt_cons htakes (.popSourceOrBranch hstart (hexit ▸ hcloses)) (fitsAt_append hinside ?_)))
  rw [length_layoutAll, Option.isSome_some, hn]
  exact fitsAt_cons hagain (.call hopens) (fitsAt_cons hback (.branch htakes)
    (fitsAt_cons hcloses (.popFrame hret)
      (fitsAt_cons hret (.ret (hdone ▸ hnext) hback) (fitsAt_nil _ _))))

end Iterate

mutual

/-- A sound statement fits the shapes it is given. -/
theorem fits_layout (hentry : ∀ name e, entry name = some e → T[e]? = some .sub) (n : Node Action)
    (hn : n.Sound inSubroutine) {b : Nat} {out : Option Nat} {σ : Shape} {more : Shapes}
    (h : Placed T inSubroutine out σ b
      (n.shapes (fun name => (entry name).isSome) out.isSome b σ) more) :
    FitsAt T b (n.layout entry b out) := by
  cases n with
  | block children =>
    simp only [Sound, Node.shapes, layout] at hn h ⊢
    exact fits_layoutAll hentry children hn h
  | command action =>
    obtain ⟨h₀, h₁⟩ := codeAt_cons.mp h.shapes
    exact fitsAt_cons h₀ (.plain hn (codeAt_cons.mp h₁).1) (fitsAt_nil _ _)
  | iterate kind selector body line =>
    simp only [Sound] at hn
    have hbody b out σ more (h : Placed T inSubroutine out σ b
        (shapesAll (fun name => (entry name).isSome) out.isSome b σ body) more) :
        FitsAt T b (layoutAll entry b out body) := fits_layoutAll hentry body hn.2 h
    cases selector with
    | none => exact fits_unselected hbody kind line h
    | some selector =>
      obtain ⟨tag, rfl⟩ := hn.1 selector rfl
      cases kind with
      | run => exact fits_run hbody tag line h
      | loop => exact fits_loop hbody tag line h
  | define name line body => exact fitsAt_nil _ _
  | call name line =>
    cases he : entry name with
    | none =>
      simp only [layout, he]
      exact fitsAt_nil _ _
    | some e =>
      have hs := h.shapes
      simp only [Node.shapes, he, Option.isSome_some, if_true] at hs
      obtain ⟨h₀, h₁⟩ := codeAt_cons.mp hs
      simp only [layout, he, Option.elim_some]
      have hnext := (codeAt_cons.mp h₁).1
      exact fitsAt_cons h₀ (.subroutineCall (hentry name e he) hnext) (fitsAt_nil _ _)
  | subroutineReturn =>
    obtain ⟨h₀, -⟩ := codeAt_cons.mp h.shapes
    exact fitsAt_cons h₀ (.subroutineReturn (h.inside hn)) (fitsAt_nil _ _)
  | leave line =>
    cases out with
    | none => exact fitsAt_nil _ _
    | some t =>
      obtain ⟨h₀, -⟩ := codeAt_cons.mp h.shapes
      exact fitsAt_cons h₀ (.branch (h.leave t rfl)) (fitsAt_nil _ _)
  | exit =>
    obtain ⟨h₀, -⟩ := codeAt_cons.mp h.shapes
    exact fitsAt_cons h₀ .exit (fitsAt_nil _ _)

theorem fits_layoutAll (hentry : ∀ name e, entry name = some e → T[e]? = some .sub)
    (ns : List (Node Action)) (hns : SoundAll inSubroutine ns) {b : Nat} {out : Option Nat}
    {σ : Shape} {more : Shapes}
    (h : Placed T inSubroutine out σ b
      (shapesAll (fun name => (entry name).isSome) out.isSome b σ ns) more) :
    FitsAt T b (layoutAll entry b out ns) := by
  cases ns with
  | nil => exact fitsAt_nil _ _
  | cons n ns =>
    simp only [SoundAll] at hns
    have hs := h.shapes
    simp only [shapesAll] at hs
    rw [List.append_assoc] at hs
    have hlen : (n.shapes (fun name => (entry name).isSome) out.isSome b σ).length =
        (n.layout entry b out).length := by
      rw [length_shapes, length_layout]
    rw [hlen] at hs
    obtain ⟨rest, hrest⟩ := shapesAll_start (fun name => (entry name).isSome) out.isSome
      (b + (n.layout entry b out).length) σ ns more
    simp only [layoutAll]
    refine fitsAt_append (fits_layout hentry n hns.1 ⟨h.inside, h.leave, hrest ▸ hs⟩) ?_
    have hs := (codeAt_append.mp hs).2
    rw [hlen] at hs
    exact fits_layoutAll hentry ns hns.2 ⟨h.inside, h.leave, hs⟩

end

end Fits

end Node

/-! ## Shapes of scripts -/

namespace Subroutine

/-- The shapes at the offsets of a subroutine that starts at `b`. -/
def shapes (known : String → Bool) (b : Nat) (s : Subroutine Action) : Shapes :=
  Node.shapesAll known false b .sub s.body ++ [.sub]

theorem length_shapes (known : String → Bool) (b : Nat) (s : Subroutine Action) :
    (s.shapes known b).length = Node.extentAll known false s.body + 1 := by
  rw [shapes, List.length_append, Node.length_shapesAll]
  rfl

variable {T : Shapes} {entry : String → Option Nat}

theorem fits_layout (hentry : ∀ name e, entry name = some e → T[e]? = some .sub)
    {s : Subroutine Action} (hs : Node.SoundAll true s.body) {b : Nat}
    (hT : CodeAt T b (s.shapes (fun name => (entry name).isSome) b)) :
    FitsAt T b (s.layout entry b) := by
  have hend := (codeAt_cons.mp (codeAt_append.mp hT).2).1
  rw [Node.length_shapesAll] at hend
  refine fitsAt_append (Node.fits_layoutAll hentry s.body hs ⟨fun _ => rfl, nofun, hT⟩) ?_
  rw [Node.length_layoutAll]
  exact fitsAt_cons hend (.subroutineReturn rfl) (fitsAt_nil _ _)

theorem fits_inRow (hentry : ∀ name e, entry name = some e → T[e]? = some .sub)
    {fs : List (Subroutine Action)} (hs : ∀ s ∈ fs, Node.SoundAll true s.body) {b : Nat}
    (hT : CodeAt T b (inRow (shapes fun name => (entry name).isSome) b fs)) :
    FitsAt T b (inRow (layout entry) b fs) := by
  induction fs generalizing b with
  | nil => exact fitsAt_nil _ _
  | cons s fs ih =>
    obtain ⟨hfirst, hothers⟩ := codeAt_append.mp hT
    rw [length_shapes] at hothers
    refine fitsAt_append (fits_layout hentry (hs s List.mem_cons_self) hfirst) ?_
    rw [length_layout]
    exact ih (fun s' hs' => hs s' (List.mem_cons_of_mem _ hs')) hothers

end Subroutine

namespace Tree

/-- A script whose main block and subroutines are sound. -/
structure Sound (t : Tree Action) : Prop where
  main : Node.SoundAll false t.main
  subroutines : ∀ s ∈ t.subroutines, Node.SoundAll true s.body

/-- The shapes at the offsets of a script, and at the end of its code. -/
def shapes (t : Tree Action) : Shapes :=
  Node.shapesAll t.known false 0 .main t.main ++
    .main :: Subroutine.inRow (Subroutine.shapes t.known) t.mainExtent (firsts [] t.subroutines)

theorem mem_of_mem_firsts {A : Type} {subs : List (Subroutine A)} {seen : List String}
    {s : Subroutine A} (h : s ∈ firsts seen subs) : s ∈ subs := by
  induction subs generalizing seen with
  | nil => simp [firsts] at h
  | cons f subs ih =>
    rw [firsts] at h
    split at h
    · exact List.mem_cons_of_mem _ (ih h)
    · exact (List.mem_cons.mp h).elim (fun e => e ▸ List.mem_cons_self)
        fun h => List.mem_cons_of_mem _ (ih h)

/-- The main block goes up to the first subroutine, if there is one. -/
theorem mainExtent_eq {t : Tree Action} (h : t.subroutines ≠ []) :
    t.mainExtent = Node.extentAll t.known false t.main + 1 := by
  rw [mainExtent, if_neg (by simpa using h)]

theorem shape_entry {t : Tree Action} {name : String} {e : Nat} (h : t.entry name = some e) :
    t.shapes[e]? = some .sub := by
  obtain ⟨s, hs, rfl⟩ : ∃ s ∈ firsts [] t.subroutines, s.name = name := by
    have hknown : name ∈ (firsts [] t.subroutines).map (·.name) := by
      rw [← Subroutine.names_entries t.known t.mainExtent, ← List.contains_iff_mem,
        ← isSome_lookup, ← entry, h]
      rfl
    simpa using hknown
  have hsubs : t.subroutines ≠ [] := List.ne_nil_of_mem (mem_of_mem_firsts hs)
  obtain ⟨e', he, hcode⟩ := Subroutine.codeAt_inRow (Subroutine.length_shapes t.known)
    (Node.shapesAll t.known false 0 .main t.main ++ [.main])
    (nodup_names_firsts [] t.subroutines) hs
  rw [List.length_append, Node.length_shapesAll, List.length_singleton,
    ← mainExtent_eq hsubs] at he hcode
  obtain rfl : e = e' := Option.some.inj (h.symm.trans he)
  rw [List.append_assoc] at hcode
  exact Node.shape_of_codeAt hcode

/-- The code of a sound script fits its shapes. -/
theorem fits_layout {t : Tree Action} (h : t.Sound) : FitsAt t.shapes 0 t.layout := by
  have hentry name e (he : t.entry name = some e) : t.shapes[e]? = some .sub := shape_entry he
  have hT : CodeAt t.shapes 0 t.shapes := List.prefix_refl _
  have hplaced : Node.Placed t.shapes false none .main 0
      (Node.shapesAll (fun name => (t.entry name).isSome) false 0 .main t.main)
      (Subroutine.inRow (Subroutine.shapes t.known) t.mainExtent (firsts [] t.subroutines)) :=
    ⟨nofun, nofun, by rw [t.known_eq]; exact hT⟩
  have hmain := Node.fits_layoutAll hentry t.main h.main hplaced
  obtain ⟨hexit, hrow⟩ := codeAt_cons.mp (codeAt_append.mp hT).2
  rw [Node.length_shapesAll, Nat.zero_add] at hexit hrow
  rw [layout, mainLayout]
  cases hsubs : t.subroutines with
  | nil => simpa [firsts, Subroutine.inRow] using hmain
  | cons sub subs =>
    have hextent := t.mainExtent_eq (by simp [hsubs])
    rw [← hsubs]
    refine fitsAt_append (fitsAt_append hmain ?_) ?_
    · rw [Node.length_layoutAll, t.known_eq, Nat.zero_add, hsubs]
      exact fitsAt_cons hexit .exit (fitsAt_nil _ _)
    · rw [← mainLayout, length_mainLayout, Nat.zero_add]
      refine Subroutine.fits_inRow hentry (fun s hs => h.subroutines s (mem_of_mem_firsts hs)) ?_
      rw [t.known_eq, hextent]
      rw [hextent] at hrow
      exact hrow

/-- A machine that starts on a script is safe. -/
theorem safe_start (t : Tree Action) {w : World} (hw : server < w.entities.length) :
    Safe t.shapes { world := w } where
  stacked := ⟨.main, .main, fun _ => Node.shape_of_codeAt (List.prefix_refl t.shapes)⟩
  balanced := rfl
  present := ⟨hw, by simp, by simp⟩

end Tree

/-! ## What is read without errors -/

namespace Arena.Action

theorem command_ne_select {text : String} {a : Action} (h : command text = .ok a) (tag : String) :
    a ≠ .select tag := by
  simp only [command] at h
  split at h
  · cases h
    exact nofun
  · cases h
    exact nofun
  · cases h
    exact nofun
  · split at h <;> cases h

theorem select_of_selector (kind : Iteration) {text : String} {a : Action}
    (h : selector kind text = .ok a) : ∃ tag, a = .select tag := by
  rw [selector] at h
  split at h
  · cases h
    exact ⟨_, rfl⟩
  · cases h

end Arena.Action

theorem hasErrors_mono {ds ds' : List Diagnostic} (h : hasErrors ds' = false)
    (hp : ds <+: ds') : hasErrors ds = false := by
  rw [hasErrors, List.any_eq_false] at h ⊢
  exact fun d hd => h d (hp.subset hd)

/-- Whether what is read is in a subroutine. -/
def Part.inSubroutine : Part → Bool
  | statement _ inSubroutine => inSubroutine
  | block b => b.inSubroutine

/-- Statements that are read without an error are sound. -/
theorem Reads.sound {part : Part} {s t : Reading} {ns : List (Node Action)}
    (h : Reads Action.grammar part s ns t) (hclean : hasErrors t.journal = false) :
    Node.SoundAll part.inSubroutine ns := by
  induction h with
  | @command topLevel inSubroutine s l _ ds _ _ =>
    obtain ⟨a, ha, h⟩ | ⟨e, -, h⟩ :=
      (s.reports ds).command_cases Action.grammar (Reader.statementOf l topLevel inSubroutine)
    · rw [h]
      exact ⟨Action.command_ne_select ha, trivial⟩
    · rw [h]
      trivial
  | @finished topLevel inSubroutine s l _ ds f node _ verdict =>
    cases node with
    | none => trivial
    | some n =>
      refine ⟨?_, trivial⟩
      obtain rfl | rfl | ⟨name, rfl⟩ | ⟨rfl, hinside | hreported⟩ := judge_finished verdict
      · trivial
      · trivial
      · trivial
      · exact hinside
      · rw [hasErrors, List.any_eq_false] at hclean
        exact absurd rfl (hclean _ (List.mem_append_right _ hreported))
  | @opens topLevel inSubroutine _ _ _ _ _ b _ ns _ verdict _ ih =>
    refine ⟨?_, trivial⟩
    have hbody : Node.SoundAll b.inSubroutine ns := ih hclean
    obtain ⟨kind, selector, rfl, rfl, hselector, -⟩ | ⟨name, rfl, rfl, -⟩ := judge_opens verdict
    · refine ⟨fun a ha => ?_, hbody⟩
      obtain ⟨text, htext⟩ := hselector a ha
      exact Action.select_of_selector kind htext
    · exact hbody
  | unclosed => trivial
  | close => trivial
  | next _ _ _ others ih₁ ih₂ =>
    have hfirst := ih₁ (hasErrors_mono hclean others.journal)
    exact Node.soundAll_append hfirst (ih₂ hclean)

theorem Tree.Sound.cons {t : Tree Action} (h : t.Sound) {n : Node Action} (hn : n.Sound false) :
    (Tree.cons n t).Sound := by
  cases n with
  | define name line body =>
    refine ⟨h.main, fun s hs => ?_⟩
    obtain rfl | hs := List.mem_cons.mp hs
    · exact hn
    · exact h.subroutines s hs
  | _ => exact ⟨⟨hn, h.main⟩, h.subroutines⟩

theorem Tree.Sound.foldr {t : Tree Action} (h : t.Sound) {ns : List (Node Action)}
    (hns : Node.SoundAll false ns) : (ns.foldr Tree.cons t).Sound := by
  induction ns with
  | nil => exact h
  | cons n ns ih => exact (ih hns.2).cons hns.1

/-- A script that is read without an error is sound. -/
theorem ReadsScript.sound {s t : Reading} {tree : Tree Action}
    (h : ReadsScript Action.grammar s tree t) (hclean : hasErrors t.journal = false) :
    tree.Sound := by
  induction h with
  | done => exact ⟨trivial, nofun⟩
  | next _ first others ih =>
    exact (ih hclean).foldr (first.sound (hasErrors_mono hclean others.journal))

/-! ## Accepted scripts -/

/-- The program of an accepted script is the layout of a sound one. -/
theorem Compiler.program_eq_layout {options : Options} {id : String} {source : List String}
    {c : Compilation Action} {p : Program Action}
    (hc : Compiler.compile { grammar := Action.grammar, options } id source = .ok c)
    (hp : c.program = some p) :
    ∃ tree : Tree Action, p.instructions = tree.layout ∧ tree.Sound := by
  obtain ⟨tree, s, d, -, hreads, -, hclean, hcode⟩ := Compiler.of_accepted hc hp
  exact ⟨tree, hcode, hreads.sound (hasErrors_mono hclean (List.prefix_append _ _))⟩

/-- An accepted script never makes the machine fault. Its program has
selectors where they are needed and nowhere else, and a run of it in a world
that has the server, as every world does (`World.server_lt_spawned`), is intact
after any number of steps. -/
theorem accepted_program_never_faults {options : Options} {id : String} {source : List String}
    {c : Compilation Action} {p : Program Action}
    (hc : Compiler.compile { grammar := Action.grammar, options } id source = .ok c)
    (hp : c.program = some p) {w : World} (hw : server < w.entities.length) (n : Nat) :
    (∀ i ∈ p.instructions, Proper i) ∧
    ∃ m, Machine.run p.instructions n { world := w } = .ok m ∧ m.Intact p.instructions := by
  obtain ⟨tree, hcode, hsound⟩ := Compiler.program_eq_layout hc hp
  have hfits : FitsAt tree.shapes 0 p.instructions := hcode ▸ tree.fits_layout hsound
  obtain ⟨m, hm, hsafe⟩ := (tree.safe_start hw).run hfits n
  refine ⟨fun i hi => ?_, m, hm, hsafe.intact hfits⟩
  obtain ⟨j, hj⟩ := List.getElem?_of_mem hi
  obtain ⟨σ, -, hfit⟩ := hfits j i hj
  exact hfit.proper

/-- The villagers leave their trade, each in the turn of the one before. -/
def retirement : List String :=
  ["loop as villager \x7b", "untag villager", "\x7d"]

theorem retirement_never_faults : ∃ c p,
    Compiler.compile { grammar := Action.grammar } "retirement" retirement = .ok c ∧
    c.program = some p ∧
    server < (({} : World).spawn "Ann" "villager").entities.length ∧
    (∀ i ∈ p.instructions, Proper i) ∧
    ∃ m, Machine.run p.instructions 8 { world := ({} : World).spawn "Ann" "villager" } = .ok m ∧
      m.Intact p.instructions := by
  have haccepted : ((Compiler.compile { grammar := Action.grammar } "retirement"
      retirement).toOption.bind (·.program)).isSome = true := by decide +kernel
  have hserver : server < (({} : World).spawn "Ann" "villager").entities.length :=
    World.server_lt_spawned [("Ann", "villager")]
  cases hc : Compiler.compile { grammar := Action.grammar } "retirement" retirement with
  | error fault =>
    rw [hc] at haccepted
    cases haccepted
  | ok c =>
    rw [hc] at haccepted
    obtain ⟨p, hp⟩ := Option.isSome_iff_exists.mp haccepted
    exact ⟨c, p, rfl, hp, hserver, accepted_program_never_faults hc hp hserver 8⟩

end CommandScript
