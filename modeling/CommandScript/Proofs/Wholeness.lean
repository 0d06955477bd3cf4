import CommandScript.Proofs.Safety
import CommandScript.Proofs.Sites
import Mathlib.Data.List.Nodup

/-!
# Accepted scripts are whole

A script is lowered even if it has errors, and what cannot be lowered is left
out: the frame of an iteration without selector, a call of nothing, a `break`
out of nothing, a definition inside a block. In an accepted script there is
none of these (`Tree.Whole`). Some are reported by the reader
(`Reads.wellRead`) and the others by lowering (`Tree.complaints_eq_nil_iff`).
The program then has an instruction for each statement, and those that hold
iterations and subroutines together (`Node.extent_eq_weight`).
-/

namespace CommandScript

open Arena

variable {A : Type}

/-! ## What the reader reports -/

/-- What the reader sees to: an iteration has a selector, a definition is not
in a block, and a return is in a subroutine. -/
def Node.WellRead (site : Site) : Node A → Prop
  | iterate _ selector _ _ => selector.isSome = true
  | define _ _ _ => False
  | subroutineReturn => site.inSubroutine = true
  | _ => True

/-- An error that was reported on the way is among the errors in the end. -/
theorem hasErrors_of_reported {js ds ds' : List Diagnostic} (hp : js ++ ds <+: ds') {line : Nat}
    {cause : Cause} (h : .error line cause ∈ ds) : hasErrors ds' = true :=
  List.any_eq_true.mpr ⟨_, hp.subset (List.mem_append_right _ h), rfl⟩

/-- Whether a definition is in its place where this is read. -/
def Part.topLevel : Part → Bool
  | statement topLevel _ => topLevel
  | block _ => false

/-- Statements that are read without an error are well read at their sites; at
the top level there may be definitions among them, with bodies that are. -/
theorem Reads.wellRead {g : Grammar A} {part : Part} {s t : Reading} {ns : List (Node A)}
    (h : Reads g part s ns t) (hclean : hasErrors t.journal = false) :
    ∀ site : Site, site.inSubroutine = part.inSubroutine → ∀ n ∈ ns,
      n.Throughout Node.WellRead site ∨ part.topLevel = true ∧ ∃ name line body,
        n = .define name line body ∧
          Node.ThroughoutAll Node.WellRead { inSubroutine := true } body := by
  induction h with
  | @command topLevel inSubroutine s l _ ds _ _ =>
    intro site hsite n hn
    obtain ⟨a, -, h⟩ | ⟨e, -, h⟩ :=
      (s.reports ds).command_cases g (Reader.statementOf l topLevel inSubroutine)
    · rw [h] at hn
      obtain rfl := List.mem_singleton.mp hn
      exact .inl ⟨trivial, trivial⟩
    · rw [h] at hn
      cases hn
  | @finished topLevel inSubroutine s l _ ds f node _ verdict =>
    intro site hsite n hn
    obtain rfl : node = some n := by simpa using hn
    left
    obtain rfl | rfl | ⟨name, rfl⟩ | ⟨rfl, hinside | hreported⟩ := judge_finished verdict
    · exact ⟨trivial, trivial⟩
    · exact ⟨trivial, trivial⟩
    · exact ⟨trivial, trivial⟩
    · exact ⟨hsite.trans hinside, trivial⟩
    · exact absurd (hasErrors_of_reported (List.prefix_refl _) hreported)
        (Bool.eq_false_iff.mp hclean)
  | @opens topLevel inSubroutine s t _ _ ds b _ ns _ verdict body ih =>
    intro site hsite n hn
    obtain rfl := List.mem_singleton.mp hn
    have hreports {line : Nat} {cause : Cause} (h : .error line cause ∈ ds) : False :=
      Bool.eq_false_iff.mp hclean (hasErrors_of_reported body.journal h)
    -- What stands in a block is no definition, so the body is well read.
    have hbody (site : Site) (hsite : site.inSubroutine = b.inSubroutine) :
        Node.ThroughoutAll Node.WellRead site ns :=
      Node.throughoutAll_iff.mpr fun n hn => (ih hclean site hsite n hn).resolve_right fun h =>
        Bool.false_ne_true h.1
    obtain ⟨kind, selector, rfl, rfl, -, hselector⟩ | ⟨name, rfl, rfl, htop⟩ := judge_opens verdict
    · left
      refine ⟨?_, hbody site.inside hsite⟩
      cases selector with
      | none =>
        obtain ⟨reason, hreported⟩ := hselector rfl
        exact (hreports hreported).elim
      | some a => rfl
    · exact .inr ⟨htop.resolve_right hreports, _, _, _, rfl, hbody _ rfl⟩
  | unclosed | close => exact fun _ _ n hn => absurd hn List.not_mem_nil
  | next _ _ _ others ih₁ ih₂ =>
    intro site hsite n hn
    rcases List.mem_append.mp hn with hn | hn
    · exact ih₁ (hasErrors_mono hclean others.journal) site hsite n hn
    · exact ih₂ hclean site hsite n hn

theorem Tree.Throughout.cons {P : Site → Node A → Prop} {t : Tree A} (h : t.Throughout P)
    {n : Node A} (hn : n.Throughout P {}) (hdefine : ∀ name line body, n ≠ .define name line body) :
    (Tree.cons n t).Throughout P := by
  cases n with
  | define name line body => exact absurd rfl (hdefine name line body)
  | _ => exact ⟨⟨hn, h.main⟩, h.subroutines⟩

theorem Tree.Throughout.cons_define {P : Site → Node A → Prop} {t : Tree A} (h : t.Throughout P)
    (name : String) (line : Nat) {body : List (Node A)}
    (hbody : Node.ThroughoutAll P { inSubroutine := true } body) :
    (Tree.cons (.define name line body) t).Throughout P := by
  refine ⟨h.main, fun s hs => ?_⟩
  obtain rfl | hs := List.mem_cons.mp hs
  · exact hbody
  · exact h.subroutines s hs

/-- A script that is read without an error is well read. -/
theorem ReadsScript.wellRead {g : Grammar A} {s t : Reading} {tree : Tree A}
    (h : ReadsScript g s tree t) (hclean : hasErrors t.journal = false) :
    tree.Throughout Node.WellRead := by
  induction h with
  | done => exact ⟨trivial, nofun⟩
  | @next s t u l rest ns tree _ first others ih =>
    have htree := ih hclean
    have hns := first.wellRead (hasErrors_mono hclean others.journal) {} rfl
    clear first ih
    induction ns with
    | nil => exact htree
    | cons n ns ih =>
      have hrest := ih fun n' hn' => hns n' (List.mem_cons_of_mem _ hn')
      obtain hn | ⟨-, name, line, body, rfl, hbody⟩ := hns n List.mem_cons_self
      · refine hrest.cons hn ?_
        rintro name line body rfl
        exact hn.1
      · exact hrest.cons_define name line hbody

/-! ## Whole scripts -/

/-- A statement of the script `t` of which lowering leaves nothing out. -/
def Node.Whole (t : Tree A) (site : Site) : Node A → Prop
  | iterate _ selector _ _ => selector.isSome = true
  | define _ _ _ => False
  | call name _ => t.subroutines.countP (·.name == name) = 1
  | subroutineReturn => site.inSubroutine = true
  | leave _ => site.enclosed = true
  | _ => True

/-- A script of which lowering leaves nothing out: every iteration has a
selector, every definition is at the top level and the only one of its name,
every call has one subroutine to lead to, every return is in a subroutine and
every `break` in an iteration. -/
structure Tree.Whole (t : Tree A) : Prop where
  statements : t.Throughout (Node.Whole t)
  distinct : (t.subroutines.map (·.name)).Nodup

theorem Tree.countP_eq_one {t : Tree A} (h : (t.subroutines.map (·.name)).Nodup) {name : String}
    (hknown : t.known name = true) : t.subroutines.countP (·.name == name) = 1 := by
  obtain ⟨s, hs, hname⟩ := List.any_eq_true.mp hknown
  have hmem : name ∈ t.subroutines.map (·.name) := beq_iff_eq.mp hname ▸ List.mem_map_of_mem hs
  have hcount := List.count_eq_one_of_mem h hmem
  rwa [List.count, List.countP_map] at hcount

/-- What the reader and lowering see to between them. -/
theorem Tree.whole_of_wellRead {t : Tree A} (hread : t.Throughout Node.WellRead)
    (hcomplaints : t.complaints = []) : t.Whole := by
  obtain ⟨hdistinct, hresolved⟩ := t.complaints_eq_nil_iff.mp hcomplaints
  have hwhole (site : Site) (n : Node A) (hr : n.WellRead site) (hk : n.Resolved t.known site) :
      n.Whole t site := by
    cases n with
    | call name line => exact countP_eq_one hdistinct hk
    | leave line => exact hk
    | block | command | iterate | define | subroutineReturn | exit => exact hr
  exact ⟨.combine hwhole hread hresolved, hdistinct⟩

/-! ## Sizes -/

namespace Node

mutual

/-- The number of instructions a statement stands for, with all that is in it. -/
def weight (n : Node A) : Nat :=
  match n with
  | block children => weightAll children
  | command _ => 1
  | iterate .run _ body _ => weightAll body + 4
  | iterate .loop _ body _ => weightAll body + 7
  | define _ _ body => weightAll body + 1
  | call _ _ => 1
  | subroutineReturn => 1
  | leave _ => 1
  | exit => 1

def weightAll (ns : List (Node A)) : Nat :=
  match ns with
  | [] => 0
  | n :: ns => weight n + weightAll ns

end

mutual

/-- The code of a whole statement has all the instructions it stands for. -/
theorem extent_eq_weight {t : Tree A} {site : Site} (n : Node A) (h : n.Throughout (Whole t) site) :
    n.extent t.known site.enclosed = n.weight := by
  cases n with
  | block children =>
    simp only [Throughout] at h
    simp only [extent, weight]
    exact extentAll_eq_weightAll children h.2
  | iterate kind selector body line =>
    simp only [Throughout] at h
    obtain ⟨a, rfl⟩ := Option.isSome_iff_exists.mp h.1
    have hbody : extentAll t.known true body = weightAll body := extentAll_eq_weightAll body h.2
    cases kind <;> simp only [extent, weight, hbody]
  | define name line body => exact absurd h.1 (by simp [Whole])
  | call name line =>
    have hpos : 0 < t.subroutines.countP (·.name == name) := by
      rw [show t.subroutines.countP (·.name == name) = 1 from h.1]
      exact Nat.one_pos
    have hknown : t.known name = true := List.any_eq_true.mpr (List.countP_pos_iff.mp hpos)
    simp only [extent, hknown, if_true, weight]
  | leave line =>
    have henclosed : site.enclosed = true := h.1
    simp only [extent, henclosed, if_true, weight]
  | command | subroutineReturn | exit => rfl

theorem extentAll_eq_weightAll {t : Tree A} {site : Site} (ns : List (Node A))
    (h : ThroughoutAll (Whole t) site ns) :
    extentAll t.known site.enclosed ns = weightAll ns := by
  cases ns with
  | nil => rfl
  | cons n ns =>
    simp only [ThroughoutAll] at h
    simp only [extentAll, weightAll, extent_eq_weight n h.1, extentAll_eq_weightAll ns h.2]

end

end Node

theorem Subroutine.length_inRow {entry : String → Option Nat} (b : Nat) {fs : List (Subroutine A)}
    (h : ∀ s ∈ fs, Node.extentAll (fun name => (entry name).isSome) false s.body =
      Node.weightAll s.body) :
    (inRow (layout entry) b fs).length = Node.weightAll (fs.map (·.toNode)) := by
  induction fs generalizing b with
  | nil => rfl
  | cons s fs ih =>
    rw [inRow, List.length_append, ih _ fun s' hs' => h s' (List.mem_cons_of_mem _ hs'),
      length_layout, h s List.mem_cons_self, List.map_cons, Node.weightAll, toNode, Node.weight]

namespace Tree

/-- The number of instructions a script stands for: those of its main block
and of its subroutines, and one between them. -/
def weight (t : Tree A) : Nat :=
  Node.weightAll t.main + Node.weightAll (t.subroutines.map (·.toNode)) +
    if t.subroutines.isEmpty then 0 else 1

theorem length_layout_of_whole {t : Tree A} (h : t.Whole) : t.layout.length = t.weight := by
  have hmain : Node.extentAll t.known false t.main = Node.weightAll t.main :=
    Node.extentAll_eq_weightAll t.main h.statements.main
  have hsubs (s : Subroutine A) (hs : s ∈ t.subroutines) :
      Node.extentAll t.known false s.body = Node.weightAll s.body :=
    Node.extentAll_eq_weightAll s.body (h.statements.subroutines s hs)
  rw [layout, List.length_append, length_mainLayout,
    firsts_eq_self h.distinct fun _ _ => List.not_mem_nil,
    Subroutine.length_inRow _ (by rwa [known_eq]), mainExtent, hmain, weight]
  omega

end Tree

/-- What is accepted was translated as a whole: the tree it was read to has
nothing that lowering leaves out, and the program has as many instructions as
the statements of the tree stand for. -/
theorem accepted_script_is_whole [Shown A] {g : Grammar A} {options : Options} {id : String}
    {source : List String} {c : Compilation A} {p : Program A}
    (hc : Compiler.compile { grammar := g, options } id source = .ok c)
    (hp : c.program = some p) :
    ∃ tree s, Reader.read { grammar := g, table := .builtin } options.features
        (Line.assemble source) = .ok tree s ∧
      tree.Whole ∧ p.size = tree.weight := by
  obtain ⟨tree, s, d, hread, hreads, hlower, hclean, hcode⟩ := Compiler.of_accepted hc hp
  have hwell := hreads.wellRead (hasErrors_mono hclean (List.prefix_append _ _))
  have hwhole := Tree.whole_of_wellRead hwell (Tree.complaints_eq_nil hlower hclean)
  refine ⟨tree, s, hread, hwhole, ?_⟩
  rw [Program.size, hcode, Tree.length_layout_of_whole hwhole]

/-- The first of the villagers retires, and the others stay. -/
def dismissal : List String :=
  ["loop as villager \x7b", "subroutine_call retire", "break", "\x7d",
    "subroutine retire", "untag villager", "subroutine_return", "end"]

def withSubroutines : Options where
  features := { subroutines := true }

theorem dismissal_is_whole : ∃ c p,
    Compiler.compile { grammar := Action.grammar, options := withSubroutines }
      "dismissal" dismissal = .ok c ∧
    c.program = some p ∧
    ∃ tree s, Reader.read { grammar := Action.grammar, table := .builtin } withSubroutines.features
        (Line.assemble dismissal) = .ok tree s ∧
      tree.Whole ∧ p.size = tree.weight := by
  obtain ⟨c, p, hc, hp⟩ := Compiler.exists_program
    { grammar := Action.grammar, options := withSubroutines } "dismissal" dismissal
    (by decide +kernel)
  exact ⟨c, p, hc, hp, accepted_script_is_whole hc hp⟩

end CommandScript
