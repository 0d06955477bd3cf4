import CommandScript.Proofs.Noninterference
import CommandScript.Proofs.Safety
import CommandScript.Proofs.Sites
import CommandScript.Proofs.Unclosed
import CommandScript.Proofs.Windows

/-!
# Where reports point to

A line number comes from the lines of a file, goes with the statement that a line
is into the tree, and from there into what lowering reports. On the way it stays
the number of a line that was read: reading a part of a script gives statements
whose lines are some of those it passes, in their order (`Reads.lines`,
`ReadsScript.lines`), and lowering reports only lines that are in the tree
(`Tree.line_of_mem_complaints`).

So no diagnostic of a compile points outside of the file, and in the report the
window below each has the row it is about.
-/

namespace CommandScript

open scoped List

variable {A : Type} {g : Grammar A}

/-! ## The lines in a tree -/

namespace Node

mutual

/-- The lines kept in a statement and those in its block, in the order of the
script. -/
def lines : Node A → List Nat
  | block children => linesAll children
  | iterate _ _ body line => line :: linesAll body
  | define _ line body => line :: linesAll body
  | call _ line => [line]
  | leave line => [line]
  | _ => []

def linesAll : List (Node A) → List Nat
  | [] => []
  | n :: ns => lines n ++ linesAll ns

end

theorem linesAll_append (ns ns' : List (Node A)) :
    linesAll (ns ++ ns') = linesAll ns ++ linesAll ns' := by
  induction ns with
  | nil => rfl
  | cons n ns ih => rw [List.cons_append, linesAll, linesAll, ih, List.append_assoc]

theorem linesAll_singleton (n : Node A) : linesAll [n] = n.lines := List.append_nil _

end Node

/-- The lines kept in the main block of a script, and in each of its subroutines,
are some of `numbers`, in their order. -/
structure Tree.LinesAmong (numbers : List Nat) (t : Tree A) : Prop where
  main : Node.linesAll t.main <+ numbers
  subroutines : ∀ s ∈ t.subroutines, s.toNode.lines <+ numbers

namespace Tree

variable {t : Tree A} {numbers numbers' : List Nat}

theorem LinesAmong.mono (h : t.LinesAmong numbers) (hsub : numbers <+ numbers') :
    t.LinesAmong numbers' :=
  ⟨h.main.trans hsub, fun s hs => (h.subroutines s hs).trans hsub⟩

/-- A definition is kept apart, so its lines are not among those of the main
block. -/
theorem LinesAmong.cons (h : t.LinesAmong numbers) (n : Node A) :
    (Tree.cons n t).LinesAmong (n.lines ++ numbers) := by
  have hothers := h.mono (List.sublist_append_right n.lines numbers)
  cases n with
  | define name line body =>
    refine ⟨hothers.main, fun s hs => ?_⟩
    rcases List.mem_cons.mp hs with rfl | hs
    · exact List.sublist_append_left _ _
    · exact hothers.subroutines s hs
  | block | command | iterate | call | subroutineReturn | leave | exit =>
    exact ⟨(List.Sublist.refl _).append h.main, hothers.subroutines⟩

theorem LinesAmong.foldr_cons (h : t.LinesAmong numbers) (ns : List (Node A)) :
    (ns.foldr Tree.cons t).LinesAmong (Node.linesAll ns ++ numbers) := by
  induction ns with
  | nil => exact h
  | cons n ns ih =>
    rw [List.foldr_cons, Node.linesAll, List.append_assoc]
    exact ih.cons n

end Tree

/-! ## Lines that are read -/

section Reading

variable {l : Line} {topLevel inSubroutine : Bool} {f f' : Features} {ds : List Diagnostic}

/-- A statement that a line gives at once keeps no line but its own. -/
theorem lines_of_finished {node : Option (Node A)}
    (h : judge g (Reader.statementOf l topLevel inSubroutine) f = .finished ds f' node) :
    Node.linesAll node.toList <+ [l.number] := by
  cases node with
  | none => exact List.nil_sublist _
  | some n =>
    rw [Option.toList_some, Node.linesAll_singleton]
    obtain rfl | rfl | ⟨name, rfl⟩ | ⟨rfl, -⟩ := judge_finished h
    · exact List.nil_sublist _
    · exact List.Sublist.refl _
    · exact List.Sublist.refl _
    · exact List.nil_sublist _

/-- A block statement keeps its line in front of those in its block. -/
theorem lines_of_opens {b : Opening} {node : List (Node A) → Node A}
    (h : judge g (Reader.statementOf l topLevel inSubroutine) f = .opens ds b node)
    (ns : List (Node A)) : (node ns).lines = l.number :: Node.linesAll ns := by
  obtain ⟨kind, selector, -, rfl, -⟩ | ⟨name, -, rfl, -⟩ := judge_opens h <;> rfl

theorem Reading.rest_eq_advance {s : Reading} {rest : List Line}
    (ahead : s.cursor.rest = l :: rest) : s.cursor.rest = l :: s.advance.cursor.rest := by
  rw [s.rest_advance ahead, ahead]

/-- The lines in what is read are some of those passed, in their order. -/
theorem Reads.lines {part : Part} {s t : Reading} {ns : List (Node A)} (h : Reads g part s ns t) :
    ∃ passed, s.cursor.rest = passed ++ t.cursor.rest ∧
      Node.linesAll ns <+ passed.map (·.number) := by
  induction h with
  | @command topLevel inSubroutine s l rest ds ahead verdict =>
    refine ⟨[l], ?_, ?_⟩
    · rw [Reading.command_snd]
      exact s.rest_eq_advance ahead
    · obtain ⟨a, -, h⟩ | ⟨e, -, h⟩ :=
        (s.reports ds).command_cases g (Reader.statementOf l topLevel inSubroutine)
      · rw [h]
        exact List.nil_sublist _
      · rw [h]
        exact List.nil_sublist _
  | @finished _ _ s l rest ds f node ahead verdict =>
    exact ⟨[l], s.rest_eq_advance ahead, lines_of_finished verdict⟩
  | @opens _ _ s t l rest ds b node ns ahead verdict body ih =>
    obtain ⟨passed, hrest, hlines⟩ := ih
    refine ⟨l :: passed, ?_, ?_⟩
    · rw [List.cons_append, ← hrest]
      exact s.rest_eq_advance ahead
    · rw [Node.linesAll_singleton, lines_of_opens verdict]
      exact hlines.cons_cons _
  | unclosed => exact ⟨[], rfl, List.nil_sublist _⟩
  | @close b s l rest ahead closing => exact ⟨[l], s.rest_eq_advance ahead, List.nil_sublist _⟩
  | next _ _ _ _ ih₁ ih₂ =>
    obtain ⟨passed₁, hrest₁, hlines₁⟩ := ih₁
    obtain ⟨passed₂, hrest₂, hlines₂⟩ := ih₂
    refine ⟨passed₁ ++ passed₂, by rw [hrest₁, hrest₂, List.append_assoc], ?_⟩
    rw [Node.linesAll_append, List.map_append]
    exact hlines₁.append hlines₂

theorem ReadsScript.lines {s t : Reading} {tree : Tree A} (h : ReadsScript g s tree t) :
    tree.LinesAmong (s.cursor.rest.map (·.number)) := by
  induction h with
  | done => exact ⟨List.nil_sublist _, nofun⟩
  | @next s t u l rest ns tree ahead first others ih =>
    obtain ⟨passed, hrest, hlines⟩ := first.lines
    rw [hrest, List.map_append]
    exact (ih.foldr_cons ns).mono (hlines.append (List.Sublist.refl _))

/-- What reading a script reports is about lines of it, but for what was reported
before. -/
theorem ReadsScript.line_of_mem_journal {s t : Reading} {tree : Tree A}
    (h : ReadsScript g s tree t) {d : Diagnostic} (hd : d ∈ t.journal) :
    d ∈ s.journal ∨ d.line ∈ s.cursor.rest.map (·.number) := by
  rw [h.journal_eq, List.mem_append, List.mem_append] at hd
  rcases hd with hd | hd | hd
  · exact .inl hd
  · obtain ⟨⟨l, hl, hline⟩, -⟩ := Walk.of_mem_told hd
    exact .inr (List.mem_map.mpr ⟨l, hl, hline.symm⟩)
  · obtain ⟨b, hb, rfl⟩ := List.mem_map.mp hd
    obtain ⟨l, hl, hof⟩ := Walk.opened_of_mem_blocks rfl hb
    exact .inr (List.mem_map.mpr ⟨l, hl, hof.1.symm⟩)

end Reading

/-! ## Lines that lowering reports -/

namespace Node

variable {known : String → Bool} {d : Diagnostic}

mutual

theorem line_of_mem_complaints {enclosed : Bool} (n : Node A)
    (h : d ∈ n.complaints known enclosed) : d.line ∈ n.lines := by
  cases n with
  | block children =>
    simp only [complaints] at h
    simp only [lines]
    exact line_of_mem_complaintsAll children h
  | iterate kind selector body line =>
    simp only [complaints] at h
    simp only [lines]
    exact List.mem_cons_of_mem _ (line_of_mem_complaintsAll body h)
  | call name line =>
    simp only [complaints] at h
    split at h
    · cases h
    · rw [List.mem_singleton.mp h]
      exact List.mem_cons_self
  | leave line =>
    simp only [complaints] at h
    split at h
    · cases h
    · rw [List.mem_singleton.mp h]
      exact List.mem_cons_self
  | command | define | subroutineReturn | exit => simp [complaints] at h

theorem line_of_mem_complaintsAll {enclosed : Bool} (ns : List (Node A))
    (h : d ∈ complaintsAll known enclosed ns) : d.line ∈ linesAll ns := by
  cases ns with
  | nil => simp [complaintsAll] at h
  | cons n ns =>
    simp only [complaintsAll, List.mem_append] at h
    simp only [linesAll, List.mem_append]
    exact h.imp (line_of_mem_complaints n) (line_of_mem_complaintsAll ns)

end

end Node

namespace Tree

theorem line_of_mem_redefinitions {seen : List (String × Nat)} {subs : List (Subroutine A)}
    {d : Diagnostic} (h : d ∈ redefinitions seen subs) : ∃ s ∈ subs, d.line = s.line := by
  induction subs generalizing seen with
  | nil => cases h
  | cons s subs ih =>
    have hothers {seen : List (String × Nat)} (h : d ∈ redefinitions seen subs) :
        ∃ s' ∈ s :: subs, d.line = s'.line := by
      obtain ⟨s', hs', hline⟩ := ih h
      exact ⟨s', List.mem_cons_of_mem _ hs', hline⟩
    rw [redefinitions] at h
    split at h
    · rcases List.mem_cons.mp h with rfl | h
      · exact ⟨s, List.mem_cons_self, rfl⟩
      · exact hothers h
    · exact hothers h

/-- What lowering reports is about lines in the tree. -/
theorem line_of_mem_complaints {t : Tree A} {numbers : List Nat} (ht : t.LinesAmong numbers)
    {d : Diagnostic} (h : d ∈ t.complaints) : d.line ∈ numbers := by
  simp only [complaints, List.mem_append, List.mem_flatMap] at h
  rcases h with (h | h) | ⟨s, hs, h⟩
  · obtain ⟨s, hs, hline⟩ := line_of_mem_redefinitions h
    exact (ht.subroutines s hs).subset (hline ▸ List.mem_cons_self)
  · exact ht.main.subset (Node.line_of_mem_complaintsAll _ h)
  · have hbody := Node.line_of_mem_complaintsAll _ h
    exact (ht.subroutines s (mem_of_mem_firsts hs)).subset (List.mem_cons_of_mem _ hbody)

end Tree

/-! ## Compiles -/

/-- Every diagnostic of a compile points into the source. Its line is one of
those of the file; the lines kept in the tree are the numbers of lines that were put
together, and grow from one statement to the next in the main block and in each
subroutine. In the report there is below the headline of each diagnostic a window
with one row that is marked. -/
theorem diagnostics_point_into_source [Shown A] (g : Grammar A) (options : Options) (id : String)
    (source : List String) :
    ∃ tree s c,
      Reader.read { grammar := g, table := .builtin } options.features
        (Line.assemble source) = .ok tree s ∧
      Compiler.compile { grammar := g, options } id source = .ok c ∧
      (∀ d ∈ c.diagnostics, d.line < source.length) ∧
      tree.LinesAmong ((Line.assemble source).lines.map (·.number)) ∧
      (Node.linesAll tree.main).Pairwise (· < ·) ∧
      (∀ sub ∈ tree.subroutines, sub.toNode.lines.Pairwise (· < ·)) ∧
      (c.diagnostics ≠ [] → c.report.text = s!"While compiling function '{id}'\n" ++
        String.join (c.diagnostics.map fun d =>
          Report.headline id d ++ Report.window d.line options.radius source)) ∧
      ∀ d ∈ c.diagnostics, Report.MarksOnce d.line options.radius source
        (Report.window d.line options.radius source) := by
  obtain ⟨tree, s, hread, hreads⟩ := Compiler.read_reads g options source
  obtain ⟨d, hlower, hlinks⟩ := tree.lower_links
  obtain ⟨c, hc, hdiagnostics, -⟩ := Compiler.compile_eq_ok hread hlower hlinks id
  have hlines : tree.LinesAmong ((Line.assemble source).lines.map (·.number)) := hreads.lines
  have hordered : ((Line.assemble source).lines.map (·.number)).Pairwise (· < ·) :=
    List.pairwise_map.mpr (Line.ordered_assemble source)
  have hwithin {line : Nat} (h : line ∈ (Line.assemble source).lines.map (·.number)) :
      line < source.length := by
    obtain ⟨l, hl, rfl⟩ := List.mem_map.mp h
    exact Line.number_lt_of_mem_assemble hl
  have hbound : ∀ d ∈ c.diagnostics, d.line < source.length := by
    intro x hx
    rw [hdiagnostics, Tree.journal_lower hlower] at hx
    rcases List.mem_append.mp hx with hx | hx
    · rcases hreads.line_of_mem_journal hx with hx | hx
      · exact Line.line_lt_of_mem_assemble hx
      · exact hwithin hx
    · exact hwithin (Tree.line_of_mem_complaints hlines hx)
  refine ⟨tree, s, c, hread, hc, hbound, hlines, hordered.sublist hlines.main,
    fun sub hsub => hordered.sublist (hlines.subroutines sub hsub), fun hsome => ?_,
    fun x hx => Report.marksOnce_window (hbound x hx) _⟩
  rw [Compiler.report_eq hc, Report.ofDiagnostics, if_neg (by simpa using hsome)]

end CommandScript
