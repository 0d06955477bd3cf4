import CommandScript.Host.Samples
import CommandScript.Proofs.Sites
import CommandScript.Proofs.Totality
import CommandScript.Proofs.Unclosed
import Mathlib.Data.List.Basic

/-!
# Scripts that are only commands

A script without a keyword of the built-in forms is handed to the host line by
line. Each line the grammar accepts is a statement (`Grammar.action?`), each line
it refuses is reported (`Grammar.complaint?`), and there is nothing else in what is
read (`ReadsScript.verbatim`). The statements stand one behind the other in the
program, one instruction each (`Tree.layout_ofActions`), and lowering has nothing to
say about them (`Tree.complaints_ofActions`).
-/

namespace CommandScript

variable {A : Type} {g : Grammar A}

/-! ## Lines and the host's grammar -/

namespace Grammar

/-- The action of a line that the grammar accepts. -/
def action? (g : Grammar A) (l : Line) : Option A := (g.command l.text).toOption

theorem complaint?_eq_none_iff {l : Line} :
    g.complaint? l = none ↔ ∃ a, g.command l.text = .ok a := by
  rw [complaint?]
  cases g.command l.text with
  | ok a => exact iff_of_true rfl ⟨a, rfl⟩
  | error e =>
    refine iff_of_false (by simp) ?_
    rintro ⟨a, ha⟩
    cases ha

theorem complaint?_eq_some_iff {l : Line} {d : Diagnostic} :
    g.complaint? l = some d ↔
      ∃ e, g.command l.text = .error e ∧ d = .error l.number (.badCommand e.message) := by
  rw [complaint?]
  cases g.command l.text with
  | ok a => simp
  | error e => simp [eq_comm]

/-- If all lines are accepted, no line is without its action. -/
theorem map_command_eq {lines : List Line} (h : ∀ l ∈ lines, ∃ a, g.command l.text = .ok a) :
    lines.map (fun l => g.command l.text) = (lines.filterMap g.action?).map .ok := by
  induction lines with
  | nil => rfl
  | cons l lines ih =>
    rw [List.forall_mem_cons] at h
    obtain ⟨a, ha⟩ := h.1
    have haction : g.action? l = some a := by
      rw [action?, ha]
      rfl
    rw [List.map_cons, List.filterMap_cons_some haction, List.map_cons, ha, ih h.2]

/-- Every complaint is an error, so there is none only if all lines are accepted. -/
theorem hasErrors_complaints (lines : List Line) :
    hasErrors (lines.filterMap g.complaint?) = false ↔
      ∀ l ∈ lines, ∃ a, g.command l.text = .ok a := by
  simp only [hasErrors, List.any_eq_false, List.mem_filterMap, ← complaint?_eq_none_iff]
  constructor
  · intro h l hl
    by_contra hne
    obtain ⟨d, hd⟩ := Option.ne_none_iff_exists'.mp hne
    obtain ⟨e, -, rfl⟩ := complaint?_eq_some_iff.mp hd
    exact h _ ⟨l, hl, hd⟩ rfl
  · rintro h d ⟨l, hl, hd⟩
    rw [h l hl] at hd
    cases hd

end Grammar

theorem Reading.command_fst (s : Reading) (g : Grammar A) (l : Line)
    (topLevel inSubroutine : Bool) :
    (s.command g (Reader.statementOf l topLevel inSubroutine)).1 =
      (g.action? l).map .command := by
  have htext : (Reader.statementOf l topLevel inSubroutine).text = l.text := rfl
  obtain ⟨a, ha, h⟩ | ⟨e, he, h⟩ :=
    s.command_cases g (Reader.statementOf l topLevel inSubroutine)
  · rw [h, Grammar.action?, ← htext, ha]
    rfl
  · rw [h, Grammar.action?, ← htext, he]
    rfl

/-! ## Scripts of actions -/

namespace Tree

/-- The script of some actions and nothing else. -/
def ofActions (actions : List A) : Tree A where
  main := actions.map .command

theorem ofActions_append (first others : List A) :
    ofActions (first ++ others) = (first.map .command).foldr cons (ofActions others) := by
  induction first with
  | nil => rfl
  | cons a first ih =>
    rw [List.map_cons, List.foldr_cons, ← ih]
    rfl

end Tree

/-- Lines of no form are read as they stand: each is a statement or a report. -/
theorem ReadsScript.verbatim {lines : List Line}
    (h : ∀ l ∈ lines, (FormTable.builtin : FormTable A).find? (Reader.keywordOf l) = none)
    (pos : Nat) (f : Features) (journal : List Diagnostic) :
    ReadsScript g ⟨⟨pos, lines⟩, f, journal⟩ (.ofActions (lines.filterMap g.action?))
      ⟨⟨pos + lines.length, []⟩, f, journal ++ lines.filterMap g.complaint?⟩ := by
  simp only [List.filterMap_eq_flatMap_toList]
  induction lines generalizing pos journal with
  | nil =>
    rw [List.flatMap_nil, List.flatMap_nil, List.append_nil]
    exact .done rfl
  | cons l lines ih =>
    rw [List.forall_mem_cons] at h
    have hfirst : Reads g (.statement true false) ⟨⟨pos, l :: lines⟩, f, journal⟩ _ _ :=
      .command rfl (judge_unclaimed h.1)
    rw [Reading.reports_nil, Reading.command_fst, Reading.command_snd] at hfirst
    have hothers := ih h.2 (pos + 1) (journal ++ (g.complaint? l).toList)
    have hscript := ReadsScript.next rfl hfirst hothers
    rw [Option.toList_map, ← Tree.ofActions_append] at hscript
    rwa [List.flatMap_cons, List.flatMap_cons, ← List.append_assoc, List.length_cons,
      Nat.add_comm lines.length, ← Nat.add_assoc]

/-! ## Lowering -/

namespace Node

theorem layoutAll_commands (entry : String → Option Nat) (b : Nat) (out : Option Nat)
    (actions : List A) : layoutAll entry b out (actions.map .command) = actions.map .plain := by
  induction actions generalizing b with
  | nil => rfl
  | cons a actions ih =>
    rw [List.map_cons, layoutAll, ih]
    rfl

theorem complaintsAll_commands (known : String → Bool) (enclosed : Bool) (actions : List A) :
    complaintsAll known enclosed (actions.map .command) = [] := by
  induction actions with
  | nil => rfl
  | cons a actions ih =>
    rw [List.map_cons, complaintsAll, ih]
    rfl

end Node

namespace Tree

theorem layout_ofActions (actions : List A) : (ofActions actions).layout = actions.map .plain := by
  have hmain := Node.layoutAll_commands (ofActions actions).entry 0 none actions
  have hlayout : (ofActions actions).layout =
      Node.layoutAll (ofActions actions).entry 0 none (actions.map .command) ++ [] ++ [] := rfl
  rw [hlayout, hmain, List.append_nil, List.append_nil]

theorem complaints_ofActions (actions : List A) : (ofActions actions).complaints = [] := by
  have hmain := Node.complaintsAll_commands (ofActions actions).known false actions
  have hcomplaints : (ofActions actions).complaints =
      [] ++ Node.complaintsAll (ofActions actions).known false (actions.map .command) ++ [] := rfl
  rw [hcomplaints, hmain]
  rfl

end Tree

/-! ## Compiling -/

/-- A script without keywords compiles one to one. There is a program if and only
if the host's grammar accepts all lines; it is then made of their actions, in
order and with nothing else. What is reported is that a line was refused, once
for each such line, in order and at the line. -/
theorem plain_script_compiles_one_to_one [Shown A] (g : Grammar A) (options : Options)
    (id : String) (source : List String) (hassembled : (Line.assemble source).diagnostics = [])
    (hplain : ∀ l ∈ (Line.assemble source).lines,
      (FormTable.builtin : FormTable A).find? (Reader.keywordOf l) = none) :
    ∃ c, Compiler.compile { grammar := g, options } id source = .ok c ∧
      (c.program.isSome = true ↔
        ∀ l ∈ (Line.assemble source).lines, ∃ a, g.command l.text = .ok a) ∧
      (∀ p, c.program = some p → ∃ actions : List A,
        (Line.assemble source).lines.map (fun l => g.command l.text) = actions.map .ok ∧
          p = ⟨id, actions.map .plain⟩) ∧
      c.diagnostics = (Line.assemble source).lines.filterMap g.complaint? ∧
      ∀ d ∈ c.diagnostics, ∃ l ∈ (Line.assemble source).lines, ∃ e, g.command l.text = .error e ∧
        d.severity = .error ∧ d.line = l.number ∧
          d.message = "failed to parse command: " ++ e.message := by
  obtain ⟨tree, s, hread, hreads⟩ := Compiler.read_reads g options source
  rw [hassembled] at hreads
  obtain ⟨rfl, rfl⟩ := hreads.unique (.verbatim hplain 0 options.features [])
  obtain ⟨d, hlower, hlinks⟩ := Tree.lower_links _
  obtain ⟨c, hc, hdiagnostics, hprogram⟩ := Compiler.compile_eq_ok hread hlower hlinks id
  rw [Tree.journal_lower hlower, Tree.complaints_ofActions, List.append_nil, List.nil_append]
    at hdiagnostics hprogram
  rw [Tree.layout_ofActions] at hprogram
  have haccepted := g.hasErrors_complaints (Line.assemble source).lines
  refine ⟨c, hc, ?_, ?_, hdiagnostics, ?_⟩
  · rw [hprogram, ← haccepted]
    cases hasErrors ((Line.assemble source).lines.filterMap g.complaint?) <;> simp
  · intro p hp
    rw [hprogram] at hp
    split at hp
    · cases hp
    · next herror =>
      refine ⟨_, Grammar.map_command_eq (haccepted.mp (by simpa using herror)), ?_⟩
      exact (Option.some.inj hp).symm
  · intro d hd
    rw [hdiagnostics] at hd
    obtain ⟨l, hl, hd⟩ := List.mem_filterMap.mp hd
    obtain ⟨e, he, rfl⟩ := Grammar.complaint?_eq_some_iff.mp hd
    exact ⟨l, hl, e, he, rfl, rfl, rfl⟩

/-- A comment, a line joined from two, an empty line, and a word that only starts
like a keyword. -/
def farewell : List String := ["# farewell", "say \\", "  goodbye", "", "runner up", "wave"]

theorem farewell_compiles_one_to_one :
    (∃ c, Compiler.compile { grammar := Host.wordsGrammar } "farewell" farewell = .ok c ∧
      c.program = some ⟨"farewell", [.plain "say goodbye", .plain "runner up", .plain "wave"]⟩ ∧
      c.diagnostics = []) ∧
    ∃ c, Compiler.compile { grammar := Host.wordsGrammar } "farewell"
        (["bad start"] ++ farewell ++ ["bad \\", "end"]) = .ok c ∧
      c.program = none ∧
      c.diagnostics = [.error 0 (.badCommand "unknown command 'bad start'"),
        .error 7 (.badCommand "unknown command 'bad end'")] := by
  constructor
  · obtain ⟨c, hc, hsome, hprogram, hdiagnostics, -⟩ := plain_script_compiles_one_to_one
      Host.wordsGrammar {} "farewell" farewell (by decide +kernel) (by decide +kernel)
    have hnone : (Line.assemble farewell).lines.filterMap Host.wordsGrammar.complaint? = [] := by
      decide +kernel
    have haccepted := (Host.wordsGrammar.hasErrors_complaints _).mp (congrArg hasErrors hnone)
    obtain ⟨p, hp⟩ := Option.isSome_iff_exists.mp (hsome.mpr haccepted)
    obtain ⟨actions, hactions, rfl⟩ := hprogram p hp
    have htexts : actions = ["say goodbye", "runner up", "wave"] := by
      have hsame := hactions.symm.trans (Grammar.map_command_eq haccepted)
      rw [List.map_injective_iff.mpr (fun _ _ => Except.ok.inj) hsame]
      decide +kernel
    rw [htexts] at hp
    exact ⟨c, hc, hp, hdiagnostics.trans hnone⟩
  · obtain ⟨c, hc, hsome, -, hdiagnostics, -⟩ := plain_script_compiles_one_to_one
      Host.wordsGrammar {} "farewell" (["bad start"] ++ farewell ++ ["bad \\", "end"])
      (by decide +kernel) (by decide +kernel)
    have hrefused : ¬ c.program.isSome = true := by
      rw [hsome, ← Grammar.hasErrors_complaints]
      decide +kernel
    exact ⟨c, hc, by simpa using hrefused, hdiagnostics.trans (by decide +kernel)⟩

end CommandScript
