import CommandScript.Proofs.Composition
import CommandScript.Proofs.Pragmas
import CommandScript.Proofs.Wholeness

/-!
# No line is lost

A line that is read gives a statement, or is a pragma, or closes a block, or
else there is an error. So where there is no error, the lines of a script are
accounted for: one for each statement of the tree, at any depth, one more for
each statement with a block, and the pragmas.

Pragmas are set aside first: `Reading.ordinary` counts the lines ahead that
are none, and `Reads.ordinary_eq` says what a reading takes from them.
-/

namespace CommandScript

variable {A : Type} {g : Grammar A}

/-! ## Counting statements -/

namespace Node

mutual

/-- The number of statements with the property `p`, in a statement and all
that is in it. -/
def count (p : Node A → Bool) (n : Node A) : Nat :=
  (if p n then 1 else 0) +
    match n with
    | block children => countAll p children
    | iterate _ _ body _ => countAll p body
    | define _ _ body => countAll p body
    | _ => 0

def countAll (p : Node A → Bool) (ns : List (Node A)) : Nat :=
  match ns with
  | [] => 0
  | n :: ns => count p n + countAll p ns

end

/-- Whether a statement has a block, which a line of its own closes. -/
def hasBlock : Node A → Bool
  | iterate _ _ _ _ => true
  | define _ _ _ => true
  | _ => false

theorem countAll_append (p : Node A → Bool) (ns ns' : List (Node A)) :
    countAll p (ns ++ ns') = countAll p ns + countAll p ns' := by
  induction ns with
  | nil => simp only [List.nil_append, countAll, Nat.zero_add]
  | cons n ns ih => simp only [List.cons_append, countAll, ih, Nat.add_assoc]

theorem countAll_singleton (p : Node A → Bool) (n : Node A) : countAll p [n] = count p n := by
  simp only [countAll, Nat.add_zero]

/-- The number of lines that statements take: one for each of them, at any
depth, and one more for each that has a block. -/
def lineCount (ns : List (Node A)) : Nat :=
  countAll (fun _ => true) ns + countAll hasBlock ns

theorem lineCount_append (ns ns' : List (Node A)) :
    lineCount (ns ++ ns') = lineCount ns + lineCount ns' := by
  simp only [lineCount, countAll_append]
  omega

end Node

/-- The number of statements of a script with the property `p`, in its main
block and in its subroutines, whose definitions count as well. -/
def Tree.count (p : Node A → Bool) (t : Tree A) : Nat :=
  Node.countAll p t.main + Node.countAll p (t.subroutines.map (·.toNode))

theorem Tree.count_foldr_cons (p : Node A → Bool) (ns : List (Node A)) (t : Tree A) :
    (ns.foldr Tree.cons t).count p = Node.countAll p ns + t.count p := by
  induction ns with
  | nil => simp only [List.foldr_nil, Node.countAll, Nat.zero_add]
  | cons n ns ih =>
    have hcons (t : Tree A) : (Tree.cons n t).count p = n.count p + t.count p := by
      cases n <;>
        simp only [Tree.cons, Tree.count, List.map_cons, Subroutine.toNode, Node.countAll] <;> omega
    rw [List.foldr_cons, hcons, ih, Node.countAll, Nat.add_assoc]

/-! ## Lines that are no pragmas -/

/-- The number of lines ahead that are no pragmas. -/
def Reading.ordinary (s : Reading) : Nat := s.cursor.rest.countP (!·.isPragma)

namespace Reading

variable {s : Reading} {l : Line} {rest : List Line}

theorem ordinary_pragma (ahead : s.cursor.rest = l :: rest) (hl : l.isPragma = true) :
    s.ordinary = s.advance.ordinary := by
  rw [ordinary, ordinary, rest_advance ahead, ahead, List.countP_cons_of_neg (by simp [hl])]

theorem ordinary_succ (ahead : s.cursor.rest = l :: rest) (hl : l.isPragma = false) :
    s.ordinary = s.advance.ordinary + 1 := by
  rw [ordinary, ordinary, rest_advance ahead, ahead, List.countP_cons_of_pos (by simp [hl])]

end Reading

/-- A line that is not done with for nothing is no pragma. -/
theorem not_isPragma_of_judge {l : Line} {f : Features} {topLevel inSubroutine : Bool}
    {v : Verdict A}
    (h : judge g (Reader.statementOf l topLevel inSubroutine) f = v)
    (hv : ∀ ds f', v ≠ .finished ds f' none) : l.isPragma = false := by
  rw [Bool.eq_false_iff]
  intro hl
  have hk : Reader.keywordOf l = "pragma" := beq_iff_eq.mp hl
  have hpragma : judge g (Reader.statementOf l topLevel inSubroutine) f = .ofPragma _ f :=
    judge_pragma hk
  rw [Verdict.ofPragma_eq_heed] at hpragma
  exact hv _ _ (h.symm.trans hpragma)

/-! ## What a reading takes -/

/-- The number of lines of a part that are neither pragmas nor lines of its
statements: the one that closes a block. -/
def Part.closings : Part → Nat
  | statement _ _ => 0
  | block _ => 1

/-- Where there is no error, a reading takes the lines of its statements and,
from a block, the one that closes it. -/
theorem Reads.ordinary_eq {part : Part} {s t : Reading} {ns : List (Node A)}
    (h : Reads g part s ns t) (hpart : part.BuiltIn) (hclean : hasErrors t.journal = false) :
    s.ordinary = t.ordinary + Node.lineCount ns + part.closings := by
  induction h with
  | @command topLevel inSubroutine s l _ ds ahead verdict =>
    have hl := not_isPragma_of_judge verdict nofun
    rcases (s.reports ds).command_cases g (Reader.statementOf l topLevel inSubroutine) with
      ⟨a, -, h⟩ | ⟨e, -, h⟩
    · rw [h]
      exact Reading.ordinary_succ ahead hl
    · rw [h] at hclean
      cases hclean.symm.trans (hasErrors_of_reported (List.prefix_refl _) List.mem_cons_self)
  | @finished topLevel inSubroutine s l _ ds f node ahead verdict =>
    cases node with
    | none =>
      obtain hk | ⟨-, herror⟩ := judge_done verdict
      · exact Reading.ordinary_pragma ahead (beq_iff_eq.mpr hk)
      · obtain ⟨line, cause, herror⟩ := herror rfl
        cases hclean.symm.trans (hasErrors_of_reported (List.prefix_refl _) herror)
    | some n =>
      have hn : Node.lineCount [n] = 1 := by
        rcases judge_finished verdict with rfl | rfl | ⟨name, rfl⟩ | ⟨rfl, -⟩ <;> rfl
      show s.ordinary = s.advance.ordinary + Node.lineCount [n]
      rw [hn]
      exact Reading.ordinary_succ ahead (not_isPragma_of_judge verdict nofun)
  | @opens topLevel inSubroutine s t l _ ds b node ns ahead verdict _ ih =>
    have hbody := ih (builtIn_of_opens verdict) hclean
    have hfirst := Reading.ordinary_succ ahead (not_isPragma_of_judge verdict nofun)
    have hnode : Node.lineCount [node ns] = Node.lineCount ns + 2 := by
      rcases judge_opens verdict with ⟨kind, selector, -, rfl, -⟩ | ⟨name, -, rfl, -⟩ <;>
        simp only [Node.lineCount, Node.countAll_singleton, Node.count, Node.hasBlock, if_true] <;>
        omega
    show s.ordinary = t.ordinary + Node.lineCount [node ns]
    have hadvance : (s.advance.reports ds).ordinary = s.advance.ordinary := rfl
    have hclosings : (Part.block b).closings = 1 := rfl
    omega
  | @unclosed b s ahead =>
    have herror : hasErrors (s.report (.error b.line b.unclosed)).journal = true :=
      hasErrors_of_reported (List.prefix_refl _) (List.mem_singleton_self _)
    cases hclean.symm.trans herror
  | close ahead closing =>
    exact Reading.ordinary_succ ahead (Line.not_isPragma_of_closing (closing ▸ hpart.1))
  | next _ _ _ others ih₁ ih₂ =>
    have hfirst := ih₁ trivial (hasErrors_mono hclean others.journal)
    have hothers := ih₂ hpart hclean
    simp only [Part.closings] at hfirst hothers ⊢
    rw [Node.lineCount_append]
    omega

theorem ReadsScript.ordinary_eq {s t : Reading} {tree : Tree A} (h : ReadsScript g s tree t)
    (hclean : hasErrors t.journal = false) :
    s.ordinary = tree.count (fun _ => true) + tree.count Node.hasBlock := by
  induction h with
  | @done s ahead =>
    rw [Reading.ordinary, ahead]
    rfl
  | next _ first others ih =>
    have hfirst := first.ordinary_eq trivial (hasErrors_mono hclean others.journal)
    have hothers := ih hclean
    simp only [Part.closings, Node.lineCount] at hfirst
    rw [Tree.count_foldr_cons, Tree.count_foldr_cons]
    omega

/-- No line is lost where there is no error: there are as many lines as
statements at all depths of the tree, lines that close a block, one for each
`run`, `loop` and definition, and pragmas. -/
theorem error_free_reading_loses_no_line (g : Grammar A) (f : Features) (lines : List Line) :
    ∃ tree s, Reader.read { grammar := g, table := .builtin } f ⟨lines, []⟩ = .ok tree s ∧
      (hasErrors s.journal = false →
        lines.length = tree.count (fun _ => true) + tree.count Node.hasBlock +
          lines.countP (·.isPragma)) := by
  obtain ⟨tree, s, hread, hreads⟩ := Reader.read_reads g f ⟨lines, []⟩
  refine ⟨tree, s, hread, fun hclean => ?_⟩
  have hordinary : lines.countP (!·.isPragma) = _ := hreads.ordinary_eq hclean
  rw [List.length_eq_countP_add_countP (·.isPragma), ← hordinary, Nat.add_comm]
  simp only [Bool.not_eq_true, Bool.decide_eq_false]

/-- Blocks in blocks and a definition, with pragmas inside and between them, and
a line that has become a command because a pragma has closed its gate. -/
def pageant : List Line :=
  [⟨"pragma enable subroutines", 0⟩, ⟨"run as guest \x7b", 1⟩, ⟨"loop as child \x7b", 2⟩,
    ⟨"pragma disable debug", 3⟩, ⟨"break", 4⟩, ⟨"\x7d", 5⟩, ⟨"subroutine_call wave", 6⟩,
    ⟨"\x7d", 7⟩, ⟨"subroutine wave", 8⟩, ⟨"subroutine_return", 9⟩, ⟨"end", 10⟩,
    ⟨"pragma enable cfv2", 11⟩, ⟨"run as guest \x7b", 12⟩, ⟨"return", 13⟩]

theorem pageant_loses_no_line : ∃ tree s,
    Reader.read { grammar := Host.wordsGrammar, table := .builtin } {} ⟨pageant, []⟩ =
      .ok tree s ∧
    hasErrors s.journal = false ∧
    pageant.length = tree.count (fun _ => true) + tree.count Node.hasBlock +
      pageant.countP (·.isPragma) := by
  obtain ⟨tree, s, hread, hlength⟩ :=
    error_free_reading_loses_no_line Host.wordsGrammar {} pageant
  have hclean : hasErrors s.journal = false := by
    have hend : hasErrors (endOf (Reader.read
        { grammar := Host.wordsGrammar, table := .builtin } {} ⟨pageant, []⟩)).journal = false := by
      decide +kernel
    rwa [hread] at hend
  exact ⟨tree, s, hread, hclean, hlength hclean⟩

end CommandScript
