import CommandScript.Proofs.Lexing
import CommandScript.Proofs.Linking
import CommandScript.Proofs.Reading

/-!
# Compiling never faults

With the built-in forms a compile ends with a compilation, whatever the
grammar answers and whatever is wrong with the script. Reading moves past
every line (`Reader.readTree_reads`), and lowering binds every label once
(`Tree.lower_links`). What is looked up by number on the way is there: the
ends of tokens lie in the text, an instruction that waits for an offset is
given one, and a listing has a name for each instruction and an entry for
each label it shows (`Listing.Complete`).
-/

namespace CommandScript

variable {A : Type}

/-- What binds is a label that there is and that was not bound. -/
theorem Assembly.bind_cases {g g' : Assembly A} {l : Label} (h : g.bind l = .ok g') :
    ∃ e, g.labels[l.index]? = some e ∧ e.offset = none ∧
      g' = { g with labels := g.labels.setIfInBounds l.index { e with offset := some g.size } } := by
  obtain ⟨e, he, h⟩ := bind_eq_ok h
  split at h
  · cases h
  · rename_i ho
    refine ⟨e, ?_, ho, (Except.ok.inj h).symm⟩
    rw [Assembly.entry] at he
    split at he
    · rename_i hsome
      rw [hsome, Except.ok.inj he]
    · cases he

/-! ## Listings -/

/-- The dump of a listing finds what it looks up: a name for each
instruction, if only an absent one, and the entries of the labels bound. -/
structure Listing.Complete (l : Listing A) : Prop where
  names : l.names.size = l.assembly.size
  marks : ∀ m ∈ l.marks, m.2.index < l.assembly.labels.size

namespace Listing.Complete

variable {l l' : Listing A}

/-- A directive that adds an instruction adds a name. -/
theorem push (h : l.Complete) (name : Option String) (slot : Slot A) :
    Complete { l with names := l.names.push name, assembly := l.assembly.push slot } where
  names := by simp only [Array.size_push, h.names, Assembly.size, Assembly.push]
  marks := h.marks

theorem perform (h : l.Complete) {x : Directive A} (hx : l.perform x = .ok l') : l'.Complete := by
  obtain ⟨g, hg, hx⟩ := bind_eq_ok hx
  obtain rfl := Except.ok.inj hx
  cases x with
  | define name =>
    obtain rfl := Except.ok.inj hg
    refine ⟨h.names, fun m hm => ?_⟩
    rw [Array.size_push]
    exact Nat.lt_succ_of_lt (h.marks m hm)
  | bind label =>
    obtain ⟨e, hl, -, rfl⟩ := Assembly.bind_cases hg
    refine ⟨h.names, fun m hm => ?_⟩
    rw [Array.size_setIfInBounds]
    rcases Array.mem_push.mp hm with hm | rfl
    · exact h.marks m hm
    · exact (Array.getElem?_eq_some_iff.mp hl).1
  | plain action =>
    obtain rfl := Except.ok.inj hg
    exact h.push _ _
  | control name i =>
    obtain rfl := Except.ok.inj hg
    exact h.push _ _
  | defer d =>
    obtain rfl := Except.ok.inj hg
    exact h.push _ _
  | link =>
    obtain ⟨linked, hl, hg⟩ := bind_eq_ok hg
    obtain rfl := Except.ok.inj hg
    refine ⟨h.names.trans ?_, h.marks⟩
    simp only [Assembly.size, List.size_toArray, List.length_map, length_of_mapM_ok hl,
      Array.length_toList]

/-- What one directive keeps, a run keeps. -/
theorem run (h : l.Complete) {code : List (Directive A)} (hc : l.run code = .ok l') :
    l'.Complete := by
  induction code generalizing l with
  | nil =>
    obtain rfl := Except.ok.inj hc
    exact h
  | cons x code ih =>
    obtain ⟨l₁, hx, hc⟩ := bind_eq_ok hc
    exact ih (h.perform hx) hc

end Listing.Complete

/-! ## Compiling -/

/-- Every instruction that waits does so for one label, and the label is bound. -/
def Assembly.Resolves (g : Assembly A) : Prop :=
  ∀ x, .pending x ∈ g.slots.toList → ∃ l n, x.targets = [l] ∧ g.resolve l = .ok n

theorem Draft.Links.resolves {d : Draft A} {code : List (Instruction A)} (h : d.Links code) :
    ∃ g, Assembly.run {} d.code.toList = .ok g ∧ g.Resolves := by
  obtain ⟨ls, ss, ρ, g, hρ, hr, -⟩ := h
  refine ⟨_, g.1, fun x hx => ?_⟩
  obtain ⟨l, hx, hl⟩ := hr x (by simpa [Assembly.of] using hx)
  exact ⟨l, ρ l, hx, Assembly.resolve_of hρ ss hl⟩

namespace Compiler

/-- What a compile with the built-in forms reads from the lines of a file. -/
theorem read_reads (g : Grammar A) (options : Options) (source : List String) :
    ∃ tree s, Reader.read { grammar := g, table := .builtin } options.features
        (Line.assemble source) = .ok tree s ∧
      ReadsScript g ⟨.ofLines (Line.assemble source).lines, options.features,
        (Line.assemble source).diagnostics⟩ tree s :=
  Reader.read_reads g options.features (Line.assemble source)

/-- The errors a report tells of are those of its diagnostics. -/
theorem hasErrors_ofDiagnostics (unit : String) (radius : Nat) (source : List String)
    (ds : List Diagnostic) :
    (Report.ofDiagnostics unit radius source ds).hasErrors = hasErrors ds := by
  cases ds <;> rfl

/-- A compile gives the code of what it reads, unless there is an error. -/
theorem compile_eq_ok [Shown A] {g : Grammar A} {options : Options} {source : List String}
    {tree : Tree A} {s : Reading} {d : Draft A} {code : List (Instruction A)}
    (hread : Reader.read { grammar := g, table := .builtin } options.features
      (Line.assemble source) = .ok tree s)
    (hlower : tree.lower {} = .ok d) (hlinks : d.Links code) (id : String) :
    ∃ c, Compiler.compile { grammar := g, options } id source = .ok c ∧
      c.diagnostics = s.journal ++ d.journal ∧
      c.program = if hasErrors (s.journal ++ d.journal) then none else some ⟨id, code⟩ := by
  obtain ⟨l, -, hl⟩ := hlinks.toListing id
  rw [Compiler.compile]
  simp only [hread, hlower, hl, hlinks.toProgram id, bind, Except.bind, pure, Except.pure,
    hasErrors_ofDiagnostics]
  split <;> exact ⟨_, rfl, rfl, rfl⟩

/-- A compile is accepted if evaluating it finds a program. -/
theorem exists_program [Shown A] (compiler : Compiler A) (id : String) (source : List String)
    (h : ((compiler.compile id source).toOption.bind (·.program)).isSome = true) :
    ∃ c p, compiler.compile id source = .ok c ∧ c.program = some p := by
  cases hc : compiler.compile id source with
  | error fault =>
    rw [hc] at h
    cases h
  | ok c =>
    rw [hc] at h
    obtain ⟨p, hp⟩ := Option.isSome_iff_exists.mp h
    exact ⟨c, p, rfl, hp⟩

/-- What is accepted was read and lowered without an error, and its program is
the layout of what was read. -/
theorem of_accepted [Shown A] {g : Grammar A} {options : Options} {id : String}
    {source : List String} {c : Compilation A} {p : Program A}
    (hc : Compiler.compile { grammar := g, options } id source = .ok c)
    (hp : c.program = some p) :
    ∃ tree s d, Reader.read { grammar := g, table := .builtin } options.features
        (Line.assemble source) = .ok tree s ∧
      ReadsScript g ⟨.ofLines (Line.assemble source).lines, options.features,
        (Line.assemble source).diagnostics⟩ tree s ∧
      tree.lower {} = .ok d ∧ hasErrors (s.journal ++ d.journal) = false ∧
      p.instructions = tree.layout := by
  obtain ⟨tree, s, hread, hreads⟩ := read_reads g options source
  obtain ⟨d, hlower, hlinks⟩ := tree.lower_links
  obtain ⟨c', hc', -, hprogram⟩ := compile_eq_ok hread hlower hlinks id
  obtain rfl : c = c' := Except.ok.inj (hc.symm.trans hc')
  rw [hprogram] at hp
  split at hp
  · cases hp
  · rename_i herrors
    obtain rfl := Option.some.inj hp
    exact ⟨tree, s, d, hread, hreads, hlower, Bool.eq_false_iff.mpr herrors, rfl⟩

end Compiler

/-- Compiling with the built-in forms never faults: every script is read to
its end, lowered and linked, with every lookup by number in range. -/
theorem compile_never_faults [Shown A] (g : Grammar A) (options : Options) (id : String)
    (source : List String) :
    (∃ c, Compiler.compile { grammar := g, options } id source = .ok c) ∧
    (∀ line ∈ (Line.assemble source).lines,
      (∀ t ∈ Token.lex line.text, t.Slices 0 line.text.toList) ∧
        (Token.lex line.text).Pairwise (·.stop ≤ ·.start)) ∧
    ∃ tree s d assembly listing,
      Reader.read { grammar := g, table := .builtin } options.features
        (Line.assemble source) = .ok tree s ∧
      tree.lower {} = .ok d ∧
      Assembly.run {} d.code.toList = .ok assembly ∧ assembly.Resolves ∧
      Listing.run {} (d.code.toList ++ [.link]) = .ok listing ∧ listing.Complete := by
  obtain ⟨tree, s, hread, -⟩ := Compiler.read_reads g options source
  obtain ⟨d, hlower, hlinks⟩ := tree.lower_links
  obtain ⟨assembly, hrun, hresolves⟩ := hlinks.resolves
  obtain ⟨listing, hlisting, -⟩ := hlinks.toListing id
  have hcomplete : listing.Complete := Listing.Complete.run ⟨rfl, by simp⟩ hlisting
  obtain ⟨c, hc, -⟩ := Compiler.compile_eq_ok hread hlower hlinks id
  refine ⟨⟨c, hc⟩, ?_, tree, s, d, assembly, listing, hread, hlower, hrun, hresolves, hlisting,
    hcomplete⟩
  exact fun line _ => ⟨Token.slices_lex line.text, Token.ordered_lex line.text⟩

end CommandScript
