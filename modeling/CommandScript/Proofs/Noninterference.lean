import CommandScript.Proofs.Totality
import CommandScript.Proofs.Transfer

/-!
# The dump feature decides nothing

With the feature for dumps a compile shows its tree and its instructions, and
puts the program together in a listing. It is kept among the features that
open and close the gates of statement forms, and pragmas switch it like the
others. Still no verdict depends on it (`indistinct_dump`), so that two
compiles of a script that start with different settings of it read the same
tree and report the same. The listing gives the program of the assembly.
-/

namespace CommandScript

variable {A : Type}

/-- The features agree, but perhaps for the one for dumps. -/
structure Features.AgreeButDump (f f' : Features) : Prop where
  controlFlowV2 : f.controlFlowV2 = f'.controlFlowV2
  subroutines : f.subroutines = f'.subroutines

namespace Features.AgreeButDump

variable {f f' : Features}

theorem set (h : f.AgreeButDump f') (feature : Feature) (on : Bool) :
    (f.set feature on).AgreeButDump (f'.set feature on) := by
  cases feature with
  | controlFlowV2 => exact ⟨rfl, h.subroutines⟩
  | subroutines => exact ⟨h.controlFlowV2, rfl⟩
  | debugDump => exact ⟨h.controlFlowV2, h.subroutines⟩

theorem isOpen_blockGate (h : f.AgreeButDump f') :
    Form.blockGate.isOpen f = Form.blockGate.isOpen f' :=
  congrArg (!·) h.controlFlowV2

theorem isOpen_subroutineGate (h : f.AgreeButDump f') :
    Form.subroutineGate.isOpen f = Form.subroutineGate.isOpen f' :=
  h.subroutines

end Features.AgreeButDump

/-! ## Verdicts -/

namespace Verdict.Alike

variable {E : Features → Features → Prop} {f f' : Features} {st : Statement}

theorem gated {gate : Gate} {v v' : Verdict A} (hgate : gate.isOpen f = gate.isOpen f')
    (h : v.Alike E v') : (Verdict.gated gate st f v).Alike E (.gated gate st f' v') := by
  rw [Verdict.gated, Verdict.gated, hgate]
  split
  · exact h
  · exact .command _

theorem ofIteration (g : Grammar A) (kind : Iteration) (st : Statement) :
    (Verdict.ofIteration g kind st).Alike E (.ofIteration g kind st) := by
  obtain h | ⟨ds, selector, -, -, h⟩ := Verdict.ofIteration_cases g kind st
  · rw [h]
    exact .command _
  · rw [h]
    exact .opens _ _ _

theorem ofBare (keyword : String) (node : Nat → Node A) (h : E f f') :
    (Verdict.ofBare keyword node st f).Alike E (.ofBare keyword node st f') := by
  rw [Verdict.ofBare, Verdict.ofBare]
  split
  · exact .finished _ _ h
  · exact .command _

theorem ofDefinition (h : E f f') :
    (Verdict.ofDefinition st f : Verdict A).Alike E (.ofDefinition st f') := by
  simp only [Verdict.ofDefinition]
  cases (Token.words st.text)[1]? with
  | none => exact .finished _ _ h
  | some name => exact .opens _ _ _

/-- A pragma switches the same feature in both, or none. -/
theorem ofPragma (h : f.AgreeButDump f') :
    (Verdict.ofPragma st f : Verdict A).Alike Features.AgreeButDump (.ofPragma st f') := by
  simp only [Verdict.ofPragma, Features.setNamed?]
  split
  · rename_i flag _
    cases Feature.ofName? flag with
    | none => exact .finished _ _ h
    | some feature => exact .finished _ _ (h.set feature true)
  · rename_i flag _
    cases Feature.ofName? flag with
    | none => exact .finished _ _ h
    | some feature => exact .finished _ _ (h.set feature false)
  · exact .finished _ _ h

end Verdict.Alike

/-- No line is judged by the feature for dumps. -/
theorem indistinct_dump (g : Grammar A) : Indistinct g Features.AgreeButDump := by
  intro st f f' h
  unfold judge
  split
  · exact .ofPragma h
  · exact .ofBare _ _ h
  · exact .ofBare _ _ h
  · exact .gated h.isOpen_blockGate (.ofIteration g .run st)
  · exact .gated h.isOpen_blockGate (.ofIteration g .loop st)
  · exact .finished _ _ h
  · exact .gated h.isOpen_subroutineGate (.ofDefinition h)
  · exact .gated h.isOpen_subroutineGate (.finished _ _ h)
  · exact .gated h.isOpen_subroutineGate (.finished _ _ h)
  · exact .command _

/-! ## Compiles -/

/-- What is read does not depend on the feature for dumps. -/
theorem Reader.read_agree (g : Grammar A) {f f' : Features} (h : f.AgreeButDump f')
    (lines : Line.Assembled) :
    ∃ tree s s', Reader.read { grammar := g, table := .builtin } f lines = .ok tree s ∧
      Reader.read { grammar := g, table := .builtin } f' lines = .ok tree s' ∧
      s.journal = s'.journal ∧ s.features.AgreeButDump s'.features := by
  obtain ⟨tree, s, hread, hreads⟩ := Reader.read_reads g f lines
  obtain ⟨tree', s', hread', hreads'⟩ := Reader.read_reads g f' lines
  have hstart : Reading.Echoes Features.AgreeButDump []
      ⟨.ofLines lines.lines, f, lines.diagnostics⟩ ⟨.ofLines lines.lines, f', lines.diagnostics⟩ :=
    ⟨(List.append_nil _).symm, h⟩
  obtain ⟨ds, hds, hecho⟩ := hreads.echo (indistinct_dump g)
  obtain ⟨t, hrest, hfeatures, hjournal, hbehind⟩ := hecho (.inl rfl) hstart
  have hagain := hbehind {} t (.done hrest)
  rw [Tree.append_empty] at hagain
  obtain ⟨rfl, rfl⟩ := hreads'.unique hagain
  exact ⟨tree', s, s', hread, hread', hds.trans hjournal.symm, hfeatures⟩

/-- The report of a compile shows its diagnostics. -/
theorem Compiler.report_eq [Shown A] {compiler : Compiler A} {id : String} {source : List String}
    {c : Compilation A} (h : compiler.compile id source = .ok c) :
    c.report = Report.ofDiagnostics id compiler.options.radius source c.diagnostics := by
  rw [Compiler.compile] at h
  split at h
  · obtain ⟨_, -, h⟩ := bind_eq_ok h
    obtain ⟨draft, -, h⟩ := bind_eq_ok h
    split at h
    · obtain ⟨_, -, h⟩ := bind_eq_ok h
      obtain rfl := Except.ok.inj h
      rfl
    · obtain ⟨program, -, h⟩ := bind_eq_ok h
      obtain rfl := Except.ok.inj h
      rfl
  · cases h

/-- The feature for dumps never changes what is compiled: whatever it is set
to at the start, and whatever the pragmas of a script do to it, the program,
the diagnostics and the report are the same. -/
theorem dump_feature_changes_nothing [Shown A] (g : Grammar A) (f : Features) (radius : Nat)
    (id : String) (source : List String) :
    ∃ c c', Compiler.compile { grammar := g, options := ⟨radius, f.set .debugDump true⟩ } id
        source = .ok c ∧
      Compiler.compile { grammar := g, options := ⟨radius, f.set .debugDump false⟩ } id
        source = .ok c' ∧
      c.program = c'.program ∧ c.diagnostics = c'.diagnostics ∧ c.report = c'.report := by
  have hagree : (f.set .debugDump true).AgreeButDump (f.set .debugDump false) := ⟨rfl, rfl⟩
  obtain ⟨tree, s, s', hread, hread', hjournal, -⟩ :=
    Reader.read_agree g hagree (Line.assemble source)
  obtain ⟨d, hlower, hlinks⟩ := tree.lower_links
  have hcompile (f : Features) (s : Reading)
      (h : Reader.read { grammar := g, table := .builtin } f (Line.assemble source) = .ok tree s) :
      ∃ c, Compiler.compile { grammar := g, options := ⟨radius, f⟩ } id source = .ok c ∧
        c.diagnostics = s.journal ++ d.journal ∧
        c.program = if hasErrors (s.journal ++ d.journal) then none else some ⟨id, tree.layout⟩ :=
    Compiler.compile_eq_ok h hlower hlinks id
  obtain ⟨c, hc, hdiagnostics, hprogram⟩ := hcompile _ s hread
  obtain ⟨c', hc', hdiagnostics', hprogram'⟩ := hcompile _ s' hread'
  have hsame : c.diagnostics = c'.diagnostics := by
    rw [hdiagnostics, hdiagnostics', hjournal]
  refine ⟨c, c', hc, hc', ?_, hsame, ?_⟩
  · rw [hprogram, hprogram', hjournal]
  · rw [Compiler.report_eq hc, Compiler.report_eq hc', hsame]

end CommandScript
