import CommandScript.Proofs.Transfer
import Mathlib.Logic.Relation

/-!
# Lines passed one by one

However the blocks of a script nest, reading passes its lines in order and
each of them once; where they end, it may still report blocks that are open.
`Reading.Move` says what one such move can do. What it reports of a line is
about that line and belongs to the form of its keyword (`Passes.reports`), and
no line but a pragma changes the features (`Passes.features_eq`).

A reading is a sequence of moves (`Reads.moves`, `ReadsScript.moves`). So a
value that every move keeps is the same before and after a reading
(`Moves.keep`). One such value is what was reported of some kind together with
what the lines ahead will add to it (`Reading.Move.account`).
-/

namespace CommandScript

variable {A : Type} {g : Grammar A}

/-! ## What a verdict reports -/

/-- The diagnostics of a verdict. -/
def Verdict.reports : Verdict A → List Diagnostic
  | command ds => ds
  | finished ds _ _ => ds
  | opens ds _ _ => ds

/-- The keywords of the forms that report a cause of the lines they are given. -/
def Cause.keywords : Cause → List String
  | pragmaForm => ["pragma"]
  | unknownFeature _ => ["pragma"]
  | blocksOff => ["run", "loop"]
  | strayBrace => ["\x7d"]
  | badSelector kind _ => [kind.keyword]
  | subroutinesOff => ["subroutine", "subroutine_call", "subroutine_return"]
  | nestedSubroutine => ["subroutine"]
  | definitionForm => ["subroutine"]
  | callForm => ["subroutine_call"]
  | returnForm => ["subroutine_return"]
  | returnOutside => ["subroutine_return"]
  | _ => []

/-- The diagnostic `d` is about the line `line`, and reported by the form of
`keyword`. -/
def Diagnostic.IsOf (d : Diagnostic) (line : Nat) (keyword : String) : Prop :=
  d.line = line ∧ keyword ∈ d.cause.keywords

section Reports

variable {st : Statement} {f : Features} {d x : Diagnostic} {line : Nat} {keyword : String}

theorem Diagnostic.IsOf.of_mem_singleton (hx : x.IsOf line keyword) (h : d ∈ [x]) :
    d.IsOf line keyword :=
  List.mem_singleton.mp h ▸ hx

theorem Diagnostic.IsOf.of_mem_ite (hx : x.IsOf line keyword) {p : Prop} [Decidable p]
    (h : d ∈ if p then [] else [x]) : d.IsOf line keyword := by
  split at h
  · cases h
  · exact hx.of_mem_singleton h

namespace Verdict

theorem mem_reports_gated {gate : Gate} {v : Verdict A} (h : d ∈ (gated gate st f v).reports) :
    d = .warning st.line gate.closed ∨ d ∈ v.reports := by
  rw [gated] at h
  split at h
  · exact .inr h
  · exact .inl (List.mem_singleton.mp h)

theorem isOf_ofPragma (h : d ∈ (ofPragma st f : Verdict A).reports) :
    d.IsOf st.line "pragma" := by
  have hform : (Diagnostic.error st.line .pragmaForm).IsOf st.line "pragma" :=
    ⟨rfl, List.mem_cons_self⟩
  have hflag (flag : String) :
      (Diagnostic.error st.line (.unknownFeature flag)).IsOf st.line "pragma" :=
    ⟨rfl, List.mem_cons_self⟩
  simp only [ofPragma] at h
  split at h
  · split at h
    · cases h
    · exact (hflag _).of_mem_singleton h
  · split at h
    · cases h
    · exact (hflag _).of_mem_singleton h
  · exact hform.of_mem_singleton h

theorem reports_ofBare (keyword : String) (node : Nat → Node A) :
    (ofBare keyword node st f).reports = [] := by
  rw [ofBare]
  split <;> rfl

theorem isOf_ofIteration {kind : Iteration} (h : d ∈ (ofIteration g kind st).reports) :
    d.IsOf st.line kind.keyword := by
  have hselector (reason : String) :
      (Diagnostic.error st.line (.badSelector kind reason)).IsOf st.line kind.keyword :=
    ⟨rfl, List.mem_cons_self⟩
  simp only [ofIteration] at h
  split at h
  · cases h
  · split at h
    · split at h
      · cases h
      · exact (hselector _).of_mem_singleton h
    · cases h

theorem reports_ofDefinition (st : Statement) (f : Features) :
    (ofDefinition st f : Verdict A).reports =
      (if st.topLevel then [] else [.error st.line .nestedSubroutine]) ++
        if (Token.words st.text).length = 2 then [] else [.error st.line .definitionForm] := by
  simp only [ofDefinition]
  cases (Token.words st.text)[1]? <;> rfl

theorem isOf_ofDefinition (h : d ∈ (ofDefinition st f : Verdict A).reports) :
    d.IsOf st.line "subroutine" := by
  rw [reports_ofDefinition] at h
  rcases List.mem_append.mp h with h | h
  · exact Diagnostic.IsOf.of_mem_ite ⟨rfl, List.mem_cons_self⟩ h
  · exact Diagnostic.IsOf.of_mem_ite ⟨rfl, List.mem_cons_self⟩ h

theorem isOf_ofCall (h : d ∈ (ofCall st f : Verdict A).reports) :
    d.IsOf st.line "subroutine_call" :=
  Diagnostic.IsOf.of_mem_ite ⟨rfl, List.mem_cons_self⟩ h

theorem isOf_ofReturn (h : d ∈ (ofReturn st f : Verdict A).reports) :
    d.IsOf st.line "subroutine_return" := by
  rcases List.mem_append.mp h with h | h
  · exact Diagnostic.IsOf.of_mem_ite ⟨rfl, List.mem_cons_self⟩ h
  · exact Diagnostic.IsOf.of_mem_ite ⟨rfl, List.mem_cons_self⟩ h

end Verdict

/-- What is reported of a line is about that line, and belongs to the form of
its keyword. -/
theorem judge_reports (h : d ∈ (judge g st f).reports) :
    d.IsOf st.line ((Text.leading? st.text).getD "") := by
  have hgated {gate : Gate} {v : Verdict A} {keyword : String}
      (hgate : keyword ∈ gate.closed.keywords) (hv : d ∈ v.reports → d.IsOf st.line keyword)
      (h : d ∈ (Verdict.gated gate st f v).reports) : d.IsOf st.line keyword := by
    rcases Verdict.mem_reports_gated h with rfl | h
    · exact ⟨rfl, hgate⟩
    · exact hv h
  unfold judge at h
  split at h
  · rename_i hk
    exact hk ▸ Verdict.isOf_ofPragma h
  · rw [Verdict.reports_ofBare] at h
    cases h
  · rw [Verdict.reports_ofBare] at h
    cases h
  · rename_i hk
    exact hk ▸ hgated (by decide) Verdict.isOf_ofIteration h
  · rename_i hk
    exact hk ▸ hgated (by decide) Verdict.isOf_ofIteration h
  · rename_i hk
    exact hk ▸ Diagnostic.IsOf.of_mem_singleton ⟨rfl, List.mem_cons_self⟩ h
  · rename_i hk
    exact hk ▸ hgated (by decide) Verdict.isOf_ofDefinition h
  · rename_i hk
    exact hk ▸ hgated (by decide) Verdict.isOf_ofCall h
  · rename_i hk
    exact hk ▸ hgated (by decide) Verdict.isOf_ofReturn h
  · cases h

theorem judge_pragma (hk : (Text.leading? st.text).getD "" = "pragma") :
    judge g st f = .ofPragma st f := by
  unfold judge
  rw [hk]
  rfl

theorem Verdict.finished_of_gated {gate : Gate} {v : Verdict A} {ds : List Diagnostic}
    {f' : Features} {node : Option (Node A)} (h : gated gate st f v = .finished ds f' node) :
    v = .finished ds f' node :=
  of_gated h (by simp)

/-- A line that is done with at once is a pragma, or else leaves the features
as they are and gives a statement, unless there is an error. -/
theorem judge_done {ds : List Diagnostic} {f' : Features} {node : Option (Node A)}
    (h : judge g st f = .finished ds f' node) :
    (Text.leading? st.text).getD "" = "pragma" ∨
      f' = f ∧ (node = none → ∃ line cause, .error line cause ∈ ds) := by
  have hiteration (kind : Iteration) : Verdict.ofIteration g kind st ≠ .finished ds f' node := by
    intro h
    obtain h' | ⟨_, _, -, -, h'⟩ := Verdict.ofIteration_cases g kind st <;> cases h'.symm.trans h
  -- A definition and a call give nothing only if they name nothing.
  have hform {words : List String} (hnone : words[1]? = none) (cause : Cause) :
      Diagnostic.error st.line cause ∈
        if words.length = 2 then [] else [Diagnostic.error st.line cause] := by
    have hlength : words.length ≠ 2 := by
      have := List.getElem?_eq_none_iff.mp hnone
      omega
    rw [if_neg hlength]
    exact List.mem_cons_self
  unfold judge at h
  split at h
  · rename_i hk
    exact .inl hk
  · rw [Verdict.ofBare] at h
    split at h <;> cases h
    exact .inr ⟨rfl, fun h => absurd h (by simp)⟩
  · rw [Verdict.ofBare] at h
    split at h <;> cases h
    exact .inr ⟨rfl, fun h => absurd h (by simp)⟩
  · exact absurd (Verdict.finished_of_gated h) (hiteration .run)
  · exact absurd (Verdict.finished_of_gated h) (hiteration .loop)
  · cases h
    exact .inr ⟨rfl, fun _ => ⟨_, _, List.mem_cons_self⟩⟩
  · have h := Verdict.finished_of_gated h
    simp only [Verdict.ofDefinition] at h
    split at h
    · rename_i hnone
      cases h
      exact .inr ⟨rfl, fun _ => ⟨_, _, List.mem_append_right _ (hform hnone .definitionForm)⟩⟩
    · cases h
  · have h := Verdict.finished_of_gated h
    simp only [Verdict.ofCall, Verdict.finished.injEq] at h
    obtain ⟨rfl, rfl, rfl⟩ := h
    exact .inr ⟨rfl, fun hnode => ⟨_, _, hform (Option.map_eq_none_iff.mp hnode) .callForm⟩⟩
  · cases Verdict.finished_of_gated h
    exact .inr ⟨rfl, fun h => absurd h (by simp)⟩
  · cases h

end Reports

/-! ## Moves -/

/-- `Passes g l f ds f'`: the line `l` can be passed under the features `f`
with `ds` reported and the features `f'` from there on. -/
inductive Passes (g : Grammar A) (l : Line) (f : Features) :
    List Diagnostic → Features → Prop where
  | accepted {topLevel inSubroutine : Bool} {ds : List Diagnostic} {a : A}
      (verdict : judge g (Reader.statementOf l topLevel inSubroutine) f = .command ds)
      (command : g.command l.text = .ok a) : Passes g l f ds f
  | refused {topLevel inSubroutine : Bool} {ds : List Diagnostic} {e : SyntaxError}
      (verdict : judge g (Reader.statementOf l topLevel inSubroutine) f = .command ds)
      (command : g.command l.text = .error e) :
      Passes g l f (ds ++ [.error l.number (.badCommand e.message)]) f
  | finished {topLevel inSubroutine : Bool} {ds : List Diagnostic} {f' : Features}
      {node : Option (Node A)}
      (verdict : judge g (Reader.statementOf l topLevel inSubroutine) f = .finished ds f' node) :
      Passes g l f ds f'
  | opens {topLevel inSubroutine : Bool} {ds : List Diagnostic} {b : Opening}
      {node : List (Node A) → Node A}
      (verdict : judge g (Reader.statementOf l topLevel inSubroutine) f = .opens ds b node) :
      Passes g l f ds f
  | closes (closing : l.text = "\x7d" ∨ l.text = "end") : Passes g l f [] f

/-- One move of a reading: the line ahead is passed, or, where there is none, a
block is reported to be open. -/
inductive Reading.Move (g : Grammar A) : Reading → Reading → Prop where
  | pass {s : Reading} {l : Line} {rest : List Line} {ds : List Diagnostic} {f : Features}
      (ahead : s.cursor.rest = l :: rest) (passes : Passes g l s.features ds f) :
      Move g s { s.advance.reports ds with features := f }
  | unclosed {s : Reading} {line : Nat} {cause : Cause} (ahead : s.cursor.rest = [])
      (isOpen : cause.isUnclosed = true) : Move g s (s.report (.error line cause))

/-- Any number of moves. -/
abbrev Moves (g : Grammar A) : Reading → Reading → Prop := Relation.ReflTransGen (Reading.Move g)

namespace Passes

variable {l : Line} {f f' : Features} {ds : List Diagnostic}

/-- The line that closes a block has no keyword of a form, but for the brace. -/
theorem keywordOf_closing (h : l.text = "\x7d" ∨ l.text = "end") :
    Reader.keywordOf l = "\x7d" ∨ Reader.keywordOf l = "end" := by
  rcases h with h | h
  · left
    rw [Reader.keywordOf, h]
    decide
  · right
    rw [Reader.keywordOf, h]
    decide

/-- What is reported where a line is passed is of the form of its keyword, or
else says that the host's grammar refuses the line. -/
theorem reports (h : Passes g l f ds f') {d : Diagnostic} (hd : d ∈ ds) :
    d.IsOf l.number (Reader.keywordOf l) ∨
      ∃ reason, d = .error l.number (.badCommand reason) := by
  have hjudged {topLevel inSubroutine : Bool} {v : Verdict A}
      (hv : judge g (Reader.statementOf l topLevel inSubroutine) f = v) (hd : d ∈ v.reports) :
      d.IsOf l.number (Reader.keywordOf l) := by
    subst hv
    exact judge_reports hd
  cases h with
  | accepted verdict | finished verdict | opens verdict => exact .inl (hjudged verdict hd)
  | refused verdict =>
    rcases List.mem_append.mp hd with hd | hd
    · exact .inl (hjudged verdict hd)
    · exact .inr ⟨_, List.mem_singleton.mp hd⟩
  | closes => cases hd

/-- Only pragmas change the features. -/
theorem features_eq (h : Passes g l f ds f') (hk : Reader.keywordOf l ≠ "pragma") : f' = f := by
  cases h with
  | accepted | refused | opens | closes => rfl
  | finished verdict =>
    obtain hpragma | ⟨hf, -⟩ := judge_done verdict
    · exact absurd hpragma hk
    · exact hf

end Passes

/-! ## Readings are made of moves -/

/-- A block as the built-in forms open it. -/
def Part.BuiltIn : Part → Prop
  | statement _ _ => True
  | block b => (b.terminator = "\x7d" ∨ b.terminator = "end") ∧ b.unclosed.isUnclosed = true

theorem builtIn_of_opens {st : Statement} {f : Features} {ds : List Diagnostic} {b : Opening}
    {node : List (Node A) → Node A} (h : judge g st f = .opens ds b node) :
    (Part.block b).BuiltIn := by
  refine ⟨?_, isUnclosed_of_opens h⟩
  rcases judge_opens h with ⟨kind, selector, rfl, -⟩ | ⟨name, rfl, -⟩
  · exact .inl rfl
  · exact .inr rfl

theorem Reading.reports_reports (s : Reading) (ds ds' : List Diagnostic) :
    (s.reports ds).reports ds' = s.reports (ds ++ ds') := by
  simp [Reading.reports]

/-- What the host's grammar is given is passed. -/
theorem Reading.move_command {s : Reading} {l : Line} {rest : List Line} {ds : List Diagnostic}
    {topLevel inSubroutine : Bool} (ahead : s.cursor.rest = l :: rest)
    (verdict : judge g (Reader.statementOf l topLevel inSubroutine) s.features = .command ds) :
    Move g s ((s.reports ds).command g (Reader.statementOf l topLevel inSubroutine)).2 := by
  rcases (s.reports ds).command_cases g (Reader.statementOf l topLevel inSubroutine) with
    ⟨a, ha, h⟩ | ⟨e, he, h⟩
  · rw [h]
    exact .pass ahead (.accepted verdict ha)
  · rw [h]
    show Move g s ((s.advance.reports ds).reports [.error l.number (.badCommand e.message)])
    rw [Reading.reports_reports]
    exact .pass ahead (.refused verdict he)

theorem Reads.moves {part : Part} {s t : Reading} {ns : List (Node A)} (h : Reads g part s ns t)
    (hpart : part.BuiltIn) : Moves g s t := by
  induction h with
  | command ahead verdict => exact .single (Reading.move_command ahead verdict)
  | finished ahead verdict => exact .single (.pass ahead (.finished verdict))
  | opens ahead verdict _ ih =>
    exact .head (.pass ahead (.opens verdict)) (ih (builtIn_of_opens verdict))
  | unclosed ahead => exact .single (.unclosed ahead hpart.2)
  | @close b s l rest ahead closing =>
    have hpass := Reading.Move.pass ahead (.closes (g := g) (closing ▸ hpart.1))
    rw [Reading.reports_nil] at hpass
    exact .single hpass
  | next _ _ _ _ ih₁ ih₂ => exact (ih₁ trivial).trans (ih₂ hpart)

theorem ReadsScript.moves {s t : Reading} {tree : Tree A} (h : ReadsScript g s tree t) :
    Moves g s t := by
  induction h with
  | done => exact .refl
  | next _ first _ ih => exact (first.moves trivial).trans ih

/-- Reading a script ends where no lines are left. -/
theorem ReadsScript.rest_eq_nil {s t : Reading} {tree : Tree A} (h : ReadsScript g s tree t) :
    t.cursor.rest = [] := by
  induction h with
  | done ahead => exact ahead
  | next _ _ _ ih => exact ih

/-- A condition that moves keep holds at the end of a reading. -/
theorem Moves.invariant {P : Reading → Prop} (hP : ∀ {s t}, Reading.Move g s t → P s → P t)
    {s t : Reading} (h : Moves g s t) (hs : P s) : P t := by
  induction h with
  | refl => exact hs
  | tail _ last ih => exact hP last ih

/-- A value that moves keep under such a condition is the same at the end. -/
theorem Moves.keep_while {α : Type} {P : Reading → Prop} {get : Reading → α}
    (hP : ∀ {s t}, Reading.Move g s t → P s → P t)
    (hget : ∀ {s t}, Reading.Move g s t → P s → get t = get s) {s t : Reading} (h : Moves g s t)
    (hs : P s) : get t = get s := by
  have hboth : P t ∧ get t = get s := h.invariant (P := fun t => P t ∧ get t = get s)
    (fun move ih => ⟨hP move ih.1, (hget move ih.1).trans ih.2⟩) ⟨hs, rfl⟩
  exact hboth.2

/-- A value that moves keep is the same at the end of a reading. -/
theorem Moves.keep {α : Type} {get : Reading → α}
    (hget : ∀ {s t}, Reading.Move g s t → get t = get s) {s t : Reading} (h : Moves g s t) :
    get t = get s :=
  h.keep_while (P := fun _ => True) (fun _ h => h) (fun move _ => hget move) trivial

theorem Moves.remaining_le {s t : Reading} (h : Moves g s t) : t.remaining ≤ s.remaining := by
  refine h.invariant (P := fun t => t.remaining ≤ s.remaining) (fun {t u} move hle => ?_)
    (Nat.le_refl _)
  have hadvance := t.remaining_advance
  cases move with
  | pass =>
    show t.advance.remaining ≤ s.remaining
    omega
  | unclosed => exact hle

/-! ## Reports of one kind -/

/-- The reports of the kind `p` so far, and those that `report` makes of the
lines ahead which `q` selects. -/
def Reading.account (p : Diagnostic → Bool) (q : Line → Bool) (report : Line → Option Diagnostic)
    (s : Reading) : List Diagnostic :=
  s.journal.filter p ++ (s.cursor.rest.filter q).filterMap report

/-- If `report` says what every line adds to the reports of a kind, a move
takes nothing from the account and adds nothing to it. -/
theorem Reading.Move.account {p : Diagnostic → Bool} {q : Line → Bool}
    {report : Line → Option Diagnostic} {s t : Reading} (h : Move g s t)
    (hpass : ∀ {l rest ds f}, s.cursor.rest = l :: rest → Passes g l s.features ds f →
      ds.filter p = if q l then (report l).toList else [])
    (hopen : ∀ line cause, cause.isUnclosed = true → p (.error line cause) = false) :
    t.account p q report = s.account p q report := by
  cases h with
  | @pass l rest ds f ahead passes =>
    show (s.journal ++ ds).filter p ++ (s.advance.cursor.rest.filter q).filterMap report = _
    rw [Reading.account, rest_advance ahead, ahead, List.filter_append, hpass ahead passes,
      List.append_assoc]
    congr 1
    cases hl : q l with
    | true =>
      rw [List.filter_cons_of_pos hl, List.filterMap_cons, if_pos rfl]
      cases report l <;> rfl
    | false =>
      rw [List.filter_cons_of_neg (Bool.eq_false_iff.mp hl), if_neg Bool.false_ne_true]
      rfl
  | @unclosed line cause ahead isOpen =>
    have hnone : [Diagnostic.error line cause].filter p = [] :=
      List.filter_cons_of_neg (Bool.eq_false_iff.mp (hopen line cause isOpen))
    show (s.journal ++ [Diagnostic.error line cause]).filter p ++ _ = _
    rw [List.filter_append, hnone, List.append_nil]
    rfl

end CommandScript
