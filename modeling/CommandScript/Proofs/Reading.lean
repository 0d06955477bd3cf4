import CommandScript.Compile

/-!
# Reading with the built-in forms

What the built-in forms make of a line depends on nothing but the line, where
it stands and the features in force: `judge` says it outright. A line goes to
the host's grammar, or is done with at once, or opens a block, and only
certain statements can come of it (`judge_finished`, `judge_opens`).

`Reads` is the reading of statements and blocks as a relation with one rule
for each of these, and `ReadsScript` that of a script. A reader with the
built-in forms never faults, and what it reads is so related
(`Reader.step_reads`, `Reader.block_reads`, `Reader.readTree_reads`): facts about
reading are proved by induction on the rules.
-/

namespace CommandScript

variable {A : Type}

/-- The state with diagnostics added. -/
def Reading.reports (s : Reading) (ds : List Diagnostic) : Reading :=
  { s with journal := s.journal ++ ds }

/-! ## Verdicts -/

/-- What becomes of a line. -/
inductive Verdict (A : Type) where
  /-- It goes to the host's grammar, once `ds` are reported. -/
  | command (ds : List Diagnostic)
  /-- It is done with: `ds` are reported and the features are `f` from here on. -/
  | finished (ds : List Diagnostic) (f : Features) (node : Option (Node A))
  /-- It opens the block `b`, of whose statements `node` is made. -/
  | opens (ds : List Diagnostic) (b : Opening) (node : List (Node A) → Node A)

namespace Verdict

/-- A verdict that holds only where a gate is open. -/
def gated (gate : Gate) (st : Statement) (f : Features) (v : Verdict A) : Verdict A :=
  if gate.isOpen f then v else command [.warning st.line gate.closed]

def ofPragma (st : Statement) (f : Features) : Verdict A :=
  let switch (flag : String) (on : Bool) : Verdict A :=
    match f.setNamed? flag on with
    | some f' => finished [] f' none
    | none => finished [.error st.line (.unknownFeature flag)] f none
  match Token.words st.text with
  | ["pragma", "enable", flag] => switch flag true
  | ["pragma", "disable", flag] => switch flag false
  | _ => finished [.error st.line .pragmaForm] f none

def ofBare (keyword : String) (node : Nat → Node A) (st : Statement) (f : Features) : Verdict A :=
  if st.text = keyword then finished [] f (some (node st.line)) else command []

def ofIteration (g : Grammar A) (kind : Iteration) (st : Statement) : Verdict A :=
  let b : Opening := ⟨st.line, "\x7d", .unclosedBlock kind, st.inSubroutine⟩
  match Header.ofText? st.text with
  | none => command []
  | some header =>
    if header.keyword = kind.keyword then
      match g.selector kind header.selector with
      | .ok a => opens [] b fun body => .iterate kind (some a) body st.line
      | .error e =>
        opens [.error st.line (.badSelector kind e.message)] b fun body =>
          .iterate kind none body st.line
    else command []

def ofBrace (st : Statement) (f : Features) : Verdict A :=
  finished [.error st.line .strayBrace] f none

def ofDefinition (st : Statement) (f : Features) : Verdict A :=
  let words := Token.words st.text
  let ds := (if st.topLevel then [] else [.error st.line .nestedSubroutine]) ++
    if words.length = 2 then [] else [.error st.line .definitionForm]
  match words[1]? with
  | none => finished ds f none
  | some name =>
    opens ds ⟨st.line, "end", .unclosedSubroutine, true⟩ fun body => .define name st.line body

def ofCall (st : Statement) (f : Features) : Verdict A :=
  let words := Token.words st.text
  let ds := if words.length = 2 then [] else [.error st.line .callForm]
  finished ds f (words[1]?.map fun name => .call name st.line)

def ofReturn (st : Statement) (f : Features) : Verdict A :=
  let ds := (if (Token.words st.text).length = 1 then [] else [.error st.line .returnForm]) ++
    if st.inSubroutine then [] else [.error st.line .returnOutside]
  finished ds f (some .subroutineReturn)

/-- How a form that gives this verdict leaves the reader. -/
def run (nested : Nested A) (s : Reading) : Verdict A → EStateM.Result Fault Reading (Outcome A)
  | command ds => .ok .declined (s.reports ds)
  | finished ds f node =>
    .ok (node.elim .consumed .node) { s.advance.reports ds with features := f }
  | opens ds b node =>
    match nested.block b (s.advance.reports ds) with
    | .ok ns t => .ok (.node (node ns)) t
    | .error fault t => .error fault t

end Verdict

/-- What the built-in forms make of a line under the features `f`. -/
def judge (g : Grammar A) (st : Statement) (f : Features) : Verdict A :=
  match (Text.leading? st.text).getD "" with
  | "pragma" => .ofPragma st f
  | "return" => .ofBare "return" (fun _ => .exit) st f
  | "break" => .ofBare "break" .leave st f
  | "run" => .gated Form.blockGate st f (.ofIteration g .run st)
  | "loop" => .gated Form.blockGate st f (.ofIteration g .loop st)
  | "\x7d" => .ofBrace st f
  | "subroutine" => .gated Form.subroutineGate st f (.ofDefinition st f)
  | "subroutine_call" => .gated Form.subroutineGate st f (.ofCall st f)
  | "subroutine_return" => .gated Form.subroutineGate st f (.ofReturn st f)
  | _ => .command []

/-! ## The forms give their verdicts -/

section Results

variable {α β : Type} {x : ReadM α} {f : α → ReadM β} {s t : Reading}

theorem bind_ok {a : α} (h : x s = .ok a t) : (x >>= f) s = f a t := by
  show EStateM.bind x f s = f a t
  rw [EStateM.bind, h]

theorem bind_error {fault : Fault} (h : x s = .error fault t) :
    (x >>= f) s = .error fault t := by
  show EStateM.bind x f s = .error fault t
  rw [EStateM.bind, h]

end Results

section Plans

variable {α : Type} (g : Grammar A) (nested : Nested A) (s : Reading)

@[simp] theorem run_done (a : α) : (Handling.done a).run g nested s = .ok a s := rfl

@[simp] theorem run_advance (next : Handling A α) :
    (Handling.advance next).run g nested s = next.run g nested s.advance := rfl

@[simp] theorem run_report (d : Diagnostic) (next : Handling A α) :
    (Handling.report d next).run g nested s = next.run g nested (s.report d) := rfl

@[simp] theorem run_survey (next : Standing → Handling A α) :
    (Handling.survey next).run g nested s = (next s.standing).run g nested s := rfl

@[simp] theorem run_setFeatures (f : Features) (next : Handling A α) :
    (Handling.setFeatures f next).run g nested s =
      next.run g nested { s with features := f } := rfl

@[simp] theorem run_block (b : Opening) (next : List (Node A) → Handling A α) :
    (Handling.block b next).run g nested s =
      match nested.block b s with
      | .ok ns t => (next ns).run g nested t
      | .error fault t => .error fault t := by
  show EStateM.bind (nested.block b) (fun ns => (next ns).run g nested) s = _
  rw [EStateM.bind]
  cases nested.block b s <;> rfl

theorem run_bind {β : Type} (plan : Handling A α) (f : α → Handling A β) :
    (plan.bind f).run g nested = plan.run g nested >>= fun a => (f a).run g nested := by
  induction plan <;> simp_all only [Handling.bind, Handling.run, pure_bind, bind_assoc]

theorem Reading.report_report (s : Reading) (d d' : Diagnostic) :
    (s.report d).report d' = s.reports [d, d'] := by
  simp [Reading.report, Reading.reports]

theorem Reading.reports_nil (s : Reading) : s.reports [] = s := by
  simp [Reading.reports]

end Plans

namespace Reader

variable {r : Reader A} {nested : Nested A} {keyword : String} {st : Statement} {form : Form A}
  {p : Nat} {memory memory' : form.Memory} {s t : Reading}

theorem rounds_ended {outcome : Outcome A}
    (h : (form.round r.grammar st memory).run r.grammar nested s = .ok (.inr outcome) t) :
    r.rounds nested keyword st form p memory s = .ok outcome t := by
  rw [rounds, h]

theorem rounds_failed {fault : Fault}
    (h : (form.round r.grammar st memory).run r.grammar nested s = .error fault t) :
    r.rounds nested keyword st form p memory s = .error fault t := by
  rw [rounds, h]

theorem rounds_again {q : Nat}
    (h : (form.round r.grammar st memory).run r.grammar nested s = .ok (.inl memory') t)
    (hleft : r.respite p s t = some q) :
    r.rounds nested keyword st form p memory s =
      r.rounds nested keyword st form q memory' t := by
  rw [rounds, h]
  dsimp only
  split
  · rename_i hnone
    cases hnone.symm.trans hleft
  · rename_i hsome
    cases hsome.symm.trans hleft
    rfl

theorem rounds_givenUp
    (h : (form.round r.grammar st memory).run r.grammar nested s = .ok (.inl memory') t)
    (hleft : r.respite p s t = none) :
    r.rounds nested keyword st form p memory s = .error (.runaway keyword) t := by
  rw [rounds, h]
  dsimp only
  split
  · rfl
  · rename_i hsome
    cases hsome.symm.trans hleft

/-- A form that handles a line in one round does what its plan does. -/
theorem call_once (gate : Option Gate)
    (handle : Grammar A → Statement → Handling A (Outcome A)) :
    r.call nested keyword st (.once gate handle) s =
      (handle r.grammar st).run r.grammar nested s := by
  have hround : ((Form.once gate handle).round r.grammar st ()).run r.grammar nested s =
      ((handle r.grammar st).run r.grammar nested >>= fun outcome => pure (.inr outcome)) s :=
    congrFun (run_bind _ _ _ _) s
  cases h : (handle r.grammar st).run r.grammar nested s with
  | ok outcome t => exact rounds_ended (hround.trans (bind_ok h))
  | error fault t => exact rounds_failed (hround.trans (bind_error h))

end Reader

namespace Form

variable (r : Reader A) (nested : Nested A) (keyword : String) (st : Statement) (s : Reading)

theorem run_pragma :
    r.call nested keyword st pragma s = (Verdict.ofPragma st s.features).run nested s := by
  have features : s.advance.standing.features = s.features := rfl
  simp only [pragma, Reader.call_once, bind, Handling.bind, Handling.move, Handling.standing,
    run_advance, run_survey, features]
  generalize hw : Token.words st.text = words
  split
  · rename_i flag
    simp only [Verdict.ofPragma, hw]
    cases s.features.setNamed? flag true with
    | none => rfl
    | some f =>
      simp only [Verdict.run, Reading.reports_nil]
      rfl
  · rename_i flag
    simp only [Verdict.ofPragma, hw]
    cases s.features.setNamed? flag false with
    | none => rfl
    | some f =>
      simp only [Verdict.run, Reading.reports_nil]
      rfl
  · rename_i henable hdisable
    simp only [Verdict.ofPragma, hw]
    rfl

theorem run_bare (text : String) (node : Nat → Node A) :
    r.call nested keyword st (bare text node) s =
      (Verdict.ofBare text node st s.features).run nested s := by
  simp only [bare, Reader.call_once, Verdict.ofBare]
  split
  · simp only [Verdict.run, Reading.reports_nil]
    rfl
  · simp only [Verdict.run, Reading.reports_nil]
    rfl

theorem run_iteration (kind : Iteration) :
    r.call nested keyword st (iteration kind) s =
      (Verdict.ofIteration r.grammar kind st).run nested s := by
  simp only [iteration, Reader.call_once, Verdict.ofIteration]
  cases Header.ofText? st.text with
  | none => simp only [Verdict.run, Reading.reports_nil]; rfl
  | some header =>
    dsimp only
    split
    · cases r.grammar.selector kind header.selector with
      | ok a =>
        simp only [bind, Handling.bind, Handling.move, Handling.readBlock, pure, run_advance,
          run_block, run_done, Verdict.run, Reading.reports_nil]
      | error e =>
        simp only [bind, Handling.bind, Handling.move, Handling.say, Handling.readBlock, pure,
          run_advance, run_report, run_block, run_done, Verdict.run]
        rfl
    · simp only [Verdict.run, Reading.reports_nil]; rfl

theorem run_brace :
    r.call nested keyword st closingBrace s = (Verdict.ofBrace st s.features).run nested s :=
  Reader.call_once none _

theorem run_definition :
    r.call nested keyword st definition s =
      (Verdict.ofDefinition st s.features).run nested s := by
  simp only [definition, Reader.call_once, Verdict.ofDefinition, bind, Handling.bind,
    Handling.move, Handling.say, Handling.readBlock, pure]
  cases (Token.words st.text)[1]? <;> cases st.topLevel <;>
    by_cases h : (Token.words st.text).length = 2 <;>
    simp [h, Verdict.run, Reading.reports_nil, Reading.report_report] <;> rfl

theorem run_call :
    r.call nested keyword st call s = (Verdict.ofCall st s.features).run nested s := by
  simp only [call, Reader.call_once, Verdict.ofCall, bind, Handling.bind, Handling.move,
    Handling.say, pure]
  cases (Token.words st.text)[1]? <;> by_cases h : (Token.words st.text).length = 2 <;>
    simp [h, Verdict.run, Reading.reports_nil] <;> rfl

theorem run_subroutineReturn :
    r.call nested keyword st subroutineReturn s =
      (Verdict.ofReturn st s.features).run nested s := by
  simp only [subroutineReturn, Reader.call_once, Verdict.ofReturn, bind, Handling.bind,
    Handling.move, Handling.say, pure]
  cases st.inSubroutine <;> by_cases h : (Token.words st.text).length = 1 <;>
    simp [h, Verdict.run, Reading.reports_nil, Reading.report_report] <;> rfl

end Form

/-- How the form of a line, if it has one, comes to a verdict. -/
inductive Judged (g : Grammar A) (st : Statement) (f : Features) :
    Option (Form A) → Verdict A → Prop where
  | unknown : Judged g st f none (.command [])
  | closed {form : Form A} {gate : Gate} (hgate : form.gate = some gate)
      (hclosed : gate.isOpen f = false) :
      Judged g st f (some form) (.command [.warning st.line gate.closed])
  | handled {form : Form A} {v : Verdict A}
      (hopen : form.gate.filter (!·.isOpen f) = none)
      (hrun : ∀ (r : Reader A) nested keyword s, r.grammar = g → s.features = f →
        r.call nested keyword st form s = v.run nested s) :
      Judged g st f (some form) v

theorem judged_gated {g : Grammar A} {st : Statement} {f : Features} {form : Form A} {gate : Gate}
    {v : Verdict A} (hgate : form.gate = some gate)
    (hrun : ∀ (r : Reader A) nested keyword s, r.grammar = g → s.features = f →
      r.call nested keyword st form s = v.run nested s) :
    Judged g st f (some form) (.gated gate st f v) := by
  rw [Verdict.gated]
  split
  · rename_i h
    exact .handled (by simp [hgate, Option.filter, h]) hrun
  · rename_i h
    exact .closed hgate (by simpa using h)

/-- The built-in forms judge as `judge` does. -/
theorem judged (g : Grammar A) (st : Statement) (f : Features) :
    Judged g st f (FormTable.builtin.find? ((Text.leading? st.text).getD "")) (judge g st f) := by
  unfold judge
  split
  · rename_i h
    rw [h]
    exact .handled rfl fun r nested keyword s _ hs => hs ▸ Form.run_pragma r nested keyword st s
  · rename_i h
    rw [h]
    exact .handled rfl fun r nested keyword s _ hs => hs ▸ Form.run_bare r nested keyword st s _ _
  · rename_i h
    rw [h]
    exact .handled rfl fun r nested keyword s _ hs => hs ▸ Form.run_bare r nested keyword st s _ _
  · rename_i h
    rw [h]
    exact judged_gated rfl fun r nested keyword s hg _ =>
      hg ▸ Form.run_iteration r nested keyword st s .run
  · rename_i h
    rw [h]
    exact judged_gated rfl fun r nested keyword s hg _ =>
      hg ▸ Form.run_iteration r nested keyword st s .loop
  · rename_i h
    rw [h]
    exact .handled rfl fun r nested keyword s _ hs => hs ▸ Form.run_brace r nested keyword st s
  · rename_i h
    rw [h]
    exact judged_gated rfl fun r nested keyword s _ hs =>
      hs ▸ Form.run_definition r nested keyword st s
  · rename_i h
    rw [h]
    exact judged_gated rfl fun r nested keyword s _ hs => hs ▸ Form.run_call r nested keyword st s
  · rename_i h
    rw [h]
    exact judged_gated rfl fun r nested keyword s _ hs =>
      hs ▸ Form.run_subroutineReturn r nested keyword st s
  · rename_i h₁ h₂ h₃ h₄ h₅ h₆ h₇ h₈ h₉
    have hnone : (FormTable.builtin : FormTable A).find? ((Text.leading? st.text).getD "") =
        none := by
      rw [FormTable.find?, List.lookup_eq_none_iff]
      simp only [FormTable.builtin, List.forall_mem_cons, bne_iff_ne]
      exact ⟨h₁, h₂, h₃, h₄, h₅, h₆, h₇, h₈, h₉, fun _ h => absurd h List.not_mem_nil⟩
    rw [hnone]
    exact .unknown

/-- A line of no form goes to the host's grammar. -/
theorem judge_unclaimed {g : Grammar A} {st : Statement} {f : Features}
    (h : (FormTable.builtin : FormTable A).find? ((Text.leading? st.text).getD "") = none) :
    judge g st f = .command [] := by
  have hj := judged g st f
  rw [h] at hj
  generalize judge g st f = v at hj ⊢
  cases hj
  rfl

/-! ## What verdicts give -/

section Inversion

variable {g : Grammar A} {st : Statement} {f f' : Features} {ds : List Diagnostic} {b : Opening}
  {node : List (Node A) → Node A} {n : Node A}

namespace Verdict

/-- A closed gate leaves a line to the host's grammar. -/
theorem of_gated {gate : Gate} {v w : Verdict A} (h : gated gate st f v = w)
    (hw : ∀ ds, w ≠ command ds) : v = w := by
  rw [gated] at h
  split at h
  · exact h
  · exact absurd h.symm (hw _)

theorem ofPragma_eq (st : Statement) (f : Features) :
    ∃ ds f', (ofPragma st f : Verdict A) = finished ds f' none := by
  simp only [ofPragma]
  split
  · split <;> exact ⟨_, _, rfl⟩
  · split <;> exact ⟨_, _, rfl⟩
  · exact ⟨_, _, rfl⟩

/-- An iteration opens a block, or its line goes to the host's grammar. A
selector that the grammar refuses is reported. -/
theorem ofIteration_cases (g : Grammar A) (kind : Iteration) (st : Statement) :
    ofIteration g kind st = command [] ∨
    ∃ ds selector, (∀ a, selector = some a → ∃ text, g.selector kind text = .ok a) ∧
      (selector = none → ∃ reason, .error st.line (.badSelector kind reason) ∈ ds) ∧
      ofIteration g kind st = opens ds ⟨st.line, "\x7d", .unclosedBlock kind, st.inSubroutine⟩
        fun body => .iterate kind selector body st.line := by
  simp only [ofIteration]
  split
  · exact .inl rfl
  · rename_i header _
    split
    · refine .inr ?_
      cases ha : g.selector kind header.selector with
      | ok a => exact ⟨_, some a, fun a' h => ⟨_, Option.some.inj h ▸ ha⟩, nofun, rfl⟩
      | error e => exact ⟨_, none, nofun, fun _ => ⟨_, List.mem_cons_self⟩, rfl⟩
    · exact .inl rfl

end Verdict

/-- What opens a block: an iteration, whose body is in a subroutine if the
iteration is, or the definition of a subroutine. A selector that is missing
and a definition below the top level are reported. -/
theorem judge_opens (h : judge g st f = .opens ds b node) :
    (∃ kind selector, b = ⟨st.line, "\x7d", .unclosedBlock kind, st.inSubroutine⟩ ∧
      (node = fun body => .iterate kind selector body st.line) ∧
      (∀ a, selector = some a → ∃ text, g.selector kind text = .ok a) ∧
      (selector = none → ∃ reason, .error st.line (.badSelector kind reason) ∈ ds)) ∨
    ∃ name, b = ⟨st.line, "end", .unclosedSubroutine, true⟩ ∧
      (node = fun body => .define name st.line body) ∧
      (st.topLevel = true ∨ .error st.line .nestedSubroutine ∈ ds) := by
  have hiteration {kind : Iteration} (h : Verdict.ofIteration g kind st = .opens ds b node) :
      ∃ kind selector, b = ⟨st.line, "\x7d", .unclosedBlock kind, st.inSubroutine⟩ ∧
        (node = fun body => .iterate kind selector body st.line) ∧
        (∀ a, selector = some a → ∃ text, g.selector kind text = .ok a) ∧
        (selector = none → ∃ reason, .error st.line (.badSelector kind reason) ∈ ds) := by
    obtain h' | ⟨ds', selector, hselector, hreported, h'⟩ := Verdict.ofIteration_cases g kind st
    · cases h'.symm.trans h
    · cases h'.symm.trans h
      exact ⟨kind, selector, rfl, rfl, hselector, hreported⟩
  unfold judge at h
  split at h
  · obtain ⟨ds', f', h'⟩ := Verdict.ofPragma_eq (A := A) st f
    cases h'.symm.trans h
  · rw [Verdict.ofBare] at h
    split at h <;> cases h
  · rw [Verdict.ofBare] at h
    split at h <;> cases h
  · exact .inl (hiteration (Verdict.of_gated h nofun))
  · exact .inl (hiteration (Verdict.of_gated h nofun))
  · cases h
  · have h := Verdict.of_gated h nofun
    simp only [Verdict.ofDefinition] at h
    split at h
    · cases h
    · cases h
      refine .inr ⟨_, rfl, rfl, ?_⟩
      cases st.topLevel <;> simp
  · cases Verdict.of_gated h nofun
  · cases Verdict.of_gated h nofun
  · cases h

/-- What a line that is done with at once can give. A return outside of a
subroutine is reported. -/
theorem judge_finished (h : judge g st f = .finished ds f' (some n)) :
    n = .exit ∨ n = .leave st.line ∨ (∃ name, n = .call name st.line) ∨
      (n = .subroutineReturn ∧
        (st.inSubroutine = true ∨ .error st.line .returnOutside ∈ ds)) := by
  have hiteration (kind : Iteration) :
      Verdict.ofIteration g kind st ≠ .finished ds f' (some n) := by
    intro h
    obtain h' | ⟨ds', selector, -, -, h'⟩ := Verdict.ofIteration_cases g kind st <;>
      cases h'.symm.trans h
  unfold judge at h
  split at h
  · obtain ⟨ds', f', h'⟩ := Verdict.ofPragma_eq (A := A) st f
    cases h'.symm.trans h
  · rw [Verdict.ofBare] at h
    split at h
    · cases h
      exact .inl rfl
    · cases h
  · rw [Verdict.ofBare] at h
    split at h
    · cases h
      exact .inr (.inl rfl)
    · cases h
  · exact absurd (Verdict.of_gated h nofun) (hiteration .run)
  · exact absurd (Verdict.of_gated h nofun) (hiteration .loop)
  · cases h
  · have h := Verdict.of_gated h nofun
    simp only [Verdict.ofDefinition] at h
    split at h <;> cases h
  · have h := Verdict.of_gated h nofun
    simp only [Verdict.ofCall, Verdict.finished.injEq] at h
    obtain ⟨name, -, rfl⟩ := Option.map_eq_some_iff.mp h.2.2
    exact .inr (.inr (.inl ⟨name, rfl⟩))
  · cases Verdict.of_gated h nofun
    refine .inr (.inr (.inr ⟨rfl, ?_⟩))
    cases st.inSubroutine <;> simp
  · cases h

end Inversion

/-! ## Rules of reading -/

/-- What is read: one statement, or the rest of a block. -/
inductive Part where
  | statement (topLevel inSubroutine : Bool)
  | block (b : Opening)

/-- `Reads g part s ns t`: reading `part` from state `s` gives the nodes `ns`
and ends in state `t`. A statement gives at most one node. -/
inductive Reads (g : Grammar A) : Part → Reading → List (Node A) → Reading → Prop where
  | command {topLevel inSubroutine : Bool} {s : Reading} {l : Line} {rest : List Line}
      {ds : List Diagnostic} (ahead : s.cursor.rest = l :: rest)
      (verdict : judge g (Reader.statementOf l topLevel inSubroutine) s.features = .command ds) :
      Reads g (.statement topLevel inSubroutine) s
        ((s.reports ds).command g (Reader.statementOf l topLevel inSubroutine)).1.toList
        ((s.reports ds).command g (Reader.statementOf l topLevel inSubroutine)).2
  | finished {topLevel inSubroutine : Bool} {s : Reading} {l : Line} {rest : List Line}
      {ds : List Diagnostic} {f : Features} {node : Option (Node A)}
      (ahead : s.cursor.rest = l :: rest)
      (verdict : judge g (Reader.statementOf l topLevel inSubroutine) s.features =
        .finished ds f node) :
      Reads g (.statement topLevel inSubroutine) s node.toList
        { s.advance.reports ds with features := f }
  | opens {topLevel inSubroutine : Bool} {s t : Reading} {l : Line} {rest : List Line}
      {ds : List Diagnostic} {b : Opening} {node : List (Node A) → Node A} {ns : List (Node A)}
      (ahead : s.cursor.rest = l :: rest)
      (verdict : judge g (Reader.statementOf l topLevel inSubroutine) s.features =
        .opens ds b node)
      (body : Reads g (.block b) (s.advance.reports ds) ns t) :
      Reads g (.statement topLevel inSubroutine) s [node ns] t
  | unclosed {b : Opening} {s : Reading} (ahead : s.cursor.rest = []) :
      Reads g (.block b) s [] (s.report (.error b.line b.unclosed))
  | close {b : Opening} {s : Reading} {l : Line} {rest : List Line}
      (ahead : s.cursor.rest = l :: rest) (closing : l.text = b.terminator) :
      Reads g (.block b) s [] s.advance
  | next {b : Opening} {s t u : Reading} {l : Line} {rest : List Line} {ns ns' : List (Node A)}
      (ahead : s.cursor.rest = l :: rest) (inside : l.text ≠ b.terminator)
      (first : Reads g (.statement false b.inSubroutine) s ns t)
      (others : Reads g (.block b) t ns' u) :
      Reads g (.block b) s (ns ++ ns') u

/-- `ReadsScript g s tree t`: reading all that is ahead in state `s` gives
`tree` and ends in state `t`. -/
inductive ReadsScript (g : Grammar A) : Reading → Tree A → Reading → Prop where
  | done {s : Reading} (ahead : s.cursor.rest = []) : ReadsScript g s {} s
  | next {s t u : Reading} {l : Line} {rest : List Line} {ns : List (Node A)} {tree : Tree A}
      (ahead : s.cursor.rest = l :: rest)
      (first : Reads g (.statement true false) s ns t) (others : ReadsScript g t tree u) :
      ReadsScript g s (ns.foldr Tree.cons tree) u

/-- What is read by the host's grammar: a command, or nothing but a report. -/
theorem Reading.command_cases (g : Grammar A) (st : Statement) (s : Reading) :
    (∃ a, g.command st.text = .ok a ∧ s.command g st = (some (.command a), s.advance)) ∨
    ∃ e, g.command st.text = .error e ∧
      s.command g st = (none, s.advance.reports [.error st.line (.badCommand e.message)]) := by
  rw [Reading.command]
  cases g.command st.text with
  | ok a => exact .inl ⟨a, rfl, rfl⟩
  | error e => exact .inr ⟨e, rfl, rfl⟩

/-- Reading only adds to the journal. -/
theorem Reads.journal {g : Grammar A} {part : Part} {s t : Reading} {ns : List (Node A)}
    (h : Reads g part s ns t) : s.journal <+: t.journal := by
  induction h with
  | @command _ _ s l _ ds _ _ =>
    refine .trans (List.prefix_append _ ds) ?_
    obtain ⟨a, -, h⟩ | ⟨e, -, h⟩ := (s.reports ds).command_cases g (Reader.statementOf l _ _)
    · rw [h]
      exact List.prefix_refl _
    · rw [h]
      exact List.prefix_append _ _
  | finished => exact List.prefix_append _ _
  | opens _ _ _ ih => exact .trans (List.prefix_append _ _) ih
  | unclosed => exact List.prefix_append _ _
  | close => exact List.prefix_refl _
  | next _ _ _ _ ih₁ ih₂ => exact ih₁.trans ih₂

theorem ReadsScript.journal {g : Grammar A} {s t : Reading} {tree : Tree A}
    (h : ReadsScript g s tree t) : s.journal <+: t.journal := by
  induction h with
  | done => exact List.prefix_refl _
  | next _ first _ ih => exact first.journal.trans ih

/-- There is a line where a statement is read. -/
theorem Reads.ahead {g : Grammar A} {topLevel inSubroutine : Bool} {s t : Reading}
    {ns : List (Node A)} (h : Reads g (.statement topLevel inSubroutine) s ns t) :
    ∃ l rest, s.cursor.rest = l :: rest := by
  cases h with
  | command ahead | finished ahead | opens ahead => exact ⟨_, _, ahead⟩

/-- There is one way to read: the line ahead and the features decide the rule. -/
theorem Reads.unique {g : Grammar A} {part : Part} {s t t' : Reading} {ns ns' : List (Node A)}
    (h : Reads g part s ns t) (h' : Reads g part s ns' t') : ns = ns' ∧ t = t' := by
  induction h generalizing ns' t' with
  | command ahead verdict =>
    cases h' with
    | command ahead' verdict' =>
      cases ahead.symm.trans ahead'
      cases verdict.symm.trans verdict'
      exact ⟨rfl, rfl⟩
    | finished ahead' verdict' | opens ahead' verdict' =>
      cases ahead.symm.trans ahead'
      cases verdict.symm.trans verdict'
  | finished ahead verdict =>
    cases h' with
    | finished ahead' verdict' =>
      cases ahead.symm.trans ahead'
      cases verdict.symm.trans verdict'
      exact ⟨rfl, rfl⟩
    | command ahead' verdict' | opens ahead' verdict' =>
      cases ahead.symm.trans ahead'
      cases verdict.symm.trans verdict'
  | opens ahead verdict _ ih =>
    cases h' with
    | command ahead' verdict' | finished ahead' verdict' =>
      cases ahead.symm.trans ahead'
      cases verdict.symm.trans verdict'
    | opens ahead' verdict' body' =>
      cases ahead.symm.trans ahead'
      cases verdict.symm.trans verdict'
      obtain ⟨rfl, rfl⟩ := ih body'
      exact ⟨rfl, rfl⟩
  | unclosed ahead =>
    cases h' with
    | unclosed => exact ⟨rfl, rfl⟩
    | close ahead' | next ahead' => cases ahead.symm.trans ahead'
  | close ahead closing =>
    cases h' with
    | unclosed ahead' => cases ahead.symm.trans ahead'
    | close => exact ⟨rfl, rfl⟩
    | next ahead' inside' =>
      cases ahead.symm.trans ahead'
      exact absurd closing inside'
  | next ahead inside _ _ ih₁ ih₂ =>
    cases h' with
    | unclosed ahead' => cases ahead.symm.trans ahead'
    | close ahead' closing' =>
      cases ahead.symm.trans ahead'
      exact absurd closing' inside
    | next _ _ first' others' =>
      obtain ⟨rfl, rfl⟩ := ih₁ first'
      obtain ⟨rfl, rfl⟩ := ih₂ others'
      exact ⟨rfl, rfl⟩

theorem ReadsScript.unique {g : Grammar A} {s t t' : Reading} {tree tree' : Tree A}
    (h : ReadsScript g s tree t) (h' : ReadsScript g s tree' t') : tree = tree' ∧ t = t' := by
  induction h generalizing tree' t' with
  | done ahead =>
    cases h' with
    | done => exact ⟨rfl, rfl⟩
    | next ahead' => cases ahead.symm.trans ahead'
  | next ahead first _ ih =>
    cases h' with
    | done ahead' => cases ahead.symm.trans ahead'
    | next _ first' others' =>
      obtain ⟨rfl, rfl⟩ := first.unique first'
      obtain ⟨rfl, rfl⟩ := ih others'
      exact ⟨rfl, rfl⟩

/-! ## The reader follows the rules -/

namespace Reader

variable {r : Reader A}

theorem respite_fewer (r : Reader A) (p : Nat) {s t : Reading} (h : t.remaining < s.remaining) :
    r.respite p s t = some r.patience := by
  unfold respite
  rw [if_pos h]

theorem settle_declined (keyword : String) (st : Statement) {s t : Reading}
    (ahead : 0 < s.remaining) (same : t.remaining = s.remaining) :
    r.settle keyword st ahead .declined t = .ok (r.commandStep st t same ahead) :=
  dif_pos same

theorem settle_passed (keyword : String) (st : Statement) {s t : Reading}
    (ahead : 0 < s.remaining) (fewer : t.remaining < s.remaining) (node : Option (Node A)) :
    r.settle keyword st ahead (node.elim .consumed .node) t = .ok ⟨node, t, fewer⟩ := by
  cases node <;> exact dif_pos fewer

/-- The line ahead is read as it is judged, whatever the table of forms: the
verdict is carried out, and what comes of it is settled. The blocks behind the
line are read with full patience. -/
theorem step_eq_settle {s : Reading} {l : Line} {rest : List Line} {topLevel inSubroutine : Bool}
    {v : Verdict A} (hl : s.cursor.rest = l :: rest)
    (hv : Judged r.grammar (statementOf l topLevel inSubroutine) s.features
      (r.table.find? (keywordOf l)) v) (ahead : 0 < s.remaining) (p : Nat) :
    ∃ nested : Nested A,
      (∀ (b : Opening) (t : Reading), t.remaining < s.remaining →
        nested.block b t = r.block r.patience b t) ∧
      ∀ {outcome t}, v.run nested s = .ok outcome t →
        r.step p topLevel inSubroutine s ahead =
          r.settle (keywordOf l) (statementOf l topLevel inSubroutine) ahead outcome t := by
  have hhead : s.cursor.rest.head (List.ne_nil_of_length_pos ahead) = l := by simp [hl]
  -- For a line that goes to the grammar any way to read blocks will do.
  let unused : Nested A := ⟨fun _ _ => pure none, r.block r.patience⟩
  rw [step]
  simp only [hhead]
  generalize r.table.find? (keywordOf l) = found at hv ⊢
  cases hv with
  | unknown =>
    refine ⟨unused, fun _ _ _ => rfl, fun h => ?_⟩
    cases h
    rw [settle_declined _ _ ahead (t := s.reports []) rfl]
    simp only [Reading.reports_nil]
  | @closed _ gate hgate hclosed =>
    refine ⟨unused, fun _ _ _ => rfl, fun h => ?_⟩
    cases h
    simp only [hgate, Option.filter, hclosed, Bool.not_false, if_true]
    exact (settle_declined _ _ ahead
      (t := s.reports [.warning (statementOf l topLevel inSubroutine).line gate.closed]) rfl).symm
  | handled hopen hrun =>
    simp only [hopen, hrun r _ _ s rfl rfl]
    refine ⟨_, fun b t h => ?_, fun h => by rw [h]⟩
    dsimp only
    split
    · rename_i hrespite
      rw [respite_fewer r p h] at hrespite
      cases hrespite
    · rename_i hrespite
      rw [respite_fewer r p h] at hrespite
      cases hrespite
      rfl

/-- Blocks that start with fewer lines ahead than `s` has are read without
fault. -/
def ReadsBlocks (r : Reader A) (s : Reading) : Prop :=
  ∀ (b : Opening) (t : Reading), t.remaining < s.remaining →
    ∃ ns u, r.block r.patience b t = .ok ns u ∧ Reads r.grammar (.block b) t ns u ∧
      u.remaining ≤ t.remaining

/-- A statement is read without fault if the blocks behind its line are. -/
theorem step_reads_of (hr : r.table = .builtin) {s : Reading} (ahead : 0 < s.remaining)
    (hblocks : r.ReadsBlocks s) (p : Nat) (topLevel inSubroutine : Bool) :
    ∃ read, r.step p topLevel inSubroutine s ahead = .ok read ∧
      Reads r.grammar (.statement topLevel inSubroutine) s read.node.toList read.next := by
  obtain ⟨l, rest, hl⟩ : ∃ l rest, s.cursor.rest = l :: rest :=
    List.exists_cons_of_length_pos ahead
  have hjudged : Judged r.grammar (statementOf l topLevel inSubroutine) s.features
      (r.table.find? (keywordOf l)) _ :=
    hr ▸ judged r.grammar (statementOf l topLevel inSubroutine) s.features
  obtain ⟨nested, hnested, hstep⟩ := step_eq_settle hl hjudged ahead p
  have hfewer (ds : List Diagnostic) : (s.advance.reports ds).remaining < s.remaining := by
    have := s.remaining_advance
    show s.advance.remaining < s.remaining
    omega
  generalize hv : judge r.grammar (statementOf l topLevel inSubroutine) s.features = v at hstep
  cases v with
  | command ds =>
    exact ⟨_, (hstep rfl).trans (settle_declined _ _ ahead (t := s.reports ds) rfl),
      Reads.command hl hv⟩
  | finished ds f node =>
    exact ⟨_, (hstep rfl).trans (settle_passed _ _ ahead
      (t := { s.advance.reports ds with features := f }) (hfewer ds) node), Reads.finished hl hv⟩
  | opens ds b node =>
    obtain ⟨ns, u, hb, hbody, hle⟩ := hblocks b _ (hfewer ds)
    have hnode : u.remaining < s.remaining := Nat.lt_of_le_of_lt hle (hfewer ds)
    have hrun : (Verdict.opens ds b node).run nested s = .ok (.node (node ns)) u := by
      simp only [Verdict.run, hnested b _ (hfewer ds), hb]
    exact ⟨_, (hstep hrun).trans (settle_passed _ _ ahead hnode (some (node ns))),
      Reads.opens hl hv hbody⟩

section Blocks

variable {b : Opening} {s t : Reading} {l : Line} {rest : List Line} (p : Nat)

theorem block_unclosed (ahead : s.cursor.rest = []) :
    r.block p b s = .ok [] (s.report (.error b.line b.unclosed)) := by
  have hnone : ¬ 0 < s.remaining := by simp [Reading.remaining, ahead]
  rw [block, dif_neg hnone]

theorem block_close (ahead : s.cursor.rest = l :: rest) (closing : l.text = b.terminator) :
    r.block p b s = .ok [] s.advance := by
  have hahead : 0 < s.remaining := by simp [Reading.remaining, ahead]
  have hhead : (s.cursor.rest.head (List.ne_nil_of_length_pos hahead)).text = b.terminator := by
    simp [ahead, closing]
  rw [block, dif_pos hahead, if_pos hhead]

theorem block_next (ahead : s.cursor.rest = l :: rest) (inside : l.text ≠ b.terminator)
    (hahead : 0 < s.remaining) {read : Progress A s} {ns : List (Node A)}
    (hfirst : r.step p false b.inSubroutine s hahead = .ok read)
    (hothers : r.block r.patience b read.next = .ok ns t) :
    r.block p b s = .ok (read.node.toList ++ ns) t := by
  have hhead : (s.cursor.rest.head (List.ne_nil_of_length_pos hahead)).text ≠ b.terminator := by
    simp [ahead, inside]
  rw [block, dif_pos hahead, if_neg hhead]
  simp only [hfirst, hothers]

end Blocks

/-- Blocks are read without fault. -/
theorem block_reads (hr : r.table = .builtin) (b : Opening) (s : Reading) :
    ∃ ns t, r.block r.patience b s = .ok ns t ∧ Reads r.grammar (.block b) s ns t ∧
      t.remaining ≤ s.remaining := by
  -- Induction on the lines ahead: both the blocks inside the first statement
  -- and the rest of this one start with fewer.
  generalize hn : s.remaining = n
  induction n using Nat.strongRecOn generalizing b s with
  | ind n ih =>
    rcases hl : s.cursor.rest with _ | ⟨l, rest⟩
    · exact ⟨[], _, block_unclosed _ hl, Reads.unclosed hl, Nat.le_of_eq hn⟩
    · have ahead : 0 < s.remaining := by simp [Reading.remaining, hl]
      by_cases hclosing : l.text = b.terminator
      · have hle : s.advance.remaining ≤ n := by
          rw [s.remaining_advance]
          omega
        exact ⟨[], s.advance, block_close _ hl hclosing, Reads.close hl hclosing, hle⟩
      · have hblocks : r.ReadsBlocks s := fun b' t h => ih _ (hn ▸ h) b' t rfl
        obtain ⟨read, hread, hfirst⟩ :=
          step_reads_of hr ahead hblocks r.patience false b.inSubroutine
        have hfewer := read.fewer
        obtain ⟨ns, t, ht, hothers, hle⟩ := ih _ (hn ▸ hfewer) b read.next rfl
        exact ⟨_, t, block_next _ hl hclosing ahead hread ht,
          Reads.next hl hclosing hfirst hothers, by omega⟩

/-- Statements are read without fault. -/
theorem step_reads (hr : r.table = .builtin) {s : Reading} (ahead : 0 < s.remaining)
    (topLevel inSubroutine : Bool) :
    ∃ read, r.step r.patience topLevel inSubroutine s ahead = .ok read ∧
      Reads r.grammar (.statement topLevel inSubroutine) s read.node.toList read.next :=
  step_reads_of hr ahead (fun b t _ => block_reads hr b t) r.patience topLevel inSubroutine

theorem readTree_done {s : Reading} (ahead : s.cursor.rest = []) : r.readTree s = .ok {} s := by
  have hnone : ¬ 0 < s.remaining := by simp [Reading.remaining, ahead]
  rw [readTree, dif_neg hnone]

theorem readTree_next {s t : Reading} (ahead : 0 < s.remaining) {read : Progress A s}
    {tree : Tree A} (hfirst : r.step r.patience true false s ahead = .ok read)
    (hothers : r.readTree read.next = .ok tree t) :
    r.readTree s = .ok (read.node.toList.foldr Tree.cons tree) t := by
  rw [readTree, dif_pos ahead]
  simp only [hfirst, hothers]
  cases read.node <;> rfl

/-- Scripts are read without fault. -/
theorem readTree_reads (hr : r.table = .builtin) (s : Reading) :
    ∃ tree t, r.readTree s = .ok tree t ∧ ReadsScript r.grammar s tree t := by
  generalize hn : s.remaining = n
  induction n using Nat.strongRecOn generalizing s with
  | ind n ih =>
    rcases hl : s.cursor.rest with _ | ⟨l, rest⟩
    · exact ⟨{}, s, readTree_done hl, ReadsScript.done hl⟩
    · have ahead : 0 < s.remaining := by simp [Reading.remaining, hl]
      obtain ⟨read, hread, hfirst⟩ := step_reads hr ahead true false
      obtain ⟨tree, t, ht, hothers⟩ := ih _ (hn ▸ read.fewer) read.next rfl
      exact ⟨_, t, readTree_next ahead hread ht, ReadsScript.next hl hfirst hothers⟩

/-- Lines are read without fault with the built-in forms. -/
theorem read_reads (g : Grammar A) (f : Features) (lines : Line.Assembled) :
    ∃ tree s, Reader.read { grammar := g, table := .builtin } f lines = .ok tree s ∧
      ReadsScript g ⟨.ofLines lines.lines, f, lines.diagnostics⟩ tree s :=
  readTree_reads (r := { grammar := g, table := .builtin }) rfl _

end Reader

end CommandScript
