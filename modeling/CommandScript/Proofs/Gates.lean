import CommandScript.Host.Samples
import CommandScript.Proofs.Composition
import CommandScript.Proofs.Pragmas

/-!
# Closed gates

While a gate is closed, the forms behind it might as well not be in the table,
but for a warning at each of their lines. A table without them judges every
line as the whole table does, with the warnings left out
(`judged_eraseAll`). A reader with that table therefore goes through the states
of a reader with the whole one, muted (`Reads.muted`, `ReadsScript.muted`).
Only a pragma could open the gate on the way (`Reading.Move.shut`).
-/

namespace CommandScript

variable {A : Type}

/-! ## Tables without some forms -/

theorem lookup_filter_ne (entries : List (String × Form A)) (k k' : String) :
    (entries.filter (·.1 != k)).lookup k' = if k' = k then none else entries.lookup k' := by
  induction entries with
  | nil => simp
  | cons e entries ih =>
    by_cases he : e.1 = k
    · rw [List.filter_cons_of_neg (by simpa using he), ih, List.lookup_cons, he]
      by_cases hk : k' = k
      · simp [hk]
      · simp [hk, beq_false_of_ne hk]
    · rw [List.filter_cons_of_pos (by simpa using he), List.lookup_cons, ih, List.lookup_cons]
      by_cases hk : k' = e.1
      · simp [hk, he]
      · simp [beq_false_of_ne hk]

namespace FormTable

/-- The table without the forms for some keywords. -/
def eraseAll (t : FormTable A) (keywords : List String) : FormTable A :=
  keywords.foldl FormTable.erase t

theorem find?_eraseAll (t : FormTable A) (keywords : List String) (k : String) :
    (t.eraseAll keywords).find? k = if k ∈ keywords then none else t.find? k := by
  induction keywords generalizing t with
  | nil => simp [eraseAll]
  | cons k' keywords ih =>
    have herase : (t.erase k').find? k = if k = k' then none else t.find? k :=
      lookup_filter_ne t.entries k' k
    show ((t.erase k').eraseAll keywords).find? k = _
    rw [ih, herase]
    by_cases hk : k = k' <;> by_cases hmem : k ∈ keywords <;> simp [hk, hmem]

end FormTable

/-! ## Warnings of a gate -/

/-- Whether a diagnostic is the warning that a gate is closed. -/
def Gate.warns (gate : Gate) (d : Diagnostic) : Bool :=
  d.severity == .warning && d.cause == gate.closed

/-- Diagnostics without the warnings of a gate. -/
def Gate.mute (gate : Gate) (ds : List Diagnostic) : List Diagnostic :=
  ds.filter (!gate.warns ·)

namespace Gate

variable (gate : Gate)

theorem warns_warning (line : Nat) : gate.warns (.warning line gate.closed) = true := by
  simp [warns, Diagnostic.warning]

theorem warns_error (line : Nat) (cause : Cause) : gate.warns (.error line cause) = false := rfl

theorem mute_append (ds ds' : List Diagnostic) :
    gate.mute (ds ++ ds') = gate.mute ds ++ gate.mute ds' :=
  List.filter_append ..

variable {gate}

theorem cause_of_warns {d : Diagnostic} (h : gate.warns d = true) : d.cause = gate.closed := by
  rw [warns, Bool.and_eq_true] at h
  exact beq_iff_eq.mp h.2

theorem mute_eq_self {ds : List Diagnostic} (h : ∀ d ∈ ds, gate.warns d = false) :
    gate.mute ds = ds := by
  refine List.filter_eq_self.mpr fun d hd => ?_
  rw [h d hd]
  rfl

end Gate

/-- The same verdict without the warnings of a gate. -/
def Verdict.mute (gate : Gate) : Verdict A → Verdict A
  | command ds => command (gate.mute ds)
  | finished ds f node => finished (gate.mute ds) f node
  | opens ds b node => opens (gate.mute ds) b node

theorem Verdict.mute_eq_self {gate : Gate} {v : Verdict A}
    (h : ∀ d ∈ v.reports, gate.warns d = false) : v.mute gate = v := by
  cases v with
  | command ds | finished ds | opens ds =>
    have hds : gate.mute ds = ds := Gate.mute_eq_self h
    rw [mute, hds]

/-- The keywords of the built-in forms that are behind a gate. -/
structure Gate.Guards (A : Type) (gate : Gate) (keywords : List String) : Prop where
  forms : ∀ k ∈ keywords, ∃ form : Form A,
    FormTable.builtin.find? k = some form ∧ form.gate = some gate
  cause : gate.closed.keywords = keywords

theorem guards_subroutineGate :
    Form.subroutineGate.Guards A ["subroutine", "subroutine_call", "subroutine_return"] where
  forms := by
    simp only [List.forall_mem_cons]
    exact ⟨⟨_, rfl, rfl⟩, ⟨_, rfl, rfl⟩, ⟨_, rfl, rfl⟩, fun _ h => absurd h List.not_mem_nil⟩
  cause := rfl

theorem guards_blockGate : Form.blockGate.Guards A ["run", "loop"] where
  forms := by
    simp only [List.forall_mem_cons]
    exact ⟨⟨_, rfl, rfl⟩, ⟨_, rfl, rfl⟩, fun _ h => absurd h List.not_mem_nil⟩
  cause := rfl

section Judged

variable {gate : Gate} {keywords : List String} {st : Statement} {f : Features}

/-- Behind a closed gate, a line goes to the host's grammar with a warning. -/
theorem judge_guarded (g : Grammar A) (hguards : gate.Guards A keywords)
    (hclosed : gate.isOpen f = false) (hk : (Text.leading? st.text).getD "" ∈ keywords) :
    judge g st f = .command [.warning st.line gate.closed] := by
  obtain ⟨form, hfind, hgate⟩ := hguards.forms _ hk
  have hj := judged g st f
  rw [hfind] at hj
  generalize judge g st f = v at hj ⊢
  cases hj with
  | closed hgate' =>
    obtain rfl := Option.some.inj (hgate.symm.trans hgate')
    rfl
  | handled hopen =>
    rw [hgate] at hopen
    simp [Option.filter, hclosed] at hopen

/-- No other line is warned of the gate. -/
theorem judge_unguarded (g : Grammar A) (hguards : gate.Guards A keywords)
    (hk : (Text.leading? st.text).getD "" ∉ keywords) :
    ∀ d ∈ (judge g st f).reports, gate.warns d = false := by
  intro d hd
  rw [Bool.eq_false_iff]
  intro hwarns
  have hkeyword := (judge_reports hd).2
  rw [Gate.cause_of_warns hwarns, hguards.cause] at hkeyword
  exact hk hkeyword

/-- While a gate is closed, the table without the forms behind it judges as the
whole table does, but for the warnings. -/
theorem judged_eraseAll (g : Grammar A) (hguards : gate.Guards A keywords)
    (hclosed : gate.isOpen f = false) :
    Judged g st f ((FormTable.builtin.eraseAll keywords).find? ((Text.leading? st.text).getD ""))
      ((judge g st f).mute gate) := by
  rw [FormTable.find?_eraseAll]
  by_cases hk : (Text.leading? st.text).getD "" ∈ keywords
  · have hmuted : gate.mute [.warning st.line gate.closed] = [] :=
      List.filter_cons_of_neg (by simp [gate.warns_warning])
    rw [if_pos hk, judge_guarded g hguards hclosed hk, Verdict.mute, hmuted]
    exact .unknown
  · rw [if_neg hk, Verdict.mute_eq_self (judge_unguarded g hguards hk)]
    exact judged g st f

end Judged

/-! ## Muted readings -/

/-- The state without the warnings of a gate. -/
def Reading.muted (gate : Gate) (s : Reading) : Reading :=
  { s with journal := gate.mute s.journal }

/-- A gate is closed, and no pragma ahead can open it. -/
structure Reading.Shut (gate : Gate) (s : Reading) : Prop where
  closed : gate.isOpen s.features = false
  ordinary : ∀ l ∈ s.cursor.rest, l.isPragma = false

section Muted

variable {g : Grammar A} {gate : Gate} {keywords : List String}

theorem Reading.Move.shut {s t : Reading} (h : Move g s t) (hs : s.Shut gate) : t.Shut gate := by
  cases h with
  | @pass l rest ds f ahead passes =>
    have hl : l.isPragma = false := hs.ordinary l (ahead ▸ List.mem_cons_self)
    refine ⟨?_, fun l' hl' => hs.ordinary l' ?_⟩
    · rw [passes.features_of_not_isPragma hl]
      exact hs.closed
    · rw [ahead]
      exact List.mem_cons_of_mem _ (rest_advance ahead ▸ hl')
  | unclosed => exact ⟨hs.closed, hs.ordinary⟩

theorem Reading.muted_reports (s : Reading) (ds : List Diagnostic) :
    (s.reports ds).muted gate = (s.muted gate).reports (gate.mute ds) := by
  simp only [Reading.muted, Reading.reports, gate.mute_append]

theorem Reading.command_muted (gate : Gate) (g : Grammar A) (st : Statement) (s : Reading) :
    (s.muted gate).command g st = ((s.command g st).1, (s.command g st).2.muted gate) := by
  rcases s.command_cases g st with ⟨a, ha, h⟩ | ⟨e, he, h⟩
  · rw [h, Reading.command, ha]
    rfl
  · rw [h, Reading.command, he]
    show _ = (none, (s.advance.reports [.error st.line (.badCommand e.message)]).muted gate)
    rw [Reading.muted_reports]
    rfl

/-- What a reader makes of a part: the nodes, and the state behind them. -/
def Reader.Gives (r : Reader A) (s : Reading) (ns : List (Node A)) (t : Reading) : Part → Prop
  | .statement topLevel inSubroutine => ∀ ahead : 0 < s.remaining, ∃ read,
      r.step r.patience topLevel inSubroutine s ahead = .ok read ∧
        read.node.toList = ns ∧ read.next = t
  | .block b => r.block r.patience b s = .ok ns t

variable {r : Reader A}

/-- A line is read in a muted state as the whole table judges it, muted. -/
theorem Reader.step_muted (hguards : gate.Guards A keywords)
    (hr : r.table = FormTable.builtin.eraseAll keywords) {s : Reading} (hs : s.Shut gate) {l : Line}
    {rest : List Line} (ahead : s.cursor.rest = l :: rest) {topLevel inSubroutine : Bool}
    {v : Verdict A}
    (verdict : judge r.grammar (statementOf l topLevel inSubroutine) s.features = v)
    (hahead : 0 < (s.muted gate).remaining) :
    ∃ nested : Nested A,
      (∀ (b : Opening) (t : Reading), t.remaining < (s.muted gate).remaining →
        nested.block b t = r.block r.patience b t) ∧
      ∀ {outcome t}, (v.mute gate).run nested (s.muted gate) = .ok outcome t →
        r.step r.patience topLevel inSubroutine (s.muted gate) hahead =
          r.settle (keywordOf l) (statementOf l topLevel inSubroutine) hahead outcome t := by
  refine step_eq_settle (s := s.muted gate) ahead ?_ hahead r.patience
  rw [hr, ← verdict]
  exact judged_eraseAll r.grammar hguards hs.closed

/-- While a gate is closed, a reader without the forms behind it goes through
the states of a reader with all forms, muted. -/
theorem Reads.muted (hguards : gate.Guards A keywords)
    (hr : r.table = FormTable.builtin.eraseAll keywords) {part : Part} {s t : Reading}
    {ns : List (Node A)} (h : Reads r.grammar part s ns t) (hpart : part.BuiltIn)
    (hs : s.Shut gate) : r.Gives (s.muted gate) ns (t.muted gate) part := by
  induction h with
  | @command topLevel inSubroutine s l _ ds ahead verdict =>
    intro hahead
    obtain ⟨nested, -, hstep⟩ := Reader.step_muted hguards hr hs ahead verdict hahead
    have hcommand := Reading.command_muted gate r.grammar
      (Reader.statementOf l topLevel inSubroutine) (s.reports ds)
    rw [Reading.muted_reports] at hcommand
    refine ⟨_, (hstep rfl).trans (Reader.settle_declined _ _ hahead
      (t := (s.muted gate).reports (gate.mute ds)) rfl), ?_, ?_⟩
    · exact congrArg (fun read => read.1.toList) hcommand
    · exact congrArg (fun read => read.2) hcommand
  | @finished topLevel inSubroutine s l _ ds f node ahead verdict =>
    intro hahead
    obtain ⟨nested, -, hstep⟩ := Reader.step_muted hguards hr hs ahead verdict hahead
    have hfewer : (s.muted gate).advance.remaining < (s.muted gate).remaining := by
      rw [Reading.remaining_advance]
      omega
    refine ⟨_, (hstep rfl).trans (Reader.settle_passed _ _ hahead
      (t := { (s.muted gate).advance.reports (gate.mute ds) with features := f }) hfewer node),
      rfl, ?_⟩
    exact congrArg (fun t : Reading => { t with features := f })
      (Reading.muted_reports s.advance ds).symm
  | @opens topLevel inSubroutine s t l _ ds b node ns ahead verdict body ih =>
    intro hahead
    obtain ⟨nested, hnested, hstep⟩ := Reader.step_muted hguards hr hs ahead verdict hahead
    have hopened : Reading.Move r.grammar s (s.advance.reports ds) := .pass ahead (.opens verdict)
    have hblock : r.block r.patience b ((s.muted gate).advance.reports (gate.mute ds)) =
        .ok ns (t.muted gate) := by
      have hgives := ih (builtIn_of_opens verdict) (hopened.shut hs)
      rwa [Reading.muted_reports] at hgives
    have hfewer : (s.muted gate).advance.remaining < (s.muted gate).remaining := by
      rw [Reading.remaining_advance]
      omega
    have hrun : ((Verdict.opens ds b node).mute gate).run nested (s.muted gate) =
        .ok (.node (node ns)) (t.muted gate) := by
      have hinside := hnested b ((s.muted gate).advance.reports (gate.mute ds)) hfewer
      simp only [Verdict.mute, Verdict.run, hinside, hblock]
    have hle : t.remaining ≤ s.advance.remaining :=
      (body.moves (builtIn_of_opens verdict)).remaining_le
    exact ⟨_, (hstep hrun).trans (Reader.settle_passed _ _ hahead (t := t.muted gate)
      (Nat.lt_of_le_of_lt hle hfewer) (some (node ns))), rfl, rfl⟩
  | @unclosed b s ahead =>
    have hmuted : (s.report (.error b.line b.unclosed)).muted gate = _ :=
      Reading.muted_reports s [.error b.line b.unclosed]
    rw [hmuted]
    exact Reader.block_unclosed _ ahead
  | close ahead closing => exact Reader.block_close _ ahead closing
  | @next b s t u l _ ns ns' ahead inside first others ih₁ ih₂ =>
    have hahead : 0 < (s.muted gate).remaining := by
      show 0 < s.cursor.rest.length
      simp [ahead]
    obtain ⟨read, hread, rfl, hnext⟩ := ih₁ trivial hs hahead
    have hothers := ih₂ hpart ((first.moves trivial).invariant Reading.Move.shut hs)
    refine Reader.block_next (s := s.muted gate) _ ahead inside hahead hread ?_
    rw [hnext]
    exact hothers

theorem ReadsScript.muted (hguards : gate.Guards A keywords)
    (hr : r.table = FormTable.builtin.eraseAll keywords) {s t : Reading} {tree : Tree A}
    (h : ReadsScript r.grammar s tree t) (hs : s.Shut gate) :
    r.readTree (s.muted gate) = .ok tree (t.muted gate) := by
  induction h with
  | done ahead => exact Reader.readTree_done ahead
  | @next s t u l _ ns tree ahead first others ih =>
    have hahead : 0 < (s.muted gate).remaining := by
      show 0 < s.cursor.rest.length
      simp [ahead]
    obtain ⟨read, hread, rfl, hnext⟩ := first.muted hguards hr trivial hs hahead
    have hothers := ih ((first.moves trivial).invariant Reading.Move.shut hs)
    refine Reader.readTree_next hahead hread ?_
    rw [hnext]
    exact hothers

/-- No line that closes a block is behind a gate. -/
theorem Gate.Guards.keywordOf_closing (hguards : gate.Guards A keywords) {l : Line}
    (h : l.text = "\x7d" ∨ l.text = "end") : Reader.keywordOf l ∉ keywords := by
  intro hk
  obtain ⟨form, hfind, hgate⟩ := hguards.forms _ hk
  rcases Passes.keywordOf_closing h with h | h
  · rw [h] at hfind
    obtain rfl : Form.closingBrace = form := Option.some.inj hfind
    cases hgate
  · rw [h] at hfind
    cases hfind

/-- Where a line is passed while the gate is closed, there is a warning if it
has a keyword behind the gate, and none if not. -/
theorem Passes.filter_warns (hguards : gate.Guards A keywords) {l : Line} {f f' : Features}
    (hclosed : gate.isOpen f = false) {ds : List Diagnostic} (h : Passes g l f ds f') :
    ds.filter gate.warns =
      if keywords.contains (Reader.keywordOf l) then [.warning l.number gate.closed] else [] := by
  by_cases hk : Reader.keywordOf l ∈ keywords
  · have hverdict {topLevel inSubroutine : Bool} {v : Verdict A}
        (hv : judge g (Reader.statementOf l topLevel inSubroutine) f = v) :
        v = .command [.warning l.number gate.closed] :=
      hv.symm.trans (judge_guarded g hguards hclosed hk)
    have hwarning : [Diagnostic.warning l.number gate.closed].filter gate.warns =
        [.warning l.number gate.closed] :=
      List.filter_cons_of_pos (gate.warns_warning l.number)
    rw [if_pos (List.contains_iff_mem.mpr hk)]
    cases h with
    | accepted verdict =>
      cases hverdict verdict
      exact hwarning
    | refused verdict =>
      cases hverdict verdict
      rw [List.filter_append, hwarning]
      rfl
    | finished verdict | opens verdict => cases hverdict verdict
    | closes closing => exact absurd hk (hguards.keywordOf_closing closing)
  · rw [if_neg (mt List.contains_iff_mem.mp hk), List.filter_eq_nil_iff]
    intro d hd hwarns
    rcases h.reports hd with ⟨-, hkeyword⟩ | ⟨reason, rfl⟩
    · rw [Gate.cause_of_warns hwarns, hguards.cause] at hkeyword
      exact hk hkeyword
    · cases hwarns

/-- The warnings of a gate so far, and those to come: one at each line ahead
with one of the keywords. -/
def Reading.gateWarnings (gate : Gate) (keywords : List String) (s : Reading) : List Diagnostic :=
  s.account gate.warns (keywords.contains <| Reader.keywordOf ·)
    fun l => some (.warning l.number gate.closed)

theorem Reading.Move.gateWarnings (hguards : gate.Guards A keywords) {s t : Reading}
    (h : Move g s t) (hs : s.Shut gate) :
    t.gateWarnings gate keywords = s.gateWarnings gate keywords :=
  h.account (fun _ passes => passes.filter_warns hguards hs.closed)
    fun line cause _ => gate.warns_error line cause

end Muted

/-! ## Scripts -/

/-- With `gate` closed, lines are read as if the forms for `keywords` were
missing from the table: to the same tree and with the same reports, if the
warnings of the gate are left out. There is one such warning at each line with
one of the keywords. -/
def ReadsAsIfMissing (g : Grammar A) (f : Features) (lines : List Line) (gate : Gate)
    (keywords : List String) : Prop :=
  ∃ tree s s',
    Reader.read { grammar := g, table := .builtin } f ⟨lines, []⟩ = .ok tree s ∧
    Reader.read { grammar := g, table := FormTable.builtin.eraseAll keywords } f ⟨lines, []⟩ =
      .ok tree s' ∧
    s'.journal = gate.mute s.journal ∧
    s.journal.filter gate.warns =
      (lines.filter (keywords.contains <| Reader.keywordOf ·)).map
        (fun l => .warning l.number gate.closed) ∧
    s.journal.countP gate.warns = lines.countP (keywords.contains <| Reader.keywordOf ·)

theorem readsAsIfMissing {gate : Gate} {keywords : List String} (hguards : gate.Guards A keywords)
    (g : Grammar A) {f : Features} (hclosed : gate.isOpen f = false) {lines : List Line}
    (hlines : ∀ l ∈ lines, l.isPragma = false) : ReadsAsIfMissing g f lines gate keywords := by
  obtain ⟨tree, s, hread, hreads⟩ := Reader.read_reads g f ⟨lines, []⟩
  have hshut : Reading.Shut gate ⟨.ofLines lines, f, []⟩ := ⟨hclosed, hlines⟩
  have hmuted := ReadsScript.muted (r := { grammar := g, table := .eraseAll .builtin keywords })
    hguards rfl hreads hshut
  have hwarnings := hreads.moves.keep_while Reading.Move.shut
    (Reading.Move.gateWarnings hguards) hshut
  have hjournal : s.journal.filter gate.warns =
      (lines.filter (keywords.contains <| Reader.keywordOf ·)).map
        fun l => .warning l.number gate.closed := by
    rw [Reading.gateWarnings, Reading.account, hreads.rest_eq_nil, List.filter_nil,
      List.filterMap_nil, List.append_nil] at hwarnings
    rw [hwarnings, ← List.filterMap_eq_map]
    rfl
  refine ⟨tree, s, s.muted gate, hread, hmuted, rfl, hjournal, ?_⟩
  rw [List.countP_eq_length_filter, hjournal, List.length_map, List.countP_eq_length_filter]

/-- A closed gate is the same as missing forms and one warning at each of their
lines, for subroutines and for blocks. -/
theorem closed_gate_reads_as_missing (g : Grammar A) {lines : List Line}
    (hlines : ∀ l ∈ lines, l.isPragma = false) :
    (∀ f : Features, f.subroutines = false →
      ReadsAsIfMissing g f lines Form.subroutineGate
        ["subroutine", "subroutine_call", "subroutine_return"]) ∧
    (∀ f : Features, f.controlFlowV2 = true →
      ReadsAsIfMissing g f lines Form.blockGate ["run", "loop"]) := by
  refine ⟨fun f hf => readsAsIfMissing guards_subroutineGate g hf hlines,
    fun f hf => readsAsIfMissing guards_blockGate g ?_ hlines⟩
  show (!f.controlFlowV2) = false
  rw [hf]
  rfl

/-- A definition in a block and blocks in a definition, with a refused command,
a refused selector and a block left open. -/
def parade : List Line :=
  [⟨"run as guest \x7b", 0⟩, ⟨"subroutine wave", 1⟩, ⟨"bad luck", 2⟩, ⟨"end", 3⟩, ⟨"\x7d", 4⟩,
    ⟨"subroutine bow", 5⟩, ⟨"loop at door \x7b", 6⟩, ⟨"break", 7⟩, ⟨"\x7d", 8⟩,
    ⟨"subroutine_return", 9⟩, ⟨"end", 10⟩, ⟨"loop as child \x7b", 11⟩,
    ⟨"subroutine_call bow", 12⟩]

theorem parade_behind_closed_gates :
    (∀ l ∈ parade, l.isPragma = false) ∧
    ReadsAsIfMissing Host.wordsGrammar {} parade Form.subroutineGate
      ["subroutine", "subroutine_call", "subroutine_return"] ∧
    ReadsAsIfMissing Host.wordsGrammar { subroutines := true, controlFlowV2 := true } parade
      Form.blockGate ["run", "loop"] := by
  have hlines : ∀ l ∈ parade, l.isPragma = false := by decide +kernel
  obtain ⟨hsubroutines, hblocks⟩ := closed_gate_reads_as_missing Host.wordsGrammar hlines
  exact ⟨hlines, hsubroutines {} rfl, hblocks _ rfl⟩

end CommandScript
