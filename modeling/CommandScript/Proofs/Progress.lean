import CommandScript.Host.Samples
import CommandScript.Proofs.Patience

/-!
# Progress

Whether forms end can be told from what they do before they take a line. There is
then no more than one way for them to go on: with another round, or with having
the line read again (`Reader.Onward`). Forms end if none can go on like that for
ever (`Reader.formsEnd_of_rank`).

With forms that end, reading goes past the line, past the end of the block or to
the end of the script, or comes to a line that its form mishandles.
-/

namespace CommandScript

variable {A α : Type}

/-! ## Forms that end -/

/-- How far a plan comes before a line is taken: to where it moves on, to its end, or
to where it has the line read again. -/
inductive Halt (α : Type) where
  | moves
  | ends (a : α) (t : Reading)
  | rereads (topLevel inSubroutine : Bool) (t : Reading)

/-- How far a plan comes before a line is taken. At the end there is none to take. -/
def Handling.halt (g : Grammar A) : Handling A α → Reading → Halt α
  | done a, s => .ends a s
  | advance next, s => if 0 < s.remaining then .moves else next.halt g s.advance
  | report d next, s => next.halt g (s.report d)
  | survey next, s => (next s.standing).halt g s
  | setFeatures f next, s => next.halt g { s with features := f }
  | setJournal ds next, s => next.halt g { s with journal := ds }
  | statement topLevel inSubroutine next, s =>
    if 0 < s.remaining then .rereads topLevel inSubroutine s else (next none).halt g s
  | block b next, s =>
    match s.cursor.current? with
    | none => (next []).halt g (s.report (.error b.line b.unclosed))
    | some l =>
      if l.text = b.terminator then .moves else .rereads false b.inSubroutine s
  | command st next, s =>
    if 0 < s.remaining then .moves else (next (s.command g st).1).halt g (s.command g st).2

theorem Opening.Closes.fewer {b : Opening} {s t : Reading} (h : b.Closes s t)
    (ahead : 0 < s.remaining) : t.remaining < s.remaining := by
  obtain ⟨u, hsu, ⟨l, hl, -, rfl⟩ | ⟨hend, rfl⟩⟩ := h
  · have hu := Reading.ahead_of_current? hl
    have := hsu.remaining_le
    rw [Reading.remaining_advance]
    omega
  · have hu : u.remaining = 0 := by
      rw [Reading.remaining, List.isEmpty_iff.mp hend, List.length_nil]
    rw [Reading.remaining_report]
    omega

/-- Nothing more comes of a round that halts so, unless a line is taken. -/
def Halt.Final {μ : Type} : Halt (μ ⊕ Outcome A) → Prop
  | .moves | .ends (.inr _) _ => True
  | .ends (.inl _) _ | .rereads _ _ _ => False

/-- A form between two rounds: the statement it handles, what it has in mind, and the
state of the reader. -/
structure Moment (A : Type) : Type 1 where
  st : Statement
  form : Form A
  memory : form.Memory
  state : Reading

namespace Reader

/-- How a form goes on when no line has been taken: with another round, or with the
form that the line is handed to when it is read again. -/
inductive Onward (r : Reader A) : Moment A → Moment A → Prop where
  | again {st : Statement} {form : Form A} {memory memory' : form.Memory} {s t : Reading}
      (h : (form.round r.grammar st memory).halt r.grammar s = .ends (.inl memory') t) :
      Onward r ⟨st, form, memory, s⟩ ⟨st, form, memory', t⟩
  | reread {st : Statement} {form form' : Form A} {memory : form.Memory} {l : Line}
      {topLevel inSubroutine : Bool} {s t : Reading}
      (h : (form.round r.grammar st memory).halt r.grammar s = .rereads topLevel inSubroutine t)
      (hhands : r.table.Hands t l form') :
      Onward r ⟨st, form, memory, s⟩
        ⟨statementOf l topLevel inSubroutine, form', form'.start, t⟩

/-- All that is read with fewer than `n` lines ahead comes to something. -/
def ComesBelow (r : Reader A) (n : Nat) : Prop :=
  ∀ t : Reading, t.remaining < n →
    (∀ topLevel inSubroutine, ∃ z, r.Comes (·.readStatement topLevel inSubroutine t) z) ∧
      ∀ b, ∃ z, r.Comes (·.readBlock b t) z

section Rank

variable {r : Reader A} {s t : Reading} {n : Nat}

theorem goesPast_of_comes {topLevel inSubroutine : Bool} {node : Option (Node A)}
    (h : r.Comes (·.readStatement topLevel inSubroutine s) (.ok node t)) : s.GoesPast t := by
  obtain ⟨q, hq⟩ := h.patiently.exists
  exact ((leadsOn (Nat.le_refl _) s).statement topLevel inSubroutine).of_ok hq

theorem closes_of_comes {b : Opening} {ns : List (Node A)}
    (h : r.Comes (·.readBlock b s) (.ok ns t)) : b.Closes s t := by
  obtain ⟨q, hq⟩ := h.patiently.exists
  exact ((leadsOn (Nat.le_refl _) s).block b).of_ok hq

/-- A plan comes to something once a line has been taken. -/
theorem run_comes_moved (hbelow : r.ComesBelow n) (plan : Handling A α) (ht : t.remaining < n) :
    ∃ z, r.Comes (fun r' => plan.run r.grammar r'.own t) z := by
  induction plan generalizing t with
  | done a => exact ⟨_, comes_const (fun _ => rfl) not_ranAway_ok⟩
  | advance next ih =>
    refine ih (t := t.advance) ?_
    rw [Reading.remaining_advance]
    omega
  | report d next ih => exact ih (t := t.report d) ht
  | survey next ih => exact ih t.standing ht
  | setFeatures f next ih => exact ih (t := { t with features := f }) ht
  | setJournal ds next ih => exact ih (t := { t with journal := ds }) ht
  | statement topLevel inSubroutine next ih =>
    obtain ⟨z, hz⟩ := (hbelow t ht).1 topLevel inSubroutine
    refine hz.bind fun node u hnode => ih node ?_
    exact Nat.lt_of_le_of_lt (goesPast_of_comes (hnode ▸ hz)).1.remaining_le ht
  | block b next ih =>
    obtain ⟨z, hz⟩ := (hbelow t ht).2 b
    refine hz.bind fun ns u hns => ih ns ?_
    exact Nat.lt_of_le_of_lt (closes_of_comes (hns ▸ hz)).leads.remaining_le ht
  | command st next ih =>
    refine ih (t.command r.grammar st).1 (t := (t.command r.grammar st).2) ?_
    rw [Reading.remaining_command]
    omega

/-- A plan comes to something if what it has read again before a line is taken does. -/
theorem run_comes (hbelow : r.ComesBelow t.remaining) (plan : Handling A α)
    (hagain : ∀ topLevel inSubroutine u,
      plan.halt r.grammar t = .rereads topLevel inSubroutine u →
        ∃ z, r.Comes (·.readStatement topLevel inSubroutine u) z) :
    ∃ z, r.Comes (fun r' => plan.run r.grammar r'.own t) z := by
  -- The plan is followed for as long as no line is taken. Whatever is read first
  -- takes one, unless there is none, and then `run_comes_moved` applies.
  induction plan generalizing t with
  | done a => exact ⟨_, comes_const (fun _ => rfl) not_ranAway_ok⟩
  | advance next ih =>
    by_cases ahead : 0 < t.remaining
    · refine run_comes_moved hbelow next (t := t.advance) ?_
      rw [Reading.remaining_advance]
      omega
    · have hsame : t.advance.remaining = t.remaining := by
        rw [Reading.remaining_advance]
        omega
      exact ih (t := t.advance) (hsame ▸ hbelow) fun topLevel inSubroutine u h =>
        hagain topLevel inSubroutine u ((if_neg ahead).trans h)
  | report d next ih => exact ih (t := t.report d) hbelow hagain
  | survey next ih => exact ih t.standing hbelow hagain
  | setFeatures f next ih => exact ih (t := { t with features := f }) hbelow hagain
  | setJournal ds next ih => exact ih (t := { t with journal := ds }) hbelow hagain
  | statement topLevel inSubroutine next ih =>
    by_cases ahead : 0 < t.remaining
    · obtain ⟨z, hz⟩ := hagain topLevel inSubroutine t (if_pos ahead)
      refine hz.bind fun node u hnode => run_comes_moved hbelow (next node) ?_
      exact (goesPast_of_comes (hnode ▸ hz)).2 ahead
    · have hnone : r.Comes (·.readStatement topLevel inSubroutine t) (.ok none t) :=
        comes_const (fun q => statementAt_done ahead q) not_ranAway_ok
      refine hnone.bind fun node u hnode => ?_
      cases hnode
      exact ih none hbelow fun topLevel inSubroutine u h =>
        hagain topLevel inSubroutine u ((if_neg ahead).trans h)
  | block b next ih =>
    cases hl : t.cursor.current? with
    | none =>
      have hend : t.cursor.rest = [] := List.head?_eq_none_iff.mp hl
      have hempty : r.Comes (·.readBlock b t) (.ok [] (t.report (.error b.line b.unclosed))) :=
        comes_const (fun q => block_unclosed q hend) not_ranAway_ok
      refine hempty.bind fun ns u hns => ?_
      cases hns
      exact ih [] (t := t.report (.error b.line b.unclosed)) hbelow fun topLevel inSubroutine u h =>
        hagain topLevel inSubroutine u (by rw [Handling.halt, hl]; exact h)
    | some l =>
      have ahead := Reading.ahead_of_current? hl
      obtain ⟨z, hz⟩ : ∃ z, r.Comes (·.readBlock b t) z := by
        refine readBlock_comes_of b (fun hinside => ?_) fun u hfewer => (hbelow u hfewer).2 b
        refine hagain false b.inSubroutine t ?_
        simp only [Handling.halt, hl, if_neg (hinside l hl)]
      refine hz.bind fun ns u hns => run_comes_moved hbelow (next ns) ?_
      exact (closes_of_comes (hns ▸ hz)).fewer ahead
  | command st next ih =>
    by_cases ahead : 0 < t.remaining
    · refine run_comes_moved hbelow (next (t.command r.grammar st).1)
        (t := (t.command r.grammar st).2) ?_
      rw [Reading.remaining_command]
      omega
    · have hsame : (t.command r.grammar st).2.remaining = t.remaining := by
        rw [Reading.remaining_command]
        omega
      exact ih (t.command r.grammar st).1 (t := (t.command r.grammar st).2) (hsame ▸ hbelow)
        fun topLevel inSubroutine u h => hagain topLevel inSubroutine u ((if_neg ahead).trans h)

/-- A plan during which no line is taken ends where it halts. -/
theorem halt_of_run {plan : Handling A α} {a : α} (h : plan.run r.grammar r.own s = .ok a t)
    (hsame : t.remaining = s.remaining) : plan.halt r.grammar s = .ends a t := by
  have hleads (plan : Handling A α) (u : Reading) (h : plan.run r.grammar r.own u = .ok a t) :
      t.remaining ≤ u.remaining :=
    ((plan.run_keeps r.grammar (Reading.Leads.kept u) (own_keeps r u) (.refl u)).of_ok
      h).remaining_le
  induction plan generalizing s with
  | done a =>
    cases h
    rfl
  | advance next ih =>
    have hle := hleads next s.advance h
    rw [Reading.remaining_advance] at hle
    have hend : ¬ 0 < s.remaining := by omega
    refine (if_neg hend).trans (ih (s := s.advance) h ?_)
    rw [Reading.remaining_advance]
    omega
  | report d next ih => exact ih (s := s.report d) h hsame
  | survey next ih => exact ih s.standing h hsame
  | setFeatures f next ih => exact ih (s := { s with features := f }) h hsame
  | setJournal ds next ih => exact ih (s := { s with journal := ds }) h hsame
  | statement topLevel inSubroutine next ih =>
    cases hread : r.readStatement topLevel inSubroutine s with
    | error fault u => cases (bind_error hread).symm.trans h
    | ok node u =>
      have hnext : (next node).run r.grammar r.own u = .ok a t := (bind_ok hread).symm.trans h
      by_cases ahead : 0 < s.remaining
      · have := hleads _ u hnext
        have := statementAt_fewer ahead hread
        omega
      · cases (statementAt_done ahead r.patience).symm.trans hread
        exact (if_neg ahead).trans (ih none hnext hsame)
  | block b next ih =>
    cases hread : r.readBlock b s with
    | error fault u => cases (bind_error hread).symm.trans h
    | ok ns u =>
      have hnext : (next ns).run r.grammar r.own u = .ok a t := (bind_ok hread).symm.trans h
      by_cases ahead : 0 < s.remaining
      · have := hleads _ u hnext
        have := (((leadsOn (Nat.le_refl _) s).block b).of_ok hread).fewer ahead
        omega
      · have hl := Reading.rest_eq_nil ahead
        have hcurrent : s.cursor.current? = none := by rw [Cursor.current?, hl, List.head?_nil]
        cases (block_unclosed r.patience hl).symm.trans hread
        simp only [Handling.halt, hcurrent]
        exact ih [] hnext hsame
  | command st next ih =>
    have hle := hleads _ (s.command r.grammar st).2 h
    rw [Reading.remaining_command] at hle
    have hend : ¬ 0 < s.remaining := by omega
    refine (if_neg hend).trans (ih _ (s := (s.command r.grammar st).2) h ?_)
    rw [Reading.remaining_command]
    omega

theorem remaining_of_halt {g : Grammar A} {plan : Handling A α} {topLevel inSubroutine : Bool}
    (h : plan.halt g s = .rereads topLevel inSubroutine t) : t.remaining = s.remaining := by
  induction plan generalizing s with
  | done a => cases h
  | advance next ih =>
    dsimp only [Handling.halt] at h
    split at h
    · cases h
    · rw [ih h, Reading.remaining_advance]
      omega
  | report d next ih => exact ih (s := s.report d) h
  | survey next ih => exact ih s.standing h
  | setFeatures f next ih => exact ih (s := { s with features := f }) h
  | setJournal ds next ih => exact ih (s := { s with journal := ds }) h
  | statement topLevel inSubroutine next ih =>
    dsimp only [Handling.halt] at h
    split at h
    · cases h
      rfl
    · exact ih none h
  | block b next ih =>
    dsimp only [Handling.halt] at h
    split at h
    · exact ih [] (s := s.report (.error b.line b.unclosed)) h
    · split at h <;> cases h
      rfl
  | command st next ih =>
    dsimp only [Handling.halt] at h
    split at h
    · cases h
    · rw [ih _ h, Reading.remaining_command]
      omega

/-- A round is followed by the next, if there is one, with patience for it left. -/
theorem rounds_comes_again {keyword : String} {st : Statement} {form : Form A}
    {memory memory' : form.Memory} {z : EStateM.Result Fault Reading (Outcome A)}
    (hround : r.Comes (fun r' => (form.round r.grammar st memory).run r.grammar r'.own s)
      (.ok (.inl memory') t))
    (hst : s.Leads t)
    (hz : r.Comes (fun r => r.rounds r.own keyword st form r.patience memory' t) z) :
    r.Comes (fun r => r.rounds r.own keyword st form r.patience memory s) z := by
  obtain ⟨p, hp⟩ := hround.patiently.and hz.patiently
  refine ⟨hz.kept, p + 1, fun q hq => ?_⟩
  obtain ⟨q, rfl⟩ := Nat.exists_eq_add_of_le' (Nat.lt_of_lt_of_le (Nat.succ_pos p) hq)
  obtain ⟨c, hc, hle⟩ := respite_of_leads (r := r) q hst
  have hagain : (r.withPatience (q + 1)).rounds (r.withPatience (q + 1)).own keyword st form
      (q + 1) memory s =
      (r.withPatience (q + 1)).rounds (r.withPatience (q + 1)).own keyword st form c memory' t :=
    rounds_again (hp (q + 1) (by omega)).1 hc
  have hrefined : Refined z ((r.withPatience (q + 1)).rounds (r.withPatience (q + 1)).own keyword
      st form c memory' t) := by
    rw [← (hp q (by omega)).2]
    exact rounds_refined kept_anywhere (Nested.keeps_anywhere _) (own_refines (Nat.le_succ q))
      (Nat.le_succ q) hle trivial
  exact hagain.trans (hrefined.eq hz.kept)

theorem comesBelow_of {n : Nat}
    (h : ∀ (t : Reading) topLevel inSubroutine, t.remaining < n →
      ∃ z, r.Comes (·.readStatement topLevel inSubroutine t) z) : r.ComesBelow n := by
  refine fun t ht => ⟨fun topLevel inSubroutine => h t topLevel inSubroutine ht, fun b => ?_⟩
  generalize hm : t.remaining = m
  induction m using Nat.strongRecOn generalizing t with
  | ind m ih =>
    exact readBlock_comes_of b (fun _ => h t false b.inSubroutine ht) fun u hfewer =>
      ih _ (hm ▸ hfewer) u (Nat.lt_trans hfewer ht) rfl

variable (rank : Moment A → Nat)
  (hrank : ∀ before after, (∃ keyword, r.table.find? keyword = some before.form) →
    r.Onward before after → rank after < rank before)
include hrank

/-- The rounds of a form come to something, if the rank goes down for as long as no
line is taken. -/
theorem rounds_comes (keyword : String) (moment : Moment A)
    (hform : ∃ keyword, r.table.find? keyword = some moment.form) :
    ∃ z, r.Comes (fun r => r.rounds r.own keyword moment.st moment.form r.patience moment.memory
      moment.state) z := by
  -- On the lines that are left first, and on the rank while there are as many.
  generalize hn : moment.state.remaining = n
  induction n using Nat.strongRecOn generalizing keyword moment with
  | ind n fewer =>
    have hbelow : r.ComesBelow n := comesBelow_of fun t topLevel inSubroutine ht =>
      readStatement_comes_of topLevel inSubroutine t fun l form hhands =>
        fewer _ ht (keywordOf l) ⟨statementOf l topLevel inSubroutine, form, form.start, t⟩
          ⟨_, hhands.found⟩ rfl
    generalize hk : rank moment = k
    induction k using Nat.strongRecOn generalizing keyword moment with
    | ind k lower =>
      obtain ⟨st, form, memory, s⟩ := moment
      obtain ⟨z, hz⟩ := run_comes (hn ▸ hbelow) (form.round r.grammar st memory)
        fun topLevel inSubroutine u hhalt => readStatement_comes_of topLevel inSubroutine u
          fun l form' hhands => lower _ (hk ▸ hrank _ _ hform (.reread hhalt hhands)) (keywordOf l)
            ⟨statementOf l topLevel inSubroutine, form', form'.start, u⟩ ⟨_, hhands.found⟩
            ((remaining_of_halt hhalt).trans hn) rfl
      cases z with
      | error fault t =>
        exact ⟨.error fault t, not_ranAway_error hz.kept,
          hz.patiently.mono fun q hq => rounds_failed (r := r.withPatience q) hq⟩
      | ok ending t =>
        cases ending with
        | inr outcome =>
          exact ⟨.ok outcome t, not_ranAway_ok,
            hz.patiently.mono fun q hq => rounds_ended (r := r.withPatience q) hq⟩
        | inl memory' =>
          obtain ⟨q, hq⟩ := hz.patiently.exists
          have hst : s.Leads t := ((form.round r.grammar st memory).run_keeps r.grammar
            (Reading.Leads.kept s) (own_keeps _ s) (.refl s)).of_ok hq
          obtain ⟨w, hw⟩ : ∃ w, r.Comes
              (fun r => r.rounds r.own keyword st form r.patience memory' t) w := by
            rcases Nat.lt_or_eq_of_le hst.remaining_le with hfewer | hsame
            · exact fewer _ (hn ▸ hfewer) keyword ⟨st, form, memory', t⟩ hform rfl
            · have hagain : r.Onward ⟨st, form, memory, s⟩ ⟨st, form, memory', t⟩ :=
                .again (halt_of_run (r := r.withPatience q) hq hsame)
              exact lower _ (hk ▸ hrank _ _ hform hagain) keyword ⟨st, form, memory', t⟩ hform
                (hsame.trans hn) rfl
          exact ⟨w, rounds_comes_again hz hst hw⟩

/-- Forms end if there is a rank that goes down whenever a form goes on and no line
has been taken. -/
theorem formsEnd_of_rank : r.FormsEnd := fun topLevel inSubroutine s l form hhands =>
  rounds_comes rank hrank (keywordOf l)
    ⟨statementOf l topLevel inSubroutine, form, form.start, s⟩ ⟨_, hhands.found⟩

end Rank

end Reader

/-! ## A troupe of forms -/

namespace Host

/-- Switches dumps on and has its own line read again; once they are on, passes
over it. -/
def retry : Form A := .once none fun _ s => do
  let here ← Handling.standing
  if here.features.debugDump then
    Handling.move
    return .consumed
  else
    Handling.putFeatures { here.features with debugDump := true }
    match ← Handling.readStatement s.topLevel s.inSubroutine with
    | some node => return .node node
    | none => return .consumed

/-- Passes over its line, and takes back what was reported so far; ends the
invocation if nothing was. -/
def recant : Form A := .once none fun _ _ => do
  Handling.move
  if (← Handling.standing).journal.isEmpty then return .node .exit
  Handling.putJournal []
  return .consumed

/-- Passes over all the lines that are left, and counts them. -/
def drain : Form A where
  Memory := Nat
  start := 0
  round _ s count := do
    if (← Handling.standing).atEnd then
      Handling.say (.warning s.line (.host ("passed over " ++ count.repr)))
      return .inr .consumed
    else
      Handling.move
      return .inl (count + 1)

/-- A reader with the sample forms, one that has its own line read again, one that
looks at the journal and one that goes on for as long as there are lines. -/
def troupe : Reader String where
  grammar := echo
  table := ⟨("retry", retry) :: ("recant", recant) :: ("drain", drain) :: sampleForms⟩

/-- The sample forms end with their round, or take a line first. -/
theorem final_sampleForms {entry : String × Form A} (h : entry ∈ sampleForms) (g : Grammar A)
    (st : Statement) (memory : entry.2.Memory) (s : Reading) :
    ((entry.2.round g st memory).halt g s).Final := by
  simp only [sampleForms, List.mem_cons, List.not_mem_nil, or_false] at h
  obtain ⟨⟨n, _ | ⟨l, rest⟩⟩, f, journal⟩ := s <;>
    rcases h with rfl | rfl | rfl | rfl | rfl | rfl | rfl | rfl | rfl | rfl | rfl
  case nil.inl =>
    dsimp only [twice, Form.once]
    cases Text.after? "twice " st.text with
    | none => trivial
    | some text =>
      dsimp only
      cases g.command text <;> trivial
  case cons.inl =>
    dsimp only [twice, Form.once]
    cases Text.after? "twice " st.text <;> trivial
  case nil.inr.inr.inr.inr.inr.inr.inr.inr.inr.inl =>
    cases hg : g.command st.text <;>
      simp [commandForm, Form.once, bind, pure, Handling.bind, Handling.readCommand, Handling.halt,
        Reading.remaining, Reading.command, hg, Halt.Final]
  all_goals trivial

theorem final_recant (g : Grammar A) (st : Statement) (memory : (recant : Form A).Memory)
    (s : Reading) : ((recant.round g st memory).halt g s).Final := by
  obtain ⟨⟨n, _ | ⟨l, rest⟩⟩, f, journal⟩ := s
  · cases journal <;> trivial
  · trivial

theorem final_drain (g : Grammar A) (st : Statement) (memory : (drain : Form A).Memory)
    (s : Reading) : ((drain.round g st memory).halt g s).Final := by
  obtain ⟨⟨n, _ | ⟨l, rest⟩⟩, f, journal⟩ := s <;> trivial

theorem halt_retry (g : Grammar A) (st : Statement) (memory : (retry : Form A).Memory)
    (s : Reading) : ((retry.round g st memory).halt g s).Final ∨
      s.features.debugDump = false ∧ (retry.round g st memory).halt g s =
        .rereads st.topLevel st.inSubroutine
          { s with features := { s.features with debugDump := true } } := by
  obtain ⟨⟨n, _ | ⟨l, rest⟩⟩, ⟨controlFlow, subroutines, _ | _⟩, journal⟩ := s
  · exact .inl trivial
  · exact .inl trivial
  · exact .inr ⟨rfl, rfl⟩
  · exact .inl trivial

theorem not_onward {r : Reader A} {before after : Moment A}
    (h : ((before.form.round r.grammar before.st before.memory).halt r.grammar
      before.state).Final) : ¬ r.Onward before after := by
  rintro (hagain | ⟨hreread, -⟩)
  · rw [hagain] at h
    exact h
  · rw [hreread] at h
    exact h

theorem formsEnd_troupe : troupe.FormsEnd := by
  -- A line is read again only to switch dumps on.
  refine Reader.formsEnd_of_rank (fun moment => if moment.state.features.debugDump then 0 else 1)
    fun before after hform honward => ?_
  obtain ⟨keyword, hfind⟩ := hform
  obtain ⟨entries, others, hentries, -⟩ := List.lookup_eq_some_iff.mp hfind
  have hmem : (keyword, before.form) ∈ troupe.table.entries := by simp [hentries]
  obtain ⟨st, form, memory, s⟩ := before
  simp only [troupe, List.mem_cons, Prod.mk.injEq] at hmem
  rcases hmem with ⟨-, rfl⟩ | ⟨-, rfl⟩ | ⟨-, rfl⟩ | hmem
  · rcases halt_retry echo st memory s with hfinal | ⟨hdump, hhalt⟩
    · exact absurd honward (not_onward hfinal)
    · cases honward with
      | again h => cases hhalt.symm.trans h
      | reread h =>
        cases hhalt.symm.trans h
        simp [hdump]
  · exact absurd honward (not_onward (final_recant _ st memory s))
  · exact absurd honward (not_onward (final_drain _ st memory s))
  · exact absurd honward (not_onward (final_sampleForms hmem _ st memory s))

/-- A block with a line that is read twice, and a line behind it that is
mishandled. -/
def farce : Reading :=
  ⟨.ofLines [⟨"block", 0⟩, ⟨"retry", 1⟩, ⟨"say hello", 2⟩, ⟨"endblock", 3⟩, ⟨"sloppy", 4⟩], {}, []⟩

/-- A report that is taken back, and lines that are passed over. -/
def comedy : Reading :=
  ⟨.ofLines [⟨"where", 0⟩, ⟨"recant", 1⟩, ⟨"drain", 2⟩, ⟨"sloppy", 3⟩, ⟨"stuck", 4⟩], {}, []⟩

/-- The fault of a result, if it is one. -/
def faultOf? : EStateM.Result Fault Reading α → Option Fault
  | .ok _ _ => none
  | .error fault _ => some fault

/-- The fault that reading comes to, from what the reader itself does. -/
theorem faultOf?_of_comes {r : Reader A} {x : Reader A → EStateM.Result Fault Reading α}
    {z : EStateM.Result Fault Reading α} (h : r.Comes x z)
    (hx : ∀ q, r.patience ≤ q → Refined (x r) (x (r.withPatience q))) {found : Option Fault}
    (hfound : faultOf? (x r) = found) (hkept : ∀ keyword, found ≠ some (.runaway keyword)) :
    faultOf? z = found := by
  have hr : ¬ RanAway (x r) := by
    rintro ⟨keyword, t, hgone⟩
    rw [hgone] at hfound
    exact hkept keyword hfound.symm
  rw [h.unique (Reader.comes_of_refined (r := r) (p := r.patience) hx hr)]
  exact hfound

end Host

/-! ## The main statement -/

namespace Reader

/-- Reading makes progress, for every table of forms that end. A statement is read
past its line and not past the last one, a block to just past the line that
closes it, or else to the end, which is reported, and a script to its end; or
there is a fault, and then some form was done without having moved, or moved and
declined. -/
theorem reading_makes_progress (r : Reader A) (hends : r.FormsEnd) :
    (∀ topLevel inSubroutine s, 0 < s.remaining →
      (∃ node t, r.Comes (·.readStatement topLevel inSubroutine s) (.ok node t) ∧
        s.cursor.position < t.cursor.position ∧ t.cursor.position ≤ s.cursor.size ∧ s.Leads t) ∨
      ∃ fault t, r.Comes (·.readStatement topLevel inSubroutine s) (.error fault t) ∧
        r.Patiently (·.Mishandled (.statement topLevel inSubroutine) s fault t)) ∧
    (∀ b s,
      (∃ nodes t, r.Comes (·.readBlock b s) (.ok nodes t) ∧ b.Closes s t) ∨
      ∃ fault t, r.Comes (·.readBlock b s) (.error fault t) ∧
        r.Patiently (·.Mishandled (.block b) s fault t)) ∧
    ∀ s,
      (∃ tree t, r.Comes (·.readTree s) (.ok tree t) ∧ s.Leads t ∧ t.cursor.isAtEnd = true) ∨
      ∃ fault t, r.Comes (·.readTree s) (.error fault t) ∧
        r.Patiently (·.Mishandled .script s fault t) := by
  refine ⟨fun topLevel inSubroutine s ahead => ?_, fun b s => ?_, fun s => ?_⟩
  · obtain ⟨z, hz⟩ := readStatement_comes hends topLevel inSubroutine s
    refine hz.cases fun q => ?_
    exact ((leadsOn (Nat.le_refl _) s).statement topLevel inSubroutine).mono
      (fun _ h => ⟨h.1.position_lt_iff.mpr (h.2 ahead), h.1.position_le_size, h.1⟩) fun _ _ h => h
  · obtain ⟨z, hz⟩ := readBlock_comes hends b s
    exact hz.cases fun q => (leadsOn (Nat.le_refl _) s).block b
  · obtain ⟨z, hz⟩ := readTree_comes hends s
    exact hz.cases fun q => readTree_leads (r.withPatience q) s

end Reader

namespace Host

theorem troupe_makes_progress :
    troupe.FormsEnd ∧
    (∃ node t, troupe.Comes (·.readStatement true false farce) (.ok node t) ∧
      farce.cursor.position < t.cursor.position ∧ t.cursor.position ≤ farce.cursor.size ∧
      farce.Leads t) ∧
    (∃ nodes t, troupe.Comes
      (·.readBlock ⟨0, "endblock", .host "unclosed block", false⟩ farce.advance) (.ok nodes t) ∧
      Opening.Closes ⟨0, "endblock", .host "unclosed block", false⟩ farce.advance t) ∧
    (∃ fault t, troupe.Comes (·.readTree farce) (.error fault t) ∧
      troupe.Patiently (·.Mishandled .script farce fault t)) ∧
    ∃ tree t, troupe.Comes (·.readTree comedy) (.ok tree t) ∧ comedy.Leads t ∧
      t.cursor.isAtEnd = true := by
  obtain ⟨hstatement, hblock, htree⟩ := Reader.reading_makes_progress troupe formsEnd_troupe
  refine ⟨formsEnd_troupe, (hstatement true false farce (by decide)).resolve_right ?_,
    (hblock _ farce.advance).resolve_right ?_, (htree farce).resolve_left ?_,
    (htree comedy).resolve_right ?_⟩
  · rintro ⟨fault, t, h, -⟩
    cases faultOf?_of_comes h
      (fun q hq => (Reader.read_refined (r := troupe) hq hq farce).1 true false)
      (by decide +kernel : _ = none) (by simp)
  · rintro ⟨fault, t, h, -⟩
    cases faultOf?_of_comes h
      (fun q hq => (Reader.read_refined (r := troupe) hq hq farce.advance).2 _)
      (by decide +kernel : _ = none) (by simp)
  · rintro ⟨tree, t, h, -⟩
    cases faultOf?_of_comes h (fun q hq => Reader.readTree_refined (r := troupe) hq farce)
      (by decide +kernel : _ = some (.slipped "sloppy")) (by simp)
  · rintro ⟨fault, t, h, -⟩
    cases faultOf?_of_comes h (fun q hq => Reader.readTree_refined (r := troupe) hq comedy)
      (by decide +kernel : _ = none) (by simp)

end Host

end CommandScript
