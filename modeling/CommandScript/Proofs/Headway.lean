import CommandScript.Proofs.Refinement

/-!
# Headway

What is read leads on (`Reading.Leads`), whatever the table of forms: lines are
only ever taken off the front of those ahead. A statement takes at least one, a
block ends just past the line that closes it or reports that there is none, and
a script ends where the lines do.

A reader that does not give up faults only when it comes to a line
(`Reader.Visits`) that its form mishandles, with an outcome that is at odds with
where it has moved to (`Reader.leadsOn`, `Reader.readTree_leads`).
-/

namespace CommandScript

variable {A α : Type}

/-! ## Leading on -/

/-- What reading from `s` can lead to: lines are taken off the front of those
ahead. -/
structure Reading.Leads (s t : Reading) : Prop where
  ahead : t.cursor.rest <:+ s.cursor.rest
  size : t.cursor.size = s.cursor.size

namespace Reading.Leads

variable {s t u : Reading}

theorem of_cursor (h : t.cursor = s.cursor) : s.Leads t :=
  ⟨⟨[], congrArg Cursor.rest h⟩, congrArg Cursor.size h⟩

theorem refl (s : Reading) : s.Leads s := .of_cursor rfl

theorem trans (hst : s.Leads t) (htu : t.Leads u) : s.Leads u :=
  ⟨htu.ahead.trans hst.ahead, htu.size.trans hst.size⟩

theorem remaining_le (h : s.Leads t) : t.remaining ≤ s.remaining := h.ahead.length_le

theorem position_add (h : s.Leads t) :
    t.cursor.position + t.remaining = s.cursor.position + s.remaining := h.size

theorem position_eq_iff (h : s.Leads t) :
    t.cursor.position = s.cursor.position ↔ t.remaining = s.remaining := by
  have := h.position_add
  omega

theorem position_lt_iff (h : s.Leads t) :
    s.cursor.position < t.cursor.position ↔ t.remaining < s.remaining := by
  have := h.position_add
  omega

theorem position_le_size (h : s.Leads t) : t.cursor.position ≤ s.cursor.size :=
  h.size ▸ Nat.le_add_right _ _

theorem advance (s : Reading) : s.Leads s.advance := by
  rcases s with ⟨⟨n, _ | ⟨l, rest⟩⟩, f, journal⟩
  · exact refl _
  · refine ⟨List.suffix_cons l rest, ?_⟩
    show n + 1 + rest.length = n + (rest.length + 1)
    omega

theorem kept (s : Reading) : Kept s.Leads where
  advance h := h.trans (advance _)
  edit h hedit := h.trans (of_cursor hedit)

end Reading.Leads

/-- What reading a statement can lead to: past its line, unless there is none. -/
def Reading.GoesPast (s t : Reading) : Prop :=
  s.Leads t ∧ (0 < s.remaining → t.remaining < s.remaining)

/-- Where a block that was begun in state `s` can end: just past a line that
closes it, or at the end, which is reported. -/
def Opening.Closes (b : Opening) (s t : Reading) : Prop :=
  ∃ u, s.Leads u ∧
    ((∃ l, u.cursor.current? = some l ∧ l.text = b.terminator ∧ t = u.advance) ∨
      (u.cursor.isAtEnd = true ∧ t = u.report (.error b.line b.unclosed)))

theorem Opening.Closes.of_leads {b : Opening} {s t u : Reading} (hst : s.Leads t)
    (h : b.Closes t u) : b.Closes s u := by
  obtain ⟨v, htv, hend⟩ := h
  exact ⟨v, hst.trans htv, hend⟩

theorem Opening.Closes.leads {b : Opening} {s t : Reading} (h : b.Closes s t) : s.Leads t := by
  obtain ⟨u, hsu, ⟨l, -, -, rfl⟩ | ⟨-, rfl⟩⟩ := h
  · exact hsu.trans (.advance u)
  · exact hsu.trans (.of_cursor rfl)

/-! ## Mishandled lines -/

namespace Reader

/-- Reading a passage in state `s` comes to reading a statement in state `u`: the
passage itself, one that the form of its line asks for, or one of those that it
consists of. -/
inductive Visits (r : Reader A) : Passage → Reading → Bool → Bool → Reading → Prop where
  | here {topLevel inSubroutine : Bool} {s : Reading} :
      Visits r (.statement topLevel inSubroutine) s topLevel inSubroutine s
  | asked {topLevel inSubroutine topLevel' inSubroutine' : Bool} {s t u : Reading} {l : Line}
      {form : Form A} {x : Passage} (hhands : r.table.Hands s l form)
      (hasks : form.Asks r.grammar r.own (statementOf l topLevel inSubroutine) form.start s x t)
      (h : Visits r x t topLevel' inSubroutine' u) :
      Visits r (.statement topLevel inSubroutine) s topLevel' inSubroutine' u
  | first {b : Opening} {l : Line} {topLevel inSubroutine : Bool} {s u : Reading}
      (hl : s.cursor.current? = some l) (hinside : l.text ≠ b.terminator)
      (h : Visits r (.statement false b.inSubroutine) s topLevel inSubroutine u) :
      Visits r (.block b) s topLevel inSubroutine u
  | next {b : Opening} {l : Line} {topLevel inSubroutine : Bool} {node : Option (Node A)}
      {s t u : Reading} (hl : s.cursor.current? = some l) (hinside : l.text ≠ b.terminator)
      (hread : r.readStatement false b.inSubroutine s = .ok node t)
      (h : Visits r (.block b) t topLevel inSubroutine u) :
      Visits r (.block b) s topLevel inSubroutine u
  | opening {topLevel inSubroutine : Bool} {s u : Reading} (ahead : 0 < s.remaining)
      (h : Visits r (.statement true false) s topLevel inSubroutine u) :
      Visits r .script s topLevel inSubroutine u
  | going {topLevel inSubroutine : Bool} {node : Option (Node A)} {s t u : Reading}
      (ahead : 0 < s.remaining) (hread : r.readStatement true false s = .ok node t)
      (h : Visits r .script t topLevel inSubroutine u) : Visits r .script s topLevel inSubroutine u

/-- The form of the line in state `s` has an outcome that is at odds with the state
`t` it ends in: it is done and has not moved, or has moved and declines. -/
inductive Mishandles (r : Reader A) (topLevel inSubroutine : Bool) (s : Reading) :
    Fault → Reading → Prop where
  | stalled {l : Line} {form : Form A} {outcome : Outcome A} {t : Reading}
      (hhands : r.table.Hands s l form)
      (hcall : r.call r.own (keywordOf l) (statementOf l topLevel inSubroutine) form s =
        .ok outcome t)
      (hdone : outcome ≠ .declined) (hstays : t.cursor.position = s.cursor.position) :
      Mishandles r topLevel inSubroutine s (.stalled (keywordOf l)) t
  | slipped {l : Line} {form : Form A} {t : Reading} (hhands : r.table.Hands s l form)
      (hcall : r.call r.own (keywordOf l) (statementOf l topLevel inSubroutine) form s =
        .ok .declined t)
      (hmoves : t.cursor.position ≠ s.cursor.position) :
      Mishandles r topLevel inSubroutine s (.slipped (keywordOf l)) t

/-- Reading a passage in state `s` comes to a statement that its form mishandles. -/
def Mishandled (r : Reader A) (x : Passage) (s : Reading) (fault : Fault) (t : Reading) : Prop :=
  ∃ topLevel inSubroutine u, r.Visits x s topLevel inSubroutine u ∧
    r.Mishandles topLevel inSubroutine u fault t

/-- Reading a passage in state `s` is given up, or comes to a statement that its
form mishandles. -/
def Fails (r : Reader A) (x : Passage) (s : Reading) (fault : Fault) (t : Reading) : Prop :=
  (∃ keyword, fault = .runaway keyword) ∨ r.Mishandled x s fault t

section Soundness

variable {r : Reader A} {p : Nat} {s t u : Reading} {x y : Passage} {l : Line} {form : Form A}

theorem Mishandled.of_visits {fault : Fault} (h : r.Mishandled y t fault u)
    (hvisits : ∀ {topLevel inSubroutine v}, r.Visits y t topLevel inSubroutine v →
      r.Visits x s topLevel inSubroutine v) : r.Mishandled x s fault u := by
  obtain ⟨topLevel, inSubroutine, v, hv, hfault⟩ := h
  exact ⟨topLevel, inSubroutine, v, hvisits hv, hfault⟩

theorem Fails.of_visits {fault : Fault} (h : r.Fails y t fault u)
    (hvisits : ∀ {topLevel inSubroutine v}, r.Visits y t topLevel inSubroutine v →
      r.Visits x s topLevel inSubroutine v) : r.Fails x s fault u :=
  h.imp_right fun hmishandled => hmishandled.of_visits hvisits

theorem goesPast_command (st : Statement) (hst : s.Leads t) (hsame : t.remaining = s.remaining) :
    s.GoesPast (t.command r.grammar st).2 := by
  refine ⟨(Reading.Leads.kept s).command r.grammar st hst, fun _ => ?_⟩
  rw [Reading.remaining_command]
  omega

/-- A form's outcome takes reading past its line, or the form mishandles it. -/
theorem settled_yields {topLevel inSubroutine : Bool} (st : Statement) {outcome : Outcome A}
    (hhands : r.table.Hands s l form)
    (hcall : r.call r.own (keywordOf l) (statementOf l topLevel inSubroutine) form s =
      .ok outcome t) (hst : s.Leads t) :
    Yields s.GoesPast (r.Fails (.statement topLevel inSubroutine) s)
      (r.settled (keywordOf l) st s.remaining outcome t) := by
  have hpast {node : Option (Node A)} (hdone : outcome ≠ .declined) :
      Yields s.GoesPast (r.Fails (.statement topLevel inSubroutine) s)
        (if t.remaining < s.remaining then .ok node t
          else .error (.stalled (keywordOf l)) t) := by
    split
    · next fewer => exact ⟨hst, fun _ => fewer⟩
    · next more =>
      have hsame : t.remaining = s.remaining := by
        have := hst.remaining_le
        omega
      exact .inr ⟨_, _, s, .here,
        .stalled hhands hcall hdone (hst.position_eq_iff.mpr hsame)⟩
  cases outcome with
  | node n => exact hpast (by simp)
  | consumed => exact hpast (by simp)
  | declined =>
    dsimp only [settled]
    split
    · next same => exact goesPast_command st hst same
    · next moved =>
      exact .inr ⟨_, _, s, .here,
        .slipped hhands hcall fun h => moved (hst.position_eq_iff.mp h)⟩

/-- Statements and blocks that are read in state `s`, with patience `p` for the
current line, lead on. -/
structure LeadsOn (r : Reader A) (p : Nat) (s : Reading) : Prop where
  statement (topLevel inSubroutine : Bool) :
    Yields s.GoesPast (r.Fails (.statement topLevel inSubroutine) s)
      (r.statementAt p topLevel inSubroutine s)
  block (b : Opening) : Yields (b.Closes s) (r.Fails (.block b) s) (r.block p b s)

/-- A form leads on if what it asks for does. -/
theorem call_leads (hp : p ≤ r.patience)
    (hnext : ∀ t q, r.respite p s t = some q → r.LeadsOn q t) (hhands : r.table.Hands s l form)
    (topLevel inSubroutine : Bool) :
    Yields s.Leads (r.Fails (.statement topLevel inSubroutine) s)
      (r.call (r.nestedAt p (keywordOf l) s) (keywordOf l) (statementOf l topLevel inSubroutine)
        form s) := by
  have hvisits {x : Passage} {t : Reading}
      (hasks : form.Asks r.grammar (r.nestedAt p (keywordOf l) s)
        (statementOf l topLevel inSubroutine) form.start s x t) {topLevel' inSubroutine' u}
      (h : r.Visits x t topLevel' inSubroutine' u) :
      r.Visits (.statement topLevel inSubroutine) s topLevel' inSubroutine' u :=
    .asked hhands (hasks.of_refines (nestedAt_refines_own hp (keywordOf l) s)) h
  refine rounds_yields (Reading.Leads.kept s) (fun _ => .inl ⟨keywordOf l, rfl⟩) (.refl s)
    (fun topLevel inSubroutine t hasks hst => ?_) (fun b t hasks hst => ?_)
  · cases h : r.respite p s t with
    | none =>
      rw [nestedAt_statement_none h]
      exact .inl ⟨keywordOf l, rfl⟩
    | some q =>
      rw [nestedAt_statement h]
      exact ((hnext t q h).statement topLevel inSubroutine).mono (fun _ hu => hst.trans hu.1)
        fun _ _ hu => hu.of_visits (hvisits hasks)
  · cases h : r.respite p s t with
    | none =>
      rw [nestedAt_block_none h]
      exact .inl ⟨keywordOf l, rfl⟩
    | some q =>
      rw [nestedAt_block h]
      exact ((hnext t q h).block b).mono (fun _ hu => hst.trans hu.leads)
        fun _ _ hu => hu.of_visits (hvisits hasks)

theorem statementAt_goesPast_of (hp : p ≤ r.patience)
    (hnext : ∀ t q, r.respite p s t = some q → r.LeadsOn q t) (topLevel inSubroutine : Bool) :
    Yields s.GoesPast (r.Fails (.statement topLevel inSubroutine) s)
      (r.statementAt p topLevel inSubroutine s) := by
  by_cases ahead : 0 < s.remaining
  · by_cases hhands : ∃ l form, r.table.Hands s l form
    · obtain ⟨l, form, hhands⟩ := hhands
      rw [statementAt_handed hhands]
      refine (call_leads hp hnext hhands topLevel inSubroutine).bind fun outcome t hcall hst => ?_
      have hown : r.call r.own (keywordOf l) (statementOf l topLevel inSubroutine) form s =
          .ok outcome t :=
        (rounds_refined (r := r) kept_anywhere (Nested.keeps_anywhere _)
          (nestedAt_refines_own hp (keywordOf l) s) (Nat.le_refl r.patience)
          (Nat.le_refl r.patience) trivial).eq_of_ok hcall
      exact settled_yields _ hhands hown hst
    · obtain ⟨st, t, hst, hread⟩ := statementAt_unhanded ahead hhands
      rw [show r.statementAt p topLevel inSubroutine s = _ from hread r.patience p]
      exact goesPast_command st (.of_cursor hst) (by rw [Reading.remaining, hst, Reading.remaining])
  · rw [statementAt_done ahead]
    exact ⟨.refl s, fun h => absurd h ahead⟩

theorem block_closes_of (hp : p ≤ r.patience) (b : Opening)
    (hfirst : Yields s.GoesPast (r.Fails (.statement false b.inSubroutine) s)
      (r.statementAt p false b.inSubroutine s))
    (hothers : ∀ t, t.remaining < s.remaining → r.LeadsOn r.patience t) :
    Yields (b.Closes s) (r.Fails (.block b) s) (r.block p b s) := by
  rcases hl : s.cursor.rest with _ | ⟨l, rest⟩
  · rw [block_unclosed p hl]
    exact ⟨s, .refl s, .inr ⟨by rw [Cursor.isAtEnd, hl, List.isEmpty_nil], rfl⟩⟩
  · have ahead : 0 < s.remaining := by simp [Reading.remaining, hl]
    have hcurrent := Cursor.current?_of_rest hl
    by_cases hclosing : l.text = b.terminator
    · rw [block_close p hl hclosing]
      exact ⟨s, .refl s, .inl ⟨l, hcurrent, hclosing, rfl⟩⟩
    · rw [block_inside hl hclosing]
      have hfirst' : Yields s.GoesPast (r.Fails (.block b) s)
          (r.statementAt p false b.inSubroutine s) :=
        hfirst.mono (fun _ h => h) fun _ _ h => h.of_visits (.first hcurrent hclosing)
      refine hfirst'.bind fun node t hread hpast => ?_
      obtain ⟨hst, hfewer⟩ := hpast
      have hown : r.readStatement false b.inSubroutine s = .ok node t :=
        ((read_refined (r := r) (Nat.le_refl r.patience) hp s).1 false b.inSubroutine).eq_of_ok
          hread
      have hrest : Yields (b.Closes s) (r.Fails (.block b) s) (r.block r.patience b t) :=
        ((hothers t (hfewer ahead)).block b).mono (fun _ hu => hu.of_leads hst)
          fun _ _ h => h.of_visits (.next hcurrent hclosing hown)
      exact hrest.bind fun _ _ _ hu => hu

/-- Reading leads on, whatever the forms do, and faults only where it is given up
or comes to a line that its form mishandles. -/
theorem leadsOn (hp : p ≤ r.patience) (s : Reading) : r.LeadsOn p s := by
  -- A block starts with a statement in the same state, so statements come first.
  generalize hn : r.effort p s = n
  induction n using Nat.strongRecOn generalizing p s with
  | ind n ih =>
    have hstatement := statementAt_goesPast_of hp fun t q h =>
      ih _ (hn ▸ effort_respite h) (respite_le hp h) t rfl
    exact ⟨hstatement, fun b => block_closes_of hp b (hstatement false b.inSubroutine)
      fun t hfewer => ih _ (hn ▸ effort_fewer r p hfewer) (Nat.le_refl _) t rfl⟩

theorem readTree_leads (r : Reader A) (s : Reading) :
    Yields (fun t => s.Leads t ∧ t.cursor.isAtEnd = true) (r.Fails .script s) (r.readTree s) := by
  generalize hn : s.remaining = n
  induction n using Nat.strongRecOn generalizing s with
  | ind n ih =>
    by_cases ahead : 0 < s.remaining
    · rw [readTree_ahead ahead]
      have hfirst : Yields s.GoesPast (r.Fails .script s) (r.readStatement true false s) :=
        ((leadsOn (Nat.le_refl _) s).statement true false).mono (fun _ h => h)
          fun _ _ h => h.of_visits (.opening ahead)
      refine hfirst.bind fun node t hread hpast => ?_
      obtain ⟨hst, hfewer⟩ := hpast
      have hothers : Yields (fun u => s.Leads u ∧ u.cursor.isAtEnd = true) (r.Fails .script s)
          (r.readTree t) :=
        (ih _ (hn ▸ hfewer ahead) t rfl).mono (fun _ hu => ⟨hst.trans hu.1, hu.2⟩)
          fun _ _ h => h.of_visits (.going ahead hread)
      exact hothers.bind fun _ _ _ hu => hu
    · have hl := Reading.rest_eq_nil ahead
      rw [readTree_done hl]
      exact ⟨.refl s, by rw [Cursor.isAtEnd, hl, List.isEmpty_nil]⟩

end Soundness

end Reader

end CommandScript
