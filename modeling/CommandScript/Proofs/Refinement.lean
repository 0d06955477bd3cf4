import CommandScript.Proofs.Reading

/-!
# Patience and what is read

Reading with any table of forms, whatever they do in however many rounds: stay
where they are, move on and then decline the line, look at what was reported or
replace it, ask for statements and blocks in any order.

A form is called with the reader's own operations, but with a bound on how often
in a row it may have its own line read again (`Reader.nestedAt`), and its rounds
are bounded too. The bounds make no difference to what is read where they are
not exceeded. With less patience a reader does the same or gives up
(`Reader.rounds_refined`, `Reader.read_refined`), so a form that is not given up
on might as well be called with `Reader.own`.
-/

namespace CommandScript

variable {A α β : Type}

/-! ## Results -/

/-- What holds of a result: `P` of the state in which reading goes on, or `E` of
a fault and the state it left. -/
def Yields (P : Reading → Prop) (E : Fault → Reading → Prop) :
    EStateM.Result Fault Reading α → Prop
  | .ok _ t => P t
  | .error fault t => E fault t

/-- Reading was given up: for too long no line was taken. -/
def RanAway (x : EStateM.Result Fault Reading α) : Prop :=
  ∃ keyword t, x = .error (.runaway keyword) t

/-- The result `z` is `z'`, unless reading was given up. -/
def Refined (z z' : EStateM.Result Fault Reading α) : Prop := RanAway z ∨ z = z'

section Results

variable {x y : ReadM α} {f f' : α → ReadM β} {z z' : EStateM.Result Fault Reading α}
  {s t : Reading} {P Q : Reading → Prop} {E E' : Fault → Reading → Prop}

theorem not_ranAway_ok {a : α} : ¬ RanAway (.ok a t : EStateM.Result Fault Reading α) := by
  rintro ⟨keyword, u, h⟩
  cases h

theorem RanAway.bind (h : RanAway (x s)) : RanAway ((x >>= f) s) := by
  obtain ⟨keyword, t, hx⟩ := h
  exact ⟨keyword, t, bind_error hx⟩

theorem Refined.refl (z : EStateM.Result Fault Reading α) : Refined z z := .inr rfl

theorem Refined.eq (h : Refined z z') (hz : ¬ RanAway z) : z' = z := (h.resolve_left hz).symm

theorem Refined.eq_of_ok (h : Refined z z') {a : α} (hz : z = .ok a t) : z' = .ok a t :=
  (h.eq (hz ▸ not_ranAway_ok)).trans hz

theorem Refined.bind (hx : Refined (x s) (y s))
    (hf : ∀ a t, x s = .ok a t → Refined (f a t) (f' a t)) :
    Refined ((x >>= f) s) ((y >>= f') s) := by
  rcases hx with hgone | hsame
  · exact .inl hgone.bind
  · cases hxs : x s with
    | ok a t =>
      rw [bind_ok hxs, bind_ok (hsame ▸ hxs)]
      exact hf a t hxs
    | error fault t => exact .inr ((bind_error hxs).trans (bind_error (hsame ▸ hxs)).symm)

theorem Yields.of_ok (h : Yields P E z) {a : α} (hz : z = .ok a t) : P t := by
  rw [hz] at h
  exact h

theorem Yields.of_error (h : Yields P E z) {fault : Fault} (hz : z = .error fault t) :
    E fault t := by
  rw [hz] at h
  exact h

theorem Yields.mono (h : Yields P E z) (hP : ∀ t, P t → Q t)
    (hE : ∀ fault t, E fault t → E' fault t) : Yields Q E' z := by
  cases z with
  | ok a t => exact hP t h
  | error fault t => exact hE fault t h

theorem Yields.bind (hx : Yields P E (x s))
    (hf : ∀ a t, x s = .ok a t → P t → Yields Q E (f a t)) : Yields Q E ((x >>= f) s) := by
  cases h : x s with
  | ok a t =>
    rw [bind_ok h]
    exact hf a t h (hx.of_ok h)
  | error fault t =>
    rw [bind_error h]
    exact hx.of_error h

end Results

/-! ## Plans -/

/-- What a reader is asked to read. -/
inductive Passage where
  | statement (topLevel inSubroutine : Bool)
  | block (b : Opening)
  | script
  deriving DecidableEq, Repr

/-- Kept by the moves of a plan that read nothing. -/
structure Kept (P : Reading → Prop) : Prop where
  advance {t : Reading} : P t → P t.advance
  edit {t u : Reading} : P t → u.cursor = t.cursor → P u

theorem Kept.command {P : Reading → Prop} (hP : Kept P) (g : Grammar A) (st : Statement)
    {t : Reading} (ht : P t) : P (t.command g st).2 := by
  unfold Reading.command
  split
  · exact hP.advance ht
  · exact hP.edit (hP.advance ht) rfl

/-- Kept by the operations of `n`. -/
structure Nested.Keeps (n : Nested A) (P : Reading → Prop) : Prop where
  statement {topLevel inSubroutine : Bool} {t : Reading} :
    P t → Yields P (fun _ _ => True) (n.statement topLevel inSubroutine t)
  block {b : Opening} {t : Reading} : P t → Yields P (fun _ _ => True) (n.block b t)

/-- Where `P` holds, each operation of `n` does what that of `m` does, unless it is
given up. -/
structure Nested.Refines (n m : Nested A) (P : Reading → Prop) : Prop where
  statement {topLevel inSubroutine : Bool} {t : Reading} :
    P t → Refined (n.statement topLevel inSubroutine t) (m.statement topLevel inSubroutine t)
  block {b : Opening} {t : Reading} : P t → Refined (n.block b t) (m.block b t)

/-- Holds everywhere. -/
def Anywhere (_ : Reading) : Prop := True

theorem kept_anywhere : Kept Anywhere := ⟨fun _ => trivial, fun _ _ => trivial⟩

theorem Nested.keeps_anywhere (n : Nested A) : n.Keeps Anywhere where
  statement {topLevel inSubroutine t} _ := by
    cases n.statement topLevel inSubroutine t <;> trivial
  block {b t} _ := by
    cases n.block b t <;> trivial

namespace Handling

/-- A plan that is carried out in state `s` asks for a passage to be read in state
`u`. -/
def Asks (g : Grammar A) (nested : Nested A) :
    Handling A α → Reading → Passage → Reading → Prop
  | done _, _, _, _ => False
  | advance next, s, x, u => next.Asks g nested s.advance x u
  | report d next, s, x, u => next.Asks g nested (s.report d) x u
  | survey next, s, x, u => (next s.standing).Asks g nested s x u
  | setFeatures f next, s, x, u => next.Asks g nested { s with features := f } x u
  | setJournal ds next, s, x, u => next.Asks g nested { s with journal := ds } x u
  | statement topLevel inSubroutine next, s, x, u =>
    (x = .statement topLevel inSubroutine ∧ u = s) ∨
      ∃ n t, nested.statement topLevel inSubroutine s = .ok n t ∧ (next n).Asks g nested t x u
  | block b next, s, x, u =>
    (x = .block b ∧ u = s) ∨
      ∃ ns t, nested.block b s = .ok ns t ∧ (next ns).Asks g nested t x u
  | command st next, s, x, u =>
    (next (s.command g st).1).Asks g nested (s.command g st).2 x u

theorem Asks.of_refines {g : Grammar A} {n m : Nested A} (h : n.Refines m Anywhere)
    {plan : Handling A α} {s u : Reading} {x : Passage} (hasks : plan.Asks g n s x u) :
    plan.Asks g m s x u := by
  induction plan generalizing s with
  | done a => exact hasks
  | advance next ih => exact ih hasks
  | report d next ih => exact ih hasks
  | survey next ih => exact ih s.standing hasks
  | setFeatures f next ih => exact ih hasks
  | setJournal ds next ih => exact ih hasks
  | statement topLevel inSubroutine next ih =>
    refine hasks.imp_right ?_
    rintro ⟨n, t, hread, hasks⟩
    exact ⟨n, t, (h.statement trivial).eq_of_ok hread, ih n hasks⟩
  | block b next ih =>
    refine hasks.imp_right ?_
    rintro ⟨ns, t, hread, hasks⟩
    exact ⟨ns, t, (h.block trivial).eq_of_ok hread, ih ns hasks⟩
  | command st next ih => exact ih _ hasks

/-- What a plan keeps if the passages it asks for do. -/
theorem run_yields (g : Grammar A) {nested : Nested A} {P : Reading → Prop}
    {E : Fault → Reading → Prop} (hP : Kept P) (plan : Handling A α) {s : Reading} (hs : P s)
    (hstatement : ∀ topLevel inSubroutine t,
      plan.Asks g nested s (.statement topLevel inSubroutine) t → P t →
        Yields P E (nested.statement topLevel inSubroutine t))
    (hblock : ∀ b t, plan.Asks g nested s (.block b) t → P t → Yields P E (nested.block b t)) :
    Yields P E (plan.run g nested s) := by
  induction plan generalizing s with
  | done a => exact hs
  | advance next ih => exact ih (hP.advance hs) hstatement hblock
  | report d next ih => exact ih (s := s.report d) (hP.edit hs rfl) hstatement hblock
  | survey next ih => exact ih s.standing hs hstatement hblock
  | setFeatures f next ih =>
    exact ih (s := { s with features := f }) (hP.edit hs rfl) hstatement hblock
  | setJournal ds next ih =>
    exact ih (s := { s with journal := ds }) (hP.edit hs rfl) hstatement hblock
  | statement topLevel inSubroutine next ih =>
    refine (hstatement topLevel inSubroutine s (.inl ⟨rfl, rfl⟩) hs).bind fun n t hread ht => ?_
    exact ih n ht (fun _ _ u hasks => hstatement _ _ u (.inr ⟨n, t, hread, hasks⟩))
      fun _ u hasks => hblock _ u (.inr ⟨n, t, hread, hasks⟩)
  | block b next ih =>
    refine (hblock b s (.inl ⟨rfl, rfl⟩) hs).bind fun ns t hread ht => ?_
    exact ih ns ht (fun _ _ u hasks => hstatement _ _ u (.inr ⟨ns, t, hread, hasks⟩))
      fun _ u hasks => hblock _ u (.inr ⟨ns, t, hread, hasks⟩)
  | command st next ih => exact ih _ (hP.command g st hs) hstatement hblock

section Refinement

variable {n m : Nested A} {P : Reading → Prop} {s : Reading}

theorem run_keeps (g : Grammar A) (hP : Kept P) (hn : n.Keeps P) (plan : Handling A α) (hs : P s) :
    Yields P (fun _ _ => True) (plan.run g n s) :=
  plan.run_yields g hP hs (fun _ _ _ _ => hn.statement) fun _ _ _ => hn.block

theorem run_refined (g : Grammar A) (hP : Kept P) (hn : n.Keeps P) (h : n.Refines m P)
    (plan : Handling A α) (hs : P s) : Refined (plan.run g n s) (plan.run g m s) := by
  induction plan generalizing s with
  | done a => exact .refl _
  | advance next ih => exact ih (hP.advance hs)
  | report d next ih => exact ih (s := s.report d) (hP.edit hs rfl)
  | survey next ih => exact ih s.standing hs
  | setFeatures f next ih => exact ih (s := { s with features := f }) (hP.edit hs rfl)
  | setJournal ds next ih => exact ih (s := { s with journal := ds }) (hP.edit hs rfl)
  | statement topLevel inSubroutine next ih =>
    exact (h.statement hs).bind fun n t hread => ih n ((hn.statement hs).of_ok hread)
  | block b next ih =>
    exact (h.block hs).bind fun ns t hread => ih ns ((hn.block hs).of_ok hread)
  | command st next ih => exact ih (s.command g st).1 (hP.command g st hs)

end Refinement

end Handling

/-! ## Rounds -/

/-- A form that goes on in state `s` asks for a passage to be read in state `u`, in
the round that begins there or in one after it. -/
inductive Form.Asks (g : Grammar A) (nested : Nested A) (st : Statement) (form : Form A) :
    form.Memory → Reading → Passage → Reading → Prop where
  | now {memory : form.Memory} {s u : Reading} {x : Passage}
      (h : (form.round g st memory).Asks g nested s x u) : Asks g nested st form memory s x u
  | later {memory memory' : form.Memory} {s t u : Reading} {x : Passage}
      (hround : (form.round g st memory).run g nested s = .ok (.inl memory') t)
      (h : Asks g nested st form memory' t x u) : Asks g nested st form memory s x u

theorem Form.Asks.of_refines {g : Grammar A} {n m : Nested A} (h : n.Refines m Anywhere)
    {st : Statement} {form : Form A} {memory : form.Memory} {s u : Reading} {x : Passage}
    (hasks : form.Asks g n st memory s x u) : form.Asks g m st memory s x u := by
  induction hasks with
  | now hasks => exact .now (hasks.of_refines h)
  | later hround _ ih =>
    exact .later ((Handling.run_refined g kept_anywhere n.keeps_anywhere h _ trivial).eq_of_ok
      hround) ih

namespace Reader

/-- The reader with another patience. -/
def withPatience (r : Reader A) (p : Nat) : Reader A := { r with patience := p }

section Rounds

variable {r : Reader A} {nested n m : Nested A} {keyword : String} {st : Statement} {form : Form A}
  {p q a b : Nat} {s t : Reading} {P : Reading → Prop} {E : Fault → Reading → Prop}

theorem respite_same (same : t.remaining = s.remaining) : r.respite (p + 1) s t = some p := by
  unfold respite
  rw [if_neg (by omega), if_pos same]

theorem respite_cases (h : r.respite p s t = some q) :
    t.remaining < s.remaining ∧ q = r.patience ∨ t.remaining = s.remaining ∧ p = q + 1 := by
  unfold respite at h
  split at h
  · next fewer => exact .inl ⟨fewer, (Option.some.inj h).symm⟩
  · split at h
    · next same =>
      cases p with
      | zero => cases h
      | succ p => exact .inr ⟨same, congrArg (· + 1) (Option.some.inj h)⟩
    · cases h

theorem respite_le (hp : p ≤ r.patience) (h : r.respite p s t = some q) : q ≤ r.patience := by
  rcases respite_cases h with ⟨-, rfl⟩ | ⟨-, rfl⟩ <;> omega

theorem respite_mono {p' : Nat} (hab : a ≤ b) (hpp : p ≤ p')
    (h : (r.withPatience a).respite p s t = some q) :
    ∃ q', (r.withPatience b).respite p' s t = some q' ∧ q ≤ q' := by
  rcases respite_cases h with ⟨fewer, rfl⟩ | ⟨same, rfl⟩
  · exact ⟨b, respite_fewer _ p' fewer, hab⟩
  · obtain ⟨q', rfl⟩ := Nat.exists_eq_add_of_le' (Nat.lt_of_lt_of_le (Nat.succ_pos q) hpp)
    exact ⟨q', respite_same same, Nat.le_of_succ_le_succ hpp⟩

/-- What the rounds of a form keep if the passages it asks for do. -/
theorem rounds_yields (hP : Kept P) (hrunaway : ∀ t, E (.runaway keyword) t)
    {memory : form.Memory} (hs : P s)
    (hstatement : ∀ topLevel inSubroutine t,
      form.Asks r.grammar nested st memory s (.statement topLevel inSubroutine) t → P t →
        Yields P E (nested.statement topLevel inSubroutine t))
    (hblock : ∀ b t, form.Asks r.grammar nested st memory s (.block b) t → P t →
      Yields P E (nested.block b t)) :
    Yields P E (r.rounds nested keyword st form p memory s) := by
  generalize hn : r.effort p s = n
  induction n using Nat.strongRecOn generalizing p memory s with
  | ind n ih =>
    have hyields : Yields P E ((form.round r.grammar st memory).run r.grammar nested s) :=
      Handling.run_yields r.grammar hP _ hs
        (fun topLevel inSubroutine t hasks => hstatement topLevel inSubroutine t (.now hasks))
        fun b t hasks => hblock b t (.now hasks)
    cases hround : (form.round r.grammar st memory).run r.grammar nested s with
    | error fault t =>
      rw [rounds_failed hround]
      exact hyields.of_error hround
    | ok ending t =>
      have ht : P t := hyields.of_ok hround
      cases ending with
      | inr outcome =>
        rw [rounds_ended hround]
        exact ht
      | inl memory' =>
        cases hleft : r.respite p s t with
        | none =>
          rw [rounds_givenUp hround hleft]
          exact hrunaway t
        | some q =>
          rw [rounds_again hround hleft]
          exact ih _ (hn ▸ effort_respite hleft) ht
            (fun topLevel inSubroutine u hasks =>
              hstatement topLevel inSubroutine u (.later hround hasks))
            (fun b u hasks => hblock b u (.later hround hasks)) rfl

/-- With less patience a form goes on as it does with more, or is given up on. -/
theorem rounds_refined (hP : Kept P) (hn : n.Keeps P) (h : n.Refines m P) (hab : a ≤ b)
    (hpq : p ≤ q) {memory : form.Memory} (hs : P s) :
    Refined ((r.withPatience a).rounds n keyword st form p memory s)
      ((r.withPatience b).rounds m keyword st form q memory s) := by
  generalize he : (r.withPatience a).effort p s = e
  induction e using Nat.strongRecOn generalizing p q memory s with
  | ind e ih =>
    have hrefined : Refined ((form.round r.grammar st memory).run r.grammar n s)
        ((form.round r.grammar st memory).run r.grammar m s) :=
      Handling.run_refined r.grammar hP hn h _ hs
    cases hround : (form.round r.grammar st memory).run r.grammar n s with
    | error fault t =>
      rcases hrefined with ⟨keyword', u, hgone⟩ | hsame
      · exact .inl ⟨keyword', u, rounds_failed hgone⟩
      · have hround' := hsame ▸ hround
        exact .inr ((rounds_failed (r := r.withPatience a) hround).trans
          (rounds_failed (r := r.withPatience b) hround').symm)
    | ok ending t =>
      have hround' := hrefined.eq_of_ok hround
      have ht : P t := (Handling.run_keeps r.grammar hP hn _ hs).of_ok hround
      cases ending with
      | inr outcome =>
        exact .inr ((rounds_ended (r := r.withPatience a) hround).trans
          (rounds_ended (r := r.withPatience b) hround').symm)
      | inl memory' =>
        cases hleft : (r.withPatience a).respite p s t with
        | none => exact .inl ⟨keyword, t, rounds_givenUp hround hleft⟩
        | some p' =>
          obtain ⟨q', hleft', hle⟩ := respite_mono hab hpq hleft
          rw [rounds_again (r := r.withPatience a) hround hleft,
            rounds_again (r := r.withPatience b) hround' hleft']
          exact ih _ (he ▸ effort_respite hleft) hle ht rfl

end Rounds

end Reader

/-! ## Statements -/

theorem Cursor.current?_of_rest {c : Cursor} {l : Line} {rest : List Line}
    (h : c.rest = l :: rest) : c.current? = some l := by
  rw [Cursor.current?, h, List.head?_cons]

theorem Reading.ahead_of_current? {s : Reading} {l : Line} (h : s.cursor.current? = some l) :
    0 < s.remaining := by
  obtain ⟨rest, hrest⟩ := List.head?_eq_some_iff.mp h
  rw [Reading.remaining, hrest]
  exact Nat.succ_pos rest.length

theorem Reading.rest_eq_nil {s : Reading} (h : ¬ 0 < s.remaining) : s.cursor.rest = [] :=
  List.length_eq_zero_iff.mp (Nat.eq_zero_of_not_pos h)

/-- In state `s` the current line is `l`, and it is handed to `form`. -/
structure FormTable.Hands (table : FormTable A) (s : Reading) (l : Line) (form : Form A) :
    Prop where
  line : s.cursor.current? = some l
  found : table.find? (Reader.keywordOf l) = some form
  opens : form.gate.filter (!·.isOpen s.features) = none

theorem FormTable.Hands.ahead {table : FormTable A} {s : Reading} {l : Line} {form : Form A}
    (h : table.Hands s l form) : 0 < s.remaining :=
  Reading.ahead_of_current? h.line

namespace Reader

/-- Reads one statement, with patience `p` for the current line; none at the
end. -/
def statementAt (r : Reader A) (p : Nat) (topLevel inSubroutine : Bool) :
    ReadM (Option (Node A)) := fun s =>
  if ahead : 0 < s.remaining then
    match r.step p topLevel inSubroutine s ahead with
    | .ok read => .ok read.node read.next
    | .error (fault, t) => .error fault t
  else .ok none s

/-- The operations of a form called in state `s`, with patience `p` for the
current line. -/
def nestedAt (r : Reader A) (p : Nat) (keyword : String) (s : Reading) : Nested A where
  statement topLevel inSubroutine t :=
    match r.respite p s t with
    | none => .error (.runaway keyword) t
    | some q => r.statementAt q topLevel inSubroutine t
  block b t :=
    match r.respite p s t with
    | none => .error (.runaway keyword) t
    | some q => r.block q b t

/-- The reader's own operations. -/
def own (r : Reader A) : Nested A := ⟨r.readStatement, r.readBlock⟩

/-- What comes of a line whose form was called in state `s`. -/
def conclude (r : Reader A) (keyword : String) (st : Statement) {s : Reading}
    (ahead : 0 < s.remaining) :
    EStateM.Result Fault Reading (Outcome A) → Except (Fault × Reading) (Progress A s)
  | .ok outcome t => r.settle keyword st ahead outcome t
  | .error fault t => .error (fault, t)

/-- What comes of the outcome of a form that was called with `n` lines ahead. -/
def settled (r : Reader A) (keyword : String) (st : Statement) (n : Nat) :
    Outcome A → ReadM (Option (Node A))
  | .node node, t =>
    if t.remaining < n then .ok (some node) t else .error (.stalled keyword) t
  | .consumed, t => if t.remaining < n then .ok none t else .error (.stalled keyword) t
  | .declined, t =>
    if t.remaining = n then .ok (t.command r.grammar st).1 (t.command r.grammar st).2
    else .error (.slipped keyword) t

theorem readStatement_eq (r : Reader A) (topLevel inSubroutine : Bool) :
    r.readStatement topLevel inSubroutine = r.statementAt r.patience topLevel inSubroutine := rfl

section Equations

variable {r : Reader A} {s t : Reading} {l : Line} {rest : List Line} {form : Form A}
  {topLevel inSubroutine : Bool}

theorem statementAt_done (hs : ¬ 0 < s.remaining) (p : Nat) :
    r.statementAt p topLevel inSubroutine s = .ok none s := dif_neg hs

theorem step_handed (h : r.table.Hands s l form) (p : Nat) (ahead : 0 < s.remaining) :
    r.step p topLevel inSubroutine s ahead =
      r.conclude (keywordOf l) (statementOf l topLevel inSubroutine) ahead
        (r.call (r.nestedAt p (keywordOf l) s) (keywordOf l)
          (statementOf l topLevel inSubroutine) form s) := by
  obtain ⟨rest, hl⟩ := List.head?_eq_some_iff.mp h.line
  have hhead : s.cursor.rest.head (List.ne_nil_of_length_pos ahead) = l := by simp [hl]
  obtain ⟨nested, hstep, hstatement, hblock⟩ : ∃ nested : Nested A,
      r.step p topLevel inSubroutine s ahead =
        r.conclude (keywordOf l) (statementOf l topLevel inSubroutine) ahead
          (r.call nested (keywordOf l) (statementOf l topLevel inSubroutine) form s) ∧
      (∀ topLevel inSubroutine t, nested.statement topLevel inSubroutine t =
        (r.nestedAt p (keywordOf l) s).statement topLevel inSubroutine t) ∧
      ∀ b t, nested.block b t = (r.nestedAt p (keywordOf l) s).block b t := by
    -- `step` hands its form proofs that patience is left, so its operations are
    -- those of `nestedAt` only when applied.
    rw [step]
    simp only [hhead, h.found, h.opens]
    refine ⟨_, rfl, fun topLevel inSubroutine t => ?_, fun b t => ?_⟩
    · dsimp only [nestedAt]
      split <;> rename_i hleft <;> rw [hleft]
      rfl
    · dsimp only [nestedAt]
      split <;> rename_i hleft <;> rw [hleft]
  have hnested : nested = r.nestedAt p (keywordOf l) s := by
    cases nested
    congr
    · funext topLevel inSubroutine t
      exact hstatement topLevel inSubroutine t
    · funext b t
      exact hblock b t
  rw [hstep, hnested]

/-- A line that is handed to a form. -/
theorem statementAt_handed (h : r.table.Hands s l form) (p : Nat) :
    r.statementAt p topLevel inSubroutine s =
      (r.call (r.nestedAt p (keywordOf l) s) (keywordOf l)
        (statementOf l topLevel inSubroutine) form >>=
          r.settled (keywordOf l) (statementOf l topLevel inSubroutine) s.remaining) s := by
  rw [statementAt, dif_pos h.ahead, step_handed h]
  cases hcall : r.call (r.nestedAt p (keywordOf l) s) (keywordOf l)
      (statementOf l topLevel inSubroutine) form s with
  | error fault t => rw [bind_error hcall, conclude]
  | ok outcome t =>
    rw [bind_ok hcall, conclude]
    cases outcome with
    | node n => by_cases h : t.remaining < s.remaining <;> simp [settle, settled, h]
    | consumed => by_cases h : t.remaining < s.remaining <;> simp [settle, settled, h]
    | declined =>
      by_cases h : t.remaining = s.remaining <;> simp [settle, settled, commandStep, h]

/-- A line that goes to the host's grammar, with or without a warning. -/
theorem statementAt_unhanded (ahead : 0 < s.remaining)
    (h : ¬ ∃ l form, r.table.Hands s l form) :
    ∃ (st : Statement) (t : Reading), t.cursor = s.cursor ∧
      ∀ a p, (r.withPatience a).statementAt p topLevel inSubroutine s =
        .ok (t.command r.grammar st).1 (t.command r.grammar st).2 := by
  obtain ⟨l, rest, hl⟩ : ∃ l rest, s.cursor.rest = l :: rest :=
    List.exists_cons_of_length_pos ahead
  have hhead : s.cursor.rest.head (List.ne_nil_of_length_pos ahead) = l := by simp [hl]
  cases hform : r.table.find? (keywordOf l) with
  | none =>
    refine ⟨statementOf l topLevel inSubroutine, s, rfl, fun a p => ?_⟩
    rw [statementAt, dif_pos ahead, step]
    simp only [hhead, withPatience, hform, commandStep]
  | some form =>
    cases hgate : form.gate.filter (!·.isOpen s.features) with
    | none => exact absurd ⟨l, form, Cursor.current?_of_rest hl, hform, hgate⟩ h
    | some gate =>
      refine ⟨statementOf l topLevel inSubroutine, s.report (.warning l.number gate.closed), rfl,
        fun a p => ?_⟩
      rw [statementAt, dif_pos ahead, step]
      simp only [hhead, withPatience, hform, hgate, commandStep, statementOf]

theorem statementAt_ok {p : Nat} {ahead : 0 < s.remaining} {read : Progress A s}
    (h : r.step p topLevel inSubroutine s ahead = .ok read) :
    r.statementAt p topLevel inSubroutine s = .ok read.node read.next := by
  rw [statementAt, dif_pos ahead, h]

theorem statementAt_error {p : Nat} {ahead : 0 < s.remaining} {failure : Fault × Reading}
    (h : r.step p topLevel inSubroutine s ahead = .error failure) :
    r.statementAt p topLevel inSubroutine s = .error failure.1 failure.2 := by
  rw [statementAt, dif_pos ahead, h]

theorem statementAt_fewer {p : Nat} {node : Option (Node A)} (ahead : 0 < s.remaining)
    (h : r.statementAt p topLevel inSubroutine s = .ok node t) : t.remaining < s.remaining := by
  cases hstep : r.step p topLevel inSubroutine s ahead with
  | ok read =>
    cases (statementAt_ok hstep).symm.trans h
    exact read.fewer
  | error failure => cases (statementAt_error hstep).symm.trans h

theorem block_inside {b : Opening} (hl : s.cursor.rest = l :: rest)
    (inside : l.text ≠ b.terminator) (p : Nat) :
    r.block p b s = (r.statementAt p false b.inSubroutine >>= fun node =>
      r.block r.patience b >>= fun ns => pure (node.toList ++ ns)) s := by
  have ahead : 0 < s.remaining := by simp [Reading.remaining, hl]
  have hhead : (s.cursor.rest.head (List.ne_nil_of_length_pos ahead)).text ≠ b.terminator := by
    simp [hl, inside]
  rw [block, dif_pos ahead, if_neg hhead]
  cases hstep : r.step p false b.inSubroutine s ahead with
  | error failure => rw [bind_error (statementAt_error hstep)]
  | ok read =>
    rw [bind_ok (statementAt_ok hstep)]
    cases hothers : r.block r.patience b read.next with
    | ok ns t =>
      simp only [bind_ok hothers, hothers]
      rfl
    | error fault t => simp only [bind_error hothers, hothers]

theorem readTree_ahead (ahead : 0 < s.remaining) :
    r.readTree s = (r.readStatement true false >>= fun node =>
      r.readTree >>= fun tree => pure (node.elim tree tree.cons)) s := by
  rw [readTree, dif_pos ahead, readStatement_eq]
  cases hstep : r.step r.patience true false s ahead with
  | error failure => rw [bind_error (statementAt_error hstep)]
  | ok read =>
    rw [bind_ok (statementAt_ok hstep)]
    cases hothers : r.readTree read.next with
    | ok tree t =>
      simp only [bind_ok hothers, hothers]
      rfl
    | error fault t => simp only [bind_error hothers, hothers]

end Equations

/-! ## Patience makes no other difference -/

section Patience

variable {r : Reader A} {p q a b : Nat} {keyword : String} {s t : Reading}

theorem nestedAt_statement (h : r.respite p s t = some q) (topLevel inSubroutine : Bool) :
    (r.nestedAt p keyword s).statement topLevel inSubroutine t =
      r.statementAt q topLevel inSubroutine t := by
  simp only [nestedAt, h]

theorem nestedAt_block (h : r.respite p s t = some q) (b : Opening) :
    (r.nestedAt p keyword s).block b t = r.block q b t := by
  simp only [nestedAt, h]

theorem nestedAt_statement_none (h : r.respite p s t = none) (topLevel inSubroutine : Bool) :
    (r.nestedAt p keyword s).statement topLevel inSubroutine t = .error (.runaway keyword) t := by
  simp only [nestedAt, h]

theorem nestedAt_block_none (h : r.respite p s t = none) (b : Opening) :
    (r.nestedAt p keyword s).block b t = .error (.runaway keyword) t := by
  simp only [nestedAt, h]

/-- The operations of a form that is called with patience `p` do what those of
`m` do, if they do so for as long as patience is left. -/
theorem nestedAt_refines {m : Nested A}
    (hm : ∀ t q, r.respite p s t = some q →
      (∀ topLevel inSubroutine, Refined (r.statementAt q topLevel inSubroutine t)
        (m.statement topLevel inSubroutine t)) ∧
      ∀ b, Refined (r.block q b t) (m.block b t)) :
    (r.nestedAt p keyword s).Refines m Anywhere := by
  constructor
  · intro topLevel inSubroutine t _
    cases h : r.respite p s t with
    | none => exact .inl ⟨keyword, t, nestedAt_statement_none h topLevel inSubroutine⟩
    | some q =>
      rw [nestedAt_statement h]
      exact (hm t q h).1 topLevel inSubroutine
  · intro b t _
    cases h : r.respite p s t with
    | none => exact .inl ⟨keyword, t, nestedAt_block_none h b⟩
    | some q =>
      rw [nestedAt_block h]
      exact (hm t q h).2 b

theorem block_refined_of (b : Opening) {r' : Reader A}
    (hfirst : Refined (r.statementAt p false b.inSubroutine s)
      (r'.statementAt q false b.inSubroutine s))
    (hothers : ∀ t, t.remaining < s.remaining →
      Refined (r.block r.patience b t) (r'.block r'.patience b t)) :
    Refined (r.block p b s) (r'.block q b s) := by
  rcases hl : s.cursor.rest with _ | ⟨l, rest⟩
  · rw [block_unclosed p hl, block_unclosed q hl]
    exact .refl _
  · have ahead : 0 < s.remaining := by simp [Reading.remaining, hl]
    by_cases hclosing : l.text = b.terminator
    · rw [block_close p hl hclosing, block_close q hl hclosing]
      exact .refl _
    · rw [block_inside hl hclosing, block_inside hl hclosing]
      exact hfirst.bind fun node t hread =>
        (hothers t (statementAt_fewer ahead hread)).bind fun _ _ _ => .refl _

/-- With less patience statements and blocks are read as they are with more, or
reading is given up. -/
theorem read_refined (hab : a ≤ b) (hpq : p ≤ q) (s : Reading) :
    (∀ topLevel inSubroutine, Refined ((r.withPatience a).statementAt p topLevel inSubroutine s)
      ((r.withPatience b).statementAt q topLevel inSubroutine s)) ∧
    ∀ opening, Refined ((r.withPatience a).block p opening s)
      ((r.withPatience b).block q opening s) := by
  -- What a form asks for is read with less effort, and again with less patience
  -- on the left than on the right.
  generalize hn : (r.withPatience a).effort p s = n
  induction n using Nat.strongRecOn generalizing p q s with
  | ind n ih =>
    have hstatement (topLevel inSubroutine : Bool) :
        Refined ((r.withPatience a).statementAt p topLevel inSubroutine s)
          ((r.withPatience b).statementAt q topLevel inSubroutine s) := by
      by_cases ahead : 0 < s.remaining
      · by_cases hhands : ∃ l form, r.table.Hands s l form
        · obtain ⟨l, form, hhands⟩ := hhands
          rw [statementAt_handed (r := r.withPatience a) hhands,
            statementAt_handed (r := r.withPatience b) hhands]
          refine Refined.bind (rounds_refined kept_anywhere (Nested.keeps_anywhere _)
            (nestedAt_refines fun t p' h => ?_) hab hab trivial) fun _ _ _ => .refl _
          obtain ⟨q', hq', hle⟩ := respite_mono hab hpq h
          obtain ⟨hstatement, hblock⟩ := ih _ (hn ▸ effort_respite h) hle t rfl
          refine ⟨fun topLevel inSubroutine => ?_, fun opening => ?_⟩
          · rw [nestedAt_statement hq']
            exact hstatement topLevel inSubroutine
          · rw [nestedAt_block hq']
            exact hblock opening
        · obtain ⟨st, t, -, hread⟩ := statementAt_unhanded ahead hhands
          rw [hread a p, hread b q]
          exact .refl _
      · rw [statementAt_done ahead, statementAt_done ahead]
        exact .refl _
    refine ⟨hstatement, fun opening => ?_⟩
    exact block_refined_of opening (hstatement false opening.inSubroutine) fun t hfewer =>
      (ih _ (hn ▸ effort_fewer (r.withPatience a) p hfewer) hab t rfl).2 opening

theorem readTree_refined (hab : a ≤ b) (s : Reading) :
    Refined ((r.withPatience a).readTree s) ((r.withPatience b).readTree s) := by
  generalize hn : s.remaining = n
  induction n using Nat.strongRecOn generalizing s with
  | ind n ih =>
    by_cases ahead : 0 < s.remaining
    · rw [readTree_ahead ahead, readTree_ahead ahead]
      refine ((read_refined hab hab s).1 true false).bind fun node t hread => ?_
      exact (ih _ (hn ▸ statementAt_fewer ahead hread) t rfl).bind fun _ _ _ => .refl _
    · have hl := Reading.rest_eq_nil ahead
      rw [readTree_done hl, readTree_done hl]
      exact .refl _

/-- A form that is not given up on is called with the reader's own operations. -/
theorem nestedAt_refines_own (hp : p ≤ r.patience) (keyword : String) (s : Reading) :
    (r.nestedAt p keyword s).Refines r.own Anywhere :=
  nestedAt_refines fun t _ h => read_refined (r := r) (Nat.le_refl r.patience) (respite_le hp h) t

end Patience

end Reader

end CommandScript
