import CommandScript.Proofs.Headway

/-!
# Patience

How patient a reader is decides when it gives up on a form that takes no line, and
nothing else. What reading comes to (`Reader.Comes`) is what every reader comes to
that is patient enough.

Forms end if each call of one of them comes to an outcome or a fault
(`Reader.FormsEnd`). Then every statement, block and script comes to something
(`Reader.readStatement_comes`, `Reader.readBlock_comes`, `Reader.readTree_comes`).
-/

namespace CommandScript

variable {A α β : Type}

namespace Reader

/-- Holds of every reader like `r` that is patient enough. -/
def Patiently (r : Reader A) (Q : Reader A → Prop) : Prop :=
  ∃ p, ∀ q, p ≤ q → Q (r.withPatience q)

/-- Reading comes to `z`, if it is not given up too early. -/
structure Comes (r : Reader A) (x : Reader A → EStateM.Result Fault Reading α)
    (z : EStateM.Result Fault Reading α) : Prop where
  kept : ¬ RanAway z
  patiently : r.Patiently fun r => x r = z

/-- Every call of a form comes to an outcome or to a fault. -/
def FormsEnd (r : Reader A) : Prop :=
  ∀ topLevel inSubroutine s l form, r.table.Hands s l form →
    ∃ z, r.Comes
      (fun r => r.call r.own (keywordOf l) (statementOf l topLevel inSubroutine) form s) z

/-! ## What reading comes to -/

section Comes

variable {r : Reader A} {x : Reader A → EStateM.Result Fault Reading α}
  {z z' : EStateM.Result Fault Reading α}

theorem Patiently.mono {P Q : Reader A → Prop} (h : r.Patiently P)
    (hPQ : ∀ q, P (r.withPatience q) → Q (r.withPatience q)) : r.Patiently Q := by
  obtain ⟨p, hp⟩ := h
  exact ⟨p, fun q hq => hPQ q (hp q hq)⟩

theorem Patiently.and {P Q : Reader A → Prop} (hP : r.Patiently P) (hQ : r.Patiently Q) :
    r.Patiently fun r => P r ∧ Q r := by
  obtain ⟨p, hp⟩ := hP
  obtain ⟨q, hq⟩ := hQ
  exact ⟨max p q, fun a ha => ⟨hp a (by omega), hq a (by omega)⟩⟩

theorem Patiently.exists {P : Reader A → Prop} (h : r.Patiently P) :
    ∃ q, P (r.withPatience q) := by
  obtain ⟨p, hp⟩ := h
  exact ⟨p, hp p (Nat.le_refl p)⟩

theorem ranAway_error {fault : Fault} {t : Reading} :
    RanAway (.error fault t : EStateM.Result Fault Reading α) ↔
      ∃ keyword, fault = .runaway keyword := by
  constructor
  · rintro ⟨keyword, u, h⟩
    cases h
    exact ⟨keyword, rfl⟩
  · rintro ⟨keyword, rfl⟩
    exact ⟨keyword, t, rfl⟩

theorem not_ranAway_error {fault : Fault} {t : Reading}
    (h : ¬ RanAway (.error fault t : EStateM.Result Fault Reading α)) :
    ¬ RanAway (.error fault t : EStateM.Result Fault Reading β) :=
  mt ranAway_error.mp (mt ranAway_error.mpr h)

theorem Comes.unique (h : r.Comes x z) (h' : r.Comes x z') : z = z' := by
  obtain ⟨q, hz, hz'⟩ := (h.patiently.and h'.patiently).exists
  exact hz.symm.trans hz'

theorem comes_const (h : ∀ q, x (r.withPatience q) = z) (hz : ¬ RanAway z) : r.Comes x z :=
  ⟨hz, 0, fun q _ => h q⟩

/-- What is read with some patience, and not given up, is what reading comes to. -/
theorem comes_of_refined {p : Nat}
    (h : ∀ q, p ≤ q → Refined (x (r.withPatience p)) (x (r.withPatience q)))
    (hz : ¬ RanAway (x (r.withPatience p))) : r.Comes x (x (r.withPatience p)) :=
  ⟨hz, p, fun q hq => (h q hq).eq hz⟩

variable {m : Reader A → ReadM α} {f : Reader A → α → ReadM β} {s : Reading}

theorem Comes.bind (h : r.Comes (m · s) z)
    (hf : ∀ a t, z = .ok a t → ∃ w, r.Comes (f · a t) w) :
    ∃ w, r.Comes (fun r => (m r >>= f r) s) w := by
  obtain ⟨hkept, hm⟩ := h
  cases z with
  | ok a t =>
    obtain ⟨w, hw, hf⟩ := hf a t rfl
    refine ⟨w, hw, (hm.and hf).mono ?_⟩
    rintro q ⟨hm, hf⟩
    exact (bind_ok hm).trans hf
  | error fault t =>
    exact ⟨.error fault t, not_ranAway_error hkept, hm.mono fun q hm => bind_error hm⟩

/-- What reading that leads on comes to. -/
theorem Comes.cases {P : Reading → Prop} {y : Passage} (h : r.Comes x z)
    (hx : ∀ q, Yields P ((r.withPatience q).Fails y s) (x (r.withPatience q))) :
    (∃ a t, r.Comes x (.ok a t) ∧ P t) ∨
      ∃ fault t, r.Comes x (.error fault t) ∧ r.Patiently (·.Mishandled y s fault t) := by
  obtain ⟨q, hq⟩ := h.patiently.exists
  cases z with
  | ok a t => exact .inl ⟨a, t, h, (hx q).of_ok hq⟩
  | error fault t =>
    refine .inr ⟨fault, t, h, h.patiently.mono fun q hq => ?_⟩
    exact ((hx q).of_error hq).resolve_left (mt ranAway_error.mpr h.kept)

end Comes

/-! ## Statements, blocks and scripts -/

section Ends

variable {r : Reader A} {s t : Reading}

/-- The operations of a reader lead on. -/
theorem own_keeps (r : Reader A) (s : Reading) : r.own.Keeps s.Leads where
  statement h := ((leadsOn (Nat.le_refl _) _).statement _ _).mono (fun _ ht => h.trans ht.1)
    fun _ _ _ => trivial
  block h := ((leadsOn (Nat.le_refl _) _).block _).mono (fun _ ht => h.trans ht.leads)
    fun _ _ _ => trivial

theorem own_refines {a b : Nat} (hab : a ≤ b) :
    (r.withPatience a).own.Refines (r.withPatience b).own Anywhere where
  statement _ := (read_refined hab hab _).1 _ _
  block _ := (read_refined hab hab _).2 _

theorem respite_of_leads (p : Nat) (h : s.Leads t) :
    ∃ q, (r.withPatience (p + 1)).respite (p + 1) s t = some q ∧ p ≤ q := by
  rcases Nat.lt_or_eq_of_le h.remaining_le with hfewer | hsame
  · exact ⟨p + 1, respite_fewer _ _ hfewer, Nat.le_succ p⟩
  · exact ⟨p, respite_same hsame, Nat.le_refl p⟩

/-- The bound on how often a form may have its own line read again makes up for no
more than one step of patience. -/
theorem own_refines_nestedAt (p : Nat) (keyword : String) (s : Reading) :
    (r.withPatience p).own.Refines ((r.withPatience (p + 1)).nestedAt (p + 1) keyword s)
      s.Leads := by
  constructor
  · intro topLevel inSubroutine t h
    obtain ⟨q, hq, hle⟩ := respite_of_leads p h
    rw [nestedAt_statement hq]
    exact (read_refined (Nat.le_succ p) hle t).1 topLevel inSubroutine
  · intro b t h
    obtain ⟨q, hq, hle⟩ := respite_of_leads p h
    rw [nestedAt_block hq]
    exact (read_refined (Nat.le_succ p) hle t).2 b

theorem settled_comes (keyword : String) (st : Statement) (n : Nat) (outcome : Outcome A)
    (t : Reading) : ∃ z, r.Comes (fun r => r.settled keyword st n outcome t) z := by
  refine ⟨r.settled keyword st n outcome t, comes_const (fun q => rfl) ?_⟩
  rintro ⟨keyword', u, h⟩
  cases outcome <;> dsimp only [settled] at h <;> split at h <;> cases h

/-- A statement comes to something if the call of its form does. -/
theorem readStatement_comes_of (topLevel inSubroutine : Bool) (s : Reading)
    (h : ∀ l form, r.table.Hands s l form → ∃ z, r.Comes (fun r =>
      r.call r.own (keywordOf l) (statementOf l topLevel inSubroutine) form s) z) :
    ∃ z, r.Comes (·.readStatement topLevel inSubroutine s) z := by
  by_cases ahead : 0 < s.remaining
  · by_cases hhands : ∃ l form, r.table.Hands s l form
    · obtain ⟨l, form, hhands⟩ := hhands
      obtain ⟨z, hkept, p, hp⟩ := h l form hhands
      have hcall : r.Comes (fun r => r.call (r.nestedAt r.patience (keywordOf l) s) (keywordOf l)
          (statementOf l topLevel inSubroutine) form s) z := by
        refine ⟨hkept, p + 1, fun q hq => ?_⟩
        obtain ⟨q, rfl⟩ := Nat.exists_eq_add_of_le' (Nat.lt_of_lt_of_le (Nat.succ_pos p) hq)
        have hrefined : Refined z ((r.withPatience (q + 1)).call
            ((r.withPatience (q + 1)).nestedAt (q + 1) (keywordOf l) s) (keywordOf l)
            (statementOf l topLevel inSubroutine) form s) := by
          rw [← hp q (Nat.le_of_succ_le_succ hq)]
          exact rounds_refined (Reading.Leads.kept s) (own_keeps _ s)
            (own_refines_nestedAt q (keywordOf l) s) (Nat.le_succ q) (Nat.le_succ q) (.refl s)
        exact hrefined.eq hkept
      obtain ⟨w, hkept, hw⟩ := hcall.bind fun outcome t _ =>
        settled_comes (keywordOf l) (statementOf l topLevel inSubroutine) s.remaining outcome t
      refine ⟨w, hkept, hw.mono fun q hq => ?_⟩
      exact (statementAt_handed (r := r.withPatience q) hhands q).trans hq
    · obtain ⟨st, t, -, hread⟩ := statementAt_unhanded ahead hhands
      exact ⟨_, comes_const (fun q => hread q q) not_ranAway_ok⟩
  · exact ⟨_, comes_const (fun q => statementAt_done ahead q) not_ranAway_ok⟩

/-- A block comes to something if its first statement does, and all that is behind. -/
theorem readBlock_comes_of (b : Opening)
    (hfirst : (∀ l, s.cursor.current? = some l → l.text ≠ b.terminator) →
      ∃ z, r.Comes (·.readStatement false b.inSubroutine s) z)
    (hothers : ∀ t, t.remaining < s.remaining → ∃ z, r.Comes (·.readBlock b t) z) :
    ∃ z, r.Comes (·.readBlock b s) z := by
  rcases hl : s.cursor.rest with _ | ⟨l, rest⟩
  · exact ⟨_, comes_const (fun q => block_unclosed q hl) not_ranAway_ok⟩
  · have ahead : 0 < s.remaining := by simp [Reading.remaining, hl]
    by_cases hclosing : l.text = b.terminator
    · exact ⟨_, comes_const (fun q => block_close q hl hclosing) not_ranAway_ok⟩
    · obtain ⟨z, hz⟩ := hfirst fun l' hl' => by
        cases (Cursor.current?_of_rest hl).symm.trans hl'
        exact hclosing
      obtain ⟨w, hkept, hw⟩ : ∃ w, r.Comes (fun r =>
          (r.readStatement false b.inSubroutine >>= fun node =>
            r.readBlock b >>= fun ns => pure (node.toList ++ ns)) s) w := by
        refine hz.bind fun node t hnode => ?_
        subst hnode
        obtain ⟨q, hq⟩ := hz.patiently.exists
        obtain ⟨w, hw⟩ := hothers t (statementAt_fewer ahead hq)
        exact hw.bind fun ns u _ => ⟨_, comes_const (fun _ => rfl) not_ranAway_ok⟩
      exact ⟨w, hkept, hw.mono fun q hq => (block_inside hl hclosing q).trans hq⟩

variable (hends : r.FormsEnd)
include hends

theorem readStatement_comes (topLevel inSubroutine : Bool) (s : Reading) :
    ∃ z, r.Comes (·.readStatement topLevel inSubroutine s) z :=
  readStatement_comes_of topLevel inSubroutine s fun l form hhands =>
    hends topLevel inSubroutine s l form hhands

theorem readBlock_comes (b : Opening) (s : Reading) : ∃ z, r.Comes (·.readBlock b s) z := by
  generalize hn : s.remaining = n
  induction n using Nat.strongRecOn generalizing s with
  | ind n ih =>
    exact readBlock_comes_of b (fun _ => readStatement_comes hends false b.inSubroutine s)
      fun t hfewer => ih _ (hn ▸ hfewer) t rfl

theorem readTree_comes (s : Reading) : ∃ z, r.Comes (·.readTree s) z := by
  generalize hn : s.remaining = n
  induction n using Nat.strongRecOn generalizing s with
  | ind n ih =>
    by_cases ahead : 0 < s.remaining
    · obtain ⟨z, hz⟩ := readStatement_comes hends true false s
      obtain ⟨w, hkept, hw⟩ : ∃ w, r.Comes (fun r => (r.readStatement true false >>= fun node =>
          r.readTree >>= fun tree => pure (node.elim tree tree.cons)) s) w := by
        refine hz.bind fun node t hnode => ?_
        subst hnode
        obtain ⟨q, hq⟩ := hz.patiently.exists
        obtain ⟨w, hw⟩ := ih _ (hn ▸ statementAt_fewer ahead hq) t rfl
        exact hw.bind fun tree u _ => ⟨_, comes_const (fun _ => rfl) not_ranAway_ok⟩
      exact ⟨w, hkept, hw.mono fun q hq => (readTree_ahead ahead).trans hq⟩
    · have hl := Reading.rest_eq_nil ahead
      exact ⟨_, comes_const (fun q => readTree_done hl) not_ranAway_ok⟩

end Ends

end Reader

end CommandScript
