import CommandScript.Proofs.Reading

/-!
# Reading in another setting

What is read depends on the lines ahead and, through the verdicts, on the
features. Not on how many lines are behind, nor on what was reported before;
and lines further on matter to nothing but a block that is still open where
they begin, which says so in a report.

`Reading.Echoes` relates a state to one of another setting: with more lines
behind those ahead, and with features that verdicts do not tell apart. A
reading from the one is carried over to the other (`Reads.echo`,
`ReadsScript.echo`), with the same nodes and the same reports.
-/

namespace CommandScript

variable {A : Type}

/-! ## Features that verdicts do not tell apart -/

/-- The same verdict, but for the features it leaves, which `E` relates. -/
inductive Verdict.Alike (E : Features → Features → Prop) : Verdict A → Verdict A → Prop where
  | command (ds : List Diagnostic) : Alike E (command ds) (command ds)
  | finished (ds : List Diagnostic) {f f' : Features} (node : Option (Node A)) (h : E f f') :
      Alike E (finished ds f node) (finished ds f' node)
  | opens (ds : List Diagnostic) (b : Opening) (node : List (Node A) → Node A) :
      Alike E (opens ds b node) (opens ds b node)

/-- Lines are judged alike under features that `E` relates. -/
def Indistinct (g : Grammar A) (E : Features → Features → Prop) : Prop :=
  ∀ st f f', E f f' → (judge g st f).Alike E (judge g st f')

namespace Indistinct

variable {g : Grammar A} {E : Features → Features → Prop} {st : Statement} {f f₁ f₂ : Features}
  {ds : List Diagnostic}

theorem command (hE : Indistinct g E) (h : E f₁ f₂) (hv : judge g st f₁ = .command ds) :
    judge g st f₂ = .command ds := by
  have halike := hE st _ _ h
  rw [hv] at halike
  generalize judge g st f₂ = v at halike
  cases halike
  rfl

theorem finished (hE : Indistinct g E) (h : E f₁ f₂) {node : Option (Node A)}
    (hv : judge g st f₁ = .finished ds f node) :
    ∃ f', judge g st f₂ = .finished ds f' node ∧ E f f' := by
  have halike := hE st _ _ h
  rw [hv] at halike
  generalize judge g st f₂ = v at halike
  cases halike with
  | finished _ _ hf => exact ⟨_, rfl, hf⟩

theorem opens (hE : Indistinct g E) (h : E f₁ f₂) {b : Opening} {node : List (Node A) → Node A}
    (hv : judge g st f₁ = .opens ds b node) : judge g st f₂ = .opens ds b node := by
  have halike := hE st _ _ h
  rw [hv] at halike
  generalize judge g st f₂ = v at halike
  cases halike
  rfl

end Indistinct

theorem indistinct_eq (g : Grammar A) : Indistinct g Eq := by
  rintro st f _ rfl
  cases judge g st f with
  | command ds => exact .command ds
  | finished ds f node => exact .finished ds node rfl
  | opens ds b node => exact .opens ds b node

/-! ## Reports of open blocks -/

/-- The report of a block that is still open at the end. -/
def Cause.isUnclosed : Cause → Bool
  | unclosedBlock _ => true
  | unclosedSubroutine => true
  | _ => false

/-- A block that the built-in forms open is reported if it is left open. -/
theorem isUnclosed_of_opens {g : Grammar A} {st : Statement} {f : Features}
    {ds : List Diagnostic} {b : Opening} {node : List (Node A) → Node A}
    (h : judge g st f = .opens ds b node) : b.unclosed.isUnclosed = true := by
  obtain ⟨kind, selector, rfl, -⟩ | ⟨name, rfl, -⟩ := judge_opens h <;> rfl

/-- A part that reports it if it is left open. -/
def Part.Telling : Part → Prop
  | statement _ _ => True
  | block b => b.unclosed.isUnclosed = true

/-- No report of an open block is among `ds`. -/
def AllClosed (ds : List Diagnostic) : Prop := ∀ d ∈ ds, d.cause.isUnclosed = false

theorem allClosed_append {ds ds' : List Diagnostic} :
    AllClosed (ds ++ ds') ↔ AllClosed ds ∧ AllClosed ds' :=
  List.forall_mem_append

/-! ## Echoes -/

/-- In `s'` the lines ahead are those of `s` with `more` behind them, under
features that `E` relates. -/
structure Reading.Echoes (E : Features → Features → Prop) (more : List Line) (s s' : Reading) :
    Prop where
  rest : s'.cursor.rest = s.cursor.rest ++ more
  features : E s.features s'.features

namespace Reading

variable {E : Features → Features → Prop} {more : List Line} {s s' : Reading} {l : Line}
  {rest : List Line}

theorem rest_advance (h : s.cursor.rest = l :: rest) : s.advance.cursor.rest = rest := by
  obtain ⟨⟨n, lines⟩, f, j⟩ := s
  obtain rfl : lines = l :: rest := h
  rfl

namespace Echoes

theorem ahead (h : s.Echoes E more s') (hl : s.cursor.rest = l :: rest) :
    s'.cursor.rest = l :: (rest ++ more) := by
  rw [h.rest, hl, List.cons_append]

theorem advance (h : s.Echoes E more s') (hl : s.cursor.rest = l :: rest) :
    s.advance.Echoes E more s'.advance where
  rest := by rw [rest_advance hl, rest_advance (h.ahead hl)]
  features := h.features

theorem reports (h : s.Echoes E more s') (ds : List Diagnostic) :
    (s.reports ds).Echoes E more (s'.reports ds) :=
  ⟨h.rest, h.features⟩

end Echoes

/-- The host's grammar reads a line alike wherever it stands. -/
theorem command_echo (E : Features → Features → Prop) (g : Grammar A) (st : Statement)
    (hl : s.cursor.rest = l :: rest) :
    ∃ ds, (s.command g st).2.journal = s.journal ++ ds ∧ ∀ {more s'}, s.Echoes E more s' →
      (s'.command g st).1 = (s.command g st).1 ∧
      (s.command g st).2.Echoes E more (s'.command g st).2 ∧
      (s'.command g st).2.journal = s'.journal ++ ds := by
  simp only [Reading.command]
  cases g.command st.text with
  | ok a =>
    exact ⟨[], (List.append_nil _).symm, fun h =>
      ⟨rfl, h.advance hl, (List.append_nil _).symm⟩⟩
  | error e => exact ⟨_, rfl, fun h => ⟨rfl, (h.advance hl).reports _, rfl⟩⟩

end Reading

variable {g : Grammar A} {E : Features → Features → Prop}

/-- What is read is read again in another setting, unless a block is open
where that has more lines. -/
theorem Reads.echo (hE : Indistinct g E) {part : Part} {s t : Reading} {ns : List (Node A)}
    (h : Reads g part s ns t) (hpart : part.Telling) :
    ∃ ds, t.journal = s.journal ++ ds ∧ ∀ {more s'}, more = [] ∨ AllClosed ds →
      s.Echoes E more s' →
        ∃ t', Reads g part s' ns t' ∧ t.Echoes E more t' ∧ t'.journal = s'.journal ++ ds := by
  induction h with
  | @command topLevel inSubroutine s l rest ds ahead verdict =>
    obtain ⟨ds', hds, hecho⟩ := (s.reports ds).command_echo E g
      (Reader.statementOf l topLevel inSubroutine) ahead
    refine ⟨ds ++ ds', by rw [hds]; exact List.append_assoc .., fun {more s'} _ hs => ?_⟩
    obtain ⟨hnode, hnext, hjournal⟩ := hecho (hs.reports ds)
    have hreads := Reads.command (hs.ahead ahead) (hE.command hs.features verdict)
    rw [hnode] at hreads
    exact ⟨_, hreads, hnext, by rw [hjournal]; exact List.append_assoc ..⟩
  | @finished topLevel inSubroutine s l rest ds f node ahead verdict =>
    refine ⟨ds, rfl, fun {more s'} _ hs => ?_⟩
    obtain ⟨f', hv, hf⟩ := hE.finished hs.features verdict
    exact ⟨_, Reads.finished (hs.ahead ahead) hv, ⟨(hs.advance ahead).rest, hf⟩, rfl⟩
  | @opens topLevel inSubroutine s t l rest ds b node ns ahead verdict _ ih =>
    obtain ⟨ds', hds, hecho⟩ := ih (isUnclosed_of_opens verdict)
    refine ⟨ds ++ ds', by rw [hds]; exact List.append_assoc .., fun {more s'} hmore hs => ?_⟩
    obtain ⟨t', hbody, ht, hjournal⟩ :=
      hecho (hmore.imp_right fun h => (allClosed_append.mp h).2) ((hs.advance ahead).reports ds)
    exact ⟨t', Reads.opens (hs.ahead ahead) (hE.opens hs.features verdict) hbody, ht,
      by rw [hjournal]; exact List.append_assoc ..⟩
  | @unclosed b s ahead =>
    refine ⟨[.error b.line b.unclosed], rfl, fun {more s'} hmore hs => ?_⟩
    -- The block says that it is open, so that there are no more lines.
    obtain rfl : more = [] := by
      refine hmore.resolve_right fun hclosed => ?_
      have hopen : b.unclosed.isUnclosed = true := hpart
      cases hopen.symm.trans (hclosed _ (List.mem_singleton_self _))
    have hrest : s'.cursor.rest = [] := by rw [hs.rest, ahead]; rfl
    exact ⟨_, Reads.unclosed hrest, hs.reports _, rfl⟩
  | @close b s l rest ahead closing =>
    refine ⟨[], (List.append_nil _).symm, fun {more s'} _ hs => ?_⟩
    exact ⟨_, Reads.close (hs.ahead ahead) closing, hs.advance ahead, (List.append_nil _).symm⟩
  | @next b s t u l rest ns ns' ahead inside _ _ ih₁ ih₂ =>
    obtain ⟨ds₁, hds₁, hecho₁⟩ := ih₁ trivial
    obtain ⟨ds₂, hds₂, hecho₂⟩ := ih₂ hpart
    refine ⟨ds₁ ++ ds₂, by rw [hds₂, hds₁, List.append_assoc], fun {more s'} hmore hs => ?_⟩
    obtain ⟨t', hfirst, ht, hjournal₁⟩ :=
      hecho₁ (hmore.imp_right fun h => (allClosed_append.mp h).1) hs
    obtain ⟨u', hothers, hu, hjournal₂⟩ :=
      hecho₂ (hmore.imp_right fun h => (allClosed_append.mp h).2) ht
    exact ⟨u', Reads.next (hs.ahead ahead) inside hfirst hothers, hu,
      by rw [hjournal₂, hjournal₁, List.append_assoc]⟩

/-! ## Scripts -/

/-- A script and another one behind it. -/
def Tree.append (t t' : Tree A) : Tree A :=
  ⟨t.main ++ t'.main, t.subroutines ++ t'.subroutines⟩

theorem Tree.append_empty (t : Tree A) : t.append {} = t := by
  simp [Tree.append]

theorem Tree.foldr_cons_append (ns : List (Node A)) (t t' : Tree A) :
    (ns.foldr Tree.cons t).append t' = ns.foldr Tree.cons (t.append t') := by
  induction ns with
  | nil => rfl
  | cons n ns ih =>
    rw [List.foldr_cons, List.foldr_cons, ← ih]
    cases n <;> rfl

/-- A script is read again in another setting, unless a block is open where
that has more lines; and what is read behind it comes behind it. -/
theorem ReadsScript.echo (hE : Indistinct g E) {s t : Reading} {tree : Tree A}
    (h : ReadsScript g s tree t) :
    ∃ ds, t.journal = s.journal ++ ds ∧ ∀ {more s'}, more = [] ∨ AllClosed ds →
      s.Echoes E more s' → ∃ t', t'.cursor.rest = more ∧ E t.features t'.features ∧
        t'.journal = s'.journal ++ ds ∧
        ∀ tree' u, ReadsScript g t' tree' u → ReadsScript g s' (tree.append tree') u := by
  induction h with
  | @done s ahead =>
    refine ⟨[], (List.append_nil _).symm, fun {more s'} _ hs => ?_⟩
    refine ⟨s', by rw [hs.rest, ahead]; rfl, hs.features, (List.append_nil _).symm, ?_⟩
    exact fun tree' u h => h
  | @next s t u l rest ns tree ahead first _ ih =>
    obtain ⟨ds₁, hds₁, hecho₁⟩ := first.echo hE trivial
    obtain ⟨ds₂, hds₂, hecho₂⟩ := ih
    refine ⟨ds₁ ++ ds₂, by rw [hds₂, hds₁, List.append_assoc], fun {more s'} hmore hs => ?_⟩
    obtain ⟨t', hfirst, ht, hjournal₁⟩ :=
      hecho₁ (hmore.imp_right fun h => (allClosed_append.mp h).1) hs
    obtain ⟨u', hrest, hu, hjournal₂, hbehind⟩ :=
      hecho₂ (hmore.imp_right fun h => (allClosed_append.mp h).2) ht
    refine ⟨u', hrest, hu, by rw [hjournal₂, hjournal₁, List.append_assoc], fun tree' v h => ?_⟩
    rw [Tree.foldr_cons_append]
    exact .next (hs.ahead ahead) hfirst (hbehind tree' v h)

end CommandScript
