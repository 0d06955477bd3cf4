import CommandScript.Proofs.Linking

/-!
# Where statements stand

Much of what is asked of a statement depends on where it stands: in a
subroutine or in the main block, inside an iteration or not. `Throughout`
asks something of every statement of a script at its own site.

What lowering reports is of this kind. `Node.complaints` lists it, and there
is nothing to list exactly if every call leads to a subroutine and every
`break` is inside an iteration (`Node.complaints_eq_nil_iff`). With the
subroutines that are defined again these are all reports of a lowering
(`Tree.journal_lower`).
-/

namespace CommandScript

variable {A : Type}

/-- Where a statement stands. -/
structure Site where
  inSubroutine : Bool := false
  /-- Whether an iteration of the same main block or subroutine is around it. -/
  enclosed : Bool := false
  deriving DecidableEq, Repr

/-- The site of the statements of an iteration. -/
def Site.inside (site : Site) : Site := { site with enclosed := true }

namespace Node

mutual

/-- `P` holds of a statement at its site, and of every statement in its
blocks. What is in a definition stands elsewhere, and is not asked. -/
def Throughout (P : Site → Node A → Prop) (site : Site) (n : Node A) : Prop :=
  P site n ∧
    match n with
    | block children => ThroughoutAll P site children
    | iterate _ _ body _ => ThroughoutAll P site.inside body
    | _ => True

def ThroughoutAll (P : Site → Node A → Prop) (site : Site) (ns : List (Node A)) : Prop :=
  match ns with
  | [] => True
  | n :: ns => Throughout P site n ∧ ThroughoutAll P site ns

end

theorem throughoutAll_iff {P : Site → Node A → Prop} {site : Site} {ns : List (Node A)} :
    ThroughoutAll P site ns ↔ ∀ n ∈ ns, n.Throughout P site := by
  induction ns with
  | nil => simp [ThroughoutAll]
  | cons n ns ih => simp only [ThroughoutAll, ih, List.forall_mem_cons]

theorem Throughout.here {P : Site → Node A → Prop} {site : Site} {n : Node A}
    (h : n.Throughout P site) : P site n := by
  cases n <;> exact h.1

mutual

/-- What follows from two conditions at each site follows throughout. -/
theorem Throughout.combine {P Q R : Site → Node A → Prop}
    (h : ∀ site n, P site n → Q site n → R site n) {site : Site} (n : Node A)
    (hp : n.Throughout P site) (hq : n.Throughout Q site) : n.Throughout R site := by
  cases n with
  | block children =>
    simp only [Throughout] at hp hq ⊢
    exact ⟨h _ _ hp.1 hq.1, ThroughoutAll.combine h children hp.2 hq.2⟩
  | iterate kind selector body line =>
    simp only [Throughout] at hp hq ⊢
    exact ⟨h _ _ hp.1 hq.1, ThroughoutAll.combine h body hp.2 hq.2⟩
  | command | define | call | subroutineReturn | leave | exit =>
    simp only [Throughout] at hp hq ⊢
    exact ⟨h _ _ hp.1 hq.1, trivial⟩

theorem ThroughoutAll.combine {P Q R : Site → Node A → Prop}
    (h : ∀ site n, P site n → Q site n → R site n) {site : Site} (ns : List (Node A))
    (hp : ThroughoutAll P site ns) (hq : ThroughoutAll Q site ns) : ThroughoutAll R site ns := by
  cases ns with
  | nil => trivial
  | cons n ns =>
    simp only [ThroughoutAll] at hp hq ⊢
    exact ⟨Throughout.combine h n hp.1 hq.1, ThroughoutAll.combine h ns hp.2 hq.2⟩

end

end Node

/-- `P` holds of every statement of a script at its site. -/
structure Tree.Throughout (P : Site → Node A → Prop) (t : Tree A) : Prop where
  main : Node.ThroughoutAll P {} t.main
  subroutines : ∀ s ∈ t.subroutines, Node.ThroughoutAll P { inSubroutine := true } s.body

theorem Tree.Throughout.combine {P Q R : Site → Node A → Prop} {t : Tree A}
    (h : ∀ site n, P site n → Q site n → R site n) (hp : t.Throughout P) (hq : t.Throughout Q) :
    t.Throughout R where
  main := Node.ThroughoutAll.combine h _ hp.main hq.main
  subroutines s hs := Node.ThroughoutAll.combine h _ (hp.subroutines s hs) (hq.subroutines s hs)

/-! ## Complaints about statements -/

namespace Node

mutual

/-- What lowering reports of a statement, given which subroutines there are
and whether an iteration encloses it. -/
def complaints (known : String → Bool) (enclosed : Bool) (n : Node A) : List Diagnostic :=
  match n with
  | block children => complaintsAll known enclosed children
  | command _ => []
  | iterate _ _ body _ => complaintsAll known true body
  | define _ _ _ => []
  | call name line => if known name then [] else [.error line (.unknownSubroutine name)]
  | subroutineReturn => []
  | leave line => if enclosed then [] else [.error line .strayBreak]
  | exit => []

def complaintsAll (known : String → Bool) (enclosed : Bool) (ns : List (Node A)) :
    List Diagnostic :=
  match ns with
  | [] => []
  | n :: ns => complaints known enclosed n ++ complaintsAll known enclosed ns

end

/-- A call leads to a subroutine, and a `break` out of an iteration. -/
def Resolved (known : String → Bool) (site : Site) : Node A → Prop
  | call name _ => known name = true
  | leave _ => site.enclosed = true
  | _ => True

mutual

theorem complaints_eq_nil_iff {known : String → Bool} (site : Site) (n : Node A) :
    n.complaints known site.enclosed = [] ↔ n.Throughout (Resolved known) site := by
  cases n with
  | block children =>
    simp only [complaints, Throughout, Resolved, true_and]
    exact complaintsAll_eq_nil_iff site children
  | iterate kind selector body line =>
    simp only [complaints, Throughout, Resolved, true_and]
    exact complaintsAll_eq_nil_iff site.inside body
  | call name line => cases h : known name <;> simp [complaints, Throughout, Resolved, h]
  | leave line => cases h : site.enclosed <;> simp [complaints, Throughout, Resolved, h]
  | command | define | subroutineReturn | exit => simp [complaints, Throughout, Resolved]

theorem complaintsAll_eq_nil_iff {known : String → Bool} (site : Site) (ns : List (Node A)) :
    complaintsAll known site.enclosed ns = [] ↔ ThroughoutAll (Resolved known) site ns := by
  cases ns with
  | nil => simp [complaintsAll, ThroughoutAll]
  | cons n ns =>
    simp only [complaintsAll, ThroughoutAll, List.append_eq_nil_iff]
    exact and_congr (complaints_eq_nil_iff site n) (complaintsAll_eq_nil_iff site ns)

end

mutual

theorem isError_of_mem_complaints {known : String → Bool} {enclosed : Bool} {x : Diagnostic}
    (n : Node A) (h : x ∈ n.complaints known enclosed) : x.isError = true := by
  cases n with
  | block children =>
    simp only [complaints] at h
    exact isError_of_mem_complaintsAll children h
  | iterate kind selector body line =>
    simp only [complaints] at h
    exact isError_of_mem_complaintsAll body h
  | call name line =>
    simp only [complaints] at h
    split at h
    · cases h
    · rw [List.mem_singleton.mp h]
      rfl
  | leave line =>
    simp only [complaints] at h
    split at h
    · cases h
    · rw [List.mem_singleton.mp h]
      rfl
  | command | define | subroutineReturn | exit => simp [complaints] at h

theorem isError_of_mem_complaintsAll {known : String → Bool} {enclosed : Bool} {x : Diagnostic}
    (ns : List (Node A)) (h : x ∈ complaintsAll known enclosed ns) : x.isError = true := by
  cases ns with
  | nil => simp [complaintsAll] at h
  | cons n ns =>
    simp only [complaintsAll, List.mem_append] at h
    exact h.elim (isError_of_mem_complaints n) (isError_of_mem_complaintsAll ns)

end

end Node

/-- An iteration reports what its body does, in a scope of its own. -/
theorem Draft.journal_iterate (d : Draft A) (kind : Iteration) (selector : Option A)
    (body : Draft A → Draft A) :
    ∃ d₁ exit, (d.iterate kind selector body).journal = (body d₁).journal ∧
      d₁.scope = d.scope.enter exit ∧ d₁.journal = d.journal := by
  cases selector with
  | none => exact ⟨_, _, rfl, rfl, rfl⟩
  | some selector => cases kind <;> exact ⟨_, _, rfl, rfl, rfl⟩

namespace Node

mutual

/-- Lowering a statement reports its complaints. -/
theorem journal_lower (n : Node A) (d : Draft A) :
    (n.lower d).journal = d.journal ++
      n.complaints (fun name => (d.scope.find? name).isSome) d.scope.breakTarget.isSome := by
  cases n with
  | block children =>
    simp only [lower, complaints]
    exact journal_lowerAll children d
  | iterate kind selector body line =>
    simp only [lower, complaints]
    obtain ⟨d₁, exit, h, hscope, hjournal⟩ := d.journal_iterate kind selector (lowerAll body)
    rw [h, journal_lowerAll body d₁, hscope, hjournal]
    rfl
  | call name line =>
    cases h : d.scope.find? name <;>
      simp [lower, complaints, h, Draft.report, Draft.jump, Draft.emit]
  | leave line =>
    cases h : d.scope.breakTarget <;>
      simp [lower, complaints, h, Draft.report, Draft.jump, Draft.emit]
  | command | define | subroutineReturn | exit => exact (List.append_nil _).symm

theorem journal_lowerAll (ns : List (Node A)) (d : Draft A) :
    (lowerAll ns d).journal = d.journal ++
      complaintsAll (fun name => (d.scope.find? name).isSome) d.scope.breakTarget.isSome ns := by
  cases ns with
  | nil => exact (List.append_nil _).symm
  | cons n ns =>
    simp only [lowerAll, complaintsAll]
    rw [journal_lowerAll ns, journal_lower n, (lower_emits n d).scope, List.append_assoc]

end

end Node

/-! ## Complaints about scripts -/

namespace Tree

/-- What is reported of subroutines that are defined again, if those in `seen`
are defined, on the lines there. -/
def redefinitions (seen : List (String × Nat)) : List (Subroutine A) → List Diagnostic
  | [] => []
  | s :: rest =>
    match seen.lookup s.name with
    | some first => .error s.line (.redefinition s.name first) :: redefinitions seen rest
    | none => redefinitions ((s.name, s.line) :: seen) rest

/-- What lowering reports of a script. -/
def complaints (t : Tree A) : List Diagnostic :=
  redefinitions [] t.subroutines ++ Node.complaintsAll t.known false t.main ++
    (firsts [] t.subroutines).flatMap fun s => Node.complaintsAll t.known false s.body

theorem redefinitions_eq_nil_iff (seen : List (String × Nat)) (subs : List (Subroutine A)) :
    redefinitions seen subs = [] ↔
      (subs.map (·.name)).Nodup ∧ ∀ s ∈ subs, s.name ∉ seen.map (·.1) := by
  induction subs generalizing seen with
  | nil => simp [redefinitions]
  | cons s subs ih =>
    have hseen : (seen.lookup s.name).isSome = true ↔ s.name ∈ seen.map (·.1) := by
      rw [isSome_lookup, List.contains_iff_mem]
    rw [redefinitions, List.map_cons, List.nodup_cons, List.forall_mem_cons]
    cases hl : seen.lookup s.name with
    | some first =>
      rw [hl] at hseen
      have hmem := hseen.mp rfl
      exact ⟨fun h => absurd h (List.cons_ne_nil _ _), fun h => absurd hmem h.2.1⟩
    | none =>
      rw [hl] at hseen
      have hnew : s.name ∉ seen.map (·.1) := fun h => Bool.false_ne_true (hseen.mpr h)
      simp only [ih, List.map_cons, List.mem_cons, not_or]
      constructor
      · rintro ⟨hnodup, hothers⟩
        refine ⟨⟨fun hs => ?_, hnodup⟩, hnew, fun s' hs' => (hothers s' hs').2⟩
        obtain ⟨s', hs', hname⟩ := List.mem_map.mp hs
        exact (hothers s' hs').1 hname
      · rintro ⟨⟨hfirst, hnodup⟩, -, hothers⟩
        refine ⟨hnodup, fun s' hs' => ⟨fun hname => hfirst ?_, hothers s' hs'⟩⟩
        exact hname ▸ List.mem_map_of_mem hs'

theorem isError_of_mem_redefinitions {seen : List (String × Nat)} {subs : List (Subroutine A)}
    {x : Diagnostic} (h : x ∈ redefinitions seen subs) : x.isError = true := by
  induction subs generalizing seen with
  | nil => simp [redefinitions] at h
  | cons s subs ih =>
    rw [redefinitions] at h
    split at h
    · rcases List.mem_cons.mp h with rfl | h
      · rfl
      · exact ih h
    · exact ih h

/-- Where no name is defined twice, every definition counts. -/
theorem firsts_eq_self {seen : List String} {subs : List (Subroutine A)}
    (hnodup : (subs.map (·.name)).Nodup) (hseen : ∀ s ∈ subs, s.name ∉ seen) :
    firsts seen subs = subs := by
  induction subs generalizing seen with
  | nil => rfl
  | cons s subs ih =>
    rw [List.map_cons, List.nodup_cons] at hnodup
    rw [firsts, if_neg (by simpa using hseen s List.mem_cons_self)]
    congr 1
    refine ih hnodup.2 fun s' hs' => ?_
    rw [List.mem_cons, not_or]
    refine ⟨fun e => hnodup.1 (e ▸ List.mem_map_of_mem hs'), ?_⟩
    exact hseen s' (List.mem_cons_of_mem _ hs')

/-- All that lowering reports are errors. -/
theorem isError_of_mem_complaints {t : Tree A} {x : Diagnostic} (h : x ∈ t.complaints) :
    x.isError = true := by
  simp only [complaints, List.mem_append, List.mem_flatMap] at h
  rcases h with (h | h) | ⟨s, -, h⟩
  · exact isError_of_mem_redefinitions h
  · exact Node.isError_of_mem_complaintsAll _ h
  · exact Node.isError_of_mem_complaintsAll _ h

/-- There is nothing to complain about if names are defined once, calls lead
to subroutines and `break`s are inside iterations. -/
theorem complaints_eq_nil_iff (t : Tree A) :
    t.complaints = [] ↔
      (t.subroutines.map (·.name)).Nodup ∧ t.Throughout (Node.Resolved t.known) := by
  simp only [complaints, List.append_eq_nil_iff, redefinitions_eq_nil_iff, List.map_nil,
    List.not_mem_nil, not_false_eq_true, implies_true, and_true, and_assoc,
    List.flatMap_eq_nil_iff]
  refine and_congr_right fun hnodup => ?_
  rw [firsts_eq_self hnodup fun _ _ => List.not_mem_nil]
  constructor
  · rintro ⟨hmain, hsubs⟩
    exact ⟨(Node.complaintsAll_eq_nil_iff {} _).mp hmain, fun s hs =>
      (Node.complaintsAll_eq_nil_iff { inSubroutine := true } _).mp (hsubs s hs)⟩
  · rintro ⟨hmain, hsubs⟩
    exact ⟨(Node.complaintsAll_eq_nil_iff _ _).mpr hmain, fun s hs =>
      (Node.complaintsAll_eq_nil_iff _ _).mpr (hsubs s hs)⟩

theorem journal_declareAll (seen : List (String × Nat)) (subs : List (Subroutine A)) (d : Draft A) :
    (declareAll seen subs d).journal = d.journal ++ redefinitions seen subs := by
  induction subs generalizing seen d with
  | nil => exact (List.append_nil _).symm
  | cons s subs ih =>
    rw [declareAll, redefinitions]
    cases seen.lookup s.name with
    | some first =>
      dsimp only
      rw [ih, Draft.report, List.append_assoc]
      rfl
    | none => exact ih _ _

theorem journal_lowerEach {fs : List (Subroutine A)} {d d' : Draft A}
    (hout : d.scope.breakTarget = none)
    (h : fs.foldlM (fun d s => s.lower d) d = .ok d') :
    d'.journal = d.journal ++ fs.flatMap fun s =>
      Node.complaintsAll (fun name => (d.scope.find? name).isSome) false s.body := by
  induction fs generalizing d with
  | nil =>
    obtain rfl := Except.ok.inj h
    exact (List.append_nil _).symm
  | cons s fs ih =>
    rw [List.foldlM_cons, Subroutine.lower] at h
    split at h
    · cases h
    · rename_i entry hentry
      have hscope : (Node.lowerAll s.body (d.bind entry)).scope = d.scope :=
        (Node.lowerAll_emits s.body (d.bind entry)).scope
      have hbody := Node.journal_lowerAll s.body (d.bind entry)
      have h := ih (d := (Node.lowerAll s.body (d.bind entry)).control "subroutine::return"
        .subroutineReturn) (hscope ▸ hout) h
      rw [h, Draft.scope_control, hscope, List.flatMap_cons, ← List.append_assoc]
      congr 1
      rw [Draft.scope_bind, hout] at hbody
      exact hbody

/-- Lowering a script reports its complaints and nothing else. -/
theorem journal_lower {t : Tree A} {d : Draft A} (h : t.lower {} = .ok d) :
    d.journal = t.complaints := by
  obtain ⟨-, -, hscope, -⟩ := t.lowerMain_gives
  obtain ⟨-, hdeclared⟩ := declareAll_gives t.subroutines [] Draft.Gives.empty fun _ => rfl
  have hdeclared : (declareAll [] t.subroutines ({} : Draft A)).scope = t.scope := hdeclared
  have hmain : t.lowerMain.journal = redefinitions [] t.subroutines ++
      Node.complaintsAll t.known false t.main := by
    have hjournal : t.lowerMain.journal =
        (Node.lowerAll t.main (declareAll [] t.subroutines {})).journal := by
      rw [lowerMain]
      split <;> rfl
    rw [hjournal, Node.journal_lowerAll, journal_declareAll, hdeclared,
      funext t.isSome_find?_scope]
    rfl
  rw [lower_eq] at h
  rw [journal_lowerEach (by rw [hscope]; rfl) h, hmain, hscope, funext t.isSome_find?_scope]
  rfl

/-- There is nothing wrong with a script that was lowered without an error. -/
theorem complaints_eq_nil {t : Tree A} {d : Draft A} {earlier : List Diagnostic}
    (h : t.lower {} = .ok d) (hclean : hasErrors (earlier ++ d.journal) = false) :
    t.complaints = [] := by
  rw [List.eq_nil_iff_forall_not_mem]
  intro x hx
  rw [journal_lower h, hasErrors, List.any_eq_false] at hclean
  exact hclean x (List.mem_append_right _ hx) (isError_of_mem_complaints hx)

end Tree

end CommandScript
