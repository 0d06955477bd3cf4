import CommandScript.Proofs.Moves

/-!
# Pragmas act in the order of their lines

Pragmas stand anywhere in a script, in blocks of any depth and in blocks that
are never closed, and what one of them switches decides how later lines are
grouped into blocks. Still the features in the end are what the pragmas make
of them one after the other, as if there were no other lines. The reason is
that what is left of this to do, taken from the features so far, never changes
(`Reading.Move.prospect`); and likewise with what is reported of pragmas
(`Reading.Move.pragmaReports`).
-/

namespace CommandScript

variable {A : Type} {g : Grammar A}

/-! ## What a pragma says -/

/-- Whether a line is a pragma. -/
def Line.isPragma (l : Line) : Bool := Reader.keywordOf l == "pragma"

/-- The flag that a pragma names, and what it sets it to; `none` if it does
not have one of the two forms of a pragma. -/
def Line.setting? (l : Line) : Option (String × Bool) :=
  match Token.words l.text with
  | ["pragma", "enable", flag] => some (flag, true)
  | ["pragma", "disable", flag] => some (flag, false)
  | _ => none

/-- The features behind a pragma: the one it names is set, if there is one of
that name. -/
def Features.heed (f : Features) (l : Line) : Features :=
  match l.setting? with
  | some (flag, on) => (Feature.ofName? flag).elim f (f.set · on)
  | none => f

/-- What is wrong with a pragma. -/
def Line.pragmaFault? (l : Line) : Option Cause :=
  match l.setting? with
  | some (flag, _) => if (Feature.ofName? flag).isSome then none else some (.unknownFeature flag)
  | none => some .pragmaForm

/-- The report of a pragma that has something wrong with it. -/
def Line.pragmaReport? (l : Line) : Option Diagnostic :=
  l.pragmaFault?.map (.error l.number)

/-- Whether a cause is one that pragmas are reported for. -/
def Cause.isPragmaFault : Cause → Bool
  | pragmaForm => true
  | unknownFeature _ => true
  | _ => false

theorem Cause.keywords_of_isPragmaFault {cause : Cause} (h : cause.isPragmaFault = true) :
    cause.keywords = ["pragma"] := by
  cases cause with
  | pragmaForm | unknownFeature => rfl
  | _ => cases h

theorem Cause.isPragmaFault_of_isUnclosed {cause : Cause} (h : cause.isUnclosed = true) :
    cause.isPragmaFault = false := by
  cases cause with
  | unclosedBlock | unclosedSubroutine => rfl
  | _ => cases h

/-- The form of pragmas does what the pragma says. -/
theorem Verdict.ofPragma_eq_heed (l : Line) (topLevel inSubroutine : Bool) (f : Features) :
    (ofPragma (Reader.statementOf l topLevel inSubroutine) f : Verdict A) =
      finished l.pragmaReport?.toList (f.heed l) none := by
  simp only [ofPragma, Reader.statementOf, Line.pragmaReport?, Line.pragmaFault?, Features.heed,
    Features.setNamed?]
  split
  · rename_i flag hwords
    have hsetting : l.setting? = some (flag, true) := by simp only [Line.setting?, hwords]
    simp only [hsetting]
    cases Feature.ofName? flag <;> rfl
  · rename_i flag hwords
    have hsetting : l.setting? = some (flag, false) := by simp only [Line.setting?, hwords]
    simp only [hsetting]
    cases Feature.ofName? flag <;> rfl
  · have hsetting : l.setting? = none := by simp only [Line.setting?]
    simp only [hsetting]
    rfl

theorem Line.isPragmaFault_of_pragmaReport? {l : Line} {d : Diagnostic}
    (h : l.pragmaReport? = some d) : d.cause.isPragmaFault = true := by
  obtain ⟨cause, hcause, rfl⟩ := Option.map_eq_some_iff.mp h
  show cause.isPragmaFault = true
  rw [Line.pragmaFault?] at hcause
  split at hcause
  · split at hcause
    · cases hcause
    · obtain rfl := Option.some.inj hcause
      rfl
  · obtain rfl := Option.some.inj hcause
    rfl

theorem Line.not_isPragma_of_closing {l : Line} (h : l.text = "\x7d" ∨ l.text = "end") :
    l.isPragma = false := by
  rw [Line.isPragma]
  rcases Passes.keywordOf_closing h with h | h
  · rw [h]
    decide
  · rw [h]
    decide

/-! ## Passing a line -/

namespace Passes

variable {l : Line} {f f' : Features} {ds : List Diagnostic}

theorem of_isPragma (h : Passes g l f ds f') (hl : l.isPragma = true) :
    ds = l.pragmaReport?.toList ∧ f' = f.heed l := by
  have hk : Reader.keywordOf l = "pragma" := beq_iff_eq.mp hl
  have hverdict {topLevel inSubroutine : Bool} {v : Verdict A}
      (hv : judge g (Reader.statementOf l topLevel inSubroutine) f = v) :
      v = .finished l.pragmaReport?.toList (f.heed l) none := by
    rw [← hv, ← Verdict.ofPragma_eq_heed l topLevel inSubroutine f]
    exact judge_pragma hk
  cases h with
  | accepted verdict | refused verdict | opens verdict => cases hverdict verdict
  | finished verdict =>
    cases hverdict verdict
    exact ⟨rfl, rfl⟩
  | closes closing => cases hl.symm.trans (Line.not_isPragma_of_closing closing)

theorem features_of_not_isPragma (h : Passes g l f ds f') (hl : l.isPragma = false) : f' = f :=
  h.features_eq fun hk => Bool.eq_false_iff.mp hl (beq_iff_eq.mpr hk)

theorem filter_of_not_isPragma (h : Passes g l f ds f') (hl : l.isPragma = false) :
    ds.filter (·.cause.isPragmaFault) = [] := by
  rw [List.filter_eq_nil_iff]
  intro d hd hfault
  rcases h.reports hd with ⟨-, hk⟩ | ⟨reason, rfl⟩
  · rw [Cause.keywords_of_isPragmaFault hfault] at hk
    exact absurd (beq_iff_eq.mpr (List.mem_singleton.mp hk)) (Bool.eq_false_iff.mp hl)
  · cases hfault

end Passes

/-- The features that the pragmas ahead will make of those in force. -/
def Reading.prospect (s : Reading) : Features :=
  (s.cursor.rest.filter (·.isPragma)).foldl Features.heed s.features

namespace Reading.Move

variable {s t : Reading}

theorem prospect (h : Move g s t) : t.prospect = s.prospect := by
  cases h with
  | @pass l rest ds f ahead passes =>
    show (s.advance.cursor.rest.filter (·.isPragma)).foldl Features.heed f = s.prospect
    rw [Reading.prospect, rest_advance ahead, ahead]
    cases hl : l.isPragma with
    | true => rw [List.filter_cons_of_pos hl, List.foldl_cons, (passes.of_isPragma hl).2]
    | false =>
      rw [List.filter_cons_of_neg (Bool.eq_false_iff.mp hl), passes.features_of_not_isPragma hl]
  | unclosed => rfl

theorem pragmaReports (h : Move g s t) :
    t.account (·.cause.isPragmaFault) Line.isPragma Line.pragmaReport? =
      s.account (·.cause.isPragmaFault) Line.isPragma Line.pragmaReport? := by
  refine h.account (fun {l _ _ _} _ passes => ?_)
    fun _ _ isOpen => Cause.isPragmaFault_of_isUnclosed isOpen
  cases hl : l.isPragma with
  | true =>
    rw [if_pos rfl, (passes.of_isPragma hl).1, List.filter_eq_self]
    exact fun d hd => Line.isPragmaFault_of_pragmaReport? (Option.mem_toList.mp hd)
  | false => exact passes.filter_of_not_isPragma hl

end Reading.Move

/-! ## Scripts -/

/-- Pragmas act in the order of their lines, whatever stands between them and
around them: they alone make the features in the end, each of those that name
a feature by setting it. One report is made of each of the others, and none
of those. -/
theorem pragmas_act_in_line_order (g : Grammar A) (f : Features) (lines : List Line) :
    ∃ tree s, Reader.read { grammar := g, table := .builtin } f ⟨lines, []⟩ = .ok tree s ∧
      s.features = (lines.filter (·.isPragma)).foldl Features.heed f ∧
      s.journal.filter (·.cause.isPragmaFault) =
        (lines.filter (·.isPragma)).filterMap Line.pragmaReport? := by
  obtain ⟨tree, s, hread, hreads⟩ := Reader.read_reads g f ⟨lines, []⟩
  have hrest := hreads.rest_eq_nil
  have hprospect := hreads.moves.keep Reading.Move.prospect
  have hreports := hreads.moves.keep Reading.Move.pragmaReports
  rw [Reading.prospect, hrest] at hprospect
  rw [Reading.account, hrest] at hreports
  exact ⟨tree, s, hread, hprospect, (List.append_nil _).symm.trans hreports⟩

end CommandScript
