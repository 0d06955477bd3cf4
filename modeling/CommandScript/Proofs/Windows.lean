import CommandScript.Proofs.Traversal
import CommandScript.Report
import Mathlib.Data.List.Basic
import Mathlib.Data.List.Sort

/-!
# Windows of a report

The window around a line shows the lines near it, one row for each
(`Report.window_eq`), under one another in columns (`Report.showsNear_window`). If
the line is one of the source, then its own row is among them, and is the only
one that is marked (`Report.marksOnce_window`).

Lines and distances are any numbers here. With numbers up to a limit, as long as
the source is no longer and no line reaches it, a report comes out the same
(`Report.upTo?_eq`): the end of a window may lie behind the limit, but the source
has ended before.
-/

namespace CommandScript.Report

/-- The lines at most `radius` away from line `here`, with their numbers. -/
def shown (here radius : Nat) (source : List String) : List (String × Nat) :=
  (source.zipIdx.take (here + radius + 1)).drop (here - radius)

/-- The width of the gutter, in which the last number shown has room. -/
def gutterWidth (here radius : Nat) (source : List String) : Nat :=
  (min (here + radius) (source.length - 1) + 1).repr.length

/-- A window has a row for each line near its own, and for no other. -/
theorem window_eq (here radius : Nat) (source : List String) :
    window here radius source = String.join ((shown here radius source).map fun p =>
      row (gutterWidth here radius source) here p.2 p.1) := by
  have hlength : source.zipIdx.length = source.length := List.length_zipIdx
  rw [window]
  split
  · -- The lines near line `here` are all behind the last.
    rename_i hnone
    have hshown : shown here radius source = [] := by
      rw [shown, List.drop_eq_nil_iff, List.length_take]
      rcases Bool.or_eq_true_iff.mp hnone with hempty | hbehind
      · rw [List.isEmpty_iff.mp hempty]
        exact Nat.le_trans (Nat.min_le_right ..) (Nat.zero_le _)
      · have := of_decide_eq_true hbehind
        omega
    rw [hshown]
    rfl
  · rename_i hsome
    have hne : source ≠ [] := by
      rintro rfl
      exact hsome rfl
    have hpos := List.length_pos_iff.mpr hne
    have htake : source.zipIdx.take (min (here + radius) (source.length - 1) + 1) =
        source.zipIdx.take (here + radius + 1) := by
      rw [List.take_eq_take_iff]
      omega
    rw [htake]
    exact congrArg String.join (List.map_congr_left fun p _ => rfl)

/-! ## Rows -/

/-- The lines at most `radius` away from line `here`, in order. -/
def near (here radius : Nat) (source : List String) : List Nat :=
  (List.range source.length).filter fun i => ((i : Int) - here).natAbs ≤ radius

theorem mem_near {here radius : Nat} {source : List String} {i : Nat} :
    i ∈ near here radius source ↔
      i < source.length ∧ here - radius ≤ i ∧ i < here + radius + 1 := by
  rw [near, List.mem_filter, List.mem_range, decide_eq_true_iff]
  omega

theorem ordered_near (here radius : Nat) (source : List String) :
    (near here radius source).Pairwise (· < ·) :=
  List.pairwise_lt_range.filter _

/-- The lines shown are those near the line that a window is about. -/
theorem shown_eq_map_near (here radius : Nat) (source : List String) :
    shown here radius source =
      (near here radius source).map fun i => (source.getD i "", i) := by
  have hall : source.zipIdx = (List.range source.length).map fun i => (source.getD i "", i) := by
    refine List.ext_getElem (by simp) fun i hi _ => ?_
    have hlt : i < source.length := by simpa using hi
    simp [hlt]
  have hrange : ((List.range source.length).take (here + radius + 1)).drop (here - radius) =
      near here radius source := by
    -- Both are in order and have the same members.
    refine List.Pairwise.eq_of_mem_iff ?_ (ordered_near here radius source) fun i => ?_
    · exact (List.pairwise_lt_range.take).drop
    · rw [mem_near, List.take_range, List.mem_drop_iff_getElem]
      simp only [List.getElem_range, List.length_range]
      constructor
      · rintro ⟨j, hj, rfl⟩
        omega
      · rintro ⟨hlt, hlo, hhi⟩
        exact ⟨i - (here - radius), by omega, by omega⟩
  rw [shown, hall, ← List.map_take, ← List.map_drop, hrange]

/-- A number needs no more room than a larger one. -/
theorem length_repr_le {m n : Nat} (h : m ≤ n) : m.repr.length ≤ n.repr.length := by
  rw [Nat.length_repr_le_iff n.length_repr_pos]
  exact Nat.lt_of_le_of_lt h ((Nat.length_repr_le_iff n.length_repr_pos).mp (Nat.le_refl _))

theorem length_gutter {width number : Nat} (h : number.repr.length ≤ width) :
    (gutter width number).length = width := by
  simp only [gutter, String.length_append, String.length_ofList, List.length_replicate]
  omega

/-- The row of a line that is not the one a window is about: its number at the left of
a column of the given width, and its text. -/
def plainRow (width : Nat) (p : String × Nat) : String :=
  gutter width (p.2 + 1) ++ " | " ++ p.1 ++ "\n"

/-- The row of the line that a window is about. -/
def markedRow (width : Nat) (p : String × Nat) : String :=
  gutter width (p.2 + 1) ++ " * " ++ p.1 ++ " <- HERE\n"

/-- The row of line `i` in a window around line `here`. -/
def rowOf (width here : Nat) (source : List String) (i : Nat) : String :=
  if i = here then markedRow width (source.getD i "", i) else plainRow width (source.getD i "", i)

/-- The text `text` has a row for each line near line `here`, in order, and no
other. The numbers stand in a column with room for each of them, so that the
marks behind them are in one column too. -/
def ShowsNear (here radius : Nat) (source : List String) (text : String) : Prop :=
  ∃ width, text = String.join ((near here radius source).map (rowOf width here source)) ∧
    ∀ i ∈ near here radius source, (i + 1).repr.length ≤ width ∧
      gutter width (i + 1) =
        (i + 1).repr ++ String.ofList (List.replicate (width - (i + 1).repr.length) ' ') ∧
      (gutter width (i + 1)).length = width

theorem showsNear_window (here radius : Nat) (source : List String) :
    ShowsNear here radius source (window here radius source) := by
  refine ⟨gutterWidth here radius source, ?_, fun i hi => ?_⟩
  · rw [window_eq, shown_eq_map_near, List.map_map]
    rfl
  · have hi := mem_near.mp hi
    have hroom : (i + 1).repr.length ≤ gutterWidth here radius source :=
      length_repr_le (by omega)
    exact ⟨hroom, rfl, length_gutter hroom⟩

/-- The text `text` has rows for the lines at most `radius` away from line
`here`, in order, of which that of line `here` is marked and no other is. -/
def MarksOnce (here radius : Nat) (source : List String) (text : String) : Prop :=
  ∃ width before line behind,
    text = String.join (before.map (plainRow width)) ++ markedRow width (line, here) ++
      String.join (behind.map (plainRow width)) ∧
    shown here radius source = before ++ (line, here) :: behind ∧ source[here]? = some line ∧
    (∀ p ∈ before, p.2 < here) ∧ ∀ p ∈ behind, here < p.2

/-- The lines near a line of the source: some before it, itself, and some behind. -/
theorem near_eq_around {here : Nat} {source : List String} (h : here < source.length)
    (radius : Nat) : ∃ before behind, near here radius source = before ++ here :: behind ∧
      (∀ i ∈ before, i < here) ∧ ∀ i ∈ behind, here < i := by
  have hmem : here ∈ near here radius source := mem_near.mpr ⟨h, by omega, by omega⟩
  obtain ⟨before, behind, hsplit⟩ := List.append_of_mem hmem
  have hordered := ordered_near here radius source
  rw [hsplit] at hordered
  obtain ⟨-, hbehind, hbefore⟩ := List.pairwise_append.mp hordered
  exact ⟨before, behind, hsplit, fun i hi => hbefore i hi here List.mem_cons_self,
    (List.pairwise_cons.mp hbehind).1⟩

/-- The window around a line of the source marks it and no other. -/
theorem marksOnce_window {here : Nat} {source : List String} (h : here < source.length)
    (radius : Nat) : MarksOnce here radius source (window here radius source) := by
  obtain ⟨width, htext, -⟩ := showsNear_window here radius source
  obtain ⟨before, behind, hnear, hbefore, hbehind⟩ := near_eq_around h radius
  have hplain {is : List Nat} (his : ∀ i ∈ is, i ≠ here) :
      is.map (rowOf width here source) =
        (is.map fun i => (source.getD i "", i)).map (plainRow width) := by
    rw [List.map_map]
    exact List.map_congr_left fun i hi => if_neg (his i hi)
  have hmarked : rowOf width here source here = markedRow width (source.getD here "", here) :=
    if_pos rfl
  refine ⟨width, before.map fun i => (source.getD i "", i), source.getD here "",
    behind.map fun i => (source.getD i "", i), ?_, ?_, ?_, ?_, ?_⟩
  · rw [htext, hnear, List.map_append, List.map_cons, String.join_append, String.join_cons,
      hplain fun i hi => Nat.ne_of_lt (hbefore i hi),
      hplain fun i hi => Nat.ne_of_gt (hbehind i hi), hmarked, String.append_assoc]
  · rw [shown_eq_map_near, hnear, List.map_append, List.map_cons]
  · rw [List.getD_eq_getElem?_getD, List.getElem?_eq_getElem h, Option.getD_some]
  · simpa using hbefore
  · simpa using hbehind

/-! ## Numbers of a limited size -/

/-- The sum of two numbers, if it is at most `limit`. -/
def sum? (limit m n : Nat) : Option Nat := if m + n ≤ limit then some (m + n) else none

/-- A window reckoned with numbers up to `limit`; none if a sum is larger. Only
where the window would end is cut off at the limit. -/
def windowUpTo? (limit here radius : Nat) (source : List String) : Option String :=
  let first := here - radius
  let last := min (min (here + radius) limit) (source.length - 1)
  if source.isEmpty || last < first then some ""
  else do
    let stop ← sum? limit last 1
    let rows ← ((source.zipIdx.take stop).drop first).mapM fun (text, index) => do
      let number ← sum? limit index 1
      let lead := gutter stop.repr.length number
      some <|
        if index = here then lead ++ " * " ++ text ++ " <- HERE\n"
        else lead ++ " | " ++ text ++ "\n"
    some (String.join rows)

/-- A report reckoned with numbers up to `limit`; none if a sum is larger. -/
def upTo? (limit : Nat) (unit : String) (radius : Nat) (source : List String)
    (ds : List Diagnostic) : Option Report :=
  if ds.isEmpty then some {}
  else do
    let parts ← ds.mapM fun d => do
      let number ← sum? limit d.line 1
      let rows ← windowUpTo? limit d.line radius source
      some (s!"{d.severity.label} ({unit}:{number}): {d.message}\n" ++ rows)
    some
      { text := s!"While compiling function '{unit}'\n" ++ String.join parts
        hasErrors := CommandScript.hasErrors ds }

theorem sum?_one {limit n : Nat} (h : n < limit) : sum? limit n 1 = some (n + 1) := if_pos h

theorem windowUpTo?_eq {limit : Nat} {source : List String} (h : source.length ≤ limit)
    (here radius : Nat) :
    windowUpTo? limit here radius source = some (window here radius source) := by
  have hlast : min (min (here + radius) limit) (source.length - 1) =
      min (here + radius) (source.length - 1) := by omega
  rw [windowUpTo?, window]
  simp only [hlast]
  split
  · rfl
  · rename_i hsome
    have hne : source ≠ [] := by
      rintro rfl
      exact hsome rfl
    have hpos := List.length_pos_iff.mpr hne
    rw [sum?_one (by omega : min (here + radius) (source.length - 1) < limit)]
    rw [Option.bind_eq_bind, Option.bind_some, mapM_eq_pure (g := fun p => row _ here p.2 p.1)]
    · rfl
    · rintro ⟨text, index⟩ hp
      have hindex := (List.mem_zipIdx' (List.mem_of_mem_take (List.mem_of_mem_drop hp))).1
      simp only [sum?_one (Nat.lt_of_lt_of_le hindex h), Option.bind_some]
      rfl

theorem upTo?_eq {limit : Nat} {source : List String} {ds : List Diagnostic}
    (hsource : source.length ≤ limit) (hds : ∀ d ∈ ds, d.line < limit) (unit : String)
    (radius : Nat) :
    upTo? limit unit radius source ds = some (ofDiagnostics unit radius source ds) := by
  rw [upTo?, ofDiagnostics]
  split
  · rfl
  · rw [mapM_eq_pure (g := fun d => headline unit d ++ window d.line radius source)]
    · rfl
    · intro d hd
      rw [sum?_one (hds d hd), windowUpTo?_eq hsource]
      rfl

/-! ## Reports -/

theorem hasErrors_iff {unit : String} {radius : Nat} {source : List String}
    {ds : List Diagnostic} :
    (ofDiagnostics unit radius source ds).hasErrors = true ↔ ∃ d ∈ ds, d.severity = .error := by
  have hall : (ofDiagnostics unit radius source ds).hasErrors = CommandScript.hasErrors ds := by
    cases ds <;> rfl
  rw [hall, CommandScript.hasErrors, List.any_eq_true]
  simp only [Diagnostic.isError, beq_iff_eq]

/-- What a report says. Without diagnostics it is empty, and tells of no errors.
Else it names the script and has, for each diagnostic in order, a headline with
the number of its line and a row for each line of the source that is at most
`radius` away. It tells of errors if there is one. Reckoned with numbers up to
any limit that the source and the lines of the diagnostics stay below, it is the
same, and no sum is too large. -/
theorem report_shows_lines_near (unit : String) (radius : Nat) (source : List String)
    (ds : List Diagnostic) :
    (ds = [] → ofDiagnostics unit radius source ds = ⟨"", false⟩) ∧
    (ds ≠ [] → ∃ rows : Diagnostic → String,
      (ofDiagnostics unit radius source ds).text =
        "While compiling function '" ++ unit ++ "'\n" ++ String.join (ds.map fun d =>
          d.severity.label ++ " (" ++ unit ++ ":" ++ (d.line + 1).repr ++ "): " ++ d.message ++
            "\n" ++ rows d) ∧
      ∀ d ∈ ds, ShowsNear d.line radius source (rows d)) ∧
    ((ofDiagnostics unit radius source ds).hasErrors = true ↔ ∃ d ∈ ds, d.severity = .error) ∧
    ∀ limit, source.length ≤ limit → (∀ d ∈ ds, d.line < limit) →
      upTo? limit unit radius source ds = some (ofDiagnostics unit radius source ds) := by
  refine ⟨?_, fun hne => ⟨fun d => window d.line radius source, ?_, fun d _ => ?_⟩,
    hasErrors_iff, fun limit hsource hds => upTo?_eq hsource hds unit radius⟩
  · rintro rfl
    rfl
  · rw [ofDiagnostics, if_neg (by simpa using hne)]
    rfl
  · exact showsNear_window d.line radius source

/-- A source of three lines, about which something is said in its middle and far
behind its end. -/
def outpost : List String := ["say a", "bad b", "say c"]

/-- The greatest number that 64 bits hold. -/
def horizon : Nat := 18446744073709551615

/-- One line is as far out as can be. -/
def outpostAlarms : List Diagnostic :=
  [.warning 1 .subroutinesOff, .error (horizon - 1) .strayBreak]

theorem outpost_shows_lines_near :
    outpost.length ≤ horizon ∧ (∀ d ∈ outpostAlarms, d.line < horizon) ∧
    outpostAlarms ≠ [] ∧
    upTo? horizon "outpost" horizon outpost outpostAlarms =
      some (ofDiagnostics "outpost" horizon outpost outpostAlarms) ∧
    (ofDiagnostics "outpost" horizon outpost outpostAlarms).hasErrors = true ∧
    ∃ rows : Diagnostic → String,
      (ofDiagnostics "outpost" horizon outpost outpostAlarms).text =
        "While compiling function '" ++ "outpost" ++ "'\n" ++
          String.join (outpostAlarms.map fun d =>
            d.severity.label ++ " (" ++ "outpost" ++ ":" ++ (d.line + 1).repr ++ "): " ++
              d.message ++ "\n" ++ rows d) ∧
      ∀ d ∈ outpostAlarms, ShowsNear d.line horizon outpost (rows d) := by
  have hlength : outpost.length ≤ horizon := by decide
  have hlines : ∀ d ∈ outpostAlarms, d.line < horizon := by decide
  have hne : outpostAlarms ≠ [] := by decide
  obtain ⟨-, hrows, herrors, hupTo⟩ :=
    report_shows_lines_near "outpost" horizon outpost outpostAlarms
  exact ⟨hlength, hlines, hne, hupTo _ hlength hlines,
    herrors.mpr ⟨_, List.mem_cons_of_mem _ List.mem_cons_self, rfl⟩, hrows hne⟩

end CommandScript.Report
