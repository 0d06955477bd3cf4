import CommandScript.Proofs.Joining
import Mathlib.Data.List.Nodup

/-!
# What assembled lines are like

A file comes out as statements and reports. Each group of joined lines gives one
of the two at most, and only the last group can be cut off by the end of the file
(`Line.incomplete_groupsFrom`). So statements and refused groups are numbered
upwards, and no number is of both; a report of another kind is made once at most,
for the last line of the file.
-/

namespace CommandScript.Line

open Text (isBlank Tight trimChars trimLeftChars)

/-! ## Texts -/

/-- Trimming leaves no blank at either end. -/
theorem trim_trim (text : String) : Text.trim (Text.trim text) = Text.trim text := by
  rw [Text.trim_eq_self_iff]
  refine ⟨fun c hc => not_isBlank_head_trim hc, fun c hc => ?_⟩
  rw [Text.trim, String.toList_ofList, trimChars, Text.trimRightChars, List.getLast?_reverse] at hc
  have hnot := List.head?_dropWhile_not isBlank (trimLeftChars text.toList).reverse
  rwa [hc] at hnot

/-- What a statement can start with: anything but a comment or a slash. -/
theorem of_statement? {number : Nat} {text : String} {l : Line}
    (h : statement? number text = some l) :
    l = ⟨text, number⟩ ∧ ∃ c, text.toList.head? = some c ∧ c ≠ '#' ∧ c ≠ '/' := by
  rw [statement?] at h
  split at h
  · cases h
  · rename_i hhead
    cases hc : text.toList.head? with
    | none => exact absurd (by rw [hc]; rfl) hhead
    | some c =>
      rw [hc] at hhead
      refine ⟨(Option.some.inj h).symm, c, rfl, ?_, ?_⟩
      · rintro rfl
        exact hhead (by decide)
      · rintro rfl
        exact hhead (by decide)

/-- What is refused starts with a slash. -/
theorem of_refusal? {number : Nat} {text : String} {d : Diagnostic}
    (h : refusal? number text = some d) :
    text.toList.head? = some '/' ∧ d.line = number ∧ d.severity = .error ∧
      (d.cause = .slashComment ∨ ∃ word, d.cause = .slashCommand word) := by
  obtain ⟨rest, hrest, rfl⟩ := Option.map_eq_some_iff.mp h
  refine ⟨?_, rfl, rfl, ?_⟩
  · rw [Text.after?] at hrest
    split at hrest
    · rename_i hslash
      obtain ⟨behind, hbehind⟩ := List.isPrefixOf_iff_prefix.mp hslash
      rw [← hbehind]
      rfl
    · cases hrest
  · show (if _ then Cause.slashComment else _) = _ ∨ _
    split
    · exact .inl rfl
    · exact .inr ⟨_, rfl⟩

/-- A text is not both a statement and refused. -/
theorem refusal?_eq_none {number number' : Nat} {text : String} {l : Line}
    (h : statement? number text = some l) : refusal? number' text = none := by
  obtain ⟨-, c, hc, -, hslash⟩ := of_statement? h
  by_contra hne
  obtain ⟨d, hd⟩ := Option.ne_none_iff_exists'.mp hne
  obtain ⟨hhead, -⟩ := of_refusal? hd
  exact hslash (Option.some.inj (hc.symm.trans hhead))

/-! ## The group at the end -/

/-- At most one group is cut off by the end of the file, and ends where the file
does. -/
theorem incomplete_groupsFrom (goesOn : List String → Bool) (number : Nat)
    (pieces rest : List String) :
    (groupsFrom goesOn number pieces rest).filter (!·.complete) = [] ∨
      ∃ g, (groupsFrom goesOn number pieces rest).filter (!·.complete) = [g] ∧
        g.number + g.pieces.length = number + pieces.length + rest.length := by
  induction rest generalizing number pieces with
  | nil =>
    rw [groupsFrom]
    split
    · exact .inl rfl
    · exact .inr ⟨⟨number, pieces, false⟩, rfl, rfl⟩
  | cons text rest ih =>
    rw [groupsFrom]
    split
    · have hend : number + pieces.length + (text :: rest).length =
          number + (pieces ++ [text]).length + rest.length := by
        rw [List.length_cons, List.length_append, List.length_singleton]
        omega
      rw [hend]
      exact ih number (pieces ++ [text])
    · have hend : number + pieces.length + (text :: rest).length =
          number + pieces.length + 1 + ([] : List String).length + rest.length := by
        rw [List.length_cons, List.length_nil]
        omega
      rw [hend, List.filter_cons_of_neg (by simp)]
      exact ih (number + pieces.length + 1) []

/-! ## Reports -/

/-- Whether a diagnostic says that the file ends where a line was to follow. -/
def saysOpen (d : Diagnostic) : Bool := d.message == "line continuation at end of input"

theorem head?_slashCommand (word : String) :
    (Cause.slashCommand word).message.toList.head? = some 'u' := by
  have hmessage : (Cause.slashCommand word).message =
      "unknown command (did you mean '" ++ word ++ "'?)" := rfl
  have hfirst : "unknown command (did you mean '".toList.head? = some 'u' := by decide
  rw [hmessage, String.toList_append, String.toList_append, List.append_assoc, List.head?_append,
    hfirst]
  rfl

theorem saysOpen_of_refusal? {number : Nat} {text : String} {d : Diagnostic}
    (h : refusal? number text = some d) : saysOpen d = false := by
  obtain ⟨-, -, -, hcause | ⟨word, hcause⟩⟩ := of_refusal? h
  · rw [saysOpen, Diagnostic.message, hcause]
    decide
  · -- The two messages differ in their first character.
    rw [saysOpen, Diagnostic.message, hcause, beq_eq_false_iff_ne]
    intro heq
    have hfirst := head?_slashCommand word
    rw [heq] at hfirst
    exact absurd hfirst (by decide)

/-- The reports on the end of a file are those of the groups that it cuts off. -/
theorem filter_saysOpen (text : Group → String) (groups : List Group) :
    (Assembled.ofGroups text groups).diagnostics.filter saysOpen =
      (groups.filter (!·.complete)).map fun g =>
        .error (g.number + g.pieces.length - 1) .openContinuation := by
  induction groups with
  | nil => rfl
  | cons g groups ih =>
    have hrefused : (refusal? g.number (text g)).toList.filter saysOpen = [] := by
      rw [List.filter_eq_nil_iff]
      intro d hd
      rw [saysOpen_of_refusal? (Option.mem_toList.mp hd)]
      exact Bool.false_ne_true
    rw [Assembled.ofGroups_cons, List.filter_append, ih, Group.reports, List.filter_append, hrefused,
      List.append_nil, List.filter_cons]
    cases g.complete <;> rfl

/-- All others are about groups that are refused. -/
theorem filter_not_saysOpen (text : Group → String) (groups : List Group) :
    (Assembled.ofGroups text groups).diagnostics.filter (!saysOpen ·) =
      groups.filterMap fun g => refusal? g.number (text g) := by
  induction groups with
  | nil => rfl
  | cons g groups ih =>
    have hrefused : (refusal? g.number (text g)).toList.filter (!saysOpen ·) =
        (refusal? g.number (text g)).toList := by
      rw [List.filter_eq_self]
      intro d hd
      rw [saysOpen_of_refusal? (Option.mem_toList.mp hd)]
      rfl
    have hopen : (if g.complete then [] else
        [Diagnostic.error (g.number + g.pieces.length - 1) .openContinuation]).filter
          (!saysOpen ·) = [] := by
      cases g.complete <;> rfl
    rw [Assembled.ofGroups_cons, List.filter_append, ih, Group.reports, List.filter_append, hrefused,
      hopen, List.nil_append, List.filterMap_cons]
    cases refusal? g.number (text g) <;> rfl

/-! ## Files -/

section File

variable (raw : List String)

/-- No two groups of a file have the same number. -/
theorem eq_of_number_eq {g g' : Group} (hg : g ∈ groupsBy byText raw)
    (hg' : g' ∈ groupsBy byText raw) (h : g.number = g'.number) : g = g' := by
  have hgroups : (groupsBy byText raw).Pairwise (·.number < ·.number) := ordered_groupsFrom
  have hnodup : ((groupsBy byText raw).map (·.number)).Nodup :=
    List.pairwise_map.mpr (hgroups.imp Nat.ne_of_lt)
  exact List.inj_on_of_nodup_map hnodup hg hg' h

theorem diagnostics_saysOpen :
    (assemble raw).diagnostics.filter saysOpen = [] ∨
      ∃ line, (assemble raw).diagnostics.filter saysOpen = [.error line .openContinuation] ∧
        line + 1 = raw.length := by
  rw [assemble_eq_groups, filter_saysOpen]
  rcases incomplete_groupsFrom byText 0 [] (raw.map Text.trim) with hnone | ⟨g, hone, hend⟩
  · exact .inl (congrArg (List.map _) hnone)
  · have hmem : g ∈ groupsBy byText raw :=
      List.mem_of_mem_filter (hone ▸ List.mem_singleton_self g)
    have hpos := (end_le_of_mem_groupsBy hmem).1
    rw [List.length_nil, List.length_map] at hend
    exact .inr ⟨_, congrArg (List.map _) hone, by omega⟩

theorem diagnostics_not_saysOpen :
    (assemble raw).diagnostics.filter (!saysOpen ·) =
      (groupsBy byText raw).filterMap fun g => refusal? g.number g.fused := by
  rw [assemble_eq_groups, filter_not_saysOpen]

/-- A statement is the text of a group. -/
theorem of_mem_lines {l : Line} (hl : l ∈ (assemble raw).lines) :
    ∃ g ∈ groupsBy byText raw, statement? g.number g.fused = some l := by
  rw [assemble_eq_groups] at hl
  exact List.mem_filterMap.mp hl

theorem text_of_mem_lines {l : Line} (hl : l ∈ (assemble raw).lines) :
    l.text ≠ "" ∧ Text.trim l.text = l.text ∧ l.text.toList.head? ≠ some '#' ∧
      l.text.toList.head? ≠ some '/' := by
  obtain ⟨g, -, hstatement⟩ := of_mem_lines raw hl
  obtain ⟨rfl, c, hc, hcomment, hslash⟩ := of_statement? hstatement
  refine ⟨fun hempty => ?_, trim_trim _, fun h => ?_, fun h => ?_⟩
  · have hempty : g.fused = "" := hempty
    rw [hempty] at hc
    cases hc
  · exact hcomment (Option.some.inj (hc.symm.trans h))
  · exact hslash (Option.some.inj (hc.symm.trans h))

theorem of_mem_saysOpen {d : Diagnostic} (hd : d ∈ (assemble raw).diagnostics.filter saysOpen) :
    d.severity = .error ∧ d.line + 1 = raw.length := by
  rcases diagnostics_saysOpen raw with hnone | ⟨line, hone, hline⟩
  · rw [hnone] at hd
    cases hd
  · rw [hone] at hd
    obtain rfl := List.mem_singleton.mp hd
    exact ⟨rfl, hline⟩

/-- A group that is refused does not start on a line with a statement. -/
theorem of_mem_not_saysOpen {d : Diagnostic}
    (hd : d ∈ (assemble raw).diagnostics.filter (!saysOpen ·)) :
    d.severity = .error ∧ ∀ l ∈ (assemble raw).lines, l.number ≠ d.line := by
  rw [diagnostics_not_saysOpen] at hd
  obtain ⟨g, hg, hrefusal⟩ := List.mem_filterMap.mp hd
  obtain ⟨-, hline, hsevere, -⟩ := of_refusal? hrefusal
  refine ⟨hsevere, fun l hl heq => ?_⟩
  obtain ⟨g', hg', hstatement⟩ := of_mem_lines raw hl
  rw [number_of_statement? hstatement, hline] at heq
  obtain rfl := eq_of_number_eq raw hg' hg heq
  cases (refusal?_eq_none hstatement).symm.trans hrefusal

end File

/-- What the lines of a file amount to. The statements are numbered upwards by
lines of the file. Each is a text that is not empty, has no blank at its ends and
starts neither with a comment nor with a slash. That a line was to follow is
reported once at most, of the last line of the file. All other reports are errors
at lines that have no statement, numbered upwards as well. -/
theorem assembled_lines_are_ordered (raw : List String) :
    (assemble raw).lines.Pairwise (·.number < ·.number) ∧
    (∀ l ∈ (assemble raw).lines, l.number < raw.length ∧ l.text ≠ "" ∧
      Text.trim l.text = l.text ∧ l.text.toList.head? ≠ some '#' ∧
      l.text.toList.head? ≠ some '/') ∧
    (assemble raw).diagnostics.countP saysOpen ≤ 1 ∧
    (∀ d ∈ (assemble raw).diagnostics, d.severity = .error ∧
      (saysOpen d = true → d.line + 1 = raw.length) ∧
      (saysOpen d = false → ∀ l ∈ (assemble raw).lines, l.number ≠ d.line)) ∧
    ((assemble raw).diagnostics.filter (!saysOpen ·)).Pairwise (·.line < ·.line) := by
  refine ⟨ordered_assemble raw, fun l hl => ⟨number_lt_of_mem_assemble hl, text_of_mem_lines raw hl⟩,
    ?_, fun d hd => ?_, ?_⟩
  · rw [List.countP_eq_length_filter]
    rcases diagnostics_saysOpen raw with hnone | ⟨line, hone, -⟩
    · rw [hnone]
      exact Nat.zero_le _
    · rw [hone]
      exact Nat.le_refl _
  · cases hopen : saysOpen d with
    | true =>
      obtain ⟨hsevere, hline⟩ := of_mem_saysOpen raw (List.mem_filter.mpr ⟨hd, hopen⟩)
      exact ⟨hsevere, fun _ => hline, fun h => absurd h (by simp)⟩
    | false =>
      obtain ⟨hsevere, hline⟩ :=
        of_mem_not_saysOpen raw (List.mem_filter.mpr ⟨hd, by rw [hopen]; rfl⟩)
      exact ⟨hsevere, fun h => absurd h (by simp), fun _ => hline⟩
  · have hgroups : (groupsBy byText raw).Pairwise (·.number < ·.number) := ordered_groupsFrom
    rw [diagnostics_not_saysOpen]
    refine List.Pairwise.filterMap _ (fun g g' hlt d hd d' hd' => ?_) hgroups
    rwa [(of_refusal? hd).2.1, (of_refusal? hd').2.1]

/-- Lines that are a comment or refused only once they are joined, and one at the
end that was to go on. -/
example : assemble ["say a", "\\", "# b", "\\", "/c", "say d \\"] =
    ⟨[⟨"say a", 0⟩, ⟨"say d", 5⟩],
      [.error 3 (.slashCommand "c"), .error 5 .openContinuation]⟩ := by
  decide +kernel

end CommandScript.Line
