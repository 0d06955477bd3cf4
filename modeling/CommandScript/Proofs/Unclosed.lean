import CommandScript.Proofs.Joining
import CommandScript.Proofs.Moves

/-!
# Blocks left open

Which blocks are open somewhere in a script can be told without reading what is
in them: walk over the lines and keep a stack, to which a line that opens a
block adds it, and from which the line that closes it takes it (`Walk.next`).
A reader has no such stack. It goes down into each block it meets, and what is
on the stack of the walk is in its calls.

Reading and walking agree (`Reads.walk`): the reader reports what the walk does
(`Walk.told`) and then, on its way up from the last line, the blocks on the stack
(`ReadsScript.journal_eq`). So the order of the reports is read off the walk.
-/

namespace CommandScript

variable {A : Type} {g : Grammar A}

/-! ## Walks -/

/-- The report of a block that is left open. -/
def Opening.report (b : Opening) : Diagnostic := .error b.line b.unclosed

/-- A place in a script: the blocks that are open, the innermost first, and the
features in force. -/
structure Walk where
  blocks : List Opening := []
  features : Features

/-- What is reported where the host's grammar refuses a line. -/
def Grammar.complaint? (g : Grammar A) (l : Line) : Option Diagnostic :=
  match g.command l.text with
  | .ok _ => none
  | .error e => some (.error l.number (.badCommand e.message))

theorem Reading.command_snd (s : Reading) (g : Grammar A) (l : Line)
    (topLevel inSubroutine : Bool) :
    (s.command g (Reader.statementOf l topLevel inSubroutine)).2 =
      s.advance.reports (g.complaint? l).toList := by
  have htext : (Reader.statementOf l topLevel inSubroutine).text = l.text := rfl
  obtain ⟨a, ha, h⟩ | ⟨e, he, h⟩ :=
    s.command_cases g (Reader.statementOf l topLevel inSubroutine)
  · rw [h, Grammar.complaint?, ← htext, ha]
    exact (Reading.reports_nil _).symm
  · rw [h, Grammar.complaint?, ← htext, he]
    rfl

namespace Verdict

/-- The place behind a line of this verdict. -/
def behind (w : Walk) : Verdict A → Walk
  | command _ => w
  | finished _ f _ => { w with features := f }
  | opens _ b _ => { w with blocks := b :: w.blocks }

/-- What is reported of a line of this verdict. -/
def told (g : Grammar A) (l : Line) : Verdict A → List Diagnostic
  | command ds => ds ++ (g.complaint? l).toList
  | finished ds _ _ => ds
  | opens ds _ _ => ds

end Verdict

namespace Walk

/-- The statement that a line is. -/
def statement (w : Walk) (l : Line) : Statement :=
  Reader.statementOf l w.blocks.isEmpty (w.blocks.head?.any (·.inSubroutine))

/-- Whether a line closes the innermost block. -/
def closes (w : Walk) (l : Line) : Bool := w.blocks.head?.any (·.terminator == l.text)

def verdict (g : Grammar A) (w : Walk) (l : Line) : Verdict A := judge g (w.statement l) w.features

/-- The place behind a line. -/
def next (g : Grammar A) (w : Walk) (l : Line) : Walk :=
  if w.closes l then { w with blocks := w.blocks.tail } else (w.verdict g l).behind w

/-- What is reported of a line. -/
def reports (g : Grammar A) (w : Walk) (l : Line) : List Diagnostic :=
  if w.closes l then [] else (w.verdict g l).told g l

/-- The place behind some lines. -/
def after (g : Grammar A) (w : Walk) (lines : List Line) : Walk := lines.foldl (next g) w

/-- What is reported of some lines. -/
def told (g : Grammar A) (w : Walk) : List Line → List Diagnostic
  | [] => []
  | l :: lines => w.reports g l ++ (w.next g l).told g lines

theorem after_append (w : Walk) (lines lines' : List Line) :
    w.after g (lines ++ lines') = (w.after g lines).after g lines' :=
  List.foldl_append

theorem told_append (w : Walk) (lines lines' : List Line) :
    w.told g (lines ++ lines') = w.told g lines ++ (w.after g lines).told g lines' := by
  induction lines generalizing w with
  | nil => rfl
  | cons l lines ih =>
    rw [List.cons_append, told, told, ih, List.append_assoc]
    rfl

theorem told_singleton (w : Walk) (l : Line) : w.told g [l] = w.reports g l := List.append_nil _

end Walk

/-! ## Readings are walks -/

/-- The blocks that are open while a part of a script is read, of which `blocks`
are those around it. -/
def Part.stack (blocks : List Opening) : Part → List Opening
  | statement _ _ => blocks
  | block b => b :: blocks

/-- A part is read as what it is where the blocks around it are `blocks`, and the
line ahead, if it is a statement, does not close the innermost. -/
def Part.Within (blocks : List Opening) (s : Reading) : Part → Prop
  | statement topLevel inSubroutine => topLevel = blocks.isEmpty ∧
      inSubroutine = blocks.head?.any (·.inSubroutine) ∧
      ∀ l, s.cursor.rest.head? = some l → Walk.closes ⟨blocks, s.features⟩ l = false
  | block _ => True

/-- A reading that goes from `s` to `t` inside of `blocks` passes some lines as a
walk does; what is behind the last one on the stack is then reported. -/
def Walks (g : Grammar A) (stack blocks : List Opening) (s t : Reading) : Prop :=
  ∃ passed opened, s.cursor.rest = passed ++ t.cursor.rest ∧
    Walk.after g ⟨stack, s.features⟩ passed = ⟨opened ++ blocks, t.features⟩ ∧
    t.journal = s.journal ++ (Walk.told g ⟨stack, s.features⟩ passed ++ opened.map Opening.report) ∧
    (opened = [] ∨ t.cursor.rest = [])

section Walks

variable {blocks stack mid : List Opening} {s t u : Reading} {l : Line} {rest : List Line}

/-- One line that is passed. -/
theorem Walks.single (ahead : s.cursor.rest = l :: rest) (hrest : t.cursor.rest = rest)
    (hnext : Walk.next g ⟨stack, s.features⟩ l = ⟨blocks, t.features⟩)
    (hjournal : t.journal = s.journal ++ Walk.reports g ⟨stack, s.features⟩ l) :
    Walks g stack blocks s t := by
  refine ⟨[l], [], by rw [ahead, hrest]; rfl, hnext, ?_, .inl rfl⟩
  rw [Walk.told_singleton, List.map_nil, List.append_nil, hjournal]

theorem Walks.trans (h₁ : Walks g stack mid s t) (h₂ : Walks g mid blocks t u) :
    Walks g stack blocks s u := by
  obtain ⟨passed₁, opened₁, hrest₁, hafter₁, hjournal₁, hend₁⟩ := h₁
  obtain ⟨passed₂, opened₂, hrest₂, hafter₂, hjournal₂, hend₂⟩ := h₂
  rcases hend₁ with rfl | hend
  · -- The second reading goes on where the first has closed what it opened.
    refine ⟨passed₁ ++ passed₂, opened₂, ?_, ?_, ?_, hend₂⟩
    · rw [hrest₁, hrest₂, List.append_assoc]
    · rw [Walk.after_append, hafter₁]
      exact hafter₂
    · rw [Walk.told_append, hafter₁, hjournal₂, hjournal₁]
      simp only [List.map_nil, List.append_nil, List.nil_append, List.append_assoc]
  · -- No line is left for the second, which leaves open all that it is in.
    rw [hend] at hrest₂
    obtain ⟨rfl, hnone⟩ := List.append_eq_nil_iff.mp hrest₂.symm
    obtain ⟨rfl, hfeatures⟩ := Walk.mk.inj hafter₂
    refine ⟨passed₁, opened₁ ++ opened₂, by rw [hrest₁, hend, hnone], ?_, ?_, .inr hnone⟩
    · rw [hafter₁, hfeatures, List.append_assoc]
    · rw [hjournal₂, hjournal₁]
      simp only [Walk.told, List.nil_append, List.map_append, List.append_assoc]

/-- A line that does not close a block is passed as it is judged. -/
theorem Walks.judged {topLevel inSubroutine : Bool} {v : Verdict A}
    (hpart : (Part.statement topLevel inSubroutine).Within blocks s)
    (ahead : s.cursor.rest = l :: rest) (hrest : t.cursor.rest = rest)
    (hv : judge g (Reader.statementOf l topLevel inSubroutine) s.features = v)
    (hbehind : v.behind ⟨blocks, s.features⟩ = ⟨mid, t.features⟩)
    (hjournal : t.journal = s.journal ++ v.told g l) : Walks g blocks mid s t := by
  obtain ⟨rfl, rfl, hinside⟩ := hpart
  have hopen : Walk.closes ⟨blocks, s.features⟩ l = false := hinside l (by rw [ahead]; rfl)
  refine .single ahead hrest ?_ ?_
  · rw [Walk.next, hopen, ← hbehind, ← hv]
    rfl
  · rw [Walk.reports, hopen, hjournal, ← hv]
    rfl

/-- What is read is walked over. -/
theorem Reads.walk {part : Part} {ns : List (Node A)} (h : Reads g part s ns t)
    (hpart : part.Within blocks s) : Walks g (part.stack blocks) blocks s t := by
  induction h generalizing blocks with
  | @command topLevel inSubroutine s l rest ds ahead verdict =>
    rw [Reading.command_snd]
    refine .judged hpart ahead (s.rest_advance ahead) verdict rfl ?_
    exact List.append_assoc _ _ _
  | @finished _ _ s l rest ds f node ahead verdict =>
    exact .judged hpart ahead (s.rest_advance ahead) verdict rfl rfl
  | @opens _ _ s t l rest ds b node ns ahead verdict body ih =>
    have hopens : Walks g blocks (b :: blocks) s (s.advance.reports ds) :=
      .judged hpart ahead (s.rest_advance ahead) verdict rfl rfl
    exact hopens.trans (ih trivial)
  | @unclosed b s ahead => exact ⟨[], [b], rfl, rfl, rfl, .inr ahead⟩
  | @close b s l rest ahead closing =>
    have hcloses : Walk.closes ⟨b :: blocks, s.features⟩ l = true := beq_iff_eq.mpr closing.symm
    have hreports : Walk.reports g ⟨b :: blocks, s.features⟩ l = [] := if_pos hcloses
    refine .single ahead (s.rest_advance ahead) (if_pos hcloses) ?_
    exact (hreports ▸ List.append_nil _).symm
  | @next b s t u l rest ns ns' ahead inside first others ih₁ ih₂ =>
    have hinside : (Part.statement false b.inSubroutine).Within (b :: blocks) s := by
      refine ⟨rfl, rfl, fun l' hl' => ?_⟩
      rw [ahead] at hl'
      cases hl'
      exact beq_eq_false_iff_ne.mpr inside.symm
    exact (ih₁ hinside).trans (ih₂ trivial)

end Walks

theorem ReadsScript.walks {s t : Reading} {tree : Tree A} (h : ReadsScript g s tree t) :
    Walks g [] [] s t := by
  induction h with
  | @done s ahead => exact ⟨[], [], rfl, rfl, (List.append_nil _).symm, .inl rfl⟩
  | next _ first _ ih => exact Walks.trans (first.walk ⟨rfl, rfl, fun _ _ => rfl⟩) ih

/-- What reading a script reports: what walking over its lines does, and then the
blocks that are open behind the last. -/
theorem ReadsScript.journal_eq {s t : Reading} {tree : Tree A} (h : ReadsScript g s tree t) :
    t.journal = s.journal ++ (Walk.told g ⟨[], s.features⟩ s.cursor.rest ++
      (Walk.after g ⟨[], s.features⟩ s.cursor.rest).blocks.map Opening.report) := by
  obtain ⟨passed, opened, hrest, hafter, hjournal, -⟩ := h.walks
  rw [h.rest_eq_nil, List.append_nil] at hrest
  rw [hrest, hafter, List.append_nil]
  exact hjournal

/-! ## The order of the reports -/

/-- The block `b` is that of the line `l`: of an iteration with its keyword, or
of the subroutine that it names. -/
def Opening.IsOf (b : Opening) (l : Line) : Prop :=
  b.line = l.number ∧
    ((∃ kind : Iteration, Reader.keywordOf l = kind.keyword ∧ b.unclosed = .unclosedBlock kind) ∨
      Reader.keywordOf l = "subroutine" ∧ (Token.words l.text)[1]?.isSome = true ∧
        b.unclosed = .unclosedSubroutine)

theorem Opening.isOf_of_judge {l : Line} {topLevel inSubroutine : Bool} {f : Features}
    {ds : List Diagnostic} {b : Opening} {node : List (Node A) → Node A}
    (h : judge g (Reader.statementOf l topLevel inSubroutine) f = .opens ds b node) : b.IsOf l := by
  have hiteration (kind : Iteration) (hk : Reader.keywordOf l = kind.keyword)
      (h : Verdict.ofIteration g kind (Reader.statementOf l topLevel inSubroutine) =
        .opens ds b node) : b.IsOf l := by
    obtain h' | ⟨_, _, -, -, h'⟩ :=
      Verdict.ofIteration_cases g kind (Reader.statementOf l topLevel inSubroutine)
    · cases h'.symm.trans h
    · cases h'.symm.trans h
      exact ⟨rfl, .inl ⟨kind, hk, rfl⟩⟩
  have hopens (ds' : List Diagnostic) : Verdict.opens ds b node ≠ .command ds' := by simp
  unfold judge at h
  split at h
  · obtain ⟨_, _, h'⟩ := Verdict.ofPragma_eq (A := A) (Reader.statementOf l _ _) f
    cases h'.symm.trans h
  · rw [Verdict.ofBare] at h
    split at h <;> cases h
  · rw [Verdict.ofBare] at h
    split at h <;> cases h
  · rename_i hk
    exact hiteration .run hk (Verdict.of_gated h hopens)
  · rename_i hk
    exact hiteration .loop hk (Verdict.of_gated h hopens)
  · cases h
  · rename_i hk
    have h := Verdict.of_gated h hopens
    simp only [Verdict.ofDefinition] at h
    split at h
    · cases h
    · rename_i name hname
      cases h
      exact ⟨rfl, .inr ⟨hk, Option.isSome_of_eq_some hname, rfl⟩⟩
  · cases Verdict.of_gated h hopens
  · cases Verdict.of_gated h hopens
  · cases h

theorem Cause.isUnclosed_of_mem_keywords {cause : Cause} {keyword : String}
    (h : keyword ∈ cause.keywords) : cause.isUnclosed = false := by
  cases cause with
  | unclosedBlock | unclosedSubroutine => cases h
  | _ => rfl

namespace Walk

variable {w : Walk} {l : Line} {lines : List Line} {b : Opening} {d : Diagnostic}

/-- The line `l` opens the block `b` at this place. -/
def Opens (g : Grammar A) (w : Walk) (l : Line) (b : Opening) : Prop :=
  w.closes l = false ∧ ∃ ds node, w.verdict g l = .opens ds b node

theorem Opens.isOf (h : w.Opens g l b) : b.IsOf l := by
  obtain ⟨-, ds, node, hv⟩ := h
  exact Opening.isOf_of_judge hv

/-- A line leaves the open blocks as they are, or closes the innermost, or opens
one more. -/
theorem blocks_next (g : Grammar A) (w : Walk) (l : Line) :
    (w.next g l).blocks = w.blocks ∨ (w.next g l).blocks = w.blocks.tail ∨
      ∃ b, w.Opens g l b ∧ (w.next g l).blocks = b :: w.blocks := by
  rw [next]
  cases hcloses : w.closes l with
  | true => exact .inr (.inl rfl)
  | false =>
    cases hv : w.verdict g l with
    | command | finished => exact .inl rfl
    | opens ds b node => exact .inr (.inr ⟨b, ⟨hcloses, ds, node, hv⟩, rfl⟩)

/-- What is reported of a line is about that line, and not that a block is open. -/
theorem of_mem_reports (h : d ∈ w.reports g l) :
    d.line = l.number ∧ d.cause.isUnclosed = false := by
  have hjudge (hd : d ∈ (w.verdict g l).reports) :
      d.line = l.number ∧ d.cause.isUnclosed = false :=
    ⟨(judge_reports hd).1, Cause.isUnclosed_of_mem_keywords (judge_reports hd).2⟩
  rw [reports] at h
  split at h
  · cases h
  · generalize w.verdict g l = v at h hjudge
    cases v with
    | command ds =>
      rcases List.mem_append.mp h with h | h
      · exact hjudge h
      · rw [Grammar.complaint?] at h
        split at h
        · cases h
        · obtain rfl := List.mem_singleton.mp h
          exact ⟨rfl, rfl⟩
    | finished | opens => exact hjudge h

theorem of_mem_told (h : d ∈ w.told g lines) :
    (∃ l ∈ lines, d.line = l.number) ∧ d.cause.isUnclosed = false := by
  induction lines generalizing w with
  | nil => cases h
  | cons l lines ih =>
    rcases List.mem_append.mp h with h | h
    · exact ⟨⟨l, List.mem_cons_self, (of_mem_reports h).1⟩, (of_mem_reports h).2⟩
    · obtain ⟨⟨l', hl', hline⟩, hclosed⟩ := ih h
      exact ⟨⟨l', List.mem_cons_of_mem _ hl', hline⟩, hclosed⟩

/-- Reports follow the lines. -/
theorem ordered_told (h : lines.Pairwise (·.number < ·.number)) :
    (w.told g lines).Pairwise (·.line ≤ ·.line) := by
  induction lines generalizing w with
  | nil => exact .nil
  | cons l lines ih =>
    obtain ⟨hl, hlines⟩ := List.pairwise_cons.mp h
    refine List.pairwise_append.mpr ⟨?_, ih hlines, fun d hd d' hd' => ?_⟩
    · refine List.pairwise_of_forall_mem_list fun d hd d' hd' => ?_
      rw [(of_mem_reports hd).1, (of_mem_reports hd').1]
    · obtain ⟨⟨l', hl', hline⟩, -⟩ := of_mem_told hd'
      rw [(of_mem_reports hd).1, hline]
      exact Nat.le_of_lt (hl l' hl')

/-- One of the lines opens `b` inside of the blocks `outer`, and from there on it
stays open. -/
def LeavesOpen (g : Grammar A) (w : Walk) (lines : List Line) (b : Opening)
    (outer : List Opening) : Prop :=
  ∃ before l behind, lines = before ++ l :: behind ∧ (w.after g before).Opens g l b ∧
    (w.after g before).blocks = outer ∧
    ∀ passed, passed <+: behind → b :: outer <:+ (w.after g (before ++ l :: passed)).blocks

theorem after_concat (w : Walk) (lines : List Line) (l : Line) :
    w.after g (lines ++ [l]) = (w.after g lines).next g l :=
  w.after_append lines [l]

theorem LeavesOpen.concat {outer : List Opening} (h : w.LeavesOpen g lines b outer)
    (hopen : b :: outer <:+ (w.after g (lines ++ [l])).blocks) :
    w.LeavesOpen g (lines ++ [l]) b outer := by
  obtain ⟨before, l', behind, rfl, hopens, houter, hstays⟩ := h
  refine ⟨before, l', behind ++ [l], by simp, hopens, houter, fun passed hpassed => ?_⟩
  rcases List.prefix_concat_iff.mp hpassed with rfl | hpassed
  · simpa using hopen
  · exact hstays passed hpassed

/-- The blocks that are open behind some lines are those that the lines leave
open, each inside of those that were open when it was opened. -/
theorem blocks_after_iff (hw : w.blocks = []) {outer : List Opening} :
    b :: outer <:+ (w.after g lines).blocks ↔ w.LeavesOpen g lines b outer := by
  constructor
  · intro h
    induction lines using List.reverseRecOn generalizing b outer with
    | nil =>
      rw [after, List.foldl_nil, hw] at h
      cases List.suffix_nil.mp h
    | append_singleton lines l ih =>
      have hopen := h
      rw [after_concat] at h
      obtain heq | heq | ⟨b', hopens, heq⟩ := blocks_next g (w.after g lines) l
      · exact (ih (heq ▸ h)).concat hopen
      · exact (ih ((heq ▸ h).trans (List.tail_suffix _))).concat hopen
      · rw [heq] at h
        rcases List.suffix_cons_iff.mp h with h | h
        · obtain ⟨rfl, rfl⟩ := List.cons.inj h
          refine ⟨lines, l, [], rfl, hopens, rfl, fun passed hpassed => ?_⟩
          obtain rfl := List.prefix_nil.mp hpassed
          exact hopen
        · exact (ih h).concat hopen
  · rintro ⟨before, l, behind, rfl, -, -, hstays⟩
    exact hstays behind (List.prefix_refl _)

theorem opened_of_mem_blocks (hw : w.blocks = []) (h : b ∈ (w.after g lines).blocks) :
    ∃ l ∈ lines, b.IsOf l := by
  obtain ⟨inner, outer, heq⟩ := List.append_of_mem h
  have hsuffix : b :: outer <:+ (w.after g lines).blocks := ⟨inner, heq.symm⟩
  obtain ⟨before, l, behind, rfl, hopens, -⟩ := (blocks_after_iff hw).mp hsuffix
  exact ⟨l, by simp, hopens.isOf⟩

/-- The innermost block was opened last. -/
theorem ordered_blocks_after (hw : w.blocks = []) (h : lines.Pairwise (·.number < ·.number)) :
    (w.after g lines).blocks.Pairwise (·.line > ·.line) := by
  induction lines using List.reverseRecOn with
  | nil =>
    rw [after, List.foldl_nil, hw]
    exact .nil
  | append_singleton lines l ih =>
    obtain ⟨hlines, -, hl⟩ := List.pairwise_append.mp h
    rw [after_concat]
    obtain heq | heq | ⟨b, hopens, heq⟩ := blocks_next g (w.after g lines) l
    · rw [heq]
      exact ih hlines
    · rw [heq]
      exact (ih hlines).tail
    · rw [heq]
      refine List.pairwise_cons.mpr ⟨fun b' hb' => ?_, ih hlines⟩
      obtain ⟨l', hl', hof⟩ := opened_of_mem_blocks hw hb'
      rw [hopens.isOf.1, hof.1]
      exact hl l' hl' l List.mem_cons_self

end Walk

/-- The blocks that are open behind the last of some lines, the innermost first. -/
def leftOpen (g : Grammar A) (f : Features) (lines : List Line) : List Opening :=
  (Walk.after g ⟨[], f⟩ lines).blocks

/-- The order of what reading a script reports. Behind what putting its lines
together reports, there are reports that go by the lines, none of them of a block
left open, and then one for each block that is, the innermost first. A block that is
left open is one that a line opens and none behind it closes; it is the iteration
or the subroutine of that line, and reported there. -/
theorem open_blocks_are_reported_last (g : Grammar A) (f : Features) (raw : List String) :
    ∃ tree s,
      Reader.read { grammar := g, table := .builtin } f (Line.assemble raw) = .ok tree s ∧
      s.journal = (Line.assemble raw).diagnostics ++
        (Walk.told g ⟨[], f⟩ (Line.assemble raw).lines ++
          (leftOpen g f (Line.assemble raw).lines).map Opening.report) ∧
      (Walk.told g ⟨[], f⟩ (Line.assemble raw).lines).Pairwise (·.line ≤ ·.line) ∧
      AllClosed (Walk.told g ⟨[], f⟩ (Line.assemble raw).lines) ∧
      ((leftOpen g f (Line.assemble raw).lines).map Opening.report).Pairwise
        (·.line > ·.line) ∧
      (∀ b ∈ leftOpen g f (Line.assemble raw).lines,
        ∃ l ∈ (Line.assemble raw).lines, b.IsOf l) ∧
      ∀ b outer, b :: outer <:+ leftOpen g f (Line.assemble raw).lines ↔
        Walk.LeavesOpen g ⟨[], f⟩ (Line.assemble raw).lines b outer := by
  obtain ⟨tree, s, hread, h⟩ := Reader.read_reads g f (Line.assemble raw)
  have hordered := Line.ordered_assemble raw
  refine ⟨tree, s, hread, h.journal_eq, Walk.ordered_told hordered, ?_, ?_, ?_, ?_⟩
  · exact fun d hd => (Walk.of_mem_told hd).2
  · exact List.pairwise_map.mpr (Walk.ordered_blocks_after rfl hordered)
  · exact fun b hb => Walk.opened_of_mem_blocks rfl hb
  · exact fun b outer => Walk.blocks_after_iff rfl

end CommandScript
