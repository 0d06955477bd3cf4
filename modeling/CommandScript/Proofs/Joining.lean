import CommandScript.Line
import CommandScript.Proofs.Spelling
import Mathlib.Data.List.Induction

/-!
# Lines joined to groups

A file is cut into groups of lines that follow one another, and each group is
one text: a statement, a comment, or something that is refused. How far a group
goes is up to a rule (`Line.groupsBy`). Two rules are compared here: a group
goes on while the line added last is marked (`Line.byLine`), or while the text
joined so far is (`Line.byText`).

Lines are assembled by the second rule (`Line.assemble_eq_groups`). A line that
is marked marks the text, so the two rules differ in one case only: a blank line
is added to a text that is still marked after it has lost a mark
(`Line.groupsFrom_eq_iff`). There the first rule ends the group, and the second
takes the next line too.
-/

namespace CommandScript.Line

open Text (isBlank Tight trimChars trimLeftChars trimRightChars)

/-! ## Marks -/

/-- Whether a text ends with the mark of a line to be joined with the next. -/
def isMarked (text : String) : Bool := (unmarked? text).isSome

/-- A text without the mark at its end, if it has one. -/
def unmark (text : String) : String := (unmarked? text).getD text

theorem isMarked_iff {text : String} : isMarked text = true ↔ text.toList.getLast? = some '\\' := by
  rw [isMarked, unmarked?]
  split <;> simp [*]

theorem unmark_of_isMarked {text : String} (h : isMarked text = true) :
    unmark text = .ofList text.toList.dropLast := by
  rw [unmark, unmarked?, if_pos (isMarked_iff.mp h)]
  rfl

theorem unmark_of_not_isMarked {text : String} (h : isMarked text = false) : unmark text = text := by
  rw [unmark, unmarked?, if_neg (mt isMarked_iff.mpr (Bool.eq_false_iff.mp h))]
  rfl

/-- The mark of a text is that of the piece added last, unless that is empty. -/
theorem isMarked_append (text : String) {piece : String} (h : piece ≠ "") :
    isMarked (text ++ piece) = isMarked piece := by
  have hne : piece.toList ≠ [] := fun hnil => h (String.toList_eq_nil_iff.mp hnil)
  rw [Bool.eq_iff_iff, isMarked_iff, isMarked_iff, String.toList_append, List.getLast?_append,
    List.getLast?_eq_some_getLast hne, Option.some_or]

theorem ne_empty_of_isMarked {text : String} (h : isMarked text = true) : text ≠ "" := by
  rintro rfl
  exact absurd h (by decide)

theorem unmark_append (text : String) {piece : String} (h : isMarked piece = true) :
    unmark (text ++ piece) = text ++ unmark piece := by
  have hne : piece.toList ≠ [] := fun hnil =>
    ne_empty_of_isMarked h (String.toList_eq_nil_iff.mp hnil)
  have hmarked : isMarked (text ++ piece) = true := by
    rw [isMarked_append text (ne_empty_of_isMarked h), h]
  rw [unmark_of_isMarked hmarked, unmark_of_isMarked h, String.toList_append,
    List.dropLast_append_of_ne_nil hne, String.ofList_append, String.ofList_toList]

/-! ## Groups -/

/-- Lines of a file that are read together: the number of the first, the trimmed
texts of all, and whether the group has come to its end before the file has. -/
structure Group where
  number : Nat
  pieces : List String
  complete : Bool
  deriving DecidableEq, Repr

/-- The groups of a file of which `pieces`, the texts from line `number` on, have
been read and belong together. -/
def groupsFrom (goesOn : List String → Bool) (number : Nat) (pieces : List String) :
    List String → List Group
  | [] => if pieces.isEmpty then [] else [⟨number, pieces, false⟩]
  | text :: rest =>
    if goesOn (pieces ++ [text]) then groupsFrom goesOn number (pieces ++ [text]) rest
    else ⟨number, pieces ++ [text], true⟩ :: groupsFrom goesOn (number + pieces.length + 1) [] rest

/-- The groups of a file, where a group of the texts `pieces` goes on if
`goesOn pieces`. -/
def groupsBy (goesOn : List String → Bool) (raw : List String) : List Group :=
  groupsFrom goesOn 0 [] (raw.map Text.trim)

section Rule

variable {goesOn : List String → Bool} {number : Nat} {pieces : List String} {rest : List String}

/-- The groups together are the file. -/
theorem flatMap_groupsFrom :
    (groupsFrom goesOn number pieces rest).flatMap (·.pieces) = pieces ++ rest := by
  induction rest generalizing number pieces with
  | nil => cases pieces <;> simp [groupsFrom]
  | cons text rest ih =>
    rw [groupsFrom]
    split
    · rw [ih, List.append_assoc, List.singleton_append]
    · rw [List.flatMap_cons, ih, List.nil_append, List.append_assoc, List.singleton_append]

/-- Each group stands in the file where its number says. -/
theorem mem_groupsFrom {g : Group} (h : g ∈ groupsFrom goesOn number pieces rest) :
    number ≤ g.number ∧ g.pieces ≠ [] ∧ g.pieces <+: (pieces ++ rest).drop (g.number - number) := by
  induction rest generalizing number pieces with
  | nil =>
    rw [groupsFrom] at h
    split at h
    · cases h
    · rename_i hne
      obtain rfl := List.mem_singleton.mp h
      exact ⟨Nat.le_refl _, by simpa using hne, by simp⟩
  | cons text rest ih =>
    rw [groupsFrom] at h
    split at h
    · simpa using ih h
    · rcases List.mem_cons.mp h with rfl | h
      · exact ⟨Nat.le_refl _, by simp, by simp⟩
      · obtain ⟨hnumber, hne, hplace⟩ := ih h
        have hdrop : g.number - number =
            (pieces ++ [text]).length + (g.number - (number + pieces.length + 1)) := by
          rw [List.length_append, List.length_singleton]
          omega
        refine ⟨by omega, hne, ?_⟩
        rw [List.append_cons, hdrop, ← List.drop_drop, List.drop_left]
        exact hplace

theorem ordered_groupsFrom :
    (groupsFrom goesOn number pieces rest).Pairwise (·.number < ·.number) := by
  induction rest generalizing number pieces with
  | nil =>
    rw [groupsFrom]
    split
    · exact .nil
    · exact List.pairwise_singleton _ _
  | cons text rest ih =>
    rw [groupsFrom]
    split
    · exact ih
    · refine .cons (fun g hg => ?_) ih
      have hnumber := (mem_groupsFrom hg).1
      show number < g.number
      omega

/-- A group that has begun is the first one, and if it comes to its end, it does
so with more lines. -/
theorem head_groupsFrom (hne : pieces ≠ []) :
    ∃ g rest', groupsFrom goesOn number pieces rest = g :: rest' ∧
      (g.complete = true → pieces.length < g.pieces.length) := by
  induction rest generalizing pieces with
  | nil =>
    refine ⟨⟨number, pieces, false⟩, [], ?_, nofun⟩
    rw [groupsFrom, if_neg (by simpa using hne)]
  | cons text rest ih =>
    rw [groupsFrom]
    split
    · obtain ⟨g, rest', heq, hlonger⟩ := ih (by simp : pieces ++ [text] ≠ [])
      refine ⟨g, rest', heq, fun hcomplete => ?_⟩
      have := hlonger hcomplete
      rw [List.length_append] at this
      omega
    · exact ⟨_, _, rfl, fun _ => by simp⟩

end Rule

/-! ## The two rules -/

/-- A group goes on while the line added last is marked. -/
def byLine (pieces : List String) : Bool := pieces.getLast?.any isMarked

/-- The text of a group while it grows: for each line that is added it loses a
mark. -/
def joined (pieces : List String) : String :=
  pieces.foldl (fun text piece => unmark text ++ piece) ""

/-- A group goes on while the text joined so far is marked. -/
def byText (pieces : List String) : Bool := isMarked (joined pieces)

/-- The lines of a group one behind the other, each without its mark. -/
def Group.body (g : Group) : String := String.join (g.pieces.map unmark)

/-- The text of a group in which each line loses its own mark. -/
def Group.text (g : Group) : String := Text.trimRight g.body

/-- The text of a group that has lost a mark for each line added to it, and one
more if it was to go on. -/
def Group.fused (g : Group) : String := Text.trim (unmark (joined g.pieces))

theorem body_concat (number : Nat) (pieces : List String) (text : String) (complete : Bool) :
    Group.body ⟨number, pieces ++ [text], complete⟩ =
      String.join (pieces.map unmark) ++ unmark text := by
  simp [Group.body]

theorem byLine_concat (pieces : List String) (text : String) :
    byLine (pieces ++ [text]) = isMarked text := by
  rw [byLine, List.getLast?_concat]
  rfl

theorem joined_concat (pieces : List String) (text : String) :
    joined (pieces ++ [text]) = unmark (joined pieces) ++ text := by
  rw [joined, List.foldl_append]
  rfl

/-- The lines that a group goes on with by the first rule are marked, and each
of them loses its own mark. -/
theorem unmark_joined {pieces : List String} (h : ∀ text ∈ pieces, isMarked text = true) :
    unmark (joined pieces) = String.join (pieces.map unmark) := by
  induction pieces using List.reverseRecOn with
  | nil => decide
  | append_singleton pieces text ih =>
    have hpieces := ih fun text' h' => h text' (List.mem_append_left _ h')
    have htext := h text (by simp)
    rw [joined_concat, unmark_append _ htext, hpieces, List.map_append, String.join_append]
    simp

/-! ## What becomes of a group -/

/-- The statement that a text on line `number` is. It is none if it is empty or a
comment, or if it starts with a slash. -/
def statement? (number : Nat) (text : String) : Option Line :=
  if text.toList.head?.all fun c => c == '#' || c == '/' then none else some ⟨text, number⟩

/-- The report of a text on line `number` that starts with a slash. -/
def refusal? (number : Nat) (text : String) : Option Diagnostic :=
  (Text.after? "/" text).map fun rest =>
    .error number <|
      if (Text.after? "/" rest).isSome then .slashComment
      else .slashCommand ((Text.leading? rest).getD "")

/-- What is reported of a group of the text `text`: that the file ends before it
does, and that the text is refused. -/
def Group.reports (g : Group) (text : String) : List Diagnostic :=
  (if g.complete then [] else [.error (g.number + g.pieces.length - 1) .openContinuation]) ++
    (refusal? g.number text).toList

/-- What groups amount to if `text` gives the text of each. -/
def Assembled.ofGroups (text : Group → String) (groups : List Group) : Assembled where
  lines := groups.filterMap fun g => statement? g.number (text g)
  diagnostics := groups.flatMap fun g => g.reports (text g)

theorem Assembled.add_eq (text : String) (number : Nat) (a : Assembled) :
    Assembled.add text number a =
      ⟨(statement? number (Text.trim text)).toList ++ a.lines,
        (refusal? number (Text.trim text)).toList ++ a.diagnostics⟩ := by
  rw [Assembled.add]
  generalize Text.trim text = text
  obtain ⟨cs, rfl⟩ : ∃ cs, text = .ofList cs := ⟨text.toList, String.ofList_toList.symm⟩
  have hslash : "/".toList = ['/'] := by simp
  simp only [statement?, refusal?, Text.after?, String.toList_ofList, hslash]
  split
  · rfl
  · rfl
  · simp
  · rename_i rest hrest
    cases rest with
    | nil => rfl
    | cons c rest =>
      have hc : c ≠ '/' := fun h => hrest rest (h ▸ rfl)
      simp [hc.symm]
  · rename_i hnil hcomment hslashes hslash
    cases cs with
    | nil => exact absurd rfl hnil
    | cons c cs =>
      have hhash : c ≠ '#' := fun h => hcomment cs (h ▸ rfl)
      have hc : c ≠ '/' := fun h => hslash cs (h ▸ rfl)
      simp [hhash, hc, hc.symm]

theorem Assembled.ofGroups_cons (text : Group → String) (g : Group) (groups : List Group) :
    Assembled.ofGroups text (g :: groups) =
      ⟨(statement? g.number (text g)).toList ++ (Assembled.ofGroups text groups).lines,
        g.reports (text g) ++ (Assembled.ofGroups text groups).diagnostics⟩ := by
  rw [ofGroups, List.flatMap_cons, List.filterMap_cons]
  cases statement? g.number (text g) <;> rfl

theorem Assembled.ofGroups_congr {text text' : Group → String} {groups : List Group}
    (h : ∀ g ∈ groups, text g = text' g) :
    Assembled.ofGroups text groups = Assembled.ofGroups text' groups := by
  induction groups with
  | nil => rfl
  | cons g groups ih =>
    rw [ofGroups_cons, ofGroups_cons, h g List.mem_cons_self,
      ih fun g' h' => h g' (List.mem_cons_of_mem _ h')]

/-! ## Assembling -/

/-- The group of the texts `pieces`, from line `number` on, as it waits for its
next line. -/
def pending? (number : Nat) (pieces : List String) : Option Pending :=
  if pieces.isEmpty then none
  else some ⟨unmark (joined pieces), number, number + pieces.length - 1⟩

theorem pending?_text (number : Nat) (pieces : List String) :
    (pending? number pieces).elim "" (·.text) = unmark (joined pieces) := by
  cases pieces with
  | nil =>
    show "" = unmark (joined [])
    decide
  | cons => rfl

theorem pending?_number (number : Nat) (pieces : List String) :
    (pending? number pieces).elim (number + pieces.length) (·.number) = number := by
  cases pieces <;> rfl

theorem pending?_concat (number : Nat) (pieces : List String) (text : String) :
    pending? number (pieces ++ [text]) =
      some ⟨unmark (joined (pieces ++ [text])), number, number + pieces.length⟩ := by
  rw [pending?, if_neg (by simp), List.length_append]
  rfl

/-- Lines are put together as the groups are, of which the first may have begun. -/
theorem assembleFrom_eq_groups (number : Nat) (pieces raw : List String) :
    assembleFrom (pending? number pieces) (raw.zipIdx (number + pieces.length)) =
      .ofGroups Group.fused (groupsFrom byText number pieces (raw.map Text.trim)) := by
  induction raw generalizing number pieces with
  | nil =>
    rw [List.map_nil, groupsFrom, pending?]
    split
    · rfl
    · rw [List.zipIdx_nil, assembleFrom, Assembled.add_eq, Assembled.ofGroups_cons]
      simp [Assembled.ofGroups, Group.reports, Group.fused]
  | cons text raw ih =>
    rw [List.zipIdx_cons, assembleFrom, pending?_text, pending?_number, ← joined_concat,
      List.map_cons, groupsFrom, byText, isMarked]
    cases hmark : unmarked? (joined (pieces ++ [Text.trim text])) with
    | some text' =>
      have hunmark : unmark (joined (pieces ++ [Text.trim text])) = text' := by
        rw [unmark, hmark]
        rfl
      have hgroups := ih number (pieces ++ [Text.trim text])
      rw [pending?_concat, hunmark, List.length_append] at hgroups
      exact hgroups
    | none =>
      have hgroups : assembleFrom none (raw.zipIdx (number + pieces.length + 1)) = _ :=
        ih (number + pieces.length + 1) []
      have hfused : Group.fused ⟨number, pieces ++ [Text.trim text], true⟩ =
          Text.trim (joined (pieces ++ [Text.trim text])) := by
        rw [Group.fused, unmark, hmark]
        rfl
      rw [if_neg (by simp), Assembled.ofGroups_cons, hfused, ← hgroups, Group.reports, if_pos rfl,
        List.nil_append]
      exact Assembled.add_eq ..

/-- Lines are assembled in groups that go on while the text joined so far is
marked. -/
theorem assemble_eq_groups (raw : List String) :
    assemble raw = .ofGroups Group.fused (groupsBy byText raw) :=
  assembleFrom_eq_groups 0 [] raw

/-! ## Where the rules agree -/

/-- A group of which `pieces` have been read by the first rule is continued
alike by both, as long as no complete group has a text that is still marked. -/
theorem groupsFrom_eq_iff {pieces : List String} (h : ∀ text ∈ pieces, isMarked text = true)
    (number : Nat) (rest : List String) :
    groupsFrom byText number pieces rest = groupsFrom byLine number pieces rest ↔
      ∀ g ∈ groupsFrom byLine number pieces rest, g.complete = true → isMarked g.body = false := by
  induction rest generalizing number pieces with
  | nil =>
    refine iff_of_true rfl fun g hg hcomplete => ?_
    rw [groupsFrom] at hg
    split at hg
    · cases hg
    · obtain rfl := List.mem_singleton.mp hg
      cases hcomplete
  | cons text rest ih =>
    have hjoined : joined (pieces ++ [text]) = String.join (pieces.map unmark) ++ text := by
      rw [joined_concat, unmark_joined h]
    rw [groupsFrom, groupsFrom, byLine_concat, byText, hjoined]
    cases htext : isMarked text with
    | true =>
      rw [isMarked_append _ (ne_empty_of_isMarked htext), htext, if_pos rfl, if_pos rfl]
      exact ih (List.forall_mem_append.mpr ⟨h, List.forall_mem_singleton.mpr htext⟩) number
    | false =>
      have hbody : Group.body ⟨number, pieces ++ [text], true⟩ =
          String.join (pieces.map unmark) ++ text := by
        rw [body_concat, unmark_of_not_isMarked htext]
      rw [if_neg Bool.false_ne_true, List.forall_mem_cons, hbody]
      cases hmark : isMarked (String.join (pieces.map unmark) ++ text) with
      | true =>
        -- The second rule goes on, and the first group is another one.
        refine iff_of_false (fun heq => ?_) fun hall => absurd (hall.1 rfl) (by simp)
        obtain ⟨g, rest', hg, hlonger⟩ : ∃ g rest',
            groupsFrom byText number (pieces ++ [text]) rest = g :: rest' ∧ _ :=
          head_groupsFrom (by simp)
        rw [if_pos rfl, hg] at heq
        obtain rfl := (List.cons.inj heq).1
        exact Nat.lt_irrefl _ (hlonger rfl)
      | false =>
        rw [if_neg Bool.false_ne_true, List.cons_inj_right, ih (by simp)]
        simp

/-- By the first rule a group is made of marked lines and, if it is complete, an
unmarked one behind them. -/
theorem of_mem_groupsFrom_byLine {pieces : List String}
    (h : ∀ text ∈ pieces, isMarked text = true) {number : Nat} {rest : List String} {g : Group}
    (hg : g ∈ groupsFrom byLine number pieces rest) :
    (g.complete = false ∧ ∀ text ∈ g.pieces, isMarked text = true) ∨
      g.complete = true ∧ ∃ marked last, g.pieces = marked ++ [last] ∧
        (∀ text ∈ marked, isMarked text = true) ∧ isMarked last = false := by
  induction rest generalizing number pieces with
  | nil =>
    rw [groupsFrom] at hg
    split at hg
    · cases hg
    · obtain rfl := List.mem_singleton.mp hg
      exact .inl ⟨rfl, h⟩
  | cons text rest ih =>
    rw [groupsFrom, byLine_concat] at hg
    split at hg
    · rename_i htext
      exact ih (List.forall_mem_append.mpr ⟨h, List.forall_mem_singleton.mpr htext⟩) hg
    · rename_i htext
      rcases List.mem_cons.mp hg with rfl | hg
      · exact .inr ⟨rfl, pieces, text, rfl, h, Bool.eq_false_iff.mpr htext⟩
      · exact ih (by simp) hg

/-- Both rules give a group the same text, unless it is complete and its text is
still marked. -/
theorem unmark_joined_eq_body {raw : List String} {g : Group} (hg : g ∈ groupsBy byLine raw)
    (hbody : g.complete = true → isMarked g.body = false) : unmark (joined g.pieces) = g.body := by
  rcases of_mem_groupsFrom_byLine (by simp) hg with
    ⟨-, hmarked⟩ | ⟨hcomplete, marked, last, hpieces, hmarked, hlast⟩
  · exact unmark_joined hmarked
  · have hjoined : joined g.pieces = g.body := by
      rw [Group.body, hpieces, joined_concat, unmark_joined hmarked]
      simp [unmark_of_not_isMarked hlast]
    rw [hjoined, unmark_of_not_isMarked (hbody hcomplete)]

/-! ## Trimmed texts -/

theorem head?_of_front {cs ds : List Char} (h : cs <+: ds) {c : Char} (hc : cs.head? = some c) :
    ds.head? = some c := by
  obtain ⟨behind, rfl⟩ := h
  rw [List.head?_append, hc]
  rfl

/-- The first character of a trimmed text is no blank. -/
theorem not_isBlank_head_trim {text : String} {c : Char}
    (h : (Text.trim text).toList.head? = some c) : isBlank c = false := by
  have hfront : trimChars text.toList <+: trimLeftChars text.toList := by
    rw [trimChars, trimRightChars, ← List.reverse_suffix, List.reverse_reverse]
    exact List.dropWhile_suffix _
  rw [Text.trim, String.toList_ofList] at h
  have hnot := List.head?_dropWhile_not isBlank text.toList
  rwa [← trimLeftChars, head?_of_front hfront h] at hnot

theorem unmark_front (text : String) : (unmark text).toList <+: text.toList := by
  cases h : isMarked text with
  | true =>
    rw [unmark_of_isMarked h, String.toList_ofList]
    exact List.dropLast_prefix _
  | false => simp only [unmark_of_not_isMarked h, List.prefix_refl]

/-- A group does not start with a blank, so there is none to trim at its front. -/
theorem trim_body {goesOn : List String → Bool} {raw : List String} {g : Group}
    (hg : g ∈ groupsBy goesOn raw) : Text.trim g.body = g.text := by
  have hfirst : ∀ c, g.body.toList.head? = some c → isBlank c = false := by
    intro c hc
    rw [Group.body, String.toList_join, List.flatMap_map, List.head?_flatMap] at hc
    obtain ⟨piece, hpiece, hc⟩ := List.exists_of_findSome?_eq_some hc
    have htrimmed : piece ∈ raw.map Text.trim := by
      have hmem := List.mem_flatMap.mpr ⟨g, hg, hpiece⟩
      rwa [groupsBy, flatMap_groupsFrom] at hmem
    obtain ⟨text, -, rfl⟩ := List.mem_map.mp htrimmed
    exact not_isBlank_head_trim (head?_of_front (unmark_front _) hc)
  rw [Group.text, Text.trimRight, Text.trim, trimChars, Text.trimLeftChars_eq_self_iff.mpr hfirst]

/-! ## Numbers -/

section Numbers

variable {raw : List String}

theorem end_le_of_mem_groupsBy {goesOn : List String → Bool} {g : Group}
    (hg : g ∈ groupsBy goesOn raw) :
    0 < g.pieces.length ∧ g.number + g.pieces.length ≤ raw.length := by
  obtain ⟨-, hne, hplace⟩ := mem_groupsFrom hg
  have hlength := hplace.length_le
  have hpos := List.length_pos_iff.mpr hne
  rw [List.length_drop, List.nil_append, List.length_map] at hlength
  omega

theorem number_of_statement? {number : Nat} {text : String} {l : Line}
    (h : statement? number text = some l) : l.number = number := by
  rw [statement?] at h
  split at h
  · cases h
  · cases h
    rfl

/-- The lines of a script are numbered upwards. -/
theorem ordered_assemble (raw : List String) :
    (assemble raw).lines.Pairwise (·.number < ·.number) := by
  have hgroups : (groupsBy byText raw).Pairwise (·.number < ·.number) := ordered_groupsFrom
  rw [assemble_eq_groups]
  refine List.Pairwise.filterMap _ (fun g g' hlt l hl l' hl' => ?_) hgroups
  rwa [number_of_statement? hl, number_of_statement? hl']

theorem number_lt_of_mem_assemble {l : Line} (h : l ∈ (assemble raw).lines) :
    l.number < raw.length := by
  rw [assemble_eq_groups] at h
  obtain ⟨g, hg, hl⟩ := List.mem_filterMap.mp h
  have hend := end_le_of_mem_groupsBy hg
  rw [number_of_statement? hl]
  omega

/-- What is reported of the lines of a file is about one of them. -/
theorem line_lt_of_mem_assemble {d : Diagnostic} (h : d ∈ (assemble raw).diagnostics) :
    d.line < raw.length := by
  rw [assemble_eq_groups] at h
  obtain ⟨g, hg, hd⟩ := List.mem_flatMap.mp h
  have hend := end_le_of_mem_groupsBy hg
  rcases List.mem_append.mp hd with hd | hd
  · split at hd
    · cases hd
    · obtain rfl := List.mem_singleton.mp hd
      show g.number + g.pieces.length - 1 < raw.length
      omega
  · obtain ⟨rest, -, rfl⟩ := Option.map_eq_some_iff.mp (Option.mem_toList.mp hd)
    show g.number < raw.length
    omega

end Numbers

/-! ## Files -/

/-- Where each line loses its own mark, no complete group has a text that is
still marked. -/
def Settled (raw : List String) : Prop :=
  ∀ g ∈ groupsBy byLine raw, g.complete = true → isMarked g.body = false

/-- How lines are joined. They are put together to groups that go on while the
text so far is marked, and this is to go on while the line added last is marked
exactly for a settled file. For such a file each line loses its own mark, and
nothing else. In any file the only groups that can be at fault end with a blank
line. -/
theorem lines_are_joined_by_text (raw : List String) :
    assemble raw = .ofGroups Group.fused (groupsBy byText raw) ∧
    (groupsBy byText raw = groupsBy byLine raw ↔ Settled raw) ∧
    (Settled raw → assemble raw = .ofGroups Group.text (groupsBy byLine raw)) ∧
    (groupsBy byLine raw).flatMap (·.pieces) = raw.map Text.trim ∧
    ∀ g ∈ groupsBy byLine raw, g.pieces <+: (raw.map Text.trim).drop g.number ∧
      (g.complete = true → isMarked g.body = true → g.pieces.getLast? = some "") := by
  have hiff : groupsBy byText raw = groupsBy byLine raw ↔ Settled raw :=
    groupsFrom_eq_iff (by simp) 0 (raw.map Text.trim)
  refine ⟨assemble_eq_groups raw, hiff, fun hsettled => ?_, flatMap_groupsFrom, fun g hg => ?_⟩
  · have htext : ∀ g ∈ groupsBy byLine raw, g.fused = g.text := fun g hg => by
      rw [Group.fused, unmark_joined_eq_body hg (hsettled g hg), trim_body hg]
    rw [assemble_eq_groups, hiff.mpr hsettled, Assembled.ofGroups_congr htext]
  · refine ⟨(mem_groupsFrom hg).2.2, fun hcomplete hbody => ?_⟩
    rcases of_mem_groupsFrom_byLine (by simp) hg with
      ⟨hcut, -⟩ | ⟨-, marked, last, hpieces, -, hlast⟩
    · cases hcut.symm.trans hcomplete
    · rw [hpieces, List.getLast?_concat]
      by_contra hne
      have hbody' : g.body = String.join (marked.map unmark) ++ last := by
        rw [Group.body, hpieces]
        simp [unmark_of_not_isMarked hlast]
      rw [hbody', isMarked_append _ fun h => hne (congrArg some h), hlast] at hbody
      cases hbody

/-- A marked line with its continuation, and a line of its own behind them. -/
theorem marked_line_takes_continuation :
    Settled ["say a \\", "  b", "say c"] ∧
    groupsBy byText ["say a \\", "  b", "say c"] = groupsBy byLine ["say a \\", "  b", "say c"] ∧
    assemble ["say a \\", "  b", "say c"] =
      .ofGroups Group.text (groupsBy byLine ["say a \\", "  b", "say c"]) ∧
    Assembled.ofGroups Group.text (groupsBy byLine ["say a \\", "  b", "say c"]) =
      ⟨[⟨"say a b", 0⟩, ⟨"say c", 2⟩], []⟩ := by
  have hsettled : Settled ["say a \\", "  b", "say c"] := by
    unfold Settled
    decide +kernel
  obtain ⟨-, hiff, hjoined, -⟩ := lines_are_joined_by_text ["say a \\", "  b", "say c"]
  exact ⟨hsettled, hiff.mpr hsettled, hjoined hsettled, by decide +kernel⟩

/-- A line with two marks and a blank line behind it: the text is still marked
there, and takes the next statement too. -/
theorem second_mark_outlasts_blank_line :
    assemble ["a \\\\", "", "b"] = ⟨[⟨"a b", 0⟩], []⟩ ∧
    Assembled.ofGroups Group.text (groupsBy byLine ["a \\\\", "", "b"]) =
      ⟨[⟨"a \\", 0⟩, ⟨"b", 2⟩], []⟩ ∧
    assemble ["a \\\\", "", "b"] ≠
      .ofGroups Group.text (groupsBy byLine ["a \\\\", "", "b"]) := by
  decide +kernel

end CommandScript.Line
