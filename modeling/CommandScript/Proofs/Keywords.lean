import CommandScript.Host.Samples
import CommandScript.Proofs.Composition
import CommandScript.Proofs.Moves
import CommandScript.Proofs.Spelling
import Mathlib.Data.List.Basic

/-!
# Keywords and first tokens

The form of a line is found by its leading field, which ends at any blank. The
tokens of the line end at gaps, which are fewer. So the first token need not be
the keyword: it is if, and only if, the blanks beside the keyword are gaps
(`Token.head?_words_iff`).

The forms on subroutines count the tokens of their lines and never look at the
first. What they accept has the right number of tokens and the right name, and
the exact form where the keyword is set off by gaps.
-/

namespace CommandScript

open Text (isBlank byteLength fieldChars)

variable {A : Type}

/-! ## The leading field -/

theorem Text.fieldChars_ne_nil {c : Char} (hc : isBlank c = false) (cs : List Char) :
    ∃ f fs, fieldChars (c :: cs) = f :: fs := by
  induction cs generalizing c with
  | nil => exact ⟨_, _, if_neg (Bool.eq_false_iff.mp hc)⟩
  | cons d cs ih =>
    cases hd : isBlank d with
    | true => exact ⟨_, _, fieldChars_last hc hd cs⟩
    | false =>
      obtain ⟨f, fs, hf⟩ := ih hd
      exact ⟨_, _, fieldChars_more hc hd hf⟩

/-- The first field of a text stands behind blanks and before a blank. -/
theorem Text.fieldChars_eq_cons {cs w : List Char} {ws : List (List Char)}
    (h : fieldChars cs = w :: ws) :
    ∃ front rest, cs = front ++ w ++ rest ∧ (∀ c ∈ front, isBlank c = true) ∧
      (∀ c ∈ w, isBlank c = false) ∧ ∀ c, rest.head? = some c → isBlank c = true := by
  induction cs generalizing w ws with
  | nil => cases h
  | cons c cs ih =>
    cases hc : isBlank c with
    | true =>
      rw [fieldChars_blank hc] at h
      obtain ⟨front, rest, rfl, hfront, hw, hrest⟩ := ih h
      exact ⟨c :: front, rest, rfl, List.forall_mem_cons.mpr ⟨hc, hfront⟩, hw, hrest⟩
    | false =>
      cases cs with
      | nil =>
        obtain ⟨rfl, -⟩ := List.cons.inj ((if_neg (Bool.eq_false_iff.mp hc)).symm.trans h)
        exact ⟨[], [], rfl, by simp, by simpa using hc, by simp⟩
      | cons d cs =>
        cases hd : isBlank d with
        | true =>
          rw [fieldChars_last hc hd] at h
          obtain ⟨rfl, -⟩ := List.cons.inj h
          exact ⟨[], d :: cs, rfl, by simp, by simpa using hc, by simpa using hd⟩
        | false =>
          obtain ⟨f, fs, hf⟩ := fieldChars_ne_nil hd cs
          obtain ⟨front, rest, heq, hfront, hf', hrest⟩ := ih hf
          rw [fieldChars_more hc hd hf] at h
          obtain ⟨rfl, -⟩ := List.cons.inj h
          -- The next character is no blank, so that nothing stands in front of its field.
          obtain rfl : front = [] := by
            cases front with
            | nil => rfl
            | cons b front =>
              obtain ⟨rfl, -⟩ := List.cons.inj heq
              cases hd.symm.trans (hfront _ List.mem_cons_self)
          exact ⟨[], rest, congrArg (c :: ·) heq, by simp,
            List.forall_mem_cons.mpr ⟨hc, hf'⟩, hrest⟩

/-- The keyword of a text stands behind blanks and before a blank. -/
theorem Text.leading?_eq_some {text k : String} (h : leading? text = some k) :
    ∃ front rest, text.toList = front ++ k.toList ++ rest ∧ (∀ c ∈ front, isBlank c = true) ∧
      (∀ c ∈ k.toList, isBlank c = false) ∧ ∀ c, rest.head? = some c → isBlank c = true := by
  rw [leading?, fields] at h
  cases hfields : fieldChars text.toList with
  | nil =>
    rw [hfields] at h
    cases h
  | cons w ws =>
    rw [hfields] at h
    obtain rfl := Option.some.inj h
    rw [String.toList_ofList]
    exact fieldChars_eq_cons hfields

/-! ## The first token -/

namespace Token

theorem isBlank_of_isGap {c : Char} (h : isGap c = true) : isBlank c = true := by
  simp only [isGap, Bool.or_eq_true, beq_iff_eq] at h
  rcases h with (((rfl | rfl) | rfl) | rfl) | rfl <;> decide

/-- A blank that no word goes over is a gap. -/
theorem isGap_of_isBlank {c : Char} (hblank : isBlank c = true) (hword : isWordChar c = false) :
    isGap c = true := by
  have hbrace : isBrace c = false := by
    rw [Bool.eq_false_iff]
    intro h
    simp only [isBrace, Bool.or_eq_true, beq_iff_eq] at h
    rcases h with rfl | rfl <;> exact absurd hblank (by decide)
  have hquote : (c == '"') = false := by
    rw [beq_eq_false_iff_ne]
    rintro rfl
    exact absurd hblank (by decide)
  simpa [isWordChar, hbrace, hquote] using hword

/-- The keyword `k` of a text is set off by gaps: behind nothing else, and before
one or the end. -/
def SetOff (k text : String) : Prop :=
  ∃ front rest, text.toList = front ++ k.toList ++ rest ∧ (∀ c ∈ front, isGap c = true) ∧
    ∀ c, rest.head? = some c → isGap c = true

theorem lexFrom_gaps (start : Nat) {front : List Char} (h : ∀ c ∈ front, isGap c = true)
    (cs : List Char) : lexFrom start (front ++ cs) = lexFrom (start + byteLength front) cs := by
  induction front generalizing start with
  | nil => rfl
  | cons c front ih =>
    rw [List.forall_mem_cons] at h
    rw [List.cons_append, lexFrom, if_pos h.1, ih _ h.2, byteLength, Nat.add_assoc]

/-- The token at the front of a text that starts with no gap. -/
theorem head?_words_of_not_isGap (start : Nat) {c : Char} (h : isGap c = false) (cs : List Char) :
    ((lexFrom start (c :: cs)).map (·.text)).head? = some (.ofList (lexeme c cs).taken) := by
  rw [lexFrom, if_neg (Bool.eq_false_iff.mp h)]
  rfl

/-- A word goes on up to the first character that is not part of one. -/
theorem taken_lexeme_word {c : Char} {w : List Char} (hw : ∀ d ∈ c :: w, isWordChar d = true)
    (rest : List Char) :
    (lexeme c (w ++ rest)).taken = c :: w ++ rest.takeWhile isWordChar := by
  rw [List.forall_mem_cons] at hw
  have hc := hw.1
  simp only [isWordChar, isBrace, Bool.not_eq_true', Bool.or_eq_false_iff, beq_eq_false_iff_ne]
    at hc
  rw [lexeme, if_neg hc.1.2.1, if_neg hc.1.2.2, if_neg hc.2,
    List.takeWhile_append_of_pos hw.2, List.cons_append]

/-- Behind gaps a keyword is the front of the first token, which takes all that a
word goes on with. -/
theorem head?_words_behind_gaps {text k : String} (hk : isKeyword k = true) {front rest : List Char}
    (heq : text.toList = front ++ k.toList ++ rest) (hfront : ∀ c ∈ front, isGap c = true) :
    (words text).head? = some (k ++ .ofList (rest.takeWhile isWordChar)) := by
  obtain ⟨hne, hchars⟩ := keyword_chars hk
  obtain ⟨c, w, hcw⟩ := List.exists_cons_of_ne_nil hne
  have hword : ∀ d ∈ c :: w, isWordChar d = true := fun d hd => (hchars d (hcw ▸ hd)).1
  have hgap : isGap c = false := by
    rw [Bool.eq_false_iff]
    intro h
    cases (isBlank_of_isGap h).symm.trans (hchars c (hcw ▸ List.mem_cons_self)).2
  rw [words, lex, heq, List.append_assoc, lexFrom_gaps 0 hfront, hcw, List.cons_append,
    head?_words_of_not_isGap _ hgap, taken_lexeme_word hword, String.ofList_append, ← hcw,
    String.ofList_toList]

/-- The first token of a text is its keyword exactly if the keyword is set off by
gaps. -/
theorem head?_words_iff {text k : String} (hk : isKeyword k = true)
    (hleading : Text.leading? text = some k) : (words text).head? = some k ↔ SetOff k text := by
  constructor
  · intro hhead
    obtain ⟨front, rest, heq, hfront, hblank, hrest⟩ := Text.leading?_eq_some hleading
    have hgaps : front.dropWhile isGap = [] := by
      cases hbehind : front.dropWhile isGap with
      | nil => rfl
      | cons b behind =>
        -- A token starts at a blank that is no gap, but the keyword starts with no blank.
        have hb : isGap b = false := by
          have hnot := List.head?_dropWhile_not isGap front
          rwa [hbehind] at hnot
        have hmem : b ∈ front := (List.dropWhile_sublist _).subset (hbehind ▸ List.mem_cons_self)
        rw [words, lex, heq, ← List.takeWhile_append_dropWhile (p := isGap) (l := front), hbehind,
          List.append_assoc, List.append_assoc, lexFrom_gaps 0 fun c hc => List.mem_takeWhile_imp hc,
          List.cons_append, head?_words_of_not_isGap _ hb] at hhead
        have hfirst : k.toList.head? = some b := by
          rw [← Option.some.inj hhead, String.toList_ofList, head?_taken_lexeme]
        cases (hblank b (List.mem_of_head? hfirst)).symm.trans (hfront b hmem)
    have hgaps : ∀ c ∈ front, isGap c = true := List.dropWhile_eq_nil_iff.mp hgaps
    have hnone : rest.takeWhile isWordChar = [] := by
      have hchars := congrArg (·.map String.toList) hhead
      rw [head?_words_behind_gaps hk heq hgaps] at hchars
      simpa using hchars
    refine ⟨front, rest, heq, hgaps, fun c hc => isGap_of_isBlank (hrest c hc) ?_⟩
    cases rest with
    | nil => cases hc
    | cons d rest =>
      obtain rfl := Option.some.inj hc
      simpa [List.takeWhile_cons] using hnone
  · rintro ⟨front, rest, heq, hfront, hrest⟩
    have hnone : rest.takeWhile isWordChar = [] := by
      cases rest with
      | nil => rfl
      | cons c rest =>
        have hc : isWordChar c = false := by simp [isWordChar, hrest c rfl]
        rw [List.takeWhile_cons, hc]
        rfl
    rw [head?_words_behind_gaps hk heq hfront, hnone]
    simp

theorem eq_keyword_iff {text k first : String} {others : List String} (hk : isKeyword k = true)
    (hleading : Text.leading? text = some k) (hwords : words text = first :: others) :
    first = k ↔ SetOff k text := by
  rw [← head?_words_iff hk hleading, hwords, List.head?_cons, Option.some_inj]

end Token

/-! ## Lines on subroutines -/

section Lines

variable {g : Grammar A} {st : Statement} {f : Features}

theorem judge_eq_ofDefinition (hf : f.subroutines = true)
    (hk : Text.leading? st.text = some "subroutine") : judge g st f = .ofDefinition st f := by
  rw [judge, hk]
  exact if_pos hf

theorem judge_eq_ofCall (hf : f.subroutines = true)
    (hk : Text.leading? st.text = some "subroutine_call") : judge g st f = .ofCall st f := by
  rw [judge, hk]
  exact if_pos hf

theorem judge_eq_ofReturn (hf : f.subroutines = true)
    (hk : Text.leading? st.text = some "subroutine_return") : judge g st f = .ofReturn st f := by
  rw [judge, hk]
  exact if_pos hf

/-- A form that does not report it has found as many tokens as it wants. -/
theorem length_of_unreported {words : List String} {n : Nat} {d : Diagnostic} {ds : List Diagnostic}
    (hd : d ∉ ds) (hreports : ∀ x ∈ if words.length = n then [] else [d], x ∈ ds) :
    words.length = n := by
  by_contra hne
  rw [if_neg hne] at hreports
  exact hd (hreports d List.mem_cons_self)

variable {s t : Reading} {l : Line} {rest : List Line} {topLevel inSubroutine : Bool}
  {ns : List (Node A)} {ds : List Diagnostic}

/-- What is said of the line ahead is reported. -/
theorem Reads.mem_of_mem_reports (h : Reads g (.statement topLevel inSubroutine) s ns t)
    (ahead : s.cursor.rest = l :: rest) (hjournal : t.journal = s.journal ++ ds) {d : Diagnostic}
    (hd : d ∈ (judge g (Reader.statementOf l topLevel inSubroutine) s.features).reports) :
    d ∈ ds := by
  have hprefix {ds' : List Diagnostic} (hle : s.journal ++ ds' <+: t.journal) (hd : d ∈ ds') :
      d ∈ ds := by
    rw [hjournal, List.prefix_append_right_inj] at hle
    exact hle.subset hd
  cases h with
  | @command _ _ _ l' _ ds' ahead' verdict =>
    cases ahead.symm.trans ahead'
    rw [verdict] at hd
    refine hprefix ?_ hd
    rcases (s.reports ds').command_cases g (Reader.statementOf l topLevel inSubroutine) with
      ⟨a, -, hcommand⟩ | ⟨e, -, hcommand⟩
    · rw [hcommand]
      exact List.prefix_refl _
    · rw [hcommand]
      exact List.prefix_append _ _
  | finished ahead' verdict =>
    cases ahead.symm.trans ahead'
    rw [verdict] at hd
    exact hprefix (List.prefix_refl _) hd
  | opens ahead' verdict body =>
    cases ahead.symm.trans ahead'
    rw [verdict] at hd
    exact hprefix body.journal hd

/-- What opens a block gives one statement. -/
theorem Reads.opens_inv (h : Reads g (.statement topLevel inSubroutine) s ns t)
    (ahead : s.cursor.rest = l :: rest) {b : Opening} {node : List (Node A) → Node A}
    (verdict : judge g (Reader.statementOf l topLevel inSubroutine) s.features =
      .opens ds b node) : ∃ body, ns = [node body] := by
  cases h with
  | command ahead' verdict' | finished ahead' verdict' =>
    cases ahead.symm.trans ahead'
    cases verdict.symm.trans verdict'
  | opens ahead' verdict' =>
    cases ahead.symm.trans ahead'
    cases verdict.symm.trans verdict'
    exact ⟨_, rfl⟩

variable (h : Reads g (.statement topLevel inSubroutine) s ns t)
  (ahead : s.cursor.rest = l :: rest) (hf : s.features.subroutines = true)
  (hjournal : t.journal = s.journal ++ ds)

include h ahead hf hjournal

theorem Reads.definition_inv (hk : Text.leading? l.text = some "subroutine")
    (hform : .error l.number .definitionForm ∉ ds) :
    ∃ first name body, Token.words l.text = [first, name] ∧ ns = [.define name l.number body] := by
  have hverdict : judge g (Reader.statementOf l topLevel inSubroutine) s.features =
      .ofDefinition (Reader.statementOf l topLevel inSubroutine) s.features :=
    judge_eq_ofDefinition hf hk
  have hlength : (Token.words l.text).length = 2 := by
    refine length_of_unreported hform fun d hd => h.mem_of_mem_reports ahead hjournal ?_
    rw [hverdict, Verdict.reports_ofDefinition]
    exact List.mem_append_right _ hd
  obtain ⟨first, name, hwords⟩ := List.length_eq_two.mp hlength
  simp only [Verdict.ofDefinition, Reader.statementOf, hwords] at hverdict
  obtain ⟨body, hbody⟩ := h.opens_inv ahead hverdict
  exact ⟨first, name, body, hwords, hbody⟩

theorem Reads.call_inv (hk : Text.leading? l.text = some "subroutine_call")
    (hform : .error l.number .callForm ∉ ds) :
    ∃ first name, Token.words l.text = [first, name] ∧ ns = [.call name l.number] := by
  have hverdict : judge g (Reader.statementOf l topLevel inSubroutine) s.features =
      .ofCall (Reader.statementOf l topLevel inSubroutine) s.features :=
    judge_eq_ofCall hf hk
  have hlength : (Token.words l.text).length = 2 := by
    refine length_of_unreported hform fun d hd => h.mem_of_mem_reports ahead hjournal ?_
    rw [hverdict]
    exact hd
  obtain ⟨first, name, hwords⟩ := List.length_eq_two.mp hlength
  simp only [Verdict.ofCall, Reader.statementOf, hwords] at hverdict
  exact ⟨first, name, hwords, (h.unique (.finished ahead hverdict)).1⟩

theorem Reads.return_inv (hk : Text.leading? l.text = some "subroutine_return")
    (hform : .error l.number .returnForm ∉ ds) :
    ∃ first, Token.words l.text = [first] ∧ ns = [.subroutineReturn] := by
  have hverdict : judge g (Reader.statementOf l topLevel inSubroutine) s.features =
      .ofReturn (Reader.statementOf l topLevel inSubroutine) s.features :=
    judge_eq_ofReturn hf hk
  have hlength : (Token.words l.text).length = 1 := by
    refine length_of_unreported hform fun d hd => h.mem_of_mem_reports ahead hjournal ?_
    rw [hverdict]
    exact List.mem_append_left _ hd
  obtain ⟨first, hwords⟩ := List.length_eq_one_iff.mp hlength
  exact ⟨first, hwords, (h.unique (.finished ahead hverdict)).1⟩

end Lines

/-- Where there is a line, a statement is read. -/
theorem Reader.readStatement_reads (g : Grammar A) {s : Reading} {l : Line} {rest : List Line}
    (ahead : s.cursor.rest = l :: rest) (topLevel inSubroutine : Bool) :
    ∃ node t, Reader.readStatement { grammar := g, table := .builtin } topLevel inSubroutine s =
        .ok node t ∧ Reads g (.statement topLevel inSubroutine) s node.toList t := by
  have hahead : 0 < s.remaining := by simp [Reading.remaining, ahead]
  obtain ⟨read, hread, hreads⟩ := step_reads (r := { grammar := g, table := .builtin }) rfl hahead
    topLevel inSubroutine
  refine ⟨read.node, read.next, ?_, hreads⟩
  rw [readStatement, dif_pos hahead, hread]

/-- With subroutines on, each of the three forms takes a line that has the right
number of tokens: where it does not report the form of the line, there are two
tokens, the second of which is the name in the statement, or one for a return.
The first token is the keyword exactly if the keyword is set off by gaps. -/
theorem subroutine_forms_count_tokens (g : Grammar A) {s : Reading} {l : Line} {rest : List Line}
    (ahead : s.cursor.rest = l :: rest) (hf : s.features.subroutines = true)
    (topLevel inSubroutine : Bool) :
    ∃ node t ds, Reader.readStatement { grammar := g, table := .builtin } topLevel inSubroutine s =
        .ok node t ∧
      t.journal = s.journal ++ ds ∧
      (Text.leading? l.text = some "subroutine" → .error l.number .definitionForm ∉ ds →
        ∃ first name body, Token.words l.text = [first, name] ∧
          node = some (.define name l.number body) ∧
          (first = "subroutine" ↔ Token.SetOff "subroutine" l.text)) ∧
      (Text.leading? l.text = some "subroutine_call" → .error l.number .callForm ∉ ds →
        ∃ first name, Token.words l.text = [first, name] ∧ node = some (.call name l.number) ∧
          (first = "subroutine_call" ↔ Token.SetOff "subroutine_call" l.text)) ∧
      (Text.leading? l.text = some "subroutine_return" → .error l.number .returnForm ∉ ds →
        ∃ first, Token.words l.text = [first] ∧ node = some .subroutineReturn ∧
          (first = "subroutine_return" ↔ Token.SetOff "subroutine_return" l.text)) := by
  obtain ⟨node, t, hread, hreads⟩ := Reader.readStatement_reads g ahead topLevel inSubroutine
  obtain ⟨ds, hds⟩ := hreads.journal
  have hjournal := hds.symm
  have hnode {n : Node A} (h : node.toList = [n]) : node = some n := by
    cases node with
    | none => cases h
    | some n' => exact congrArg some (List.singleton_inj.mp h)
  refine ⟨node, t, ds, hread, hjournal, fun hk hform => ?_, fun hk hform => ?_, fun hk hform => ?_⟩
  · obtain ⟨first, name, body, hwords, hn⟩ := hreads.definition_inv ahead hf hjournal hk hform
    exact ⟨first, name, body, hwords, hnode hn, Token.eq_keyword_iff (by decide) hk hwords⟩
  · obtain ⟨first, name, hwords, hn⟩ := hreads.call_inv ahead hf hjournal hk hform
    exact ⟨first, name, hwords, hnode hn, Token.eq_keyword_iff (by decide) hk hwords⟩
  · obtain ⟨first, hwords, hn⟩ := hreads.return_inv ahead hf hjournal hk hform
    exact ⟨first, hwords, hnode hn, Token.eq_keyword_iff (by decide) hk hwords⟩

/-- The line ahead is a call, with a tab behind its keyword. -/
def tabbedCall : Reading := .ofLines { subroutines := true } [⟨"subroutine_call\twave", 0⟩]

theorem tabbed_call_has_exact_form :
    tabbedCall.cursor.rest = [⟨"subroutine_call\twave", 0⟩] ∧
    tabbedCall.features.subroutines = true ∧
    ∃ node t name, Reader.readStatement { grammar := Host.echo, table := .builtin } true false
        tabbedCall = .ok node t ∧ node = some (.call name 0) ∧
      Token.words "subroutine_call\twave" = ["subroutine_call", name] := by
  obtain ⟨node, t, ds, hread, hjournal, -, hcall, -⟩ :=
    subroutine_forms_count_tokens Host.echo (s := tabbedCall) rfl rfl true false
  have hnone : t.journal = [] := by
    have hend : (endOf (Reader.readStatement { grammar := Host.echo, table := .builtin } true false
        tabbedCall)).journal = [] := by decide +kernel
    rwa [hread] at hend
  have hds : ds = [] := (List.append_eq_nil_iff.mp (hjournal.symm.trans hnone)).2
  obtain ⟨first, name, hwords, hnode, hexact⟩ :=
    hcall (by decide +kernel) (hds ▸ List.not_mem_nil)
  have hsetOff : Token.SetOff "subroutine_call" "subroutine_call\twave" :=
    ⟨[], ['\t', 'w', 'a', 'v', 'e'], by decide +kernel, by simp, by simp [Token.isGap]⟩
  exact ⟨rfl, rfl, node, t, name, hread, hnode, hexact.mpr hsetOff ▸ hwords⟩

/-- What is reported of a line with subroutines on, in a subroutine and with the
line `end` behind it. -/
def reportsOn (text : String) : List Diagnostic :=
  (endOf (Reader.readStatement { grammar := Host.echo, table := .builtin } true true
    (.ofLines { subroutines := true } [⟨text, 0⟩, ⟨"end", 1⟩]))).journal

/-- A no-break space ends a keyword and no token. Lines with a word too many are
accepted if one stands behind their keyword. -/
theorem no_break_space_hides_words :
    (Text.leading? "subroutine\u00a0x y" = some "subroutine" ∧
      reportsOn "subroutine\u00a0x y" = [] ∧
      ¬ ∃ name, Token.words "subroutine\u00a0x y" = ["subroutine", name]) ∧
    (Text.leading? "subroutine_call\u00a0x y" = some "subroutine_call" ∧
      reportsOn "subroutine_call\u00a0x y" = [] ∧
      ¬ ∃ name, Token.words "subroutine_call\u00a0x y" = ["subroutine_call", name]) ∧
    (Text.leading? "subroutine_return\u00a0now" = some "subroutine_return" ∧
      reportsOn "subroutine_return\u00a0now" = [] ∧
      Token.words "subroutine_return\u00a0now" ≠ ["subroutine_return"]) := by
  have hdefinition : (Token.words "subroutine\u00a0x y").head? ≠ some "subroutine" := by
    decide +kernel
  have hcall : (Token.words "subroutine_call\u00a0x y").head? ≠ some "subroutine_call" := by
    decide +kernel
  refine ⟨⟨by decide +kernel, by decide +kernel, fun ⟨name, h⟩ => hdefinition (h ▸ rfl)⟩,
    ⟨by decide +kernel, by decide +kernel, fun ⟨name, h⟩ => hcall (h ▸ rfl)⟩,
    by decide +kernel, by decide +kernel, by decide +kernel⟩

end CommandScript
