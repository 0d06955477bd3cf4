import CommandScript.Host.Samples
import CommandScript.Proofs.Reading
import CommandScript.Proofs.Sites
import CommandScript.Proofs.Spelling

/-!
# Reading what was printed

`Tree.print` writes a script of a host whose actions are plain texts, one
statement to a line, and reading the lines gives the script back. The texts
must be such that their lines are read as what they are (`Tree.Printable`): a
command must not look like a statement of another form or like the end of its
block, a selector must not have a quote that it leaves open, and a name must
be one token.

The lines are assembled as they stand (`Line.assemble_of_plain`). Then each
statement is read from its lines, and nothing behind them is touched
(`Node.reads_print`).
-/

namespace CommandScript

/-! ## Printing -/

namespace Node

mutual

/-- The lines of a statement. -/
def print (n : Node String) : List String :=
  match n with
  | block children => printAll children
  | command text => [text]
  | iterate kind selector body _ =>
    (kind.keyword ++ " " ++ selector.getD "" ++ " \x7b") :: (printAll body ++ ["\x7d"])
  | define name _ body => ("subroutine" ++ " " ++ name) :: (printAll body ++ ["end"])
  | call name _ => ["subroutine_call" ++ " " ++ name]
  | subroutineReturn => ["subroutine_return"]
  | leave _ => ["break"]
  | exit => ["return"]

def printAll (ns : List (Node String)) : List String :=
  match ns with
  | [] => []
  | n :: ns => print n ++ printAll ns

end

mutual

/-- The statement with the lines it has if it is printed from line `b` on. -/
def numbered (b : Nat) (n : Node String) : Node String :=
  match n with
  | block children => block (numberedAll b children)
  | command text => command text
  | iterate kind selector body _ => iterate kind selector (numberedAll (b + 1) body) b
  | define name _ body => define name b (numberedAll (b + 1) body)
  | call name _ => call name b
  | subroutineReturn => subroutineReturn
  | leave _ => leave b
  | exit => exit

def numberedAll (b : Nat) (ns : List (Node String)) : List (Node String) :=
  match ns with
  | [] => []
  | n :: ns => numbered b n :: numberedAll (b + n.print.length) ns

end

mutual

/-- The statement without the lines it is on. -/
def unlined (n : Node String) : Node String :=
  match n with
  | block children => block (unlinedAll children)
  | command text => command text
  | iterate kind selector body _ => iterate kind selector (unlinedAll body) 0
  | define name _ body => define name 0 (unlinedAll body)
  | call name _ => call name 0
  | subroutineReturn => subroutineReturn
  | leave _ => leave 0
  | exit => exit

def unlinedAll (ns : List (Node String)) : List (Node String) :=
  match ns with
  | [] => []
  | n :: ns => unlined n :: unlinedAll ns

end

mutual

theorem unlined_numbered (b : Nat) (n : Node String) : (n.numbered b).unlined = n.unlined := by
  cases n with
  | block children => simp only [numbered, unlined, unlinedAll_numberedAll b children]
  | iterate kind selector body line =>
    simp only [numbered, unlined, unlinedAll_numberedAll (b + 1) body]
  | define name line body => simp only [numbered, unlined, unlinedAll_numberedAll (b + 1) body]
  | command | call | subroutineReturn | leave | exit => simp only [numbered, unlined]

theorem unlinedAll_numberedAll (b : Nat) (ns : List (Node String)) :
    unlinedAll (numberedAll b ns) = unlinedAll ns := by
  cases ns with
  | nil => rfl
  | cons n ns =>
    simp only [numberedAll, unlinedAll, unlined_numbered b n,
      unlinedAll_numberedAll (b + n.print.length) ns]

end

end Node

namespace Subroutine

def print (s : Subroutine String) : List String := s.toNode.print

def unlined (s : Subroutine String) : Subroutine String := ⟨s.name, 0, Node.unlinedAll s.body⟩

/-- Subroutines with the lines they have if they are printed from line `b` on. -/
def numberedAll (b : Nat) : List (Subroutine String) → List (Subroutine String)
  | [] => []
  | s :: ss => ⟨s.name, b, Node.numberedAll (b + 1) s.body⟩ :: numberedAll (b + s.print.length) ss

theorem unlined_numberedAll (b : Nat) (ss : List (Subroutine String)) :
    (numberedAll b ss).map unlined = ss.map unlined := by
  induction ss generalizing b with
  | nil => rfl
  | cons s ss ih =>
    simp only [numberedAll, List.map_cons, ih, unlined, Node.unlinedAll_numberedAll]

end Subroutine

namespace Tree

/-- The lines of a script: its main block, then its subroutines. -/
def print (t : Tree String) : List String :=
  Node.printAll t.main ++ t.subroutines.flatMap (·.print)

/-- The script with the lines it has if it is printed. -/
def numbered (t : Tree String) : Tree String where
  main := Node.numberedAll 0 t.main
  subroutines := Subroutine.numberedAll (Node.printAll t.main).length t.subroutines

/-- The script without the lines its statements are on. -/
def unlined (t : Tree String) : Tree String where
  main := Node.unlinedAll t.main
  subroutines := t.subroutines.map (·.unlined)

theorem unlined_numbered (t : Tree String) : t.numbered.unlined = t.unlined := by
  rw [unlined, unlined, numbered, Node.unlinedAll_numberedAll, Subroutine.unlined_numberedAll]

end Tree

/-! ## Lines as they stand -/

namespace Line

/-- A text that is a logical line as it stands. -/
structure Plain (text : String) : Prop where
  nonempty : text ≠ ""
  trimmed : Text.trim text = text
  noComment : text.toList.head? ≠ some '#'
  noSlash : text.toList.head? ≠ some '/'
  unmarked : text.toList.getLast? ≠ some '\\'

instance (text : String) : Decidable (Plain text) :=
  decidable_of_iff (text ≠ "" ∧ Text.trim text = text ∧ text.toList.head? ≠ some '#' ∧
      text.toList.head? ≠ some '/' ∧ text.toList.getLast? ≠ some '\\')
    ⟨fun ⟨h₁, h₂, h₃, h₄, h₅⟩ => ⟨h₁, h₂, h₃, h₄, h₅⟩,
      fun h => ⟨h.nonempty, h.trimmed, h.noComment, h.noSlash, h.unmarked⟩⟩

/-- Texts as logical lines, numbered from `b` on. -/
def listed (b : Nat) : List String → List Line
  | [] => []
  | text :: texts => ⟨text, b⟩ :: listed (b + 1) texts

theorem listed_append (b : Nat) (texts texts' : List String) :
    listed b (texts ++ texts') = listed b texts ++ listed (b + texts.length) texts' := by
  induction texts generalizing b with
  | nil => rfl
  | cons text texts ih =>
    rw [List.cons_append, listed, ih, listed, List.cons_append, List.length_cons,
      Nat.add_right_comm, Nat.add_assoc]

theorem Plain.add {text : String} (h : Plain text) (number : Nat) (a : Assembled) :
    Assembled.add text number a = { a with lines := ⟨text, number⟩ :: a.lines } := by
  rw [Assembled.add]
  simp only [h.trimmed]
  split
  · rename_i htext
    exact absurd (String.toList_eq_nil_iff.mp htext) h.nonempty
  · rename_i htext
    exact absurd (congrArg List.head? htext) h.noComment
  · rename_i htext
    exact absurd (congrArg List.head? htext) h.noSlash
  · rename_i htext
    exact absurd (congrArg List.head? htext) h.noSlash
  · rfl

/-- Lines that are logical lines as they stand are taken so. -/
theorem assemble_of_plain {raw : List String} (h : ∀ text ∈ raw, Plain text) :
    assemble raw = ⟨listed 0 raw, []⟩ := by
  rw [assemble]
  generalize 0 = b
  induction raw generalizing b with
  | nil => rfl
  | cons text raw ih =>
    have htext := h text List.mem_cons_self
    have hunmarked : unmarked? ("" ++ Text.trim text) = none := by
      rw [htext.trimmed, String.empty_append, unmarked?, if_neg htext.unmarked]
    rw [List.zipIdx_cons, assembleFrom]
    simp only [Option.elim_none, hunmarked]
    rw [ih (fun text' h' => h text' (List.mem_cons_of_mem _ h')), htext.trimmed,
      String.empty_append, htext.add, listed]

end Line

/-! ## What can be printed -/

/-- A text that is read as a command: its line is taken as it stands, and no
form claims it. -/
structure CommandText (text : String) : Prop extends Line.Plain text where
  unclaimed : (FormTable.builtin : FormTable String).find? ((Text.leading? text).getD "") = none

/-- A text that a block header gives back as its selector. -/
structure SelectorText (text : String) : Prop where
  trimmed : Text.trim text = text
  closed : ∀ t ∈ Token.lex text, t.Closed

/-- A text that is one token. -/
structure NameText (text : String) : Prop where
  trimmed : Text.trim text = text
  unmarked : text.toList.getLast? ≠ some '\\'
  single : Token.words text = [text]

/-- A statement whose lines are read as the statement. The line `end` closes
the body of a subroutine, and is a command in a block inside it. -/
def Node.Printable (site : Site) : Node String → Prop
  | block _ => False
  | command text =>
    CommandText text ∧ (site.inSubroutine = true → site.enclosed = false → text ≠ "end")
  | iterate _ selector _ _ => ∃ text, selector = some text ∧ SelectorText text
  | define _ _ _ => False
  | call name _ => NameText name
  | subroutineReturn => site.inSubroutine = true
  | leave _ => True
  | exit => True

structure Tree.Printable (t : Tree String) : Prop where
  statements : t.Throughout Node.Printable
  names : ∀ s ∈ t.subroutines, NameText s.name

theorem NameText.ne_empty {text : String} (h : NameText text) : text ≠ "" := by
  rintro rfl
  have hnone : Token.words "" = [] := by simp [Token.words, Token.lex, Token.lexFrom]
  exact absurd (hnone.symm.trans h.single) (by simp)

/-- A statement that starts with a keyword is a line as it stands if its last
character leaves it so. -/
theorem Line.plain_spelled {k s : String} (hk : Token.isKeyword k = true)
    (hstart : k.toList.head? ≠ some '#' ∧ k.toList.head? ≠ some '/') {c : Char}
    (hlast : s.toList.getLast? = some c) (hblank : Text.isBlank c = false) (hmark : c ≠ '\\') :
    Line.Plain (k ++ " " ++ s) := by
  obtain ⟨hne, hchars⟩ := keyword_chars hk
  have hend : (k ++ " " ++ s).toList.getLast? = some c := by
    rw [String.toList_append, List.getLast?_append, hlast, Option.some_or]
  have hhead : (k ++ " " ++ s).toList.head? = k.toList.head? := by
    obtain ⟨d, ds, hd⟩ := List.exists_cons_of_ne_nil hne
    simp [hd]
  have htight : Text.Tight (k ++ " " ++ s).toList := by
    refine ⟨fun c' hc' => ?_, fun c' hc' => ?_⟩
    · exact (hchars c' (List.mem_of_head? (hhead.symm.trans hc'))).2
    · obtain rfl := Option.some.inj (hend.symm.trans hc')
      exact hblank
  rw [← hhead] at hstart
  refine ⟨fun hempty => ?_, Text.trim_eq_self_iff.mpr htight, hstart.1, hstart.2, ?_⟩
  · rw [hempty] at hend
    cases hend
  · rw [hend]
    exact fun h => hmark (Option.some.inj h)

theorem isKeyword_iteration (kind : Iteration) : Token.isKeyword kind.keyword = true := by
  cases kind <;> decide

theorem Line.plain_iteration (kind : Iteration) (text : String) :
    Line.Plain (kind.keyword ++ " " ++ text ++ " \x7b") := by
  rw [String.append_assoc]
  refine plain_spelled (isKeyword_iteration kind) ?_ (c := '\x7b') (by simp) (by decide) (by decide)
  cases kind <;> decide

theorem NameText.plain {name : String} (h : NameText name) {k : String}
    (hk : Token.isKeyword k = true)
    (hstart : k.toList.head? ≠ some '#' ∧ k.toList.head? ≠ some '/') :
    Line.Plain (k ++ " " ++ name) := by
  cases hlast : name.toList.getLast? with
  | none =>
    rw [List.getLast?_eq_none_iff] at hlast
    exact absurd (String.toList_eq_nil_iff.mp hlast) h.ne_empty
  | some c =>
    refine Line.plain_spelled hk hstart hlast ?_ ?_
    · exact (Text.trim_eq_self_iff.mp h.trimmed).last c hlast
    · exact fun hc => h.unmarked (hlast.trans (congrArg some hc))

namespace Node

mutual

/-- The lines of a statement are taken as they stand. -/
theorem plain_of_mem_print {site : Site} (n : Node String) (h : n.Throughout Printable site) :
    ∀ text ∈ n.print, Line.Plain text := by
  cases n with
  | block children => exact absurd h.1 id
  | define name line body => exact absurd h.1 id
  | command text => exact List.forall_mem_singleton.mpr h.1.1.toPlain
  | iterate kind selector body line =>
    simp only [Throughout] at h
    have hbody := plain_of_mem_printAll body h.2
    simp only [print, List.forall_mem_cons, List.forall_mem_append]
    exact ⟨Line.plain_iteration kind _, hbody, by decide, fun _ h => absurd h List.not_mem_nil⟩
  | call name line =>
    exact List.forall_mem_singleton.mpr (NameText.plain h.1 (by decide) (by decide))
  | subroutineReturn | leave | exit => exact List.forall_mem_singleton.mpr (by decide)

theorem plain_of_mem_printAll {site : Site} (ns : List (Node String))
    (h : ThroughoutAll Printable site ns) : ∀ text ∈ printAll ns, Line.Plain text := by
  cases ns with
  | nil => exact fun _ htext => absurd htext List.not_mem_nil
  | cons n ns =>
    simp only [ThroughoutAll] at h
    simp only [printAll, List.forall_mem_append]
    exact ⟨plain_of_mem_print n h.1, plain_of_mem_printAll ns h.2⟩

end

end Node

/-! ## Verdicts on printed lines -/

section Verdicts

variable {st : Statement} {f : Features}

theorem judge_iteration (hf : f.controlFlowV2 = false) {kind : Iteration} {text : String}
    (h : SelectorText text) (hst : st.text = kind.keyword ++ " " ++ text ++ " \x7b") :
    judge Host.echo st f = .opens [] ⟨st.line, "\x7d", .unclosedBlock kind, st.inSubroutine⟩
      fun body => .iterate kind (some text) body st.line := by
  have hheader : Header.ofText? st.text = some ⟨kind.keyword, text⟩ := by
    rw [hst, ofText?_spelled (isWord_of_isKeyword (isKeyword_iteration kind))
      (Text.trim_eq_self_iff.mp h.trimmed) h.closed]
  have hleading : Text.leading? st.text = some kind.keyword := by
    rw [hst, String.append_assoc, leading?_spelled (isKeyword_iteration kind)]
  have hjudge : judge Host.echo st f =
      .gated Form.blockGate st f (.ofIteration Host.echo kind st) := by
    rw [judge, hleading]
    cases kind <;> rfl
  have hopen : Form.blockGate.isOpen f = true := by simp [Form.blockGate, Features.blocksOn, hf]
  rw [hjudge, Verdict.gated, if_pos hopen, Verdict.ofIteration]
  simp only [hheader, if_true]
  rfl

theorem judge_definition (hf : f.subroutines = true) {name : String} (h : NameText name)
    (hst : st.text = "subroutine" ++ " " ++ name) (htop : st.topLevel = true) :
    judge Host.echo st f = .opens [] ⟨st.line, "end", .unclosedSubroutine, true⟩
      fun body => .define name st.line body := by
  have hkeyword : Token.isKeyword "subroutine" = true := by decide
  have hwords : Token.words st.text = ["subroutine", name] := by
    rw [hst, words_spelled (isWord_of_isKeyword hkeyword), h.single]
  rw [judge, hst, leading?_spelled hkeyword]
  refine (if_pos hf).trans ?_
  simp only [Verdict.ofDefinition, hwords, htop]
  rfl

theorem judge_call (hf : f.subroutines = true) {name : String} (h : NameText name)
    (hst : st.text = "subroutine_call" ++ " " ++ name) :
    judge Host.echo st f = .finished [] f (some (.call name st.line)) := by
  have hkeyword : Token.isKeyword "subroutine_call" = true := by decide
  have hwords : Token.words st.text = ["subroutine_call", name] := by
    rw [hst, words_spelled (isWord_of_isKeyword hkeyword), h.single]
  rw [judge, hst, leading?_spelled hkeyword]
  refine (if_pos hf).trans ?_
  simp only [Verdict.ofCall, hwords]
  rfl

theorem judge_subroutineReturn (hf : f.subroutines = true) (hst : st.text = "subroutine_return")
    (hinside : st.inSubroutine = true) :
    judge Host.echo st f = .finished [] f (some .subroutineReturn) := by
  have hwords : Token.words st.text = ["subroutine_return"] := by
    rw [hst]
    decide +kernel
  have hleading : Text.leading? "subroutine_return" = some "subroutine_return" := by decide
  rw [judge, hst, hleading]
  refine (if_pos hf).trans ?_
  simp only [Verdict.ofReturn, hwords, hinside]
  rfl

theorem judge_leave (hst : st.text = "break") :
    judge Host.echo st f = .finished [] f (some (.leave st.line)) := by
  have hleading : Text.leading? "break" = some "break" := by decide
  rw [judge, hst, hleading]
  exact if_pos hst

theorem judge_exit (hst : st.text = "return") :
    judge Host.echo st f = .finished [] f (some .exit) := by
  have hleading : Text.leading? "return" = some "return" := by decide
  rw [judge, hst, hleading]
  exact if_pos hst

end Verdicts

/-! ## Reading printed lines -/

section Reads

variable {A : Type} {g : Grammar A} {topLevel inSubroutine : Bool} {pos : Nat} {l : Line}
  {rest : List Line} {f : Features} {journal : List Diagnostic}

theorem Reads.of_finished {n : Node A}
    (verdict : judge g (Reader.statementOf l topLevel inSubroutine) f = .finished [] f (some n)) :
    Reads g (.statement topLevel inSubroutine) ⟨⟨pos, l :: rest⟩, f, journal⟩ [n]
      ⟨⟨pos + 1, rest⟩, f, journal⟩ := by
  have h : Reads g (.statement topLevel inSubroutine) ⟨⟨pos, l :: rest⟩, f, journal⟩ _ _ :=
    .finished rfl verdict
  rwa [Reading.reports_nil] at h

/-- The lines of a statement with a block: the one that opens it, those of its
body, and the one that closes it. -/
theorem Reads.of_block {first : String} {b : Nat} {o : Opening} {node : List (Node A) → Node A}
    {body : List String} {ns : List (Node A)}
    (verdict : judge g (Reader.statementOf ⟨first, b⟩ topLevel inSubroutine) f = .opens [] o node)
    (inside : Reads g (.block o)
      ⟨⟨pos + 1, Line.listed (b + 1) (body ++ [o.terminator]) ++ rest⟩, f, journal⟩ ns
      ⟨⟨pos + 1 + body.length + 1, rest⟩, f, journal⟩) :
    Reads g (.statement topLevel inSubroutine)
      ⟨⟨pos, Line.listed b (first :: (body ++ [o.terminator])) ++ rest⟩, f, journal⟩ [node ns]
      ⟨⟨pos + (first :: (body ++ [o.terminator])).length, rest⟩, f, journal⟩ := by
  have hlength : pos + (first :: (body ++ [o.terminator])).length = pos + 1 + body.length + 1 := by
    simp only [List.length_cons, List.length_append, List.length_nil]
    omega
  rw [hlength]
  refine .opens rfl verdict ?_
  rw [Reading.reports_nil]
  exact inside

theorem reads_command {text : String} (h : CommandText text) (b : Nat) :
    Reads Host.echo (.statement topLevel inSubroutine) ⟨⟨pos, ⟨text, b⟩ :: rest⟩, f, journal⟩
      [.command text] ⟨⟨pos + 1, rest⟩, f, journal⟩ := by
  have hread : Reads Host.echo (.statement topLevel inSubroutine)
      ⟨⟨pos, ⟨text, b⟩ :: rest⟩, f, journal⟩ _ _ := .command rfl (judge_unclaimed h.unclaimed)
  rwa [Reading.reports_nil] at hread

end Reads

/-- The block `b` is the innermost around the statements at a site. -/
structure Opening.Encloses (b : Opening) (site : Site) : Prop where
  inSubroutine : b.inSubroutine = site.inSubroutine
  terminator : b.terminator = "\x7d" ∨
    b.terminator = "end" ∧ site.inSubroutine = true ∧ site.enclosed = false

/-- No statement with a keyword of its own closes a block. -/
theorem Opening.Encloses.ne_terminator {b : Opening} {site : Site} (hb : b.Encloses site)
    {text k : String} (h : Text.leading? text = some k) (hbrace : k ≠ "\x7d") (hend : k ≠ "end") :
    text ≠ b.terminator := by
  rintro rfl
  rcases hb.terminator with hb | ⟨hb, -⟩
  · rw [hb, show Text.leading? "\x7d" = some "\x7d" by decide] at h
    exact hbrace (Option.some.inj h).symm
  · rw [hb, show Text.leading? "end" = some "end" by decide] at h
    exact hend (Option.some.inj h).symm

theorem CommandText.ne_brace {text : String} (h : CommandText text) : text ≠ "\x7d" := by
  rintro rfl
  have hclaimed : ((FormTable.builtin : FormTable String).find?
      ((Text.leading? "\x7d").getD "")).isSome = true := by decide
  rw [h.unclaimed] at hclaimed
  cases hclaimed

namespace Node

/-- A statement has a first line, and it does not close the block around it. -/
theorem print_ne_terminator {site : Site} {b : Opening} {n : Node String} (h : n.Printable site)
    (hb : b.Encloses site) : ∃ text texts, n.print = text :: texts ∧ text ≠ b.terminator := by
  cases n with
  | block children => exact absurd h id
  | define name line body => exact absurd h id
  | command text =>
    refine ⟨text, [], rfl, ?_⟩
    rcases hb.terminator with hb | ⟨hb, hinside, houtside⟩
    · exact hb ▸ h.1.ne_brace
    · exact hb ▸ h.2 hinside houtside
  | iterate kind selector body line =>
    refine ⟨_, _, by rw [print], hb.ne_terminator (k := kind.keyword) ?_ ?_ ?_⟩
    · rw [String.append_assoc, leading?_spelled (isKeyword_iteration kind)]
    · cases kind <;> decide
    · cases kind <;> decide
  | call name line =>
    have hleading := leading?_spelled (show Token.isKeyword "subroutine_call" = true by decide) name
    exact ⟨_, _, rfl, hb.ne_terminator hleading (by decide) (by decide)⟩
  | subroutineReturn =>
    exact ⟨_, _, rfl, hb.ne_terminator (k := "subroutine_return") (by decide) (by decide) (by decide)⟩
  | leave line =>
    exact ⟨_, _, rfl, hb.ne_terminator (k := "break") (by decide) (by decide) (by decide)⟩
  | exit =>
    exact ⟨_, _, rfl, hb.ne_terminator (k := "return") (by decide) (by decide) (by decide)⟩

variable {f : Features}

mutual

/-- The lines of a statement are read to the statement, and no further. -/
theorem reads_print (hsubs : f.subroutines = true) (hblocks : f.controlFlowV2 = false) {site : Site}
    (n : Node String) (h : n.Throughout Printable site) (topLevel : Bool) (b pos : Nat)
    (rest : List Line) (journal : List Diagnostic) :
    Reads Host.echo (.statement topLevel site.inSubroutine)
      ⟨⟨pos, Line.listed b n.print ++ rest⟩, f, journal⟩ [n.numbered b]
      ⟨⟨pos + n.print.length, rest⟩, f, journal⟩ := by
  cases n with
  | block children => exact absurd h.1 id
  | define name line body => exact absurd h.1 id
  | command text => exact reads_command h.1.1 b
  | iterate kind selector body line =>
    simp only [Throughout] at h
    obtain ⟨⟨text, rfl, htext⟩, hbody⟩ := h
    have hencloses : Opening.Encloses ⟨b, "\x7d", .unclosedBlock kind, site.inSubroutine⟩
        site.inside := ⟨rfl, .inl rfl⟩
    have hread := reads_printAll hsubs hblocks body hbody hencloses (b + 1) (pos + 1) rest journal
    simp only [print, numbered, Option.getD_some]
    exact .of_block (judge_iteration hblocks htext rfl) hread
  | call name line => exact .of_finished (judge_call hsubs h.1 rfl)
  | subroutineReturn => exact .of_finished (judge_subroutineReturn hsubs rfl h.1)
  | leave line => exact .of_finished (judge_leave rfl)
  | exit => exact .of_finished (judge_exit rfl)

/-- The lines of a block, with the one that closes it, are read to the
statements of the block. -/
theorem reads_printAll (hsubs : f.subroutines = true) (hblocks : f.controlFlowV2 = false)
    {site : Site} {o : Opening} (ns : List (Node String)) (h : ThroughoutAll Printable site ns)
    (ho : o.Encloses site) (b pos : Nat) (rest : List Line) (journal : List Diagnostic) :
    Reads Host.echo (.block o)
      ⟨⟨pos, Line.listed b (printAll ns ++ [o.terminator]) ++ rest⟩, f, journal⟩
      (numberedAll b ns) ⟨⟨pos + (printAll ns).length + 1, rest⟩, f, journal⟩ := by
  cases ns with
  | nil => exact .close rfl rfl
  | cons n ns =>
    simp only [ThroughoutAll] at h
    obtain ⟨text, texts, hprint, hinside⟩ := print_ne_terminator h.1.here ho
    have hfirst := reads_print hsubs hblocks n h.1 false b pos
      (Line.listed (b + n.print.length) (printAll ns ++ [o.terminator]) ++ rest) journal
    have hothers := reads_printAll hsubs hblocks ns h.2 ho (b + n.print.length)
      (pos + n.print.length) rest journal
    rw [← ho.inSubroutine] at hfirst
    have hahead : Line.listed b n.print ++
        (Line.listed (b + n.print.length) (printAll ns ++ [o.terminator]) ++ rest) =
        ⟨text, b⟩ :: (Line.listed (b + 1) texts ++
          (Line.listed (b + n.print.length) (printAll ns ++ [o.terminator]) ++ rest)) := by
      rw [hprint]
      rfl
    simp only [printAll, numberedAll, List.append_assoc, List.length_append, ← Nat.add_assoc]
    rw [Line.listed_append, List.append_assoc]
    exact .next hahead hinside hfirst hothers

end

theorem cons_numbered {site : Site} {n : Node String} (h : n.Printable site) (b : Nat)
    (t : Tree String) : Tree.cons (n.numbered b) t = { t with main := n.numbered b :: t.main } := by
  cases n with
  | define name line body => exact absurd h id
  | _ => simp only [numbered, Tree.cons]

/-- The main block of a script is read before what follows it. -/
theorem readsScript_printAll (hsubs : f.subroutines = true) (hblocks : f.controlFlowV2 = false)
    {ns : List (Node String)} (h : ThroughoutAll Printable {} ns) {b pos : Nat} {rest : List Line}
    {journal : List Diagnostic} {t : Tree String} {u : Reading}
    (hrest : ReadsScript Host.echo ⟨⟨pos + (printAll ns).length, rest⟩, f, journal⟩ t u) :
    ReadsScript Host.echo ⟨⟨pos, Line.listed b (printAll ns) ++ rest⟩, f, journal⟩
      { t with main := numberedAll b ns ++ t.main } u := by
  induction ns generalizing b pos with
  | nil => exact hrest
  | cons n ns ih =>
    simp only [ThroughoutAll] at h
    simp only [printAll, numberedAll, List.length_append, ← Nat.add_assoc] at hrest ⊢
    have hfirst := reads_print hsubs hblocks n h.1 true b pos
      (Line.listed (b + n.print.length) (printAll ns) ++ rest) journal
    obtain ⟨l, lines, hahead⟩ := hfirst.ahead
    have hscript := ReadsScript.next hahead hfirst (ih h.2 hrest)
    rw [List.foldr_cons, List.foldr_nil, cons_numbered h.1.here] at hscript
    rw [Line.listed_append, List.append_assoc]
    exact hscript

end Node

/-- The lines of a definition are read to the definition. -/
theorem Subroutine.reads_print {f : Features} (hsubs : f.subroutines = true)
    (hblocks : f.controlFlowV2 = false) {s : Subroutine String} (hname : NameText s.name)
    (hbody : Node.ThroughoutAll Node.Printable { inSubroutine := true } s.body) (b pos : Nat)
    (rest : List Line) (journal : List Diagnostic) :
    Reads Host.echo (.statement true false) ⟨⟨pos, Line.listed b s.print ++ rest⟩, f, journal⟩
      [.define s.name b (Node.numberedAll (b + 1) s.body)]
      ⟨⟨pos + s.print.length, rest⟩, f, journal⟩ := by
  have hencloses : Opening.Encloses ⟨b, "end", .unclosedSubroutine, true⟩
      { inSubroutine := true } := ⟨rfl, .inr ⟨rfl, rfl, rfl⟩⟩
  have hread := Node.reads_printAll hsubs hblocks s.body hbody hencloses (b + 1) (pos + 1) rest
    journal
  simp only [print, toNode, Node.print]
  exact .of_block (judge_definition hsubs hname rfl rfl) hread

theorem Subroutine.readsScript_print {f : Features} (hsubs : f.subroutines = true)
    (hblocks : f.controlFlowV2 = false) {ss : List (Subroutine String)}
    (hnames : ∀ s ∈ ss, NameText s.name)
    (hbodies : ∀ s ∈ ss, Node.ThroughoutAll Node.Printable { inSubroutine := true } s.body)
    (b pos : Nat) (journal : List Diagnostic) :
    ReadsScript Host.echo ⟨⟨pos, Line.listed b (ss.flatMap (·.print))⟩, f, journal⟩
      { subroutines := numberedAll b ss }
      ⟨⟨pos + (ss.flatMap (·.print)).length, []⟩, f, journal⟩ := by
  induction ss generalizing b pos with
  | nil => exact .done rfl
  | cons s ss ih =>
    have hfirst := reads_print hsubs hblocks (hnames s List.mem_cons_self)
      (hbodies s List.mem_cons_self) b pos
      (Line.listed (b + s.print.length) (ss.flatMap (·.print))) journal
    have hothers := ih (fun s' hs' => hnames s' (List.mem_cons_of_mem _ hs'))
      (fun s' hs' => hbodies s' (List.mem_cons_of_mem _ hs')) (b + s.print.length)
      (pos + s.print.length)
    obtain ⟨l, lines, hahead⟩ := hfirst.ahead
    rw [List.flatMap_cons, Line.listed_append, List.length_append, ← Nat.add_assoc]
    exact .next hahead hfirst hothers

theorem Tree.plain_of_mem_print {t : Tree String} (h : t.Printable) :
    ∀ text ∈ t.print, Line.Plain text := by
  rw [print, List.forall_mem_append]
  refine ⟨Node.plain_of_mem_printAll t.main h.statements.main, fun text htext => ?_⟩
  obtain ⟨s, hs, htext⟩ := List.mem_flatMap.mp htext
  simp only [Subroutine.print, Subroutine.toNode, Node.print, List.mem_cons, List.mem_append,
    List.not_mem_nil, or_false] at htext
  obtain rfl | htext | rfl := htext
  · exact (h.names s hs).plain (by decide) (by decide)
  · exact Node.plain_of_mem_printAll s.body (h.statements.subroutines s hs) text htext
  · decide

/-- Reading undoes printing: the lines of a script are read to the end without
a report, and give the script back, with each statement on its line. -/
theorem printed_script_reads_back {t : Tree String} (h : t.Printable) {f : Features}
    (hsubs : f.subroutines = true) (hblocks : f.controlFlowV2 = false) :
    Reader.read { grammar := Host.echo, table := .builtin } f (Line.assemble t.print) =
      .ok t.numbered ⟨⟨t.print.length, []⟩, f, []⟩ ∧
    t.numbered.unlined = t.unlined := by
  have hsubroutines := Subroutine.readsScript_print hsubs hblocks h.names h.statements.subroutines
    (Node.printAll t.main).length (0 + (Node.printAll t.main).length) []
  have hscript : ReadsScript Host.echo ⟨.ofLines (Line.listed 0 t.print), f, []⟩ t.numbered
      ⟨⟨t.print.length, []⟩, f, []⟩ := by
    have hmain := Node.readsScript_printAll hsubs hblocks h.statements.main hsubroutines (b := 0)
    simp only [List.append_nil, Nat.zero_add] at hmain
    rw [Tree.print, Line.listed_append, Nat.zero_add, List.length_append]
    exact hmain
  obtain ⟨tree, s, hread, hreads⟩ := Reader.readTree_reads
    (r := { grammar := Host.echo, table := .builtin }) rfl ⟨.ofLines (Line.listed 0 t.print), f, []⟩
  obtain ⟨rfl, rfl⟩ := hscript.unique hreads
  rw [Reader.read, Line.assemble_of_plain (Tree.plain_of_mem_print h)]
  exact ⟨hread, t.unlined_numbered⟩

/-- A script with a selector that has braces and a quoted string, and with the
command `end` in a block of a subroutine. -/
def errand : Tree String where
  main :=
    [.iterate .run (some "as \x7b\"a b\"\x7d") [.command "say hi", .leave 0] 0,
      .call "\"go on\"" 0, .exit]
  subroutines :=
    [⟨"\"go on\"", 0, [.iterate .loop (some "") [.command "end", .subroutineReturn] 0]⟩]

theorem errand_reads_back :
    errand.Printable ∧
    Reader.read { grammar := Host.echo, table := .builtin } { subroutines := true }
        (Line.assemble errand.print) =
      .ok errand.numbered ⟨⟨errand.print.length, []⟩, { subroutines := true }, []⟩ ∧
    errand.numbered.unlined = errand.unlined := by
  have hsay : CommandText "say hi" := ⟨by decide, by decide⟩
  have hend : CommandText "end" := ⟨by decide, by decide⟩
  have hselector : SelectorText "as \x7b\"a b\"\x7d" := ⟨by decide, by decide +kernel⟩
  have hempty : SelectorText "" := ⟨by decide, by decide +kernel⟩
  have hname : NameText "\"go on\"" := ⟨by decide, by decide, by decide +kernel⟩
  have hmain : Node.ThroughoutAll Node.Printable {} errand.main := by
    simp [errand, Node.ThroughoutAll, Node.Throughout, Node.Printable, hsay, hselector, hname]
  have hbody : ∀ s ∈ errand.subroutines,
      Node.ThroughoutAll Node.Printable { inSubroutine := true } s.body := by
    simp [errand, Node.ThroughoutAll, Node.Throughout, Node.Printable, Site.inside, hend, hempty]
  have hprintable : errand.Printable := ⟨⟨hmain, hbody⟩, by simp [errand, hname]⟩
  exact ⟨hprintable, printed_script_reads_back hprintable rfl rfl⟩

end CommandScript
