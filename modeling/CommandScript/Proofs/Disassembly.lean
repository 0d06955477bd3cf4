import CommandScript.Proofs.History
import Mathlib.Data.List.Induction
import Mathlib.Data.List.Nodup

/-!
# Listings and their dumps

A listing does what its assembly does and takes notes. It gives the same
answers as an assembly without them (`Listing.answers_eq`), and faults where
that one faults. Its notes agree with its history at any time (`Records`): a
name for each instruction, and each label with the place it was bound at.

The dump shows them in the order in which things happened. A label is bound
behind the instruction that was emitted last and before the next one, and
that is where its line stands, so that the lines of the dump are the history
itself, with a line for each binding and each instruction (`History.rows`).
-/

namespace CommandScript

variable {A : Type}

/-! ## Answers -/

/-- What is known once a directive is performed: the label it has made, if it
makes one, and the offset of the next instruction. -/
structure Answer where
  made : Option Label
  position : Nat
  deriving DecidableEq, Repr

/-- The label that a directive makes: the next one in number. -/
def Assembly.made (g : Assembly A) : Directive A → Option Label
  | .define _ => some ⟨g.labels.size⟩
  | _ => none

/-- The answers to directives in order, up to the first that faults. -/
def Assembly.answers (g : Assembly A) : List (Directive A) → List (Except Fault Answer)
  | [] => []
  | x :: code =>
    match g.perform x with
    | .error fault => [.error fault]
    | .ok g' => .ok ⟨g.made x, g'.size⟩ :: g'.answers code

/-- The answers of a listing. -/
def Listing.answers (l : Listing A) : List (Directive A) → List (Except Fault Answer)
  | [] => []
  | x :: code =>
    match l.perform x with
    | .error fault => [.error fault]
    | .ok l' => .ok ⟨l.assembly.made x, l'.assembly.size⟩ :: l'.answers code

theorem Listing.perform_error {l : Listing A} {x : Directive A} {fault : Fault}
    (h : l.assembly.perform x = .error fault) : l.perform x = .error fault := by
  rw [Listing.perform, h]
  rfl

theorem Listing.answers_eq (l : Listing A) (code : List (Directive A)) :
    l.answers code = l.assembly.answers code := by
  induction code generalizing l with
  | nil => rfl
  | cons x code ih =>
    rw [Listing.answers, Assembly.answers]
    cases hx : l.assembly.perform x with
    | error fault => rw [Listing.perform_error hx]
    | ok g =>
      rw [Listing.perform_of hx]
      simp only [ih]

/-- A listing performs directives as its assembly does, to the end or to the
same fault. -/
theorem Listing.run_map_assembly (l : Listing A) (code : List (Directive A)) :
    (l.run code).map (·.assembly) = l.assembly.run code := by
  induction code generalizing l with
  | nil => rfl
  | cons x code ih =>
    rw [Listing.run, Assembly.run, List.foldlM_cons, List.foldlM_cons]
    cases hx : l.assembly.perform x with
    | error fault => rw [Listing.perform_error hx]; rfl
    | ok g =>
      rw [Listing.perform_of hx]
      exact ih { l.note x with assembly := g }

/-! ## Notes -/

theorem filterMap_concat {α β : Type} (f : α → Option β) (xs : List α) (x : α) :
    (xs ++ [x]).filterMap f = xs.filterMap f ++ (f x).toList := by
  rw [List.filterMap_append]
  cases h : f x <;> simp [h]

namespace Directive

/-- The name noted for the instruction that a directive emits. -/
def name? : Directive A → Option (Option String)
  | plain _ => some (some "plain")
  | control name _ => some name
  | defer d => some d.name
  | _ => none

def bound? : Directive A → Option Label
  | bind l => some l
  | _ => none

/-- The name of the label that a directive makes. -/
def defined? : Directive A → Option String
  | define name => some name
  | _ => none

end Directive

namespace History

/-- The names noted, one for each instruction, if only an absent one. -/
def names (past : History A) : List (Option String) := past.filterMap (·.name?)

/-- The labels bound, in the order of binding. -/
def bindings (past : History A) : List Label := past.filterMap (·.bound?)

/-- The names of the labels, in the order of their numbers. -/
def labelNames (past : History A) : List String := past.filterMap (·.defined?)

/-- Directives with the number of instructions emitted before each, if `n`
were emitted before the first. -/
def placedFrom : Nat → List (Directive A) → List (Nat × Directive A)
  | _, [] => []
  | n, x :: past => (n, x) :: placedFrom (n + x.slot?.toList.length) past

/-- Each directive with the number of instructions emitted before. -/
def placed (past : History A) : List (Nat × Directive A) := placedFrom 0 past

/-- The labels bound, each with its offset, in the order of binding. -/
def marks (past : History A) : List (Nat × Label) :=
  past.placed.filterMap fun (n, x) => x.bound?.map (n, ·)

variable (past : History A) (x : Directive A)

theorem placedFrom_concat (n : Nat) :
    placedFrom n (past ++ [x]) = placedFrom n past ++ [(n + past.emitted.length, x)] := by
  induction past generalizing n with
  | nil => rfl
  | cons y past ih =>
    have hlength : (emitted (y :: past)).length =
        y.slot?.toList.length + (emitted past).length := by
      rw [emitted, List.filterMap_cons]
      cases y.slot? <;> simp [emitted, Nat.add_comm]
    rw [List.cons_append, placedFrom, ih, placedFrom, hlength, Nat.add_assoc, List.cons_append]

theorem placed_concat : placed (past ++ [x]) = past.placed ++ [(past.emitted.length, x)] := by
  rw [placed, placedFrom_concat, Nat.zero_add, placed]

theorem marks_concat :
    marks (past ++ [x]) = past.marks ++ (x.bound?.map (past.emitted.length, ·)).toList := by
  rw [marks, placed_concat, filterMap_concat, marks]

theorem names_concat : names (past ++ [x]) = past.names ++ x.name?.toList :=
  filterMap_concat ..

theorem bindings_concat : bindings (past ++ [x]) = past.bindings ++ x.bound?.toList :=
  filterMap_concat ..

theorem labelNames_concat : labelNames (past ++ [x]) = past.labelNames ++ x.defined?.toList :=
  filterMap_concat ..

variable {past}

theorem mem_bindings_iff {l : Label} : l ∈ past.bindings ↔ .bind l ∈ past := by
  rw [bindings, List.mem_filterMap]
  constructor
  · rintro ⟨x, hx, hl⟩
    cases x with
    | bind l' => exact Option.some.inj hl ▸ hx
    | _ => cases hl
  · exact fun h => ⟨_, h, rfl⟩

/-- Marks are set no further on than the instructions go. -/
theorem marks_le {m : Nat × Label} (h : m ∈ past.marks) : m.1 ≤ past.emitted.length := by
  induction past using List.reverseRecOn with
  | nil => cases h
  | append_singleton past x ih =>
    have hle : (emitted past).length ≤ (emitted (past ++ [x])).length := by
      rw [emitted_concat, List.length_append]
      exact Nat.le_add_right ..
    rw [marks_concat, List.mem_append, Option.mem_toList,
      Option.map_eq_some_iff] at h
    obtain h | ⟨l, -, rfl⟩ := h
    · exact Nat.le_trans (ih h) hle
    · exact hle

end History

/-- A listing agrees with its history: in what it has noted, and in what its
assembly has become. -/
structure Records (past : History A) (l : Listing A) : Prop where
  names : l.names.toList = past.names
  marks : l.marks.toList = past.marks
  labels : l.assembly.labels.toList.map (·.name) = past.labelNames
  once : past.bindings.Nodup
  tracks : Tracks past l.assembly

/-- A directive leaves the names of labels as they are, but for a new one. -/
theorem Assembly.labelNames_perform {g g' : Assembly A} {x : Directive A}
    (h : g.perform x = .ok g') :
    g'.labels.toList.map (·.name) = g.labels.toList.map (·.name) ++ x.defined?.toList := by
  cases x with
  | define name =>
    obtain rfl := Except.ok.inj h
    simp [Directive.defined?]
  | bind l =>
    obtain ⟨e, hl, -, rfl⟩ := Assembly.bind_cases h
    obtain ⟨hlt, rfl⟩ := Array.getElem?_eq_some_iff.mp hl
    refine List.ext_getElem? fun i => ?_
    by_cases hi : l.index = i
    · subst hi
      simp [Directive.defined?, hlt]
    · simp [Directive.defined?, hi]
  | plain | control | defer =>
    obtain rfl := Except.ok.inj h
    simp [Directive.defined?, Assembly.push]
  | link =>
    obtain ⟨linked, -, h⟩ := bind_eq_ok h
    obtain rfl := Except.ok.inj h
    simp [Directive.defined?]

/-- A label is bound once. -/
theorem Tracks.not_mem_of_perform_bind {past : History A} {g g' : Assembly A} {l : Label}
    (h : Tracks past g) (hx : g.perform (.bind l) = .ok g') : .bind l ∉ past := by
  obtain ⟨e, hl, ho, -⟩ := Assembly.bind_cases hx
  rw [← History.boundAt?_eq_none_iff, ← h.bound l, hl]
  exact ho

namespace Records

variable {past : History A} {l l' : Listing A} {x : Directive A}

/-- One directive is noted as it is performed. -/
theorem perform (h : Records past l) (hx : l.perform x = .ok l') : Records (past ++ [x]) l' := by
  obtain ⟨g, hg, hx⟩ := bind_eq_ok hx
  obtain rfl := Except.ok.inj hx
  refine ⟨?_, ?_, ?_, ?_, h.tracks.perform hg⟩
  · rw [History.names_concat, ← h.names]
    cases x <;> simp [Listing.note, Directive.name?]
  · rw [History.marks_concat, ← h.marks, ← h.tracks.size_eq]
    cases x <;> simp [Listing.note, Directive.bound?]
  · rw [History.labelNames_concat, ← h.labels]
    exact Assembly.labelNames_perform hg
  · rw [History.bindings_concat]
    cases x with
    | bind label =>
      have hnew := h.tracks.not_mem_of_perform_bind hg
      rw [← History.mem_bindings_iff] at hnew
      refine List.nodup_append.mpr ⟨h.once, List.nodup_singleton _, fun l₁ h₁ l₂ h₂ e => hnew ?_⟩
      rwa [← List.mem_singleton.mp h₂, ← e]
    | _ => simpa [Directive.bound?] using h.once

/-- What one directive keeps, a run keeps. -/
theorem run (h : Records past l) {code : List (Directive A)} (hc : l.run code = .ok l') :
    Records (past ++ code) l' := by
  induction code generalizing past l with
  | nil =>
    obtain rfl := Except.ok.inj hc
    rwa [List.append_nil]
  | cons x code ih =>
    obtain ⟨l₁, hx, hc⟩ := bind_eq_ok hc
    rw [List.append_cons]
    exact ih (h.perform hx) hc

theorem start : Records ([] : History A) {} :=
  ⟨rfl, rfl, rfl, .nil, .start⟩

end Records

/-! ## Rows -/

/-- A line of a dump. -/
inductive Row where
  | label (l : Label) (name : String)
  | instruction (offset : Nat) (name : String)
  deriving DecidableEq, Repr

namespace Row

def text : Row → String
  | label l name => s!"{name}@{l.index}:\n"
  | instruction offset name => s!"{offset}: {name}\n"

/-- The label of a line, with the name it shows. -/
def label? : Row → Option (Label × String)
  | label l name => some (l, name)
  | instruction _ _ => none

/-- The offset of an instruction's line, with the name it shows. -/
def instruction? : Row → Option (Nat × String)
  | label _ _ => none
  | instruction offset name => some (offset, name)

end Row

/-- The line of a directive that `n` instructions were emitted before, given
what labels and instructions are called. -/
def Directive.row? (label : Label → String) (name : Nat → String) (n : Nat) :
    Directive A → Option Row
  | bind l => some (.label l (label l))
  | define _ => none
  | link => none
  | _ => some (.instruction n (name n))

namespace History

/-- A line for each binding and each instruction, in the order in which they
came about. -/
def rows (label : Label → String) (name : Nat → String) (past : History A) : List Row :=
  past.placed.filterMap fun (n, x) => x.row? label name n

variable (label : Label → String) (name : Nat → String)

theorem rows_concat (past : History A) (x : Directive A) :
    rows label name (past ++ [x]) =
      past.rows label name ++ (x.row? label name past.emitted.length).toList := by
  rw [rows, placed_concat, filterMap_concat, rows]

theorem instruction?_row? (n : Nat) (x : Directive A) :
    (x.row? label name n).toList.filterMap (·.instruction?) =
      x.slot?.toList.map fun _ => (n, name n) := by
  cases x <;> rfl

theorem label?_row? (n : Nat) (x : Directive A) :
    (x.row? label name n).toList.filterMap (·.label?) =
      x.bound?.toList.map fun l => (l, label l) := by
  cases x <;> rfl

/-- There is one line for each instruction, in the order of offsets. -/
theorem instructions_rows (past : History A) :
    (past.rows label name).filterMap (·.instruction?) =
      (List.range past.emitted.length).map fun n => (n, name n) := by
  induction past using List.reverseRecOn with
  | nil => rfl
  | append_singleton past x ih =>
    rw [rows_concat, List.filterMap_append, ih, instruction?_row?, emitted_concat,
      List.length_append]
    cases x.slot? <;> simp [List.range_succ]

/-- There is one line for each binding, in the order of binding. -/
theorem labels_rows (past : History A) :
    (past.rows label name).filterMap (·.label?) = past.bindings.map fun l => (l, label l) := by
  induction past using List.reverseRecOn with
  | nil => rfl
  | append_singleton past x ih =>
    rw [rows_concat, List.filterMap_append, ih, label?_row?, bindings_concat, List.map_append]

/-- A label's line stands behind the lines of as many instructions as the
offset says that it was bound to. -/
theorem placed_rows {past : History A} (h : past.bindings.Nodup) {i : Nat} {l : Label}
    {shown : String} (hi : (past.rows label name)[i]? = some (.label l shown)) :
    past.boundAt? l =
      some (((past.rows label name).take i).filterMap (·.instruction?)).length := by
  induction past using List.reverseRecOn with
  | nil => cases hi
  | append_singleton past x ih =>
    rw [bindings_concat, List.nodup_append] at h
    rw [rows_concat] at hi ⊢
    by_cases hlt : i < (rows label name past).length
    · rw [List.getElem?_append_left hlt] at hi
      rw [List.take_append_of_le_length (Nat.le_of_lt hlt)]
      exact boundAt?_mono x (ih h.1 hi)
    · -- The line is the last one: that of the directive itself.
      rw [List.getElem?_append_right (Nat.le_of_not_lt hlt)] at hi
      have hrow : Row.label l shown ∈ x.row? label name (emitted past).length :=
        Option.mem_toList.mp (List.mem_of_getElem? hi)
      cases x with
      | bind l' =>
        obtain ⟨rfl, rfl⟩ := Row.label.inj (Option.some.inj hrow)
        have hlast := (List.getElem?_eq_some_iff.mp hi).1
        have hfree : boundAt? past l' = none := by
          rw [boundAt?_eq_none_iff, ← mem_bindings_iff]
          exact fun hl => h.2.2 _ hl _ (List.mem_singleton_self _) rfl
        have hend : i = (rows label name past).length := by
          rw [Directive.row?, Option.toList_some, List.length_singleton] at hlast
          omega
        rw [hend, List.take_left, instructions_rows, boundAt?_concat, hfree]
        simp [Directive.binds]
      | _ => cases hrow

/-! ### The dump -/

/-- The lines of the labels bound to an offset. -/
def labelLines (past : History A) (offset : Nat) : String :=
  String.join (past.marks.filterMap fun (bound, l) =>
    if bound = offset then some (Row.label l (label l)).text else none)

theorem labelLines_concat (past : History A) (x : Directive A) (offset : Nat) :
    labelLines label (past ++ [x]) offset = past.labelLines label offset ++
      if past.emitted.length = offset then
        String.join (x.bound?.toList.map fun l => (Row.label l (label l)).text)
      else "" := by
  rw [labelLines, marks_concat, List.filterMap_append, String.join_append, labelLines]
  congr 1
  cases x.bound? with
  | none => simp
  | some l => by_cases h : past.emitted.length = offset <;> simp [h]

/-- No label is bound behind the instructions. -/
theorem labelLines_behind (past : History A) {offset : Nat} (h : past.emitted.length < offset) :
    past.labelLines label offset = "" := by
  have hnone : past.marks.filterMap (fun (bound, l) =>
      if bound = offset then some (Row.label l (label l)).text else none) = [] := by
    refine List.filterMap_eq_nil_iff.mpr fun m hm => if_neg ?_
    have := marks_le hm
    omega
  rw [labelLines, hnone, String.join_nil]

/-- The lines up to an offset: each instruction with the labels before it. -/
def linesTo (past : History A) (offset : Nat) : String :=
  String.join ((List.range offset).map fun n =>
    past.labelLines label n ++ (Row.instruction n (name n)).text)

theorem linesTo_concat (past : History A) (x : Directive A) :
    linesTo label name (past ++ [x]) past.emitted.length =
      past.linesTo label name past.emitted.length := by
  rw [linesTo, linesTo]
  congr 1
  refine List.map_congr_left fun n hn => ?_
  have hlt := List.mem_range.mp hn
  rw [labelLines_concat, if_neg (by omega), String.append_empty]

theorem linesTo_succ (past : History A) (offset : Nat) :
    past.linesTo label name (offset + 1) = past.linesTo label name offset ++
      (past.labelLines label offset ++ (Row.instruction offset (name offset)).text) := by
  rw [linesTo, List.range_succ, List.map_append, String.join_append, linesTo]
  simp

/-- Lines sorted by offset are lines in the order of the history. -/
theorem linesTo_eq_rows (past : History A) :
    past.linesTo label name past.emitted.length ++ past.labelLines label past.emitted.length =
      String.join ((past.rows label name).map Row.text) := by
  induction past using List.reverseRecOn with
  | nil => rfl
  | append_singleton past x ih =>
    rw [rows_concat, List.map_append, String.join_append, ← ih, emitted_concat, List.length_append]
    cases x with
    | bind l =>
      simp only [Directive.slot?, Option.toList_none, List.length_nil, Nat.add_zero]
      rw [linesTo_concat, labelLines_concat, if_pos rfl]
      simp [Directive.row?, Directive.bound?, String.append_assoc]
    | define _ | link =>
      simp only [Directive.slot?, Option.toList_none, List.length_nil, Nat.add_zero]
      rw [linesTo_concat, labelLines_concat, if_pos rfl]
      simp [Directive.row?, Directive.bound?]
    | plain _ | control _ _ | defer _ =>
      simp only [Directive.slot?, Option.toList_some, List.length_singleton]
      rw [linesTo_succ, linesTo_concat, labelLines_concat, if_pos rfl, labelLines_concat,
        labelLines_behind label past (Nat.lt_succ_self _)]
      simp [Directive.row?, Directive.bound?, String.append_assoc]

end History

/-- The name shown for the instruction at an offset: the one noted, or else
that of the operation, once it is linked. -/
def Listing.shown (l : Listing A) (offset : Nat) : String :=
  l.names[offset]?.join.getD
    ((l.assembly.slots[offset]?.bind (·.ready?)).elim "<unlinked>" (·.mnemonic))

/-- The name shown for a label. -/
def Listing.labelShown (l : Listing A) (label : Label) : String :=
  l.assembly.labels[label.index]?.elim "" (·.name)

theorem Listing.instructionRow_eq (l : Listing A) {n : Nat} {slot : Slot A}
    (h : l.assembly.slots[n]? = some slot) :
    l.instructionRow n slot = (Row.instruction n (l.shown n)).text := by
  cases hname : l.names[n]?.join with
  | none =>
    simp only [instructionRow, hname, shown, h, Option.getD_none, Option.bind_some, Row.text]
  | some name => simp only [instructionRow, hname, shown, Option.getD_some, Row.text]

/-- The dump tells the history. -/
theorem Records.dump_eq_rows {past : History A} {l : Listing A} (h : Records past l) :
    l.dump = String.join ((past.rows l.labelShown l.shown).map Row.text) := by
  have hmarks (offset : Nat) : l.marksAt offset = past.labelLines l.labelShown offset := by
    rw [Listing.marksAt, h.marks]
    rfl
  rw [← History.linesTo_eq_rows, ← h.tracks.size_eq, Listing.dump, hmarks, History.linesTo]
  congr 2
  refine List.ext_getElem (by simp [Assembly.size]) fun n hn _ => ?_
  have hlt : n < l.assembly.slots.size := by simpa using hn
  simp only [List.getElem_map, List.getElem_zipIdx, List.getElem_range, hmarks, Nat.zero_add]
  rw [l.instructionRow_eq (by simp [hlt])]

/-- The rows of a dump are faithful to the history of a listing: one for each
instruction in the order of offsets, and one for each bound label in the order
of binding, which stands where the label was bound. -/
structure Depicts (past : History A) (l : Listing A) (rows : List Row) : Prop where
  instructions : rows.filterMap (·.instruction?) =
    (List.range l.assembly.size).map fun n => (n, l.shown n)
  labels : (rows.filterMap (·.label?)).map (fun (label, name) => (label, some name)) =
    past.bindings.map fun label => (label, past.labelNames[label.index]?)
  placed : ∀ i label name, rows[i]? = some (.label label name) →
    past.boundAt? label = some ((rows.take i).filterMap (·.instruction?)).length

/-- A bound label is there. -/
theorem Records.entry_of_bound {past : History A} {l : Listing A} (h : Records past l)
    {label : Label} (hl : label ∈ past.bindings) :
    ∃ e, l.assembly.labels[label.index]? = some e := by
  have hbound : past.boundAt? label ≠ none := fun e =>
    History.boundAt?_eq_none_iff.mp e (History.mem_bindings_iff.mp hl)
  rw [← h.tracks.bound] at hbound
  cases he : l.assembly.labels[label.index]? with
  | none =>
    rw [he] at hbound
    exact absurd rfl hbound
  | some e => exact ⟨e, rfl⟩

theorem Records.depicts {past : History A} {l : Listing A} (h : Records past l) :
    Depicts past l (past.rows l.labelShown l.shown) where
  instructions := by rw [History.instructions_rows, h.tracks.size_eq]
  labels := by
    rw [History.labels_rows, List.map_map]
    refine List.map_congr_left fun label hl => ?_
    obtain ⟨e, he⟩ := h.entry_of_bound hl
    simp [← h.labels, Listing.labelShown, he]
  placed i label name := History.placed_rows _ _ h.once

/-- A listing is an assembly that also keeps a faithful dump. It answers every
directive as an assembly does, with the same labels, up to the same fault if
there is one, and it amounts to the same program. At any time it has a name
for each instruction emitted and an entry for each label it shows. Its dump
has a line for each instruction, in order, and one for each bound label, once
and in the order of binding, behind as many instructions as the label's offset
says. -/
theorem listing_mirrors_assembly (past : History A) (id : String) :
    Listing.answers {} past = Assembly.answers {} past ∧
    (Listing.run {} past).map (·.assembly.toProgram id) =
      (Assembly.run {} past).map (·.toProgram id) ∧
    ∀ l, Listing.run {} past = .ok l →
      l.names.toList = past.names ∧ l.names.size = past.emitted.length ∧
      l.assembly.size = past.emitted.length ∧
      (∀ m ∈ l.marks, m.2.index < l.assembly.labels.size) ∧ past.bindings.Nodup ∧
      ∃ rows, l.dump = String.join (rows.map Row.text) ∧ Depicts past l rows := by
  refine ⟨Listing.answers_eq {} past, ?_, fun l hl => ?_⟩
  · have hrun := Listing.run_map_assembly ({} : Listing A) past
    rw [← hrun]
    cases Listing.run {} past <;> rfl
  · have hr : Records past l := Records.start.run hl
    have hc : l.Complete := Listing.Complete.run ⟨rfl, by simp⟩ hl
    exact ⟨hr.names, hc.names.trans hr.tracks.size_eq, hr.tracks.size_eq, hc.marks, hr.once,
      _, hr.dump_eq_rows, hr.depicts⟩

/-- Two labels on one offset, one behind the last instruction, a link halfway
and an instruction without a name that waits. -/
def errata : History String :=
  [.define "top", .define "body", .define "end", .bind ⟨1⟩, .bind ⟨0⟩, .plain "a",
    .defer (.jump .branch "back" ⟨0⟩), .link, .control none .ret,
    .defer ⟨none, [⟨2⟩], fun offsets => .plain (toString offsets)⟩, .bind ⟨2⟩]

theorem errata_listed : ∃ l, Listing.run {} errata = .ok l ∧
    l.dump = "body@1:\ntop@0:\n0: plain\n1: back\n2: return\n3: <unlinked>\nend@2:\n" ∧
    l.names.toList = errata.names ∧ l.names.size = errata.emitted.length ∧
    l.assembly.size = errata.emitted.length ∧
    (∀ m ∈ l.marks, m.2.index < l.assembly.labels.size) ∧ errata.bindings.Nodup ∧
    ∃ rows, l.dump = String.join (rows.map Row.text) ∧ Depicts errata l rows :=
  ⟨_, rfl, by decide, (listing_mirrors_assembly errata "errata").2.2 _ rfl⟩

end CommandScript
