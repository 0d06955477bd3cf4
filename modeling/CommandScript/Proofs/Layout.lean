import CommandScript.Lowering

/-!
# The layout of a script

Where each instruction of a compiled script stands, said without labels. A
statement is written straight out (`Node.layout`), given the offset it starts
at, where `break` leads, and the entries of the subroutines. A jump over a
body has to know how long it is before it is written: `Node.extent` counts
its instructions, and `length_layout` shows the count to be right.

`Tree.layout` puts the main block at offset 0, and behind it the subroutines,
at the offsets `Tree.entry` has given to the calls.
-/

namespace CommandScript

variable {A : Type}

namespace Node

mutual

/-- The number of instructions of a statement, given which subroutines there
are and whether an iteration encloses it. -/
def extent (known : String → Bool) (enclosed : Bool) (n : Node A) : Nat :=
  match n with
  | block children => extentAll known enclosed children
  | command _ => 1
  | iterate _ none body _ => extentAll known true body
  | iterate .run (some _) body _ => extentAll known true body + 4
  | iterate .loop (some _) body _ => extentAll known true body + 7
  | define _ _ _ => 0
  | call name _ => if known name then 1 else 0
  | subroutineReturn => 1
  | leave _ => if enclosed then 1 else 0
  | exit => 1

def extentAll (known : String → Bool) (enclosed : Bool) (ns : List (Node A)) : Nat :=
  match ns with
  | [] => 0
  | n :: ns => extent known enclosed n + extentAll known enclosed ns

end

mutual

/-- The instructions of a statement that starts at offset `b`, with `break`
leading to `out` and the subroutines standing where `entry` says. -/
def layout (entry : String → Option Nat) (b : Nat) (out : Option Nat) (n : Node A) :
    List (Instruction A) :=
  match n with
  | block children => layoutAll entry b out children
  | command action => [.plain action]
  | iterate _ none body _ =>
    let n := extentAll (fun name => (entry name).isSome) true body
    layoutAll entry b (some (b + n)) body
  | iterate .run (some selector) body _ =>
    let n := extentAll (fun name => (entry name).isSome) true body
    [.pushSourceAndMatch selector, .popSourceOrBranch (.offset (b + 3 + n))] ++
      layoutAll entry (b + 2) (some (b + 3 + n)) body ++
      [.branch (.offset (b + 1)), .popFrame]
  | iterate .loop (some selector) body _ =>
    let n := extentAll (fun name => (entry name).isSome) true body
    [.pushAddress (.offset (b + 7 + n)), .pushSourceAndMatch selector,
        .popSourceOrBranch (.offset (b + 5 + n))] ++
      layoutAll entry (b + 3) (some (b + 5 + n)) body ++
      [.call (.offset (b + 1)), .branch (.offset (b + 2)), .popFrame, .ret]
  | define _ _ _ => []
  | call name _ => (entry name).elim [] fun e => [.subroutineCall (.offset e)]
  | subroutineReturn => [.subroutineReturn]
  | leave _ => out.elim [] fun e => [.branch (.offset e)]
  | exit => [.exit]

def layoutAll (entry : String → Option Nat) (b : Nat) (out : Option Nat) (ns : List (Node A)) :
    List (Instruction A) :=
  match ns with
  | [] => []
  | n :: ns =>
    let code := layout entry b out n
    code ++ layoutAll entry (b + code.length) out ns

end

mutual

/-- The code of a statement is as long as was counted, wherever it stands and
wherever its jumps lead. -/
theorem length_layout (entry : String → Option Nat) (b : Nat) (out : Option Nat) (n : Node A) :
    (n.layout entry b out).length = n.extent (fun name => (entry name).isSome) out.isSome := by
  cases n with
  | block children => simp only [layout, extent, length_layoutAll]
  | command action => rfl
  | iterate kind selector body line =>
    cases selector with
    | none => simp only [layout, extent, length_layoutAll, Option.isSome_some]
    | some selector =>
      cases kind <;>
        simp only [layout, extent, List.length_append, List.length_cons, List.length_nil,
          length_layoutAll, Option.isSome_some] <;>
        omega
  | define name line body => rfl
  | call name line => cases h : entry name <;> simp [layout, extent, h]
  | subroutineReturn => rfl
  | leave line => cases out <;> simp [layout, extent]
  | exit => rfl

theorem length_layoutAll (entry : String → Option Nat) (b : Nat) (out : Option Nat)
    (ns : List (Node A)) :
    (layoutAll entry b out ns).length =
      extentAll (fun name => (entry name).isSome) out.isSome ns := by
  cases ns with
  | nil => rfl
  | cons n ns =>
    simp only [layoutAll, extentAll, List.length_append, length_layoutAll]
    rw [length_layout]

end

end Node

namespace Subroutine

/-- The code of a subroutine that starts at offset `b`. -/
def layout (entry : String → Option Nat) (b : Nat) (s : Subroutine A) : List (Instruction A) :=
  Node.layoutAll entry b none s.body ++ [.subroutineReturn]

/-- What there is for each of some subroutines, one behind the other and the
first at offset `b`. -/
def inRow {α : Type} (part : Nat → Subroutine A → List α) (b : Nat) :
    List (Subroutine A) → List α
  | [] => []
  | s :: rest => part b s ++ inRow part (b + (part b s).length) rest

/-- The offsets at which subroutines start if the first starts at `b`. -/
def entries (known : String → Bool) (b : Nat) : List (Subroutine A) → List (String × Nat)
  | [] => []
  | s :: rest => (s.name, b) :: entries known (b + (Node.extentAll known false s.body + 1)) rest

end Subroutine

namespace Tree

/-- Whether a script defines a subroutine of a name. -/
def known (t : Tree A) (name : String) : Bool := t.subroutines.any (·.name == name)

/-- The number of instructions before the first subroutine. -/
def mainExtent (t : Tree A) : Nat :=
  Node.extentAll t.known false t.main + if t.subroutines.isEmpty then 0 else 1

/-- The offset of the subroutine of a name: where its first definition stands. -/
def entry (t : Tree A) (name : String) : Option Nat :=
  (Subroutine.entries t.known t.mainExtent (firsts [] t.subroutines)).lookup name

/-- The code before the first subroutine. -/
def mainLayout (t : Tree A) : List (Instruction A) :=
  Node.layoutAll t.entry 0 none t.main ++ if t.subroutines.isEmpty then [] else [.exit]

/-- The code of a script. -/
def layout (t : Tree A) : List (Instruction A) :=
  t.mainLayout ++
    Subroutine.inRow (Subroutine.layout t.entry) t.mainExtent (firsts [] t.subroutines)

end Tree

/-! ## Names and entries -/

theorem isSome_lookup {β : Type} (entries : List (String × β)) (name : String) :
    (entries.lookup name).isSome = (entries.map (·.1)).contains name := by
  induction entries with
  | nil => rfl
  | cons e entries ih =>
    rw [List.lookup_cons, List.map_cons, List.contains_cons, ← ih]
    cases name == e.1 <;> rfl

theorem Subroutine.names_entries (known : String → Bool) (b : Nat) (fs : List (Subroutine A)) :
    (entries known b fs).map (·.1) = fs.map (·.name) := by
  induction fs generalizing b with
  | nil => rfl
  | cons s fs ih => rw [entries, List.map_cons, List.map_cons, ih]

theorem Subroutine.length_entries (known : String → Bool) (b : Nat) (fs : List (Subroutine A)) :
    (entries known b fs).length = fs.length := by
  have h := congrArg List.length (names_entries known b fs)
  rwa [List.length_map, List.length_map] at h

namespace Tree

theorem mem_names_firsts (subs : List (Subroutine A)) (seen : List String) (name : String) :
    name ∈ (firsts seen subs).map (·.name) ↔ name ∉ seen ∧ name ∈ subs.map (·.name) := by
  induction subs generalizing seen with
  | nil => simp [firsts]
  | cons s subs ih =>
    rw [firsts, List.map_cons, List.mem_cons]
    split
    · rename_i h
      rw [List.contains_iff_mem] at h
      rw [ih]
      exact and_congr_right fun hn => (or_iff_right fun e : name = s.name => hn (e ▸ h)).symm
    · rename_i h
      rw [List.contains_iff_mem] at h
      rw [List.map_cons, List.mem_cons, ih, List.mem_cons]
      by_cases e : name = s.name
      · simp [e, h]
      · simp [e]

theorem nodup_names_firsts (seen : List String) (subs : List (Subroutine A)) :
    ((firsts seen subs).map (·.name)).Nodup := by
  induction subs generalizing seen with
  | nil => simp [firsts]
  | cons s subs ih =>
    rw [firsts]
    split
    · exact ih seen
    · refine List.nodup_cons.mpr ⟨fun hm => ?_, ih (s.name :: seen)⟩
      exact ((mem_names_firsts _ _ _).mp hm).1 List.mem_cons_self

/-- The definition of a name that counts is among the first ones. -/
theorem mem_firsts_of_find? {subs : List (Subroutine A)} {seen : List String} {name : String}
    {s : Subroutine A} (hn : name ∉ seen) (h : subs.find? (·.name == name) = some s) :
    s ∈ firsts seen subs := by
  induction subs generalizing seen with
  | nil => simp at h
  | cons f subs ih =>
    rw [firsts]
    by_cases e : f.name = name
    · rw [List.find?_cons_of_pos (by simpa using e)] at h
      obtain rfl := Option.some.inj h
      rw [if_neg (by rwa [List.contains_iff_mem, e])]
      exact List.mem_cons_self
    · rw [List.find?_cons_of_neg (by simpa using e)] at h
      split
      · exact ih hn h
      · refine List.mem_cons_of_mem _ (ih (fun hm => ?_) h)
        exact (List.mem_cons.mp hm).elim (fun e' => e e'.symm) hn

theorem isSome_entry (t : Tree A) (name : String) : (t.entry name).isSome = t.known name := by
  rw [entry, isSome_lookup, Subroutine.names_entries, Bool.eq_iff_iff, List.contains_iff_mem,
    mem_names_firsts, known]
  simp

theorem known_eq (t : Tree A) : (fun name => (t.entry name).isSome) = t.known :=
  funext t.isSome_entry

end Tree

/-! ## Where code stands -/

section CodeAt

variable {α : Type}

/-- `part` stands at offset `b` of `code`. -/
def CodeAt (code : List α) (b : Nat) (part : List α) : Prop :=
  part <+: code.drop b

theorem codeAt_append {code xs ys : List α} {b : Nat} :
    CodeAt code b (xs ++ ys) ↔ CodeAt code b xs ∧ CodeAt code (b + xs.length) ys := by
  unfold CodeAt
  constructor
  · rintro ⟨back, h⟩
    refine ⟨⟨ys ++ back, by rw [← h, List.append_assoc]⟩, back, ?_⟩
    rw [← List.drop_drop, ← h, List.append_assoc, List.drop_left]
  · rintro ⟨⟨back, h⟩, back', h'⟩
    rw [← List.drop_drop, ← h, List.drop_left] at h'
    exact ⟨back', by rw [← h, ← h', List.append_assoc]⟩

theorem codeAt_cons {code is : List α} {i : α} {b : Nat} :
    CodeAt code b (i :: is) ↔ code[b]? = some i ∧ CodeAt code (b + 1) is := by
  rw [← List.singleton_append, codeAt_append, List.length_singleton]
  refine and_congr_left' ?_
  rw [CodeAt, List.singleton_prefix_iff_head?_eq_some, List.head?_drop]

theorem codeAt_self (front part back : List α) : CodeAt (front ++ part ++ back) front.length part :=
  ⟨back, by rw [List.append_assoc, List.drop_left]⟩

end CodeAt

namespace Subroutine

theorem length_layout (entry : String → Option Nat) (b : Nat) (s : Subroutine A) :
    (s.layout entry b).length =
      Node.extentAll (fun name => (entry name).isSome) false s.body + 1 := by
  rw [layout, List.length_append, Node.length_layoutAll]
  rfl

/-- The part of a subroutine stands where its entry says. -/
theorem codeAt_inRow {α : Type} {part : Nat → Subroutine A → List α} {known : String → Bool}
    (hlen : ∀ b s, (part b s).length = Node.extentAll known false s.body + 1) (front : List α)
    {fs : List (Subroutine A)} (hn : (fs.map (·.name)).Nodup) {s : Subroutine A} (hs : s ∈ fs) :
    ∃ e, (entries known front.length fs).lookup s.name = some e ∧
      CodeAt (front ++ inRow part front.length fs) e (part e s) := by
  induction fs generalizing front with
  | nil => simp at hs
  | cons f fs ih =>
    rw [List.map_cons, List.nodup_cons] at hn
    rw [entries, inRow, ← List.append_assoc]
    rcases List.mem_cons.mp hs with rfl | hs
    · exact ⟨front.length, List.lookup_cons_self, codeAt_self _ _ _⟩
    · have hne : s.name ≠ f.name := fun e => hn.1 (e ▸ List.mem_map_of_mem hs)
      obtain ⟨e, he, hc⟩ := ih (front ++ part front.length f) hn.2 hs
      rw [List.length_append] at he hc
      refine ⟨e, ?_, hc⟩
      rw [List.lookup_cons, beq_false_of_ne hne, ← hlen front.length]
      exact he

end Subroutine

namespace Tree

theorem length_mainLayout (t : Tree A) : t.mainLayout.length = t.mainExtent := by
  rw [mainLayout, List.length_append, Node.length_layoutAll, known_eq, mainExtent]
  cases t.subroutines.isEmpty <;> rfl

/-- The main block stands at the front of a script's code. -/
theorem codeAt_main (t : Tree A) : CodeAt t.layout 0 t.mainLayout :=
  codeAt_self [] _ _

/-- The definition of a name that counts stands at the entry of that name. -/
theorem codeAt_entry {t : Tree A} {name : String} {s : Subroutine A}
    (h : t.subroutines.find? (·.name == name) = some s) :
    ∃ e, t.entry name = some e ∧ CodeAt t.layout e (s.layout t.entry e) := by
  have hname : s.name = name := by simpa using List.find?_some h
  have hs := Subroutine.codeAt_inRow (Subroutine.length_layout t.entry) t.mainLayout
    (nodup_names_firsts [] t.subroutines) (mem_firsts_of_find? List.not_mem_nil h)
  rw [t.length_mainLayout, t.known_eq, hname] at hs
  exact hs

end Tree

end CommandScript
