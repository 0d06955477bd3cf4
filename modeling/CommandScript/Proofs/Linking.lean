import CommandScript.Proofs.Emission
import CommandScript.Proofs.Traversal

/-!
# Linking gives the layout

The directives of a lowered script, performed and linked, give the code that
`Tree.layout` writes straight out. The labels of the subroutines are defined
first, all unbound; those of the main block are bound by the end of it; each
subroutine binds its own label and those of its body. In the end every label
is bound, so that linking finds an offset for each.
-/

namespace CommandScript

variable {A : Type}

/-! ## Subroutines -/

/-- The label of a subroutine: bound where it starts, or not bound yet. -/
def subroutineLabel (name : String) (offset : Option Nat) : LabelEntry :=
  ⟨"subroutine." ++ name, offset⟩

/-- The scope's entries for subroutines whose labels are numbered from `k`. -/
def declarations (k : Nat) (fs : List (Subroutine A)) : List (String × Label) :=
  (fs.zipIdx k).map fun (s, i) => (s.name, ⟨i⟩)

theorem declarations_cons (k : Nat) (s : Subroutine A) (fs : List (Subroutine A)) :
    declarations k (s :: fs) = (s.name, ⟨k⟩) :: declarations (k + 1) fs := rfl

theorem lookup_declarations {fs : List (Subroutine A)} (hn : (fs.map (·.name)).Nodup) {j : Nat}
    {s : Subroutine A} (h : fs[j]? = some s) (k : Nat) :
    (declarations k fs).lookup s.name = some ⟨k + j⟩ := by
  induction fs generalizing j k with
  | nil => simp at h
  | cons f fs ih =>
    rw [List.map_cons, List.nodup_cons] at hn
    rw [declarations_cons]
    cases j with
    | zero =>
      obtain rfl : f = s := by simpa using h
      exact List.lookup_cons_self
    | succ j =>
      rw [List.getElem?_cons_succ] at h
      have hne : s.name ≠ f.name := by
        rintro e
        exact hn.1 (e ▸ List.mem_map_of_mem (List.mem_of_getElem? h))
      rw [List.lookup_cons, beq_false_of_ne hne, ih hn.2 h, Nat.add_right_comm, Nat.add_assoc]

namespace Tree

/-- A name without an entry gets one. -/
theorem scope_declare {d : Draft A} {name : String} (label : String)
    (h : d.scope.find? name = none) :
    (d.declare name label).scope =
      { d.scope with subroutines := d.scope.subroutines ++ [(name, d.fresh)] } := by
  have h' : (d.define label).scope.find? name = none := h
  rw [Draft.declare, Scope.declare?, h']
  rfl

/-- Declaring subroutines adds a label and an entry of the scope for each
first definition of a name. -/
theorem declareAll_gives (subs : List (Subroutine A)) (seen : List (String × Nat)) {d : Draft A}
    {ls : List LabelEntry} {ss : List (Slot A)} (h : d.Gives ls ss)
    (hseen : ∀ name, (d.scope.find? name).isSome = (seen.lookup name).isSome) :
    (declareAll seen subs d).Gives
        (ls ++ (firsts (seen.map (·.1)) subs).map fun s => subroutineLabel s.name none) ss ∧
      (declareAll seen subs d).scope =
        { d.scope with
          subroutines := d.scope.subroutines ++
            declarations ls.length (firsts (seen.map (·.1)) subs) } := by
  induction subs generalizing seen d ls with
  | nil => simpa [declareAll, firsts, declarations] using h
  | cons s subs ih =>
    rw [declareAll, firsts, ← isSome_lookup]
    cases hl : seen.lookup s.name with
    | some first => exact ih seen h hseen
    | none =>
      have hf : d.scope.find? s.name = none := by
        rw [← Option.not_isSome_iff_eq_none, hseen, hl]
        exact Bool.false_ne_true
      have hs := scope_declare ("subroutine." ++ s.name) hf
      have hd : (d.declare s.name ("subroutine." ++ s.name)).Gives
          (ls ++ [subroutineLabel s.name none]) ss := h.define _
      have hseen' (name : String) :
          ((d.declare s.name ("subroutine." ++ s.name)).scope.find? name).isSome =
            (((s.name, s.line) :: seen).lookup name).isSome := by
        rw [Scope.find?, hs, List.lookup_append, Option.isSome_or, ← Scope.find?, hseen,
          List.lookup_cons, List.lookup_cons, List.lookup_nil]
        cases name == s.name <;> simp
      obtain ⟨g, hsc⟩ := ih ((s.name, s.line) :: seen) hd hseen'
      rw [hs] at hsc
      refine ⟨g.cast ?_ rfl, hsc.trans ?_⟩
      · simp
      · simp [h.fresh, declarations_cons]

end Tree

theorem exists_agrees {ls : List LabelEntry} (k : Nat) (h : ∀ e ∈ ls, ∃ n, e.offset = some n) :
    ∃ ρ, Agrees ρ k ls := by
  refine ⟨fun l => ((ls[l.index - k]?).bind (·.offset)).getD 0, fun i e he => ?_⟩
  obtain ⟨n, hn⟩ := h e (List.mem_of_getElem? he)
  show e.offset = some (((ls[k + i - k]?).bind (·.offset)).getD 0)
  rw [Nat.add_sub_cancel_left, he, hn, Option.bind_some, hn]
  rfl

/-- Lowering one subroutine binds its label and adds its body and a return. -/
theorem Subroutine.lower_gives {s : Subroutine A} {d : Draft A} {ls ls' : List LabelEntry}
    {ss : List (Slot A)} (h : d.Gives (ls ++ subroutineLabel s.name none :: ls') ss)
    (hs : d.scope.find? s.name = some ⟨ls.length⟩) (hout : d.scope.breakTarget = none) :
    ∃ d' fresh more, s.lower d = .ok d' ∧ d'.scope = d.scope ∧
      d'.Gives (ls ++ subroutineLabel s.name (some ss.length) :: (ls' ++ fresh)) (ss ++ more) ∧
      more.length = Node.extentAll (fun name => (d.scope.find? name).isSome) false s.body + 1 ∧
      (∀ e ∈ fresh, ∃ n, e.offset = some n) ∧
      (∀ x, .pending x ∈ more → ∃ l, x.targets = [l] ∧
        (l.index < ls.length + 1 + ls'.length + fresh.length ∨ d.scope.Mentions l)) ∧
      ∀ ρ, Agrees ρ (ls.length + 1 + ls'.length) fresh →
        more.map (·.read ρ) = s.layout (d.scope.places ρ) ss.length := by
  have e := Node.lowerAll_emits s.body (d.bind ⟨ls.length⟩)
  have hsc : (d.bind ⟨ls.length⟩).scope = d.scope := rfl
  rw [hsc, hout] at e
  obtain ⟨fresh, more, a, r⟩ := e.adds _ _ (h.bind rfl)
  have hl : (ls ++ subroutineLabel s.name (some ss.length) :: ls').length =
      ls.length + 1 + ls'.length := by
    rw [List.length_append, List.length_cons]; omega
  have hb : ∀ e ∈ fresh, ∃ n, e.offset = some n := fun e he =>
    let ⟨n, hn, _⟩ := a.bound e he
    ⟨n, hn⟩
  refine ⟨(Node.lowerAll s.body (d.bind ⟨ls.length⟩)).control "subroutine::return"
    .subroutineReturn, fresh, more ++ [.ready .subroutineReturn], by rw [Subroutine.lower, hs],
    e.scope, ?_, ?_, hb, ?_, ?_⟩
  · exact (a.gives.control _ _).cast (by simp [subroutineLabel]) (by simp)
  · obtain ⟨ρ, hρ⟩ := exists_agrees (ls.length + 1 + ls'.length) hb
    have code := r ρ (by rw [← hl] at hρ; exact hρ)
    have hlen := congrArg List.length code
    rw [List.length_map, Node.length_layoutAll] at hlen
    simp only [Scope.isSome_places] at hlen
    rw [List.length_append, hlen]
    rfl
  · intro x hx
    obtain ⟨l, hx, h⟩ := a.refs x (by simpa using hx)
    exact ⟨l, hx, h.imp_left fun h => hl ▸ h.2⟩
  · intro ρ hρ
    rw [List.map_append, r ρ (by rw [← hl] at hρ; exact hρ)]
    rfl

namespace Tree

/-- Lowering subroutines in a row binds the label of each where
`Subroutine.entries` says. -/
theorem lowerEach_gives (rest : List (Subroutine A)) {d : Draft A} {done extra : List LabelEntry}
    {ss : List (Slot A)}
    (h : d.Gives (done ++ (rest.map (fun s => subroutineLabel s.name none) ++ extra)) ss)
    (hfind : ∀ j s, rest[j]? = some s → d.scope.find? s.name = some ⟨done.length + j⟩)
    (hout : d.scope.breakTarget = none) :
    ∃ d' fresh more, rest.foldlM (fun d s => s.lower d) d = .ok d' ∧
      d'.Gives (done ++ ((Subroutine.entries (fun name => (d.scope.find? name).isSome) ss.length
          rest).map (fun e => subroutineLabel e.1 (some e.2)) ++ (extra ++ fresh))) (ss ++ more) ∧
      (∀ e ∈ fresh, ∃ n, e.offset = some n) ∧
      (∀ x, .pending x ∈ more → ∃ l, x.targets = [l] ∧
        (l.index < done.length + rest.length + extra.length + fresh.length ∨
          d.scope.Mentions l)) ∧
      ∀ ρ, Agrees ρ (done.length + rest.length + extra.length) fresh →
        more.map (·.read ρ) =
          Subroutine.inRow (Subroutine.layout (d.scope.places ρ)) ss.length rest := by
  induction rest generalizing d done extra ss with
  | nil =>
    refine ⟨d, [], [], rfl, ?_, by simp, by simp, fun _ _ => rfl⟩
    simpa [Subroutine.entries] using h
  | cons s rest ih =>
    rw [List.map_cons, List.cons_append] at h
    obtain ⟨d₁, fresh₁, more₁, e₁, hs₁, g₁, hl₁, hb₁, hr₁, r₁⟩ :=
      Subroutine.lower_gives h (hfind 0 s rfl) hout
    have g₁ : d₁.Gives (done ++ [subroutineLabel s.name (some ss.length)] ++
        (rest.map (fun s => subroutineLabel s.name none) ++ (extra ++ fresh₁))) (ss ++ more₁) :=
      g₁.cast (by simp) rfl
    have hfind₁ : ∀ j s', rest[j]? = some s' → d₁.scope.find? s'.name =
        some ⟨(done ++ [subroutineLabel s.name (some ss.length)]).length + j⟩ := by
      intro j s' hj
      rw [hs₁, hfind (j + 1) s' hj, List.length_append, List.length_singleton, Nat.add_assoc,
        Nat.add_comm 1]
    obtain ⟨d₂, fresh₂, more₂, e₂, g₂, hb₂, hr₂, r₂⟩ := ih g₁ hfind₁ (hs₁ ▸ hout)
    simp only [List.length_append, List.length_singleton, hs₁] at g₂ hr₂ r₂
    simp only [List.length_append, List.length_map] at hr₁ r₁
    refine ⟨d₂, fresh₁ ++ fresh₂, more₁ ++ more₂, ?_, ?_, ?_, ?_, ?_⟩
    · rw [List.foldlM_cons, e₁]
      exact e₂
    · rw [hl₁] at g₂
      exact g₂.cast (by simp [Subroutine.entries]) (by simp)
    · intro e he
      exact (List.mem_append.mp he).elim (hb₁ e) (hb₂ e)
    · intro x hx
      rw [List.length_cons, List.length_append]
      rcases List.mem_append.mp hx with hx | hx
      · obtain ⟨l, hl, h⟩ := hr₁ x hx
        exact ⟨l, hl, h.imp_left fun h => by omega⟩
      · obtain ⟨l, hl, h⟩ := hr₂ x hx
        exact ⟨l, hl, h.imp_left fun h => by omega⟩
    · intro ρ hρ
      obtain ⟨hρ₁, hρ₂⟩ := agrees_append.mp hρ
      rw [List.length_cons] at hρ₁ hρ₂
      have c₁ := r₁ ρ (by
        rwa [show done.length + 1 + (rest.length + extra.length) =
          done.length + (rest.length + 1) + extra.length by omega])
      have c₂ := r₂ ρ (by
        rwa [show done.length + 1 + rest.length + (extra.length + fresh₁.length) =
          done.length + (rest.length + 1) + extra.length + fresh₁.length by omega])
      have hlen := congrArg List.length c₁
      rw [List.length_map] at hlen
      rw [List.map_append, c₁, c₂, Subroutine.inRow, hlen]

theorem names_declarations (k : Nat) (fs : List (Subroutine A)) :
    (declarations k fs).map (·.1) = fs.map (·.name) := by
  induction fs generalizing k with
  | nil => rfl
  | cons s fs ih => rw [declarations_cons, List.map_cons, ih, List.map_cons]

/-- The scope of a script knows the names it defines. -/
theorem isSome_lookup_declarations (t : Tree A) (name : String) :
    ((declarations 0 (firsts [] t.subroutines)).lookup name).isSome = t.known name := by
  rw [isSome_lookup, names_declarations, Bool.eq_iff_iff, List.contains_iff_mem,
    mem_names_firsts, known]
  simp

/-- The labels of subroutines, once bound, stand where the entries are. -/
theorem lookup_entries {known : String → Bool} {b k : Nat} {fs : List (Subroutine A)}
    {ρ : Label → Nat} (h : Agrees ρ k ((Subroutine.entries known b fs).map fun e =>
      subroutineLabel e.1 (some e.2))) (name : String) :
    ((declarations k fs).lookup name).map ρ = (Subroutine.entries known b fs).lookup name := by
  induction fs generalizing k b with
  | nil => rfl
  | cons s fs ih =>
    rw [Subroutine.entries, List.map_cons, agrees_cons] at h
    rw [declarations_cons, Subroutine.entries, List.lookup_cons, List.lookup_cons]
    cases name == s.name with
    | true => exact h.1.symm
    | false => exact ih h.2

end Tree

/-! ## Scripts -/

/-- The directives of a draft can be performed and linked, and give `code`. -/
def Draft.Links (d : Draft A) (code : List (Instruction A)) : Prop :=
  ∃ ls ss ρ, d.Gives ls ss ∧ Agrees ρ 0 ls ∧
    (∀ x, .pending x ∈ ss → ∃ l, x.targets = [l] ∧ l.index < ls.length) ∧
    ss.map (·.read ρ) = code

namespace Tree

/-- The scope of a script: its subroutines, and nowhere for `break` to lead. -/
def scope (t : Tree A) : Scope := ⟨declarations 0 (firsts [] t.subroutines), none⟩

theorem isSome_find?_scope (t : Tree A) (name : String) :
    (t.scope.find? name).isSome = t.known name :=
  isSome_lookup_declarations t name

/-- The lowering of a script up to its subroutines. -/
def lowerMain (t : Tree A) : Draft A :=
  let d := Node.lowerAll t.main (declareAll [] t.subroutines {})
  if t.subroutines.isEmpty then d else d.control "top_level::exit" .exit

theorem lower_eq (t : Tree A) :
    t.lower {} = (firsts [] t.subroutines).foldlM (fun d s => s.lower d) t.lowerMain := rfl

theorem lowerMain_gives (t : Tree A) :
    ∃ fresh more, t.lowerMain.scope = t.scope ∧
      t.lowerMain.Gives
        ((firsts [] t.subroutines).map (fun s => subroutineLabel s.name none) ++ fresh) more ∧
      more.length = t.mainExtent ∧
      (∀ e ∈ fresh, ∃ n, e.offset = some n) ∧
      (∀ x, .pending x ∈ more → ∃ l, x.targets = [l] ∧
        (l.index < (firsts [] t.subroutines).length + fresh.length ∨ t.scope.Mentions l)) ∧
      ∀ ρ, Agrees ρ (firsts [] t.subroutines).length fresh →
        more.map (·.read ρ) = Node.layoutAll (t.scope.places ρ) 0 none t.main ++
          if t.subroutines.isEmpty then [] else [.exit] := by
  obtain ⟨g, hs⟩ := declareAll_gives t.subroutines [] Draft.Gives.empty fun _ => rfl
  have hs : (declareAll [] t.subroutines ({} : Draft A)).scope = t.scope := by
    rw [hs]; rfl
  have e := Node.lowerAll_emits t.main (declareAll [] t.subroutines {})
  rw [hs, show t.scope.breakTarget = none from rfl] at e
  obtain ⟨fresh, more, a, r⟩ := e.adds _ _ g
  rw [List.nil_append, List.map_nil, List.length_map] at r
  have hb : ∀ e ∈ fresh, ∃ n, e.offset = some n := fun e he =>
    let ⟨n, hn, _⟩ := a.bound e he
    ⟨n, hn⟩
  have hlen : more.length = Node.extentAll t.known false t.main := by
    obtain ⟨ρ, hρ⟩ := exists_agrees (firsts [] t.subroutines).length hb
    have := congrArg List.length (r ρ hρ)
    rw [List.length_map, Node.length_layoutAll] at this
    simp only [Scope.isSome_places, isSome_find?_scope] at this
    exact this
  have hr : ∀ x, .pending x ∈ more → ∃ l, x.targets = [l] ∧
      (l.index < (firsts [] t.subroutines).length + fresh.length ∨ t.scope.Mentions l) := by
    intro x hx
    obtain ⟨l, hl, h⟩ := a.refs x hx
    rw [hs] at h
    exact ⟨l, hl, h.imp_left fun h => by simpa using h.2⟩
  cases hsub : t.subroutines.isEmpty with
  | true =>
    refine ⟨fresh, more, ?_, ?_, ?_, hb, hr, ?_⟩
    · rw [lowerMain, hsub]
      exact e.scope.trans hs
    · rw [lowerMain, hsub]
      exact a.gives.cast (by simp) (by simp)
    · rw [mainExtent, hsub, hlen]
      rfl
    · intro ρ hρ
      rw [r ρ hρ]
      simp
  | false =>
    refine ⟨fresh, more ++ [.ready .exit], ?_, ?_, ?_, hb, ?_, ?_⟩
    · rw [lowerMain, hsub]
      exact e.scope.trans hs
    · rw [lowerMain, hsub]
      exact (a.gives.control _ _).cast (by simp) (by simp)
    · rw [mainExtent, hsub, List.length_append, hlen]
      rfl
    · intro x hx
      exact hr x (by simpa using hx)
    · intro ρ hρ
      rw [List.map_append, r ρ hρ]
      rfl

theorem index_lt_of_mentions {t : Tree A} {l : Label} (h : t.scope.Mentions l) :
    l.index < (firsts [] t.subroutines).length := by
  rcases h with h | ⟨name, h⟩
  · cases h
  · obtain ⟨⟨s, i⟩, hm, he⟩ := List.mem_map.mp h
    obtain ⟨-, rfl⟩ := Prod.mk.inj he
    exact (List.mem_zipIdx' hm).1

/-- Every script can be lowered, and its draft links to its layout. -/
theorem lower_links (t : Tree A) : ∃ d, t.lower {} = .ok d ∧ d.Links t.layout := by
  obtain ⟨fresh₁, more₁, hs, g₁, hl₁, hb₁, hr₁, r₁⟩ := t.lowerMain_gives
  have hfind : ∀ j s, (firsts [] t.subroutines)[j]? = some s →
      t.lowerMain.scope.find? s.name = some ⟨([] : List LabelEntry).length + j⟩ := by
    intro j s hj
    rw [hs]
    exact lookup_declarations (nodup_names_firsts [] t.subroutines) hj 0
  obtain ⟨d, fresh₂, more₂, e₂, g₂, hb₂, hr₂, r₂⟩ :=
    lowerEach_gives (firsts [] t.subroutines) g₁ hfind (by rw [hs]; rfl)
  simp only [hs, isSome_find?_scope, List.nil_append, List.length_nil, Nat.zero_add] at g₂ hr₂ r₂
  rw [hl₁, show (fun name => t.known name) = t.known from rfl] at g₂
  -- Now every label is bound, so there are offsets that agree with all of them.
  have hbound : ∀ e ∈ (Subroutine.entries t.known t.mainExtent (firsts [] t.subroutines)).map
      (fun e => subroutineLabel e.1 (some e.2)) ++ (fresh₁ ++ fresh₂), ∃ n, e.offset = some n := by
    intro e he
    simp only [List.mem_append, List.mem_map] at he
    rcases he with ⟨x, -, rfl⟩ | he | he
    · exact ⟨x.2, rfl⟩
    · exact hb₁ e he
    · exact hb₂ e he
  obtain ⟨ρ, hρ⟩ := exists_agrees 0 hbound
  refine ⟨d, (lower_eq t).trans e₂, _, _, ρ, g₂, hρ, ?_, ?_⟩
  · intro x hx
    simp only [List.length_append, List.length_map, Subroutine.length_entries]
    rcases List.mem_append.mp hx with hx | hx
    · obtain ⟨l, hl, h | h⟩ := hr₁ x hx
      · exact ⟨l, hl, by omega⟩
      · exact ⟨l, hl, Nat.lt_add_right _ (index_lt_of_mentions h)⟩
    · obtain ⟨l, hl, h | h⟩ := hr₂ x hx
      · exact ⟨l, hl, by omega⟩
      · exact ⟨l, hl, Nat.lt_add_right _ (index_lt_of_mentions h)⟩
  · obtain ⟨hρe, hρ⟩ := agrees_append.mp hρ
    rw [List.length_map, Subroutine.length_entries, Nat.zero_add] at hρ
    obtain ⟨hρ₁, hρ₂⟩ := agrees_append.mp hρ
    have hp : t.scope.places ρ = t.entry := funext fun name => lookup_entries hρe name
    rw [List.map_append, r₁ ρ hρ₁, r₂ ρ hρ₂, hp, hl₁]
    rfl

end Tree

/-! ## Linking -/

namespace Assembly

variable {ls : List LabelEntry} {ss : List (Slot A)} {ρ : Label → Nat}

theorem resolve_of (hρ : Agrees ρ 0 ls) (ss : List (Slot A)) {l : Label}
    (hl : l.index < ls.length) : (of ls ss).resolve l = .ok (ρ l) := by
  have he : (of ls ss).labels[l.index]? = some ls[l.index] := by
    simp [of, hl]
  have ho := hρ l.index ls[l.index] (List.getElem?_eq_getElem hl)
  rw [Nat.zero_add] at ho
  simp only [resolve, entry, he, Bind.bind, Except.bind, ho]

theorem instructions_of (hρ : Agrees ρ 0 ls)
    (hr : ∀ x, .pending x ∈ ss → ∃ l, x.targets = [l] ∧ l.index < ls.length) :
    (of ls ss).instructions = .ok (ss.map (·.read ρ)) := by
  refine mapM_eq_pure fun slot hs => ?_
  cases slot with
  | ready i => rfl
  | pending x =>
    obtain ⟨l, hx, hl⟩ := hr x (by simpa [of] using hs)
    rw [finish, hx, mapM_eq_pure (f := (of ls ss).resolve) (g := ρ) fun l' hl' => ?_, Slot.read, hx]
    · rfl
    · obtain rfl := List.mem_singleton.mp hl'
      exact resolve_of hρ ss hl

end Assembly

/-- Linking gives the code a draft links to. -/
theorem Draft.Links.toProgram {d : Draft A} {code : List (Instruction A)} (h : d.Links code)
    (id : String) : d.toProgram id = .ok ⟨id, code⟩ := by
  obtain ⟨ls, ss, ρ, g, hρ, hr, rfl⟩ := h
  rw [Draft.toProgram, g.1]
  show (do Except.ok (Program.mk id (← (Assembly.of ls ss).instructions))) = _
  rw [Assembly.instructions_of hρ hr]
  rfl

/-! ## Listings -/

theorem Listing.perform_of {l : Listing A} {x : Directive A} {g : Assembly A}
    (h : l.assembly.perform x = .ok g) : l.perform x = .ok { l.note x with assembly := g } := by
  rw [Listing.perform, h]
  rfl

/-- A listing can perform what its assembly can. -/
theorem Listing.run_of {l : Listing A} {code : List (Directive A)} {g : Assembly A}
    (h : l.assembly.run code = .ok g) : ∃ l', l.run code = .ok l' ∧ l'.assembly = g := by
  induction code generalizing l with
  | nil => exact ⟨l, rfl, Except.ok.inj h⟩
  | cons x code ih =>
    rw [Assembly.run, List.foldlM_cons] at h
    cases hx : l.assembly.perform x with
    | error fault => rw [hx] at h; cases h
    | ok g₁ =>
      rw [hx] at h
      obtain ⟨l', hl, hg⟩ := ih (l := { l.note x with assembly := g₁ }) h
      refine ⟨l', ?_, hg⟩
      rw [Listing.run, List.foldlM_cons, Listing.perform_of hx]
      exact hl

/-- Linking before the end changes no slot that matters: the listing of a
draft is of the code it links to. -/
theorem Draft.Links.toListing {d : Draft A} {code : List (Instruction A)} (h : d.Links code)
    (id : String) :
    ∃ l, Listing.run {} (d.code.toList ++ [.link]) = .ok l ∧
      d.toListing id = .ok (⟨id, code⟩, l.dump) := by
  obtain ⟨ls, ss, ρ, g, hρ, hr, rfl⟩ := h
  have hlink : (Assembly.of ls ss).perform .link =
      .ok (.of ls ((ss.map (·.read ρ)).map .ready)) := by
    rw [Assembly.perform, Assembly.link, Assembly.instructions_of hρ hr]
    rfl
  obtain ⟨l, hl, hg⟩ := Listing.run_of (l := {}) (Assembly.run_concat g.1 hlink)
  have hi : l.assembly.instructions = .ok (ss.map (·.read ρ)) := by
    rw [hg, Assembly.instructions_of hρ (by simp), List.map_map]
    simp [Function.comp_def]
  refine ⟨l, hl, ?_⟩
  rw [Draft.toListing, hl]
  show (do
    let program ← (do Except.ok (Program.mk id (← l.assembly.instructions)))
    Except.ok (program, l.dump)) = _
  rw [hi]
  rfl

end CommandScript
