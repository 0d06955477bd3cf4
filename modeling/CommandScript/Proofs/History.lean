import CommandScript.Proofs.Totality
import Mathlib.Data.List.Forall2

/-!
# What linking makes of a history

The directives an assembly has performed are its history. The history alone
says what was emitted (`History.emitted`), where each label was bound
(`History.boundAt?`) and which instructions still wait for offsets
(`History.waiting`). An assembly agrees with its history at any time
(`Tracks`), with its slots as they were emitted or already linked, and that is
all that a link, early or late, depends on.
-/

namespace CommandScript

variable {A : Type}

/-! ## Histories -/

namespace Directive

/-- The slot of the instruction that a directive emits. -/
def slot? : Directive A → Option (Slot A)
  | plain action => some (.ready (.plain action))
  | control _ i => some (.ready i)
  | defer x => some (.pending x)
  | _ => none

def binds (l : Label) : Directive A → Bool
  | bind l' => l' == l
  | _ => false

def isDefine : Directive A → Bool
  | define _ => true
  | _ => false

def isLink : Directive A → Bool
  | link => true
  | _ => false

theorem binds_iff {l : Label} {x : Directive A} : x.binds l = true ↔ x = bind l := by
  cases x <;> simp [binds]

end Directive

/-- The instruction of a slot that waits for offsets. -/
def Slot.deferred? : Slot A → Option (Deferred A)
  | ready _ => none
  | pending x => some x

/-- The directives performed so far, the oldest first. -/
abbrev History (A : Type) := List (Directive A)

namespace History

/-- The instructions emitted, as they were when they were emitted. -/
def emitted (past : History A) : List (Slot A) := past.filterMap (·.slot?)

/-- The offset a label was bound to: the number of instructions emitted
before. -/
def boundAt? (past : History A) (l : Label) : Option Nat :=
  (past.findIdx? (·.binds l)).map fun i => (emitted (past.take i)).length

def labelCount (past : History A) : Nat := past.countP (·.isDefine)

/-- The instructions that wait for offsets: those deferred since the last
link. -/
def waiting (past : History A) : List (Deferred A) :=
  past.foldl (fun xs x =>
    match x with
    | .defer d => xs ++ [d]
    | .link => []
    | _ => xs) []

/-- An instruction still waits for a label that there is not, or that has not
been bound. -/
def Dangling (past : History A) : Prop :=
  ∃ x ∈ past.waiting, ∃ l ∈ x.targets, past.labelCount ≤ l.index ∨ .bind l ∉ past

variable (past : History A) (x : Directive A)

theorem emitted_concat : emitted (past ++ [x]) = past.emitted ++ x.slot?.toList := by
  rw [emitted, List.filterMap_append]
  cases h : x.slot? <;> simp [h, emitted]

theorem labelCount_concat :
    labelCount (past ++ [x]) = past.labelCount + if x.isDefine then 1 else 0 := by
  rw [labelCount, List.countP_append, List.countP_singleton, labelCount]

theorem waiting_concat :
    waiting (past ++ [x]) =
      match x with
      | .defer d => past.waiting ++ [d]
      | .link => []
      | _ => past.waiting := by
  rw [waiting, List.foldl_append]
  rfl

/-- A label keeps the offset it was bound to first. -/
theorem boundAt?_concat (l : Label) :
    boundAt? (past ++ [x]) l =
      (past.boundAt? l).or (if x.binds l then some past.emitted.length else none) := by
  rw [boundAt?, List.findIdx?_append, boundAt?]
  cases h : past.findIdx? (·.binds l) with
  | some i =>
    have hlt : i < past.length := (List.findIdx?_eq_some_iff_findIdx_eq.mp h).1
    simp [List.take_append_of_le_length (Nat.le_of_lt hlt)]
  | none => cases hx : x.binds l <;> simp [List.findIdx?_cons, hx]

variable {past}

theorem boundAt?_eq_none_iff {l : Label} : past.boundAt? l = none ↔ .bind l ∉ past := by
  rw [boundAt?, Option.map_eq_none_iff, List.findIdx?_eq_none_iff]
  constructor
  · intro h hl
    exact Bool.false_ne_true ((h _ hl).symm.trans (Directive.binds_iff.mpr rfl))
  · intro h y hy
    rw [Bool.eq_false_iff]
    exact fun hb => h (Directive.binds_iff.mp hb ▸ hy)

/-- Later directives leave a bound label where it is. -/
theorem boundAt?_mono {l : Label} {n : Nat} (h : past.boundAt? l = some n) :
    boundAt? (past ++ [x]) l = some n := by
  rw [boundAt?_concat, h, Option.some_or]

end History

/-! ## Assemblies and their histories -/

/-- What an emitted instruction becomes if labels stand where `ρ` says: one
that waits is made from the offsets of its labels, in their order. -/
def Slot.Becomes (ρ : Label → Option Nat) (s : Slot A) (i : Instruction A) : Prop :=
  match s with
  | ready j => i = j
  | pending x => ∃ offsets, List.Forall₂ (fun l n => ρ l = some n) x.targets offsets ∧
    i = x.resolve offsets

/-- The slot `t` is `s` as it was emitted, or linked since. -/
def Slot.Settles (ρ : Label → Option Nat) (s t : Slot A) : Prop :=
  t = s ∨ ∃ i, t = ready i ∧ s.Becomes ρ i

theorem Slot.Becomes.mono {ρ ρ' : Label → Option Nat} (hρ : ∀ l n, ρ l = some n → ρ' l = some n)
    {s : Slot A} {i : Instruction A} (h : s.Becomes ρ i) : s.Becomes ρ' i := by
  cases s with
  | ready j => exact h
  | pending x =>
    obtain ⟨offsets, ho, rfl⟩ := h
    exact ⟨offsets, ho.imp fun l n => hρ l n, rfl⟩

theorem Slot.Settles.mono {ρ ρ' : Label → Option Nat} (hρ : ∀ l n, ρ l = some n → ρ' l = some n)
    {s t : Slot A} (h : s.Settles ρ t) : s.Settles ρ' t := by
  obtain rfl | ⟨i, rfl, hi⟩ := h
  · exact .inl rfl
  · exact .inr ⟨i, rfl, hi.mono hρ⟩

theorem Assembly.resolve_eq_ok_iff {g : Assembly A} {l : Label} {n : Nat} :
    g.resolve l = .ok n ↔ (g.labels[l.index]?).bind (·.offset) = some n := by
  rw [resolve, entry]
  cases g.labels[l.index]? with
  | none => simp [Bind.bind, Except.bind]
  | some e => cases ho : e.offset <;> simp [Bind.bind, Except.bind, ho]

/-- The assembly `g` has come about by the directives of `past`. Without their
links they would have given the same labels, with all slots as emitted. -/
structure Tracks (past : History A) (g : Assembly A) : Prop where
  defined : g.labels.size = past.labelCount
  bound : ∀ l : Label, (g.labels[l.index]?).bind (·.offset) = past.boundAt? l
  slots : List.Forall₂ (Slot.Settles past.boundAt?) past.emitted g.slots.toList
  waiting : g.slots.toList.filterMap (·.deferred?) = past.waiting
  unlinked : Assembly.run {} (past.filter (!·.isLink)) = .ok ⟨g.labels, past.emitted.toArray⟩

namespace Tracks

variable {past : History A} {g g' : Assembly A} {x : Directive A}

theorem resolve_eq_ok_iff (h : Tracks past g) {l : Label} {n : Nat} :
    g.resolve l = .ok n ↔ past.boundAt? l = some n := by
  rw [Assembly.resolve_eq_ok_iff, h.bound]

theorem finish_eq_ok_iff (h : Tracks past g) {s : Slot A} {i : Instruction A} :
    g.finish s = .ok i ↔ s.Becomes past.boundAt? i := by
  cases s with
  | ready j => exact ⟨fun e => (Except.ok.inj e).symm, fun e => congrArg _ e.symm⟩
  | pending x =>
    have htargets (offsets : List Nat) : x.targets.mapM g.resolve = .ok offsets ↔
        List.Forall₂ (fun l n => past.boundAt? l = some n) x.targets offsets := by
      simp only [mapM_eq_ok_iff, h.resolve_eq_ok_iff]
    constructor
    · intro e
      obtain ⟨offsets, ho, e⟩ := bind_eq_ok e
      exact ⟨offsets, (htargets offsets).mp ho, (Except.ok.inj e).symm⟩
    · rintro ⟨offsets, ho, rfl⟩
      rw [Assembly.finish, (htargets offsets).mpr ho]
      rfl

/-- Linking a slot that was linked before changes nothing. -/
theorem finish_settled (h : Tracks past g) {s t : Slot A} (hst : s.Settles past.boundAt? t) :
    g.finish s = g.finish t := by
  obtain rfl | ⟨i, rfl, hi⟩ := hst
  · rfl
  · exact h.finish_eq_ok_iff.mpr hi

/-- What is linked is what was emitted, whatever was linked before. -/
theorem instructions_eq (h : Tracks past g) : g.instructions = past.emitted.mapM g.finish :=
  (mapM_congr (R := Slot.Settles past.boundAt?) (fun _ _ hst => h.finish_settled hst) h.slots).symm

theorem size_eq (h : Tracks past g) : g.size = past.emitted.length := by
  rw [Assembly.size, ← Array.length_toList, h.slots.length_eq]

/-! ### One directive -/

/-- A directive other than a link does the same if nothing was linked. -/
theorem perform_unlinked (h : Tracks past g) (hx : g.perform x = .ok g') (hlink : x.isLink = false) :
    Assembly.perform ⟨g.labels, past.emitted.toArray⟩ x =
      .ok ⟨g'.labels, (History.emitted (past ++ [x])).toArray⟩ := by
  rw [History.emitted_concat]
  cases x with
  | define name =>
    obtain rfl := Except.ok.inj hx
    simp [Assembly.perform, Directive.slot?]
  | bind l =>
    obtain ⟨e, he, hx⟩ := bind_eq_ok hx
    have he' : Assembly.entry ⟨g.labels, past.emitted.toArray⟩ l = .ok e := he
    rw [Assembly.perform, Assembly.bind, he']
    split at hx
    · cases hx
    · rename_i ho
      obtain rfl := Except.ok.inj hx
      rw [h.size_eq]
      simp [Bind.bind, Except.bind, ho, Assembly.size, Directive.slot?]
  | plain action =>
    obtain rfl := Except.ok.inj hx
    simp [Assembly.perform, Assembly.push, Directive.slot?]
  | control name i =>
    obtain rfl := Except.ok.inj hx
    simp [Assembly.perform, Assembly.push, Directive.slot?]
  | defer d =>
    obtain rfl := Except.ok.inj hx
    simp [Assembly.perform, Assembly.push, Directive.slot?]
  | link => cases hlink

theorem run_unlinked (h : Tracks past g) (hx : g.perform x = .ok g') (hlink : x.isLink = false) :
    Assembly.run {} ((past ++ [x]).filter (!·.isLink)) =
      .ok ⟨g'.labels, (History.emitted (past ++ [x])).toArray⟩ := by
  rw [List.filter_append, List.filter_singleton, hlink]
  exact Assembly.run_concat h.unlinked (h.perform_unlinked hx hlink)

/-- Slots stay settled when more labels are bound. -/
theorem settles_concat (h : Tracks past g) (x : Directive A) :
    List.Forall₂ (Slot.Settles (History.boundAt? (past ++ [x]))) past.emitted g.slots.toList :=
  h.slots.imp fun _ _ hst => hst.mono fun _ _ => History.boundAt?_mono x

/-- A directive that emits an instruction. -/
theorem push (h : Tracks past g) {s : Slot A} (hx : g.perform x = .ok (g.push s))
    (hs : x.slot? = some s) (hdefine : x.isDefine = false) (hlink : x.isLink = false)
    (hbinds : ∀ l, x.binds l = false)
    (hwaiting : History.waiting (past ++ [x]) = past.waiting ++ s.deferred?.toList) :
    Tracks (past ++ [x]) (g.push s) where
  defined := by rw [History.labelCount_concat, hdefine]; exact h.defined
  bound l := by
    rw [History.boundAt?_concat, hbinds]
    exact (h.bound l).trans Option.or_none.symm
  slots := by
    rw [History.emitted_concat, hs, Assembly.push, Array.toList_push]
    exact List.rel_append (h.settles_concat x) (.cons (.inl rfl) .nil)
  waiting := by
    rw [hwaiting, ← h.waiting, Assembly.push, Array.toList_push, List.filterMap_append]
    cases hd : s.deferred? <;> simp [hd]
  unlinked := h.run_unlinked hx hlink

theorem define (h : Tracks past g) (name : String) :
    Tracks (past ++ [.define name]) { g with labels := g.labels.push { name := name } } where
  defined := by rw [History.labelCount_concat, Array.size_push, h.defined]; rfl
  bound l := by
    rw [History.boundAt?_concat, ← h.bound l, Array.getElem?_push]
    split
    · rename_i hl
      simp [hl, Directive.binds]
    · simp [Directive.binds]
  slots := by
    rw [History.emitted_concat]
    exact (List.append_nil past.emitted).symm ▸ h.settles_concat _
  waiting := by rw [History.waiting_concat]; exact h.waiting
  unlinked := h.run_unlinked rfl rfl

theorem bind (h : Tracks past g) {l : Label} (hx : g.bind l = .ok g') :
    Tracks (past ++ [.bind l]) g' := by
  have hunlinked := h.run_unlinked (x := .bind l) hx rfl
  obtain ⟨e, hl, ho, rfl⟩ := Assembly.bind_cases hx
  have hfree : past.boundAt? l = none := by rw [← h.bound l, hl]; exact ho
  refine ⟨?_, fun l' => ?_, ?_, ?_, hunlinked⟩
  · rw [History.labelCount_concat, Array.size_setIfInBounds]
    exact h.defined
  · rw [History.boundAt?_concat, Array.getElem?_setIfInBounds]
    by_cases hll : l = l'
    · subst hll
      have hlt : l.index < g.labels.size := (Array.getElem?_eq_some_iff.mp hl).1
      simp [hfree, hlt, Directive.binds, h.size_eq]
    · have hne : l.index ≠ l'.index := fun e => hll (congrArg Label.mk e)
      simp [hne, hll, Directive.binds, h.bound l']
  · rw [History.emitted_concat]
    exact (List.append_nil past.emitted).symm ▸ h.settles_concat _
  · rw [History.waiting_concat]
    exact h.waiting

theorem link (h : Tracks past g) (hx : g.link = .ok g') : Tracks (past ++ [.link]) g' := by
  obtain ⟨linked, hl, hx⟩ := bind_eq_ok hx
  obtain rfl := Except.ok.inj hx
  have hemitted : History.emitted (past ++ [.link]) = past.emitted := by
    rw [History.emitted_concat]
    exact List.append_nil _
  have hbound : History.boundAt? (past ++ [.link]) = past.boundAt? := by
    funext l
    rw [History.boundAt?_concat]
    exact Option.or_none
  refine ⟨?_, fun l => ?_, ?_, ?_, ?_⟩
  · rw [History.labelCount_concat]
    exact h.defined
  · rw [hbound]
    exact h.bound l
  · rw [h.instructions_eq, mapM_eq_ok_iff] at hl
    rw [hemitted, hbound, List.toList_toArray, List.forall₂_map_right_iff]
    exact hl.imp fun s i hi => .inr ⟨i, rfl, h.finish_eq_ok_iff.mp hi⟩
  · rw [History.waiting_concat, List.filterMap_map]
    exact List.filterMap_eq_nil_iff.mpr fun _ _ => rfl
  · rw [List.filter_append, hemitted]
    simpa [Directive.isLink] using h.unlinked

/-- An assembly goes on as its history does. -/
theorem perform (h : Tracks past g) (hx : g.perform x = .ok g') : Tracks (past ++ [x]) g' := by
  cases x with
  | define name =>
    obtain rfl := Except.ok.inj hx
    exact h.define name
  | bind l => exact h.bind hx
  | plain action =>
    obtain rfl := Except.ok.inj hx
    exact h.push hx rfl rfl rfl (fun _ => rfl) (by simp [History.waiting_concat, Slot.deferred?])
  | control name i =>
    obtain rfl := Except.ok.inj hx
    exact h.push hx rfl rfl rfl (fun _ => rfl) (by simp [History.waiting_concat, Slot.deferred?])
  | defer d =>
    obtain rfl := Except.ok.inj hx
    exact h.push hx rfl rfl rfl (fun _ => rfl) (by simp [History.waiting_concat, Slot.deferred?])
  | link => exact h.link hx

/-- What one directive keeps, a run keeps. -/
theorem run (h : Tracks past g) {code : List (Directive A)} (hc : g.run code = .ok g') :
    Tracks (past ++ code) g' := by
  induction code generalizing past g with
  | nil =>
    obtain rfl := Except.ok.inj hc
    rwa [List.append_nil]
  | cons x code ih =>
    obtain ⟨g₁, hx, hc⟩ := bind_eq_ok hc
    rw [List.append_cons]
    exact ih (h.perform hx) hc

theorem start : Tracks ([] : History A) {} :=
  ⟨rfl, fun _ => rfl, .nil, rfl, rfl⟩

/-! ### Faults -/

theorem mem_waiting_iff (h : Tracks past g) {d : Deferred A} :
    d ∈ past.waiting ↔ .pending d ∈ g.slots.toList := by
  rw [← h.waiting, List.mem_filterMap]
  constructor
  · rintro ⟨s, hs, hd⟩
    cases s with
    | ready i => cases hd
    | pending d' => exact Option.some.inj hd ▸ hs
  · exact fun hs => ⟨_, hs, rfl⟩

theorem resolve_fails_iff (h : Tracks past g) {l : Label} :
    (∃ fault, g.resolve l = .error fault) ↔ past.labelCount ≤ l.index ∨ .bind l ∉ past := by
  have hbound : (∃ fault, g.resolve l = .error fault) ↔ past.boundAt? l = none := by
    have hok n := h.resolve_eq_ok_iff (l := l) (n := n)
    cases hr : g.resolve l with
    | error fault =>
      refine ⟨fun _ => Option.eq_none_iff_forall_ne_some.mpr fun n hn => ?_, fun _ => ⟨fault, rfl⟩⟩
      cases hr.symm.trans ((hok n).mpr hn)
    | ok n =>
      rw [(hok n).mp hr]
      simp
  rw [hbound, ← History.boundAt?_eq_none_iff, or_iff_right_of_imp]
  intro hl
  rw [← h.bound, Array.getElem?_eq_none (h.defined ▸ hl)]
  rfl

theorem finish_fails_iff (h : Tracks past g) {s : Slot A} :
    (∃ fault, g.finish s = .error fault) ↔
      ∃ d, s = .pending d ∧ ∃ l ∈ d.targets, past.labelCount ≤ l.index ∨ .bind l ∉ past := by
  cases s with
  | ready i => simp [Assembly.finish]
  | pending d =>
    simp only [Assembly.finish, fails_bind_ok_iff, mapM_fails_iff, h.resolve_fails_iff,
      Slot.pending.injEq, exists_eq_left']

/-- Linking fails if an instruction waits in vain, and not otherwise. -/
theorem instructions_fail_iff (h : Tracks past g) :
    (∃ fault, g.instructions = .error fault) ↔ past.Dangling := by
  simp only [Assembly.instructions, mapM_fails_iff, h.finish_fails_iff, History.Dangling,
    h.mem_waiting_iff]
  constructor
  · rintro ⟨s, hs, d, rfl, hd⟩
    exact ⟨d, hs, hd⟩
  · rintro ⟨d, hs, hd⟩
    exact ⟨_, hs, d, rfl, hd⟩

end Tracks

/-- Linking is true to the history of an assembly, and it does not matter when
it happens. The program has an instruction for each one emitted, in order:
unchanged, or, if it was deferred, made from the offsets its labels were bound
at. Without links before the end the program is the same. Linking faults if
an instruction that was deferred since the last link refers to a label that
does not exist or has not been bound, and only then; once linked, an
instruction no longer waits. -/
theorem linking_follows_history {past : History A} {g : Assembly A}
    (h : Assembly.run {} past = .ok g) (id : String) :
    (∀ p, g.toProgram id = .ok p →
      p.id = id ∧ List.Forall₂ (Slot.Becomes past.boundAt?) past.emitted p.instructions) ∧
    (∃ g', Assembly.run {} (past.filter (!·.isLink)) = .ok g' ∧
      g'.toProgram id = g.toProgram id) ∧
    ((∃ fault, g.toProgram id = .error fault) ↔ past.Dangling) ∧
    ((∃ fault, g.link = .error fault) ↔ past.Dangling) ∧
    g.slots.toList.filterMap (·.deferred?) = past.waiting := by
  have ht : Tracks past g := Tracks.start.run h
  refine ⟨fun p hp => ?_, ⟨_, ht.unlinked, ?_⟩, ?_, ?_, ht.waiting⟩
  · obtain ⟨is, his, hp⟩ := bind_eq_ok hp
    obtain rfl := Except.ok.inj hp
    rw [ht.instructions_eq, mapM_eq_ok_iff] at his
    exact ⟨rfl, his.imp fun _ _ => ht.finish_eq_ok_iff.mp⟩
  · have hsame : Assembly.instructions ⟨g.labels, past.emitted.toArray⟩ = g.instructions :=
      ht.instructions_eq.symm
    rw [Assembly.toProgram, hsame, Assembly.toProgram]
  · rw [← ht.instructions_fail_iff]
    exact fails_bind_ok_iff
  · rw [← ht.instructions_fail_iff]
    exact fails_bind_ok_iff

/-- A label is referred to before and after its binding, and an instruction
waits for two labels across a link. -/
def rehearsal : History String :=
  [.define "top", .define "end", .bind ⟨0⟩, .plain "a", .defer (.jump .branch "back" ⟨0⟩), .link,
    .defer ⟨none, [⟨1⟩, ⟨0⟩], fun offsets => .plain (toString offsets)⟩, .bind ⟨1⟩, .plain "b"]

theorem rehearsal_linked : ∃ g, Assembly.run {} rehearsal = .ok g ∧
    (∀ p, g.toProgram "rehearsal" = .ok p → p.id = "rehearsal" ∧
      List.Forall₂ (Slot.Becomes rehearsal.boundAt?) rehearsal.emitted p.instructions) ∧
    (∃ g', Assembly.run {} (rehearsal.filter (!·.isLink)) = .ok g' ∧
      g'.toProgram "rehearsal" = g.toProgram "rehearsal") ∧
    ((∃ fault, g.toProgram "rehearsal" = .error fault) ↔ rehearsal.Dangling) ∧
    ((∃ fault, g.link = .error fault) ↔ rehearsal.Dangling) ∧
    g.slots.toList.filterMap (·.deferred?) = rehearsal.waiting :=
  ⟨_, rfl, linking_follows_history rfl "rehearsal"⟩

end CommandScript
