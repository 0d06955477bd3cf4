import Mathlib.Data.List.Forall2

/-!
# Lists of outcomes

Going through a list with a step that may fail: what comes of it if no step does
(`mapM_eq_pure`, `mapM_eq_ok_iff`), and when one does (`mapM_fails_iff`).
-/

namespace CommandScript

section Lawful

variable {m : Type → Type} [Monad m] [LawfulMonad m] {α β : Type}

/-- Steps of which each gives a value give the list of these values. -/
theorem mapM_eq_pure {f : α → m β} {g : α → β} {xs : List α} (h : ∀ x ∈ xs, f x = pure (g x)) :
    xs.mapM f = pure (xs.map g) := by
  induction xs with
  | nil => rw [List.mapM_nil, List.map_nil]
  | cons x xs ih =>
    rw [List.mapM_cons, h x List.mem_cons_self, ih fun y hy => h y (List.mem_cons_of_mem x hy),
      pure_bind, pure_bind, List.map_cons]

/-- What is read back one by one is read back in a list. -/
theorem mapM_map_eq_pure {f : α → β} {g : β → m α} {xs : List α}
    (h : ∀ x ∈ xs, g (f x) = pure x) : (xs.map f).mapM g = pure xs := by
  rw [List.mapM_map, mapM_eq_pure (f := g ∘ f) (g := id) h, List.map_id]

end Lawful

section Outcomes

variable {ε α β : Type} {f : α → Except ε β} {xs : List α}

theorem bind_eq_ok {x : Except ε α} {b : β} (h : x >>= f = .ok b) :
    ∃ a, x = .ok a ∧ f a = .ok b := by
  cases x with
  | error e => cases h
  | ok a => exact ⟨a, rfl, h⟩

theorem mapM_eq_ok_iff {ys : List β} :
    xs.mapM f = .ok ys ↔ List.Forall₂ (fun x y => f x = .ok y) xs ys := by
  constructor
  · intro h
    induction xs generalizing ys with
    | nil =>
      obtain rfl := Except.ok.inj h
      exact .nil
    | cons x xs ih =>
      rw [List.mapM_cons] at h
      obtain ⟨y, hy, h⟩ := bind_eq_ok h
      obtain ⟨ys', hys, h⟩ := bind_eq_ok h
      obtain rfl := Except.ok.inj h
      exact .cons hy (ih hys)
  · intro h
    induction h with
    | nil => rfl
    | cons hx _ ih =>
      rw [List.mapM_cons, hx, ih]
      rfl

theorem length_of_mapM_ok {ys : List β} (h : xs.mapM f = .ok ys) : ys.length = xs.length :=
  (mapM_eq_ok_iff.mp h).length_eq.symm

theorem mapM_fails_iff :
    (∃ e, xs.mapM f = .error e) ↔ ∃ x ∈ xs, ∃ e, f x = .error e := by
  induction xs with
  | nil => simp [pure, Except.pure]
  | cons x xs ih =>
    simp only [List.mapM_cons, List.mem_cons, exists_eq_or_imp, ← ih]
    cases f x with
    | error e => simp [bind, Except.bind]
    | ok y => cases xs.mapM f <;> simp [bind, Except.bind, pure, Except.pure]

theorem fails_bind_ok_iff {x : Except ε α} {g : α → β} :
    (∃ e, (x >>= fun a => .ok (g a)) = .error e) ↔ ∃ e, x = .error e := by
  cases x <;> simp [bind, Except.bind]

/-- Elements that are related have the same outcomes. -/
theorem mapM_congr {R : α → α → Prop} (hR : ∀ x y, R x y → f x = f y) {ys : List α}
    (h : List.Forall₂ R xs ys) : xs.mapM f = ys.mapM f := by
  induction h with
  | nil => rfl
  | cons hx _ ih => rw [List.mapM_cons, List.mapM_cons, hR _ _ hx, ih]

end Outcomes

end CommandScript
