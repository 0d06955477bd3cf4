import CommandScript.Host.Samples
import CommandScript.Proofs.Transfer

/-!
# Scripts in two parts

A script can be read in parts, cut anywhere outside of its blocks. If reading
the first part leaves no block open, whatever else may be wrong with it, the
whole is read as the first part and then, with the features that leaves, the
second.
-/

namespace CommandScript

variable {A : Type}

/-- Reading `lines` from the features `f`, with nothing reported before. -/
def Reading.ofLines (f : Features) (lines : List Line) : Reading := ⟨.ofLines lines, f, []⟩

theorem ReadsScript.append {g : Grammar A} {f : Features} {first second : List Line}
    {tree₁ tree₂ : Tree A} {s₁ s₂ : Reading}
    (h₁ : ReadsScript g (.ofLines f first) tree₁ s₁) (hclosed : AllClosed s₁.journal)
    (h₂ : ReadsScript g (.ofLines s₁.features second) tree₂ s₂) :
    ∃ s, ReadsScript g (.ofLines f (first ++ second)) (tree₁.append tree₂) s ∧
      s.journal = s₁.journal ++ s₂.journal ∧ s.features = s₂.features := by
  obtain ⟨ds₁, hds₁, hecho₁⟩ := h₁.echo (indistinct_eq g)
  obtain ⟨ds₂, hds₂, hecho₂⟩ := h₂.echo (indistinct_eq g)
  have hwhole : Reading.Echoes Eq second (.ofLines f first) (.ofLines f (first ++ second)) :=
    ⟨rfl, rfl⟩
  -- The first part is read with the second ahead of where it ends.
  obtain ⟨t, hrest, hfeatures, hjournal, hbehind⟩ :=
    hecho₁ (.inr fun d hd => hclosed d (hds₁ ▸ List.mem_append_right _ hd)) hwhole
  have hsecond : Reading.Echoes Eq [] (.ofLines s₁.features second) t :=
    ⟨hrest.trans (List.append_nil _).symm, hfeatures⟩
  -- The second is read there as it is on its own.
  obtain ⟨u, hrest', hfeatures', hjournal', hbehind'⟩ := hecho₂ (.inl rfl) hsecond
  have hend := hbehind' {} u (.done hrest')
  rw [Tree.append_empty] at hend
  refine ⟨u, hbehind tree₂ u hend, ?_, hfeatures'.symm⟩
  rw [hjournal', hjournal, hds₁, hds₂]
  rfl

/-- Reading composes where no block is open. Any two lists of lines are read;
and if the first leaves no block open, then reading both at once gives the
main block, the subroutines and the diagnostics of the first followed by those
of the second, and leaves the features that the second leaves, where the
second is read from the features that the first leaves. -/
theorem parts_read_as_whole (g : Grammar A) (f : Features) (first second : List Line) :
    ∃ tree₁ s₁ tree₂ s₂,
      Reader.read { grammar := g, table := .builtin } f ⟨first, []⟩ = .ok tree₁ s₁ ∧
      Reader.read { grammar := g, table := .builtin } s₁.features ⟨second, []⟩ = .ok tree₂ s₂ ∧
      (AllClosed s₁.journal → ∃ tree s,
        Reader.read { grammar := g, table := .builtin } f ⟨first ++ second, []⟩ = .ok tree s ∧
        tree.main = tree₁.main ++ tree₂.main ∧
        tree.subroutines = tree₁.subroutines ++ tree₂.subroutines ∧
        s.journal = s₁.journal ++ s₂.journal ∧ s.features = s₂.features) := by
  obtain ⟨tree₁, s₁, hread₁, h₁⟩ := Reader.read_reads g f ⟨first, []⟩
  obtain ⟨tree₂, s₂, hread₂, h₂⟩ := Reader.read_reads g s₁.features ⟨second, []⟩
  refine ⟨tree₁, s₁, tree₂, s₂, hread₁, hread₂, fun hclosed => ?_⟩
  obtain ⟨tree, s, hwhole, h⟩ := Reader.read_reads g f ⟨first ++ second, []⟩
  obtain ⟨s', h', hjournal, hfeatures⟩ := ReadsScript.append h₁ hclosed h₂
  obtain ⟨rfl, rfl⟩ := h.unique h'
  exact ⟨_, s, hwhole, rfl, rfl, hjournal, hfeatures⟩

/-- A refused selector, a refused command and a brace too many, but no block
left open. -/
def overture : List Line :=
  [⟨"pragma enable subroutines", 0⟩, ⟨"run at door \x7b", 1⟩, ⟨"bad luck", 2⟩, ⟨"break", 3⟩,
    ⟨"\x7d", 4⟩, ⟨"\x7d", 5⟩]

/-- A definition, for which the lines before have switched a feature on, and a
block left open. -/
def finale : List Line :=
  [⟨"subroutine bow", 0⟩, ⟨"say thanks", 1⟩, ⟨"end", 2⟩, ⟨"loop as guest \x7b", 3⟩,
    ⟨"subroutine_call bow", 4⟩]

/-- The state in which a reading has ended. -/
def endOf {α : Type} : EStateM.Result Fault Reading α → Reading
  | .ok _ s => s
  | .error _ s => s

theorem overture_and_finale : ∃ tree₁ s₁ tree₂ s₂ tree s,
    Reader.read { grammar := Host.wordsGrammar, table := .builtin } {} ⟨overture, []⟩ =
      .ok tree₁ s₁ ∧
    Reader.read { grammar := Host.wordsGrammar, table := .builtin } s₁.features ⟨finale, []⟩ =
      .ok tree₂ s₂ ∧
    AllClosed s₁.journal ∧
    Reader.read { grammar := Host.wordsGrammar, table := .builtin } {} ⟨overture ++ finale, []⟩ =
      .ok tree s ∧
    tree.main = tree₁.main ++ tree₂.main ∧
    tree.subroutines = tree₁.subroutines ++ tree₂.subroutines ∧
    s.journal = s₁.journal ++ s₂.journal ∧ s.features = s₂.features := by
  obtain ⟨tree₁, s₁, tree₂, s₂, h₁, h₂, hwhole⟩ :=
    parts_read_as_whole Host.wordsGrammar {} overture finale
  have hclosed : AllClosed s₁.journal := by
    have hend : ∀ d ∈ (endOf (Reader.read { grammar := Host.wordsGrammar, table := .builtin } {}
        ⟨overture, []⟩)).journal, d.cause.isUnclosed = false := by decide +kernel
    rwa [h₁] at hend
  obtain ⟨tree, s, h⟩ := hwhole hclosed
  exact ⟨tree₁, s₁, tree₂, s₂, tree, s, h₁, h₂, hclosed, h⟩

end CommandScript
