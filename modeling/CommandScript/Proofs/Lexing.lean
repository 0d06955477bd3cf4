import CommandScript.Token

/-!
# Where tokens stand

The tokens of a text are slices of it (`Token.slices_lex`), one behind the
other (`Token.ordered_lex`). Offsets count bytes, and the ends of a slice fall
between characters, so that no character is ever cut.
-/

namespace CommandScript

open Text (byteLength)

theorem byteLength_append (cs ds : List Char) :
    byteLength (cs ++ ds) = byteLength cs + byteLength ds := by
  induction cs with
  | nil => simp [byteLength]
  | cons c cs ih => rw [List.cons_append, byteLength, byteLength, ih, Nat.add_assoc]

namespace Token

/-- The token is the slice that its span marks in `cs`, whose first character
is at offset `base`. -/
def Slices (t : Token) (base : Nat) (cs : List Char) : Prop :=
  ∃ before behind, cs = before ++ t.text.toList ++ behind ∧
    t.start = base + byteLength before ∧ t.stop = t.start + byteLength t.text.toList

/-- A slice of what follows some characters is a slice of the whole. -/
theorem Slices.behind {t : Token} {base : Nat} {cs : List Char} (front : List Char)
    (h : t.Slices (base + byteLength front) cs) : t.Slices base (front ++ cs) := by
  obtain ⟨before, behind, rfl, hstart, hstop⟩ := h
  refine ⟨front ++ before, behind, by simp, ?_, hstop⟩
  rw [hstart, byteLength_append, Nat.add_assoc]

theorem Slices.base_le {t : Token} {base : Nat} {cs : List Char} (h : t.Slices base cs) :
    base ≤ t.start := by
  obtain ⟨before, behind, -, hstart, -⟩ := h
  omega

theorem slices_lexFrom (base : Nat) (cs : List Char) : ∀ t ∈ lexFrom base cs, t.Slices base cs := by
  fun_induction lexFrom base cs with
  | case1 base => simp
  | case2 base c cs hgap ih => exact fun t ht => .behind [c] (ih t ht)
  | case3 base c cs hgap l stop ih =>
    rw [← lexeme_append c cs]
    intro t ht
    rcases List.mem_cons.mp ht with rfl | ht
    · exact ⟨[], l.rest, by simp [l], rfl, by simp [stop]⟩
    · exact .behind _ (ih t ht)

theorem ordered_lexFrom (base : Nat) (cs : List Char) :
    (lexFrom base cs).Pairwise (·.stop ≤ ·.start) := by
  fun_induction lexFrom base cs with
  | case1 base => exact .nil
  | case2 base c cs hgap ih => exact ih
  | case3 base c cs hgap l stop ih =>
    exact .cons (fun t ht => (slices_lexFrom stop l.rest t ht).base_le) ih

/-- Every token is the slice of the text that its span marks. -/
theorem slices_lex (text : String) : ∀ t ∈ lex text, t.Slices 0 text.toList :=
  slices_lexFrom 0 text.toList

/-- Tokens follow one another. -/
theorem ordered_lex (text : String) : (lex text).Pairwise (·.stop ≤ ·.start) :=
  ordered_lexFrom 0 text.toList

end Token

end CommandScript
