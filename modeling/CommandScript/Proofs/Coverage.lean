import CommandScript.Proofs.Spelling

/-!
# Tokens account for a whole text

Between the tokens of a text there are gaps and nothing else
(`Token.isGap_of_uncovered`), so the texts of the tokens together have all of
its characters but gaps (`Token.filter_lexFrom`). Each token is written as one
of its kind (`Token.Spells`), also where a quoted string is broken off: what was
taken of it is a word, and lexing goes on behind that.
-/

namespace CommandScript.Token

open Text (byteLength)

/-! ## How tokens are written -/

theorem not_isGap_of_isWordChar {c : Char} (h : isWordChar c = true) : isGap c = false := by
  simp only [isWordChar, Bool.not_eq_true', Bool.or_eq_false_iff] at h
  exact h.1.1

/-- What can stand between quotes: no quote, and a backslash only together with
another character of its line. -/
inductive Escaped : List Char → Prop where
  | nil : Escaped []
  | plain {c : Char} {cs : List Char} (quote : c ≠ '"') (backslash : c ≠ '\\')
      (others : Escaped cs) : Escaped (c :: cs)
  | escape {c : Char} {cs : List Char} (line : c ≠ '\n') (others : Escaped cs) :
      Escaped ('\\' :: c :: cs)

theorem escaped_quotedBody (cs : List Char) : Escaped (quotedBody cs).1 := by
  fun_induction quotedBody cs with
  | case1 | case2 | case3 | case4 => exact .nil
  | case5 c cs hline ih => exact .escape hline ih
  | case6 c cs hquote hend hline hescape ih =>
    exact .plain hquote (ne_backslash hend hescape) ih

/-- The characters `cs` are a token of the kind `kind`. A word that starts with a
quote is a quoted string that was not closed. -/
def Spells (kind : TokenKind) (cs : List Char) : Prop :=
  match kind with
  | .opening => cs = ['\x7b']
  | .closing => cs = ['\x7d']
  | .quoted => ∃ body, Escaped body ∧ cs = '"' :: (body ++ ['"'])
  | .word => (cs ≠ [] ∧ ∀ c ∈ cs, isWordChar c = true) ∨ ∃ body, Escaped body ∧ cs = '"' :: body

namespace Spells

variable {kind : TokenKind} {cs : List Char}

theorem ne_nil (h : Spells kind cs) : cs ≠ [] := by
  cases kind with
  | opening | closing =>
    rintro rfl
    cases h
  | quoted =>
    obtain ⟨body, -, rfl⟩ := h
    exact List.cons_ne_nil _ _
  | word =>
    obtain h | ⟨body, -, rfl⟩ := h
    · exact h.1
    · exact List.cons_ne_nil _ _

/-- There is no gap in a token that is neither a quoted string nor the part of
one that was broken off. -/
theorem gapless (h : Spells kind cs) (hkind : kind ≠ .quoted) :
    (∀ c ∈ cs, isGap c = false) ∨ kind = .word ∧ cs.head? = some '"' := by
  cases kind with
  | opening | closing =>
    left
    intro c hc
    obtain rfl : cs = _ := h
    obtain rfl := List.mem_singleton.mp hc
    decide
  | quoted => exact absurd rfl hkind
  | word =>
    obtain h | ⟨body, -, rfl⟩ := h
    · exact .inl fun c hc => not_isGap_of_isWordChar (h.2 c hc)
    · exact .inr ⟨rfl, rfl⟩

end Spells

theorem spells_lexeme {c : Char} (hgap : isGap c = false) (cs : List Char) :
    Spells (lexeme c cs).kind (lexeme c cs).taken := by
  have hbody := escaped_quotedBody cs
  unfold lexeme
  split
  · rename_i hc
    exact congrArg ([·]) hc
  split
  · rename_i hc
    exact congrArg ([·]) hc
  split
  · rename_i hc
    subst hc
    split
    · rename_i body rest hquoted
      rw [hquoted] at hbody
      exact ⟨body, hbody, rfl⟩
    · rename_i body rest hopen hquoted
      rw [hquoted] at hbody
      exact .inr ⟨body, hbody, rfl⟩
  · rename_i hopening hclosing hquote
    have hc : isWordChar c = true := by simp [isWordChar, isBrace, *]
    refine .inl ⟨List.cons_ne_nil _ _, List.forall_mem_cons.mpr ⟨hc, fun d hd => ?_⟩⟩
    exact List.mem_takeWhile_imp hd

theorem spells_lexFrom (base : Nat) (cs : List Char) :
    ∀ t ∈ lexFrom base cs, Spells t.kind t.text.toList := by
  fun_induction lexFrom base cs with
  | case1 base => simp
  | case2 base c cs hgap ih => exact ih
  | case3 base c cs hgap l stop ih =>
    refine List.forall_mem_cons.mpr ⟨?_, ih⟩
    rw [String.toList_ofList]
    exact spells_lexeme (Bool.eq_false_iff.mpr hgap) cs

/-- A backslash with nothing behind it breaks a quoted string off, and is a word itself. -/
example : lex "\"é\\" = [⟨.word, "\"é", 0, 3⟩, ⟨.word, "\\", 3, 4⟩] := by decide +kernel

/-! ## What tokens cover -/

/-- The byte at an offset is part of the token. -/
def Covers (t : Token) (offset : Nat) : Prop := t.start ≤ offset ∧ offset < t.stop

/-- A character that is in no token is a gap. -/
theorem isGap_of_uncovered (base : Nat) (cs : List Char) : ∀ before c behind,
    cs = before ++ c :: behind →
      (∀ t ∈ lexFrom base cs, ¬ t.Covers (base + byteLength before)) → isGap c = true := by
  fun_induction lexFrom base cs with
  | case1 base => simp
  | case2 base first cs hgap ih =>
    intro before c behind hcs h
    cases before with
    | nil => exact (List.cons.inj hcs).1 ▸ hgap
    | cons d before =>
      obtain ⟨rfl, htail⟩ := List.cons.inj hcs
      rw [byteLength, ← Nat.add_assoc] at h
      exact ih before c behind htail h
  | case3 base first cs hgap l stop ih =>
    intro before c behind hcs h
    rw [← lexeme_append first cs] at hcs
    have hbehind (more : List Char) (hbefore : before = l.taken ++ more)
        (hrest : l.rest = more ++ c :: behind) : isGap c = true := by
      have hoffset : base + byteLength before = stop + byteLength more := by
        rw [hbefore, byteLength_append, ← Nat.add_assoc]
      rw [hoffset] at h
      exact ih more c behind hrest fun t ht => h t (List.mem_cons_of_mem _ ht)
    rcases List.append_eq_append_iff.mp hcs with ⟨more, hbefore, hrest⟩ | ⟨more, htaken, hrest⟩
    · exact hbehind more hbefore hrest
    · cases more with
      | nil => exact hbehind [] (by simpa using htaken.symm) hrest.symm
      | cons d more =>
        -- The character is one of the token's.
        have hlength : byteLength l.taken = byteLength before + (d.utf8Size + byteLength more) := by
          rw [show l.taken = before ++ d :: more from htaken, byteLength_append, byteLength]
        have hd := d.utf8Size_pos
        refine absurd ⟨Nat.le_add_right _ _, ?_⟩ (h _ List.mem_cons_self)
        show base + byteLength before < base + byteLength l.taken
        omega

/-- The tokens have all characters but gaps, in their order. -/
theorem filter_lexFrom (base : Nat) (cs : List Char) :
    ((lexFrom base cs).flatMap (·.text.toList)).filter (!isGap ·) = cs.filter (!isGap ·) := by
  fun_induction lexFrom base cs with
  | case1 base => rfl
  | case2 base c cs hgap ih => rw [ih, List.filter_cons_of_neg (by simp [hgap])]
  | case3 base c cs hgap l stop ih =>
    rw [← lexeme_append c cs, List.flatMap_cons, List.filter_append, ih, String.toList_ofList,
      List.filter_append]

/-- There are no more tokens than characters. -/
theorem length_lexFrom_le (base : Nat) (cs : List Char) : (lexFrom base cs).length ≤ cs.length := by
  fun_induction lexFrom base cs with
  | case1 base => exact Nat.le_refl _
  | case2 base c cs hgap ih => exact Nat.le_succ_of_le ih
  | case3 base c cs hgap l stop ih =>
    exact Nat.succ_le_succ (Nat.le_trans ih (lexeme_rest_length c cs))

/-! ## Slices of strings -/

section Slices

variable {t : Token} {text : String} (h : t.Slices 0 text.toList)

include h

/-- A token stands in the text, from one character boundary to another. -/
theorem Slices.stands : ∃ before behind : String, text = before ++ t.text ++ behind ∧
    t.start = before.utf8ByteSize ∧ t.stop = before.utf8ByteSize + t.text.utf8ByteSize := by
  obtain ⟨before, behind, htext, hstart, hstop⟩ := h
  refine ⟨.ofList before, .ofList behind, ?_, ?_, ?_⟩
  · rw [← String.toList_inj, htext]
    simp
  · rw [hstart, Nat.zero_add, ← Text.byteLength_toList, String.toList_ofList]
  · rw [hstop, hstart, Nat.zero_add, ← Text.byteLength_toList, ← Text.byteLength_toList,
      String.toList_ofList]

theorem Slices.slice_eq : Text.slice t.start t.stop text.toList = t.text.toList := by
  obtain ⟨before, behind, htext, hstart, hstop⟩ := h
  rw [Text.slice, hstop, hstart, Nat.zero_add, Nat.add_sub_cancel_left, htext, List.append_assoc,
    Text.dropBytes_append, Text.takeBytes_append]

end Slices

end CommandScript.Token

namespace CommandScript

open Token

/-- Lexing loses nothing. The tokens of a text are no more than its characters;
each is written as one of its kind, is not empty, stands in the text from one
character boundary to another and has for its text the slice of its span; they
do not overlap and come in the order of the text. A character in none of them is
a gap, and no token has a gap in it but a quoted string, closed or broken off.
So the tokens together have the characters of the text, but for the gaps. -/
theorem lexing_loses_nothing (text : String) :
    (lex text).length ≤ text.length ∧
    (∀ t ∈ lex text, Spells t.kind t.text.toList ∧ t.start < t.stop ∧
      (∃ before behind : String, text = before ++ t.text ++ behind ∧
        t.start = before.utf8ByteSize ∧ t.stop = before.utf8ByteSize + t.text.utf8ByteSize) ∧
      Text.slice t.start t.stop text.toList = t.text.toList) ∧
    (lex text).Pairwise (·.stop ≤ ·.start) ∧
    (∀ (before behind : String) (c : Char), text = before ++ String.singleton c ++ behind →
      (∀ t ∈ lex text, ¬ t.Covers before.utf8ByteSize) → isGap c = true) ∧
    (∀ t ∈ lex text, t.kind ≠ .quoted →
      (∀ c ∈ t.text.toList, isGap c = false) ∨ t.kind = .word ∧ t.text.toList.head? = some '"') ∧
    (String.join (words text)).toList.filter (!isGap ·) = text.toList.filter (!isGap ·) := by
  have hspells := spells_lexFrom 0 text.toList
  have hslices := slices_lex text
  refine ⟨?_, fun t ht => ⟨hspells t ht, ?_, (hslices t ht).stands, (hslices t ht).slice_eq⟩,
    ordered_lex text, fun before behind c htext h => ?_, fun t ht => (hspells t ht).gapless, ?_⟩
  · exact length_lexFrom_le 0 text.toList
  · obtain ⟨before, behind, -, -, hstop⟩ := hslices t ht
    obtain ⟨c, cs, hchars⟩ := List.exists_cons_of_ne_nil (hspells t ht).ne_nil
    obtain ⟨n, hn⟩ := Text.byteLength_cons_pos c cs
    rw [hchars, hn] at hstop
    omega
  · refine isGap_of_uncovered 0 text.toList before.toList c behind.toList (by simp [htext]) ?_
    rwa [Nat.zero_add, Text.byteLength_toList]
  · rw [String.toList_join, words, List.flatMap_map]
    exact filter_lexFrom 0 text.toList

end CommandScript
