import CommandScript.Json.Reader
import CommandScript.Proofs.Traversal

/-!
# Reading written JSON

A value is written in two ways, on one line and over several, and both are
read back. What they have in common is a text with blanks only where the
format allows them (`Json.Written`), and the reader takes every such text for
the value it is of, whatever stands behind it (`Json.Written.reads`). So there
is one proof about the reader, and one for each of the writers.

Numbers other than digits, and strings that are no text, are kept as they were
read. No value with one of them is considered here (`Json.Legible`).
-/

namespace CommandScript.Json

/-! ## Numbers -/

/-- A number but 0 is not written with a zero in front. -/
theorem toDigits_eq_cons {n : Nat} (hn : 0 < n) :
    ∃ c cs, Nat.toDigits 10 n = c :: cs ∧ c ≠ '0' := by
  have hdigit : ∀ m < 10, 0 < m → Nat.digitChar m ≠ '0' := by decide
  induction n using Nat.strongRecOn with
  | ind n ih =>
    by_cases hlt : n < 10
    · exact ⟨Nat.digitChar n, [], Nat.toDigits_of_lt_base hlt, hdigit n hlt hn⟩
    · obtain ⟨c, cs, hcs, hc⟩ := ih (n / 10) (by omega) (by omega)
      refine ⟨c, cs ++ [Nat.digitChar (n % 10)], ?_, hc⟩
      rw [Nat.toDigits_of_base_le (by decide) (by omega), hcs, List.cons_append]

theorem isDigit_of_mem_toDigits {n : Nat} {c : Char} (h : c ∈ Nat.toDigits 10 n) :
    c.isDigit = true :=
  Nat.isDigit_of_mem_toDigits (by decide) (by decide) h

theorem isInteger_toDigits (n : Nat) : isInteger (Nat.toDigits 10 n) = true := by
  by_cases hn : n = 0
  · subst hn
    rfl
  · obtain ⟨c, cs, hcs, hc⟩ := toDigits_eq_cons (Nat.pos_of_ne_zero hn)
    have hdigits : ∀ d ∈ c :: cs, d.isDigit = true := fun d hd =>
      isDigit_of_mem_toDigits (hcs ▸ hd)
    rw [hcs]
    unfold isInteger
    split
    · rename_i hnil
      cases hnil
    · rfl
    · rename_i hcons
      cases hcons
      simpa [hc] using hdigits

theorem numeral?_toDigits (n : Nat) : numeral? (Nat.toDigits 10 n) = some (.number n) := by
  have hvalue : digitsValue (Nat.toDigits 10 n) = n :=
    Nat.ofDigitChars_toDigits (by decide) (by decide)
  exact (if_pos (isInteger_toDigits n)).trans (by rw [hvalue])

/-! ## Strings -/

/-- What an escape stands for joins what is read behind it. -/
theorem readChars_escaped {bound : Nat} {c : Char} {cs rest : List Char}
    (h : readEscape cs = some (some c, rest)) :
    readChars (bound + 1) ('\\' :: cs) =
      (readChars bound rest).map (Prod.map (Option.map (c :: ·)) id) := by
  simp only [readChars, h, Option.bind_eq_bind, Option.bind_some]
  cases readChars bound rest <;> rfl

theorem readChars_plain {bound : Nat} {c : Char} (hquote : c ≠ '"') (hslash : c ≠ '\\')
    (hcontrol : ¬ c.toNat < 0x20) (cs : List Char) :
    readChars (bound + 1) (c :: cs) =
      (readChars bound cs).map (Prod.map (Option.map (c :: ·)) id) := by
  rw [readChars, if_neg hcontrol]
  · cases readChars bound cs <;> rfl
  · exact hquote
  · exact hslash

theorem hexDigit?_digitChar : ∀ n < 16, hexDigit? (Nat.digitChar n) = some n := by decide

/-- A control character is read from its number. -/
theorem readEscape_control {c : Char} (h : c.toNat < 0x20) (cs : List Char) :
    readEscape ('u' :: '0' :: '0' :: ((hexByte c.toNat).toList ++ cs)) = some (some c, cs) := by
  have hhigh := hexDigit?_digitChar (c.toNat / 16) (by omega)
  have hlow := hexDigit?_digitChar (c.toNat % 16) (by omega)
  have hvalue : ((0 * 16 + 0) * 16 + c.toNat / 16) * 16 + c.toNat % 16 = c.toNat := by omega
  have hunit : readUnit ('0' :: '0' :: ((hexByte c.toNat).toList ++ cs)) = some (c.toNat, cs) := by
    rw [hexByte, String.toList_ofList]
    simp only [List.cons_append, List.nil_append, readUnit, hhigh, hlow]
    exact congrArg (fun n => some (n, cs)) hvalue
  have hhighless : isHighSurrogate c.toNat = false := by simp [isHighSurrogate]; omega
  have hlowless : isLowSurrogate c.toNat = false := by simp [isLowSurrogate]; omega
  rw [readEscape, readCode, hunit]
  simp [hhighless, hlowless]

/-- A character is read from its written form. -/
theorem readChars_escape (bound : Nat) (c : Char) (cs : List Char) :
    readChars (bound + 1) ((escape c).toList ++ cs) =
      (readChars bound cs).map (Prod.map (Option.map (c :: ·)) id) := by
  unfold escape
  split
  · exact readChars_escaped rfl
  · exact readChars_escaped rfl
  · exact readChars_escaped rfl
  · exact readChars_escaped rfl
  · exact readChars_escaped rfl
  · exact readChars_escaped rfl
  · exact readChars_escaped rfl
  · rename_i hquote hslash _ _ _ _ _
    split
    · rename_i hcontrol
      rw [String.toList_append]
      exact readChars_escaped (readEscape_control hcontrol cs)
    · rename_i hcontrol
      rw [Char.toString, String.toList_singleton]
      exact readChars_plain hquote hslash hcontrol cs

/-- The inside of a written string. -/
def stringBody (s : String) : List Char := s.toList.flatMap fun c => (escape c).toList

theorem toList_writeString (s : String) :
    (writeString s).toList = '"' :: (stringBody s ++ ['"']) := by
  simp [writeString, stringBody, String.toList_join, List.flatMap_map]

theorem length_escape_pos (c : Char) : 0 < (escape c).toList.length := by
  unfold escape
  split
  any_goals decide
  split
  · simp
  · simp

/-- A string is read from its written form, whatever stands behind it. -/
theorem readString_stringBody (s : String) (rest : List Char) :
    readString (stringBody s ++ '"' :: rest) = some (some s, rest) := by
  have hchars (cs : List Char) (bound : Nat)
      (h : (cs.flatMap fun c => (escape c).toList).length < bound) :
      readChars bound (cs.flatMap (fun c => (escape c).toList) ++ '"' :: rest) =
        some (some cs, rest) := by
    induction cs generalizing bound with
    | nil =>
      obtain ⟨bound, rfl⟩ := Nat.exists_eq_succ_of_ne_zero (Nat.ne_of_gt h)
      rfl
    | cons c cs ih =>
      rw [List.flatMap_cons, List.length_append] at h
      have hpos := length_escape_pos c
      obtain ⟨bound, rfl⟩ : ∃ k, bound = k + 1 := ⟨bound - 1, by omega⟩
      rw [List.flatMap_cons, List.append_assoc, readChars_escape, ih bound (by omega)]
      rfl
  rw [readString, stringBody, hchars s.toList _ (by rw [List.length_append]; omega)]
  simp

/-! ## Blanks -/

def IsBlank (b : List Char) : Prop := ∀ c ∈ b, isSpace c = true

theorem skipSpace_append {b : List Char} (hb : IsBlank b) (cs : List Char) :
    skipSpace (b ++ cs) = skipSpace cs :=
  List.dropWhile_append_of_pos hb

theorem skipSpace_cons {c : Char} (hc : isSpace c = false) (cs : List Char) :
    skipSpace (c :: cs) = c :: cs := by
  simp [skipSpace, hc]

theorem readValue_append {b : List Char} (hb : IsBlank b) (bound : Nat) (cs : List Char) :
    readValue bound (b ++ cs) = readValue bound cs := by
  cases bound with
  | zero => rfl
  | succ bound => simp only [readValue, skipSpace_append hb]

theorem readItems_append {b : List Char} (hb : IsBlank b) (bound : Nat) (cs : List Char) :
    readItems bound (b ++ cs) = readItems bound cs := by
  cases bound with
  | zero => rfl
  | succ bound => simp only [readItems, readValue_append hb]

theorem readFields_append {b : List Char} (hb : IsBlank b) (bound : Nat) (cs : List Char) :
    readFields bound (b ++ cs) = readFields bound cs := by
  cases bound with
  | zero => rfl
  | succ bound => simp only [readFields, skipSpace_append hb]

theorem ne_of_isDigit {c d : Char} (hc : c.isDigit = true) (hd : d.isDigit = false) : c ≠ d := by
  rintro rfl
  exact Bool.false_ne_true (hd.symm.trans hc)

theorem isSpace_of_isDigit {c : Char} (hc : c.isDigit = true) : isSpace c = false := by
  have hblank : c ≠ ' ' := ne_of_isDigit hc rfl
  have htab : c ≠ '\t' := ne_of_isDigit hc rfl
  have hline : c ≠ '\n' := ne_of_isDigit hc rfl
  have hreturn : c ≠ '\r' := ne_of_isDigit hc rfl
  simp [isSpace, hblank, htab, hline, hreturn]

/-! ## Written texts -/

/-- What is written: a value, or the inside of an array or object with the
bracket that closes it. -/
inductive Piece where
  | value (v : Json)
  | items (vs : List Json)
  | fields (fs : List (String × Json))

/-- `Written piece cs`: the characters `cs` are a text of `piece`. -/
inductive Written : Piece → List Char → Prop where
  | null : Written (.value .null) "null".toList
  | bool (b : Bool) : Written (.value (.bool b)) (writeBool b).toList
  | number (n : Nat) : Written (.value (.number n)) (Nat.toDigits 10 n)
  | string (s : String) : Written (.value (.string s)) ('"' :: (stringBody s ++ ['"']))
  | emptyArray : Written (.value (.array [])) ['[', ']']
  | array {vs : List Json} {b cs : List Char} (hb : IsBlank b) (items : Written (.items vs) cs) :
      Written (.value (.array vs)) ('[' :: (b ++ cs))
  | emptyObject : Written (.value (.object [])) ['\x7b', '\x7d']
  | object {fs : List (String × Json)} {b cs : List Char} (hb : IsBlank b)
      (fields : Written (.fields fs) cs) : Written (.value (.object fs)) ('\x7b' :: (b ++ cs))
  | lastItem {v : Json} {b cs : List Char} (first : Written (.value v) cs) (hb : IsBlank b) :
      Written (.items [v]) (cs ++ (b ++ [']']))
  | item {v : Json} {vs : List Json} {b cs ds : List Char} (first : Written (.value v) cs)
      (hb : IsBlank b) (others : Written (.items vs) ds) :
      Written (.items (v :: vs)) (cs ++ ',' :: (b ++ ds))
  | lastField {k : String} {v : Json} {b b' cs : List Char} (hb : IsBlank b)
      (first : Written (.value v) cs) (hb' : IsBlank b') :
      Written (.fields [(k, v)])
        ('"' :: (stringBody k ++ '"' :: ':' :: (b ++ (cs ++ (b' ++ ['\x7d'])))))
  | field {k : String} {v : Json} {fs : List (String × Json)} {b b' cs ds : List Char}
      (hb : IsBlank b) (first : Written (.value v) cs) (hb' : IsBlank b')
      (others : Written (.fields fs) ds) :
      Written (.fields ((k, v) :: fs))
        ('"' :: (stringBody k ++ '"' :: ':' :: (b ++ (cs ++ ',' :: (b' ++ ds)))))

namespace Written

/-- A text starts with no blank, and not with a bracket that closes. -/
theorem head {piece : Piece} {cs : List Char} (h : Written piece cs) :
    ∃ c ds, cs = c :: ds ∧ isSpace c = false ∧ c ≠ ']' ∧ c ≠ '\x7d' := by
  induction h with
  | null => exact ⟨_, _, rfl, by decide⟩
  | bool b => cases b <;> exact ⟨_, _, rfl, by decide⟩
  | number n =>
    obtain ⟨c, ds, hcs⟩ := List.exists_cons_of_ne_nil (Nat.toDigits_ne_nil (b := 10) (n := n))
    have hdigit : c.isDigit = true := isDigit_of_mem_toDigits (hcs ▸ List.mem_cons_self)
    exact ⟨c, ds, hcs, isSpace_of_isDigit hdigit, ne_of_isDigit hdigit rfl,
      ne_of_isDigit hdigit rfl⟩
  | string | emptyArray | array | emptyObject | object | lastField | field =>
    exact ⟨_, _, rfl, by decide⟩
  | lastItem _ _ ih | item _ _ _ ih =>
    obtain ⟨c, ds, rfl, hc⟩ := ih
    exact ⟨c, _, rfl, hc⟩

end Written

/-- A number does not go on in what stands behind it. -/
def Ends (rest : List Char) : Prop := ∀ c ∈ rest.head?, isNumeralChar c = false

theorem readValue_number (bound n : Nat) {rest : List Char} (hrest : Ends rest) :
    readValue (bound + 1) (Nat.toDigits 10 n ++ rest) = some (.number n, rest) := by
  have hnumeral : ∀ c ∈ Nat.toDigits 10 n, isNumeralChar c = true := fun c hc => by
    simp [isNumeralChar, isDigit_of_mem_toDigits hc]
  have htake : (Nat.toDigits 10 n ++ rest).takeWhile isNumeralChar = Nat.toDigits 10 n := by
    rw [List.takeWhile_append_of_pos hnumeral]
    cases rest with
    | nil => simp
    | cons c rest => simp [hrest c rfl]
  have hdrop : (Nat.toDigits 10 n ++ rest).dropWhile isNumeralChar = rest := by
    rw [List.dropWhile_append_of_pos hnumeral]
    cases rest with
    | nil => rfl
    | cons c rest => simp [hrest c rfl]
  obtain ⟨c, ds, hcs⟩ := List.exists_cons_of_ne_nil (Nat.toDigits_ne_nil (b := 10) (n := n))
  have hdigit : c.isDigit = true := isDigit_of_mem_toDigits (hcs ▸ List.mem_cons_self)
  have hskip : skipSpace (Nat.toDigits 10 n ++ rest) = Nat.toDigits 10 n ++ rest := by
    rw [hcs, List.cons_append, skipSpace_cons (isSpace_of_isDigit hdigit)]
  have hfirst {d : Char} {es : List Char} (h : Nat.toDigits 10 n ++ rest = d :: es) :
      d.isDigit = true := by
    rw [hcs, List.cons_append] at h
    cases h
    exact hdigit
  -- A digit selects the last case: none of the others starts with one.
  rw [readValue, hskip]
  split
  iterate 6
    · rename_i h
      cases hfirst h
  · rw [htake, hdrop, numeral?_toDigits]
    rfl

theorem readValue_string (bound : Nat) (s : String) (rest : List Char) :
    readValue (bound + 1) ('"' :: (stringBody s ++ '"' :: rest)) = some (.string s, rest) := by
  rw [readValue, skipSpace_cons (by decide)]
  simp only [readString_stringBody]
  rfl

theorem readValue_array (bound : Nat) {c : Char} {cs ds : List Char}
    (hcs : skipSpace cs = c :: ds) (hc : c ≠ ']') :
    readValue (bound + 1) ('[' :: cs) =
      (readItems bound (c :: ds)).map (Prod.map Json.array id) := by
  rw [readValue, skipSpace_cons (by decide)]
  simp only [hcs]
  split
  · rename_i h
    cases h
    exact absurd rfl hc
  · rfl

theorem readValue_object (bound : Nat) {c : Char} {cs ds : List Char}
    (hcs : skipSpace cs = c :: ds) (hc : c ≠ '\x7d') :
    readValue (bound + 1) ('\x7b' :: cs) =
      (readFields bound (c :: ds)).map fun p => (ofFields (c :: ds) p.2 p.1, p.2) := by
  rw [readValue, skipSpace_cons (by decide)]
  simp only [hcs]
  split
  · rename_i h
    cases h
    exact absurd rfl hc
  · rfl

theorem readItems_last {bound : Nat} {v : Json} {cs rest : List Char}
    (hfirst : readValue bound cs = some (v, rest)) {rest' : List Char}
    (hrest : skipSpace rest = ']' :: rest') :
    readItems (bound + 1) cs = some ([v], rest') := by
  simp only [readItems, hfirst, Option.bind_eq_bind, Option.bind_some, hrest]

theorem readItems_more {bound : Nat} {v : Json} {vs : List Json} {cs rest : List Char}
    (hfirst : readValue bound cs = some (v, rest)) {rest' rest'' : List Char}
    (hrest : skipSpace rest = ',' :: rest') (hothers : readItems bound rest' = some (vs, rest'')) :
    readItems (bound + 1) cs = some (v :: vs, rest'') := by
  simp only [readItems, hfirst, Option.bind_eq_bind, Option.bind_some, hrest, hothers]

theorem readFields_last {bound : Nat} {v : Json} {cs rest : List Char} (k : String)
    (hfirst : readValue bound cs = some (v, rest)) {rest' : List Char}
    (hrest : skipSpace rest = '\x7d' :: rest') :
    readFields (bound + 1) ('"' :: (stringBody k ++ '"' :: ':' :: cs)) =
      some ([(some k, v)], rest') := by
  have hcolon : skipSpace (':' :: cs) = ':' :: cs := skipSpace_cons (by decide) cs
  rw [readFields, skipSpace_cons (by decide)]
  simp only [readString_stringBody, Option.bind_eq_bind, Option.bind_some, hcolon, hfirst, hrest]

theorem readFields_more {bound : Nat} {v : Json} {fs : List (Option String × Json)}
    {cs rest : List Char} (k : String) (hfirst : readValue bound cs = some (v, rest))
    {rest' rest'' : List Char} (hrest : skipSpace rest = ',' :: rest')
    (hothers : readFields bound rest' = some (fs, rest'')) :
    readFields (bound + 1) ('"' :: (stringBody k ++ '"' :: ':' :: cs)) =
      some ((some k, v) :: fs, rest'') := by
  have hcolon : skipSpace (':' :: cs) = ':' :: cs := skipSpace_cons (by decide) cs
  rw [readFields, skipSpace_cons (by decide)]
  simp only [readString_stringBody, Option.bind_eq_bind, Option.bind_some, hcolon, hfirst, hrest,
    hothers]

/-- Fields whose keys are texts make an object. -/
theorem ofFields_some (cs rest : List Char) (fs : List (String × Json)) :
    ofFields cs rest (fs.map fun p => (some p.1, p.2)) = .object fs := by
  have hfields : (fs.map fun p => (some p.1, p.2)).mapM (fun p : Option String × Json =>
      p.1.map (·, p.2)) = some fs := mapM_map_eq_pure fun _ _ => rfl
  rw [ofFields]
  simp only [hfields]

/-- What the reader makes of a piece: the piece, and the rest of the text. -/
def Piece.IsRead (bound : Nat) (cs rest : List Char) : Piece → Prop
  | value v => Ends rest → readValue bound (cs ++ rest) = some (v, rest)
  | items vs => readItems bound (cs ++ rest) = some (vs, rest)
  | fields fs => readFields bound (cs ++ rest) = some (fs.map fun p => (some p.1, p.2), rest)

theorem skipSpace_mark {b : List Char} (hb : IsBlank b) {c : Char} (hc : isSpace c = false)
    (rest : List Char) : skipSpace (b ++ c :: rest) = c :: rest := by
  rw [skipSpace_append hb, skipSpace_cons hc]

theorem ends_mark {b : List Char} (hb : IsBlank b) {c : Char} (hc : isNumeralChar c = false)
    (rest : List Char) : Ends (b ++ c :: rest) := by
  intro d hd
  cases b with
  | nil => exact Option.some.inj hd ▸ hc
  | cons e b =>
    obtain rfl := Option.some.inj hd
    have hspace : ((e = ' ' ∨ e = '\t') ∨ e = '\n') ∨ e = '\r' := by
      simpa [isSpace] using hb e List.mem_cons_self
    obtain ((rfl | rfl) | rfl) | rfl := hspace <;> rfl

/-- Every text of a piece is read as that piece, if the bound allows for its
length. -/
theorem Written.reads {piece : Piece} {cs : List Char} (h : Written piece cs) (bound : Nat)
    (hbound : cs.length ≤ bound) (rest : List Char) : piece.IsRead (bound + 1) cs rest := by
  induction h generalizing bound rest with
  | null => exact fun _ => rfl
  | bool b => cases b <;> exact fun _ => rfl
  | number n => exact readValue_number bound n
  | string s =>
    intro _
    rw [List.cons_append, List.append_assoc]
    exact readValue_string bound s rest
  | emptyArray => exact fun _ => rfl
  | @array vs b cs hb items ih =>
    intro _
    obtain ⟨c, ds, rfl, hspace, hclose, -⟩ := items.head
    rw [List.length_cons, List.length_append] at hbound
    obtain ⟨bound, rfl⟩ : ∃ k, bound = k + 1 := ⟨bound - 1, by omega⟩
    have hitems := ih bound (by omega) rest
    rw [List.cons_append, List.append_assoc, List.cons_append,
      readValue_array _ (skipSpace_mark hb hspace (ds ++ rest)) hclose]
    rw [Piece.IsRead, List.cons_append] at hitems
    rw [hitems]
    rfl
  | emptyObject => exact fun _ => rfl
  | @object fs b cs hb fields ih =>
    intro _
    obtain ⟨c, ds, rfl, hspace, -, hclose⟩ := fields.head
    rw [List.length_cons, List.length_append] at hbound
    obtain ⟨bound, rfl⟩ : ∃ k, bound = k + 1 := ⟨bound - 1, by omega⟩
    have hfields := ih bound (by omega) rest
    rw [List.cons_append, List.append_assoc, List.cons_append,
      readValue_object _ (skipSpace_mark hb hspace (ds ++ rest)) hclose]
    rw [Piece.IsRead, List.cons_append] at hfields
    rw [hfields, Option.map_some, ofFields_some]
  | @lastItem v b cs first hb ih =>
    rw [List.length_append, List.length_append, List.length_singleton] at hbound
    obtain ⟨bound, rfl⟩ : ∃ k, bound = k + 1 := ⟨bound - 1, by omega⟩
    have hfirst := ih bound (by omega) (b ++ ']' :: rest) (ends_mark hb rfl rest)
    rw [Piece.IsRead, List.append_assoc, List.append_assoc]
    exact readItems_last hfirst (skipSpace_mark hb rfl rest)
  | @item v vs b cs ds first hb others ih₁ ih₂ =>
    rw [List.length_append, List.length_cons, List.length_append] at hbound
    obtain ⟨bound, rfl⟩ : ∃ k, bound = k + 1 := ⟨bound - 1, by omega⟩
    have hfirst := ih₁ bound (by omega) (',' :: (b ++ (ds ++ rest)))
      (ends_mark (b := []) nofun rfl _)
    have hothers := ih₂ bound (by omega) rest
    rw [Piece.IsRead, ← readItems_append hb] at hothers
    rw [Piece.IsRead, List.append_assoc, List.cons_append, List.append_assoc]
    exact readItems_more hfirst (skipSpace_cons rfl _) hothers
  | @lastField k v b b' cs hb first hb' ih =>
    simp only [List.length_append, List.length_cons, List.length_nil] at hbound
    obtain ⟨bound, rfl⟩ : ∃ k, bound = k + 1 := ⟨bound - 1, by omega⟩
    have hfirst := ih bound (by omega) (b' ++ '\x7d' :: rest) (ends_mark hb' rfl rest)
    rw [← readValue_append hb] at hfirst
    simp only [Piece.IsRead, List.append_assoc, List.cons_append, List.nil_append, List.map_cons,
      List.map_nil]
    exact readFields_last k hfirst (skipSpace_mark hb' rfl rest)
  | @field k v fs b b' cs ds hb first hb' others ih₁ ih₂ =>
    simp only [List.length_append, List.length_cons] at hbound
    obtain ⟨bound, rfl⟩ : ∃ k, bound = k + 1 := ⟨bound - 1, by omega⟩
    have hfirst := ih₁ bound (by omega) (',' :: (b' ++ (ds ++ rest)))
      (ends_mark (b := []) nofun rfl _)
    have hothers := ih₂ bound (by omega) rest
    rw [Piece.IsRead, ← readFields_append hb'] at hothers
    rw [← readValue_append hb] at hfirst
    simp only [Piece.IsRead, List.append_assoc, List.cons_append, List.map_cons]
    exact readFields_more k hfirst (skipSpace_cons rfl _) hothers

/-- The text of a value is read as that value. -/
theorem Written.parse?_eq {v : Json} {text : String} (h : Written (.value v) text.toList) :
    parse? text = some v := by
  have hread : readValue (text.toList.length + 1) text.toList = some (v, []) := by
    have hread := h.reads _ (Nat.le_refl _) [] (fun c hc => nomatch hc)
    rwa [List.append_nil] at hread
  rw [parse?]
  simp only [hread]
  rfl

/-! ## The two writers -/

/-- The value holds no number but those of digits, and all its strings and
keys are texts. -/
inductive Legible : Json → Prop where
  | null : Legible .null
  | bool (b : Bool) : Legible (.bool b)
  | number (n : Nat) : Legible (.number n)
  | string (s : String) : Legible (.string s)
  | array {vs : List Json} (items : ∀ v ∈ vs, Legible v) : Legible (.array vs)
  | object {fs : List (String × Json)} (fields : ∀ p ∈ fs, Legible p.2) : Legible (.object fs)

theorem isBlank_nil : IsBlank [] := nofun

theorem isBlank_blank : IsBlank [' '] := by
  simp [IsBlank, isSpace]

theorem isBlank_margin (depth : Nat) : IsBlank (margin depth).toList := by
  simp [IsBlank, margin, isSpace]

namespace Written

theorem compactItems (v : Json) {vs : List Json}
    (h : ∀ w ∈ v :: vs, Written (.value w) w.compact.toList) :
    Written (.items (v :: vs)) ((Json.compactItems (v :: vs)).toList ++ [']']) := by
  have hfirst := h v List.mem_cons_self
  induction vs generalizing v with
  | nil =>
    have hlast := Written.lastItem hfirst isBlank_nil
    simpa [Json.compactItems] using hlast
  | cons w vs ih =>
    have hothers := ih w (fun u hu => h u (List.mem_cons_of_mem _ hu)) (h w (by simp))
    have hitems := Written.item hfirst isBlank_nil hothers
    simpa [Json.compactItems] using hitems

theorem compactFields (p : String × Json) {fs : List (String × Json)}
    (h : ∀ q ∈ p :: fs, Written (.value q.2) q.2.compact.toList) :
    Written (.fields (p :: fs)) ((Json.compactFields (p :: fs)).toList ++ ['\x7d']) := by
  have hfirst := h p List.mem_cons_self
  induction fs generalizing p with
  | nil =>
    have hlast := Written.lastField (k := p.1) isBlank_nil hfirst isBlank_nil
    simpa [Json.compactFields, toList_writeString] using hlast
  | cons q fs ih =>
    have hothers := ih q (fun u hu => h u (List.mem_cons_of_mem _ hu)) (h q (by simp))
    have hfields := Written.field (k := p.1) isBlank_nil hfirst isBlank_nil hothers
    simpa [Json.compactFields, toList_writeString] using hfields

theorem prettyItems (depth : Nat) (v : Json) {vs : List Json}
    (h : ∀ w ∈ v :: vs, Written (.value w) (w.prettyAt depth).toList) {b : List Char}
    (hb : IsBlank b) :
    Written (.items (v :: vs))
      ((v.prettyAt depth).toList ++ ((Json.prettyItems depth vs).toList ++ (b ++ [']']))) := by
  have hfirst := h v List.mem_cons_self
  induction vs generalizing v with
  | nil =>
    have hlast := Written.lastItem hfirst hb
    simpa [Json.prettyItems] using hlast
  | cons w vs ih =>
    have hothers := ih w (fun u hu => h u (List.mem_cons_of_mem _ hu)) (h w (by simp))
    have hitems := Written.item hfirst (isBlank_margin depth) hothers
    simpa [Json.prettyItems] using hitems

theorem prettyFields (depth : Nat) (p : String × Json) {fs : List (String × Json)}
    (h : ∀ q ∈ p :: fs, Written (.value q.2) (q.2.prettyAt depth).toList) {b : List Char}
    (hb : IsBlank b) :
    Written (.fields (p :: fs))
      ((writeString p.1).toList ++ ':' :: ' ' :: ((p.2.prettyAt depth).toList ++
        ((Json.prettyFields depth fs).toList ++ (b ++ ['\x7d'])))) := by
  have hfirst := h p List.mem_cons_self
  induction fs generalizing p with
  | nil =>
    have hlast := Written.lastField (k := p.1) isBlank_blank hfirst hb
    simpa [Json.prettyFields, toList_writeString] using hlast
  | cons q fs ih =>
    have hothers := ih q (fun u hu => h u (List.mem_cons_of_mem _ hu)) (h q (by simp))
    have hfields := Written.field (k := p.1) isBlank_blank hfirst (isBlank_margin depth) hothers
    simpa [Json.prettyFields, toList_writeString] using hfields

end Written

namespace Legible

variable {v : Json}

theorem written_compact (h : Legible v) : Written (.value v) v.compact.toList := by
  induction h with
  | null => exact .null
  | bool b => exact .bool b
  | number n =>
    rw [compact, Nat.toList_repr]
    exact .number n
  | string s =>
    rw [compact, toList_writeString]
    exact .string s
  | @array vs _ ih =>
    cases vs with
    | nil => exact .emptyArray
    | cons v vs =>
      have hitems := Written.array isBlank_nil (.compactItems v ih)
      simpa [compact] using hitems
  | @object fs _ ih =>
    cases fs with
    | nil => exact .emptyObject
    | cons p fs =>
      have hfields := Written.object isBlank_nil (.compactFields p ih)
      simpa [compact] using hfields

theorem written_prettyAt (h : Legible v) (depth : Nat) :
    Written (.value v) (v.prettyAt depth).toList := by
  induction h generalizing depth with
  | null => exact .null
  | bool b => exact .bool b
  | number n =>
    rw [prettyAt, Nat.toList_repr]
    exact .number n
  | string s =>
    rw [prettyAt, toList_writeString]
    exact .string s
  | @array vs _ ih =>
    cases vs with
    | nil =>
      rw [prettyAt]
      exact .emptyArray
    | cons v vs =>
      have hitems := Written.array (isBlank_margin (depth + 1))
        (.prettyItems (depth + 1) v (fun w hw => ih w hw (depth + 1)) (isBlank_margin depth))
      simpa [prettyAt] using hitems
  | @object fs _ ih =>
    cases fs with
    | nil =>
      rw [prettyAt]
      exact .emptyObject
    | cons p fs =>
      have hfields := Written.object (isBlank_margin (depth + 1))
        (.prettyFields (depth + 1) p (fun q hq => ih q hq (depth + 1)) (isBlank_margin depth))
      simpa [prettyAt] using hfields

/-- A value is read back from the line it is written on. -/
theorem parse?_compact (h : Legible v) : parse? v.compact = some v :=
  h.written_compact.parse?_eq

/-- A value is read back from the lines it is written on. -/
theorem parse?_pretty (h : Legible v) : parse? v.pretty = some v :=
  (h.written_prettyAt 0).parse?_eq

end Legible

end CommandScript.Json
