import CommandScript.Proofs.Lexing
import Mathlib.Data.List.TakeWhile

/-!
# Statements spelled with spaces

Two texts with a space between them have the tokens of the one and behind them
those of the other (`Token.lex_spaced`). Tokens do not run over a space unless
they are quoted strings, so the first text must not have a quote that nothing
closes (`Token.Closed`).

So a statement that is put together of a keyword, a space and some text is
taken apart again at the space: the keyword is the leading field and the first
token, and a block header gives back its selector (`ofText?_spelled`).
-/

namespace CommandScript

open Text (isBlank byteLength)

namespace Text

/-! ## Trimmed texts -/

/-- Neither end is a blank. -/
structure Tight (cs : List Char) : Prop where
  first : ∀ c, cs.head? = some c → isBlank c = false
  last : ∀ c, cs.getLast? = some c → isBlank c = false

theorem trimLeftChars_eq_self_iff {cs : List Char} :
    trimLeftChars cs = cs ↔ ∀ c, cs.head? = some c → isBlank c = false := by
  rw [trimLeftChars]
  cases cs with
  | nil => simp
  | cons c cs =>
    cases hc : isBlank c with
    | false => simp [hc]
    | true =>
      have hlength := (List.dropWhile_suffix isBlank (l := cs)).length_le
      refine iff_of_false (fun h => ?_) (by simp [hc])
      rw [List.dropWhile_cons, if_pos hc] at h
      rw [h, List.length_cons] at hlength
      omega

theorem trimRightChars_eq_self_iff {cs : List Char} :
    trimRightChars cs = cs ↔ ∀ c, cs.getLast? = some c → isBlank c = false := by
  rw [trimRightChars, List.reverse_eq_iff, ← List.head?_reverse]
  exact trimLeftChars_eq_self_iff

/-- What is its own trimmed text has no blank at its ends. -/
theorem trimChars_eq_self_iff {cs : List Char} : trimChars cs = cs ↔ Tight cs := by
  constructor
  · intro h
    have hsuffix : trimLeftChars cs <:+ cs := List.dropWhile_suffix _
    have hlength : cs.length ≤ (trimLeftChars cs).length :=
      calc cs.length = (trimChars cs).length := congrArg List.length h.symm
        _ = ((trimLeftChars cs).reverse.dropWhile isBlank).length := List.length_reverse
        _ ≤ (trimLeftChars cs).reverse.length := (List.dropWhile_suffix _).length_le
        _ = (trimLeftChars cs).length := List.length_reverse
    have hleft : trimLeftChars cs = cs :=
      hsuffix.eq_of_length (Nat.le_antisymm hsuffix.length_le hlength)
    rw [trimChars, hleft] at h
    exact ⟨trimLeftChars_eq_self_iff.mp hleft, trimRightChars_eq_self_iff.mp h⟩
  · intro h
    rw [trimChars, trimLeftChars_eq_self_iff.mpr h.first, trimRightChars_eq_self_iff.mpr h.last]

theorem trim_eq_self_iff {s : String} : trim s = s ↔ Tight s.toList := by
  rw [← trimChars_eq_self_iff, trim]
  constructor
  · intro h
    have h := congrArg String.toList h
    rwa [String.toList_ofList] at h
  · intro h
    rw [h, String.ofList_toList]

/-- The spaces around a text are trimmed, and nothing else of it. -/
theorem trimChars_padded {cs : List Char} (h : Tight cs) :
    trimChars (' ' :: (cs ++ [' '])) = cs := by
  have hspace : isBlank ' ' = true := by decide
  cases cs with
  | nil => decide
  | cons c cs =>
    have hleft : trimLeftChars (' ' :: (c :: cs ++ [' '])) = c :: cs ++ [' '] := by
      rw [trimLeftChars, List.dropWhile_cons, if_pos hspace]
      exact trimLeftChars_eq_self_iff.mpr h.first
    have hright := trimRightChars_eq_self_iff.mpr h.last
    rw [trimRightChars] at hright
    rw [trimChars, hleft, trimRightChars, List.reverse_append, List.reverse_singleton,
      List.singleton_append, List.dropWhile_cons, if_pos hspace, hright]

/-! ## Fields and offsets -/

/-- Bytes are counted as strings have them. -/
theorem byteLength_toList (s : String) : byteLength s.toList = s.utf8ByteSize := by
  have hchars (cs : List Char) : byteLength cs = (String.ofList cs).utf8ByteSize := by
    induction cs with
    | nil => rfl
    | cons c cs ih =>
      rw [byteLength, ih, String.ofList_cons, String.utf8ByteSize_append,
        String.utf8ByteSize_singleton]
  rw [hchars, String.ofList_toList]

theorem fieldChars_blank {c : Char} (h : isBlank c = true) (cs : List Char) :
    fieldChars (c :: cs) = fieldChars cs := if_pos h

theorem fieldChars_last {c d : Char} (hc : isBlank c = false) (hd : isBlank d = true)
    (cs : List Char) : fieldChars (c :: d :: cs) = [c] :: fieldChars cs := by
  refine (if_neg (Bool.eq_false_iff.mp hc)).trans ?_
  rw [fieldChars_blank hd]
  cases fieldChars cs with
  | nil => rfl
  | cons f fs => exact if_pos hd

theorem fieldChars_more {c d : Char} (hc : isBlank c = false) (hd : isBlank d = false)
    {cs f : List Char} {fs : List (List Char)} (h : fieldChars (d :: cs) = f :: fs) :
    fieldChars (c :: d :: cs) = (c :: f) :: fs := by
  refine (if_neg (Bool.eq_false_iff.mp hc)).trans ?_
  rw [h]
  exact if_neg (Bool.eq_false_iff.mp hd)

/-- A run of characters up to a blank is a field. -/
theorem fieldChars_append {w : List Char} (hne : w ≠ []) (hw : ∀ c ∈ w, isBlank c = false)
    {b : Char} (hb : isBlank b = true) (cs : List Char) :
    fieldChars (w ++ b :: cs) = w :: fieldChars cs := by
  induction w with
  | nil => exact absurd rfl hne
  | cons c w ih =>
    have hc : isBlank c = false := hw c List.mem_cons_self
    cases w with
    | nil => exact fieldChars_last hc hb cs
    | cons d w =>
      have hd : isBlank d = false := hw d (by simp)
      exact fieldChars_more hc hd (ih (by simp) fun c' hc' => hw c' (List.mem_cons_of_mem _ hc'))

theorem byteLength_cons_pos (c : Char) (cs : List Char) : ∃ n, byteLength (c :: cs) = n + 1 := by
  have hc := c.utf8Size_pos
  exact ⟨c.utf8Size + byteLength cs - 1, by rw [byteLength]; omega⟩

theorem dropBytes_append (cs ds : List Char) : dropBytes (byteLength cs) (cs ++ ds) = ds := by
  induction cs with
  | nil => rw [byteLength, dropBytes, List.nil_append]
  | cons c cs ih =>
    obtain ⟨n, hn⟩ := byteLength_cons_pos c cs
    rw [hn, List.cons_append, dropBytes, ← hn, byteLength, Nat.add_sub_cancel_left, ih]

theorem takeBytes_append (cs ds : List Char) : takeBytes (byteLength cs) (cs ++ ds) = cs := by
  induction cs with
  | nil => rw [byteLength, takeBytes]
  | cons c cs ih =>
    obtain ⟨n, hn⟩ := byteLength_cons_pos c cs
    rw [hn, List.cons_append, takeBytes, ← hn, byteLength, Nat.add_sub_cancel_left, ih]

end Text

/-! ## Tokens -/

namespace Token

/-- The token in a text that starts `n` bytes further on. -/
def shift (n : Nat) (t : Token) : Token := { t with start := n + t.start, stop := n + t.stop }

theorem lexFrom_add (n start : Nat) (cs : List Char) :
    lexFrom (n + start) cs = (lexFrom start cs).map (·.shift n) := by
  fun_induction lexFrom start cs with
  | case1 start => rw [lexFrom]; rfl
  | case2 start c cs hgap ih => rw [lexFrom, if_pos hgap, Nat.add_assoc, ih]
  | case3 start c cs hgap l stop ih =>
    rw [lexFrom, if_neg hgap, List.map_cons]
    simp only [Nat.add_assoc]
    rw [ih]
    rfl

/-- The token is no quote that stays open: if it starts with a quote, it is a
quoted string. -/
def Closed (t : Token) : Prop := t.text.toList.head? = some '"' → t.kind = .quoted

instance (t : Token) : Decidable t.Closed :=
  inferInstanceAs (Decidable (t.text.toList.head? = some '"' → t.kind = .quoted))

/-- A backslash ends the text, or has a character behind it. -/
theorem ne_backslash {c : Char} {cs : List Char} (hend : c = '\\' → cs = [] → False)
    (hescape : ∀ d ds, c = '\\' → cs = d :: ds → False) : c ≠ '\\' := by
  rintro rfl
  cases cs with
  | nil => exact hend rfl rfl
  | cons d ds => exact hescape d ds rfl rfl

/-- What follows a closed quoted string does not change it. -/
theorem quotedBody_append_of_closed {cs rest : List Char} (h : (quotedBody cs).2 = '"' :: rest)
    (ds : List Char) : quotedBody (cs ++ ds) = ((quotedBody cs).1, (quotedBody cs).2 ++ ds) := by
  fun_induction quotedBody cs with
  | case1 => cases h
  | case2 cs => rfl
  | case3 => cases h
  | case4 cs => cases h
  | case5 c cs hc ih => rw [List.cons_append, List.cons_append, quotedBody, ih h]; exact hc
  | case6 c cs hquote hend hline hescape ih =>
    have hbackslash := ne_backslash hend hescape
    rw [List.cons_append, quotedBody, ih h]
    · exact hquote
    · exact fun h => absurd h hbackslash
    · exact fun _ h => absurd h hbackslash
    · exact fun _ _ h => absurd h hbackslash

theorem head?_taken_lexeme (c : Char) (cs : List Char) : (lexeme c cs).taken.head? = some c := by
  unfold lexeme
  split
  · rfl
  split
  · rfl
  split
  · split <;> rfl
  · rfl

/-- What follows a token behind a gap does not change it. -/
theorem lexeme_append_gap {c d : Char} {cs : List Char} (hd : isGap d = true)
    (hclosed : c = '"' → (lexeme c cs).kind = .quoted) (ds : List Char) :
    lexeme c (cs ++ d :: ds) =
      ⟨(lexeme c cs).kind, (lexeme c cs).taken, (lexeme c cs).rest ++ d :: ds⟩ := by
  by_cases hopening : c = '\x7b'
  · simp only [lexeme, if_pos hopening]
  by_cases hclosing : c = '\x7d'
  · simp only [lexeme, if_neg hopening, if_pos hclosing]
  by_cases hquote : c = '"'
  · have hkind := hclosed hquote
    simp only [lexeme, if_neg hopening, if_neg hclosing, if_pos hquote] at hkind ⊢
    split at hkind
    · rename_i body rest hbody
      have hend : (quotedBody cs).2 = '"' :: rest := congrArg Prod.snd hbody
      rw [quotedBody_append_of_closed hend, hbody]
      rfl
    · cases hkind
  · have hword : isWordChar d = false := by simp [isWordChar, hd]
    have htake : (cs ++ d :: ds).takeWhile isWordChar = cs.takeWhile isWordChar := by
      rw [List.takeWhile_append, List.takeWhile_cons, hword]
      split
      · rename_i hall
        rw [(List.takeWhile_prefix _).eq_of_length hall]
        exact List.append_nil cs
      · rfl
    have hdrop : (cs ++ d :: ds).dropWhile isWordChar = cs.dropWhile isWordChar ++ d :: ds := by
      rw [List.dropWhile_append, List.dropWhile_cons, hword]
      split
      · rename_i hall
        rw [List.isEmpty_iff.mp hall]
        rfl
      · rfl
    simp only [lexeme, if_neg hopening, if_neg hclosing, if_neg hquote, htake, hdrop]

/-- The tokens of two texts with a gap between them. -/
theorem lexFrom_append_gap {start : Nat} {cs : List Char} {d : Char} (hd : isGap d = true)
    (hclosed : ∀ t ∈ lexFrom start cs, t.Closed) (ds : List Char) :
    lexFrom start (cs ++ d :: ds) =
      lexFrom start cs ++ lexFrom (start + byteLength cs + d.utf8Size) ds := by
  fun_induction lexFrom start cs with
  | case1 start => rw [List.nil_append, lexFrom, if_pos hd]; rfl
  | case2 start c cs hgap ih =>
    rw [List.cons_append, lexFrom, if_pos hgap, ih hclosed, byteLength, ← Nat.add_assoc start]
  | case3 start c cs hgap l stop ih =>
    have hfirst : c = '"' → l.kind = .quoted := by
      rintro rfl
      refine hclosed _ List.mem_cons_self ?_
      rw [String.toList_ofList]
      exact head?_taken_lexeme _ cs
    have hrest : stop + byteLength l.rest = start + byteLength (c :: cs) := by
      rw [← lexeme_append c cs, byteLength_append, ← Nat.add_assoc]
    rw [List.cons_append, lexFrom, if_neg hgap, lexeme_append_gap hd hfirst]
    simp only [List.cons_append]
    rw [ih fun t ht => hclosed t (List.mem_cons_of_mem _ ht), hrest]

/-- The tokens of two texts with a space between them. -/
theorem lex_spaced {a : String} (hclosed : ∀ t ∈ lex a, t.Closed) (b : String) :
    lex (a ++ " " ++ b) = lex a ++ (lex b).map (·.shift (a.utf8ByteSize + 1)) := by
  have htext : (a ++ " " ++ b).toList = a.toList ++ ' ' :: b.toList := by simp
  have hspace : ' '.utf8Size = 1 := rfl
  rw [lex, htext, lexFrom_append_gap (by decide) hclosed, lex, lex, ← lexFrom_add, Nat.zero_add,
    Nat.add_zero, Text.byteLength_toList, hspace]

/-- A text that is one word: no gap, brace or quote is in it. -/
def isWord (w : String) : Bool :=
  !w.toList.isEmpty && w.toList.all isWordChar

theorem isWord_iff {w : String} :
    isWord w = true ↔ w.toList ≠ [] ∧ ∀ c ∈ w.toList, isWordChar c = true := by
  simp [isWord]

theorem lex_word {w : String} (h : isWord w = true) : lex w = [⟨.word, w, 0, w.utf8ByteSize⟩] := by
  obtain ⟨hne, hchars⟩ := isWord_iff.mp h
  obtain ⟨c, cs, hw⟩ := List.exists_cons_of_ne_nil hne
  rw [hw, List.forall_mem_cons] at hchars
  obtain ⟨hc, hcs⟩ := hchars
  simp only [isWordChar, isBrace, Bool.not_eq_true', Bool.or_eq_false_iff, beq_eq_false_iff_ne]
    at hc
  have hlexeme : lexeme c cs = ⟨.word, c :: cs, []⟩ := by
    rw [lexeme, if_neg hc.1.2.1, if_neg hc.1.2.2, if_neg hc.2,
      List.takeWhile_eq_self_iff.mpr hcs, List.dropWhile_eq_nil_iff.mpr hcs]
  rw [lex, hw, lexFrom, if_neg (Bool.eq_false_iff.mp hc.1.1)]
  simp only [hlexeme, lexFrom]
  rw [← hw, String.ofList_toList, Text.byteLength_toList, Nat.zero_add]

/-- A word has no quote. -/
theorem closed_of_isWord {w : String} (h : isWord w = true) : ∀ t ∈ lex w, t.Closed := by
  rw [lex_word h]
  intro t ht hquote
  obtain rfl := List.mem_singleton.mp ht
  exact absurd ((isWord_iff.mp h).2 '"' (List.mem_of_head? hquote)) (by decide)

end Token

/-! ## Statements -/

/-- Something to start a statement with: a word without blanks. -/
def Token.isKeyword (k : String) : Bool :=
  !k.toList.isEmpty && k.toList.all fun c => isWordChar c && !isBlank c

/-- A header has a word for its first token and an opening brace for its last. -/
theorem Header.ofText?_of_lex {text : String} {first last : Token} {between : List Token}
    (h : Token.lex text = first :: (between ++ [last])) (hfirst : first.kind = .word)
    (hlast : last.kind = .opening) :
    Header.ofText? text = some ⟨first.text,
      Text.trim (.ofList (Text.slice first.stop last.start text.toList))⟩ := by
  have hbrace : (first :: (between ++ [last])).getLast? = some last := by
    rw [← List.cons_append, List.getLast?_concat]
  rw [Header.ofText?]
  simp only [h, List.head?_cons, hbrace]
  exact if_pos ⟨by simp, hfirst, hlast⟩

section Words

variable {k : String} (hk : Token.isWord k = true)

include hk

/-- The tokens of a statement are its first word and the tokens of the text. -/
theorem lex_spelled (s : String) :
    Token.lex (k ++ " " ++ s) = ⟨.word, k, 0, k.utf8ByteSize⟩ ::
      (Token.lex s).map (·.shift (k.utf8ByteSize + 1)) := by
  rw [Token.lex_spaced (Token.closed_of_isWord hk), Token.lex_word hk, List.singleton_append]

theorem words_spelled (s : String) : Token.words (k ++ " " ++ s) = k :: Token.words s := by
  rw [Token.words, lex_spelled hk, List.map_cons, List.map_map]
  rfl

/-- A block header gives back its keyword and its selector. -/
theorem ofText?_spelled {s : String} (htight : Text.Tight s.toList)
    (hclosed : ∀ t ∈ Token.lex s, t.Closed) :
    Header.ofText? (k ++ " " ++ s ++ " \x7b") = some ⟨k, s⟩ := by
  have hbrace : Token.lex "\x7b" = [⟨.opening, "\x7b", 0, 1⟩] := by decide +kernel
  have htext : k ++ " " ++ s ++ " \x7b" = k ++ " " ++ (s ++ " " ++ "\x7b") := by
    simp only [String.append_assoc]
    rfl
  have hlex : Token.lex (k ++ " " ++ s ++ " \x7b") = ⟨.word, k, 0, k.utf8ByteSize⟩ ::
      ((Token.lex s).map (·.shift (k.utf8ByteSize + 1)) ++
        [Token.shift (k.utf8ByteSize + 1) (Token.shift (s.utf8ByteSize + 1)
          ⟨.opening, "\x7b", 0, 1⟩)]) := by
    rw [htext, lex_spelled hk, Token.lex_spaced hclosed, hbrace, List.map_append,
      List.map_singleton, List.map_singleton]
  -- What is between the keyword and the brace is the selector with its two spaces.
  have hchars : (k ++ " " ++ s ++ " \x7b").toList =
      k.toList ++ (' ' :: (s.toList ++ [' ']) ++ ['\x7b']) := by simp
  have hslice : Text.slice k.utf8ByteSize (k.utf8ByteSize + 1 + (s.utf8ByteSize + 1 + 0))
      (k ++ " " ++ s ++ " \x7b").toList = ' ' :: (s.toList ++ [' ']) := by
    have hlength : k.utf8ByteSize + 1 + (s.utf8ByteSize + 1 + 0) - k.utf8ByteSize =
        byteLength (' ' :: (s.toList ++ [' '])) := by
      simp [byteLength, byteLength_append, Text.byteLength_toList, Char.utf8Size]
      omega
    rw [Text.slice, hchars, ← Text.byteLength_toList k, Text.dropBytes_append,
      Text.byteLength_toList k, hlength, Text.takeBytes_append]
  rw [Header.ofText?_of_lex hlex rfl rfl]
  simp only [Token.shift]
  rw [hslice, Text.trim, String.toList_ofList, Text.trimChars_padded htight, String.ofList_toList]

end Words

/-- Lexing parts at a space that is in no quoted string. Behind a text without
open quotes and a space come the tokens of what follows, as many bytes further
on; and a header gives back the word and the selector it was put together of,
whatever braces and quoted strings are in the selector. -/
theorem lexing_parts_at_space :
    (∀ a b : String, (∀ t ∈ Token.lex a, t.Closed) →
      Token.lex (a ++ " " ++ b) =
        Token.lex a ++ (Token.lex b).map (·.shift (a.utf8ByteSize + 1))) ∧
    ∀ k s : String, Token.isWord k = true → Text.trim s = s → (∀ t ∈ Token.lex s, t.Closed) →
      Header.ofText? (k ++ " " ++ s ++ " \x7b") = some ⟨k, s⟩ := by
  refine ⟨fun a b hclosed => Token.lex_spaced hclosed b, fun k s hk htrim hclosed => ?_⟩
  exact ofText?_spelled hk (Text.trim_eq_self_iff.mp htrim) hclosed

/-- A selector with a brace and an escaped quote in its quoted string, and with
braces of its own. -/
def knotted : String := "as \"a \\\" \x7b b\" \x7bé\x7d"

theorem knotted_parts_at_space :
    (∀ t ∈ Token.lex knotted, t.Closed) ∧
    Token.lex (knotted ++ " " ++ "\"oops") =
      Token.lex knotted ++ [⟨.word, "\"oops", 19, 24⟩] ∧
    Token.isWord "run" = true ∧ Text.trim knotted = knotted ∧
    Header.ofText? ("run" ++ " " ++ knotted ++ " \x7b") = some ⟨"run", knotted⟩ := by
  have hclosed : ∀ t ∈ Token.lex knotted, t.Closed := by decide +kernel
  have hbehind : (Token.lex "\"oops").map (·.shift (knotted.utf8ByteSize + 1)) =
      [⟨.word, "\"oops", 19, 24⟩] := by decide +kernel
  have htrim : Text.trim knotted = knotted := by decide +kernel
  obtain ⟨hparts, hheader⟩ := lexing_parts_at_space
  exact ⟨hclosed, hbehind ▸ hparts knotted "\"oops" hclosed, by decide, htrim,
    hheader "run" knotted (by decide) htrim hclosed⟩

section Keywords

variable {k : String} (hk : Token.isKeyword k = true)

include hk

theorem keyword_chars :
    k.toList ≠ [] ∧ ∀ c ∈ k.toList, Token.isWordChar c = true ∧ isBlank c = false := by
  simpa [Token.isKeyword] using hk

theorem isWord_of_isKeyword : Token.isWord k = true := by
  obtain ⟨hne, hchars⟩ := keyword_chars hk
  exact Token.isWord_iff.mpr ⟨hne, fun c hc => (hchars c hc).1⟩

/-- The keyword of a statement is its leading field. -/
theorem leading?_spelled (s : String) : Text.leading? (k ++ " " ++ s) = some k := by
  obtain ⟨hne, hchars⟩ := keyword_chars hk
  have htext : (k ++ " " ++ s).toList = k.toList ++ ' ' :: s.toList := by simp
  rw [Text.leading?, Text.fields, htext,
    Text.fieldChars_append hne (fun c hc => (hchars c hc).2) (by decide), List.map_cons,
    String.ofList_toList, List.head?_cons]

end Keywords

end CommandScript
