import CommandScript.Text.Blank

/-!
# Tokens of a statement

A statement is mostly the host's own text, so only words, quoted strings and
braces are told apart. `lex` gives the tokens with their byte spans, `words`
their texts, and `Header.ofText?` reads the opening line of a block,
`<keyword> <selector> {`.

Tokens are parted by the five characters of `isGap`, a smaller set than the
blanks of `Text.isBlank`.
-/

namespace CommandScript

/-- What a token is: a brace, a quoted string or a word. -/
inductive TokenKind where
  | opening
  | closing
  | quoted
  | word
  deriving DecidableEq, Repr

/-- A token, its text and the byte offsets of its first character and of the
end of its last one. -/
structure Token where
  kind : TokenKind
  text : String
  start : Nat
  stop : Nat
  deriving DecidableEq, Repr

namespace Token

/-- The characters skipped between tokens. -/
def isGap (c : Char) : Bool :=
  c == ' ' || c == '\t' || c == '\r' || c == '\n' || c == '\x0c'

def isBrace (c : Char) : Bool :=
  c == '\x7b' || c == '\x7d'

/-- The characters an unquoted word is made of. -/
def isWordChar (c : Char) : Bool :=
  !(isGap c || isBrace c || c == '"')

/-! ## One token -/

/-- The inside of a quoted string: what can be taken, and what is left. It
stops before a quote, at the end of the text, and before a backslash that has
no character of its line to escape. -/
def quotedBody : List Char → List Char × List Char
  | [] => ([], [])
  | '"' :: cs => ([], '"' :: cs)
  | ['\\'] => ([], ['\\'])
  | '\\' :: '\n' :: cs => ([], '\\' :: '\n' :: cs)
  | '\\' :: c :: cs => ('\\' :: c :: (quotedBody cs).1, (quotedBody cs).2)
  | c :: cs => (c :: (quotedBody cs).1, (quotedBody cs).2)

/-- The token at the front of a text: its kind, its characters, and the
characters behind it. -/
structure Lexeme where
  kind : TokenKind
  taken : List Char
  rest : List Char

/-- The token that starts with `c`, no gap, and may go on in `cs`. A quoted
string that is not closed is a word. -/
def lexeme (c : Char) (cs : List Char) : Lexeme :=
  if c = '\x7b' then ⟨.opening, [c], cs⟩
  else if c = '\x7d' then ⟨.closing, [c], cs⟩
  else if c = '"' then
    match quotedBody cs with
    | (body, '"' :: rest) => ⟨.quoted, c :: (body ++ ['"']), rest⟩
    | (body, rest) => ⟨.word, c :: body, rest⟩
  else ⟨.word, c :: cs.takeWhile isWordChar, cs.dropWhile isWordChar⟩

theorem quotedBody_append (cs : List Char) : (quotedBody cs).1 ++ (quotedBody cs).2 = cs := by
  fun_induction quotedBody cs <;> simp_all

/-- A token and what is left behind it are the text it was read from. -/
theorem lexeme_append (c : Char) (cs : List Char) :
    (lexeme c cs).taken ++ (lexeme c cs).rest = c :: cs := by
  have body := quotedBody_append cs
  unfold lexeme
  split
  · rfl
  split
  · rfl
  split
  · split
    · next h => simp only [h] at body; simp [← body]
    · next h => simp only [h] at body; simp [← body]
  · simp

theorem lexeme_rest_length (c : Char) (cs : List Char) :
    (lexeme c cs).rest.length ≤ cs.length := by
  have body := congrArg List.length (quotedBody_append cs)
  unfold lexeme
  split
  · simp
  split
  · simp
  split
  · split <;> simp_all <;> omega
  · exact (List.dropWhile_sublist _).length_le

/-! ## All tokens -/

/-- The tokens of `cs`, which starts at byte offset `start`. -/
def lexFrom (start : Nat) : List Char → List Token
  | [] => []
  | c :: cs =>
    if isGap c then lexFrom (start + c.utf8Size) cs
    else
      let l := lexeme c cs
      let stop := start + Text.byteLength l.taken
      ⟨l.kind, .ofList l.taken, start, stop⟩ :: lexFrom stop l.rest
termination_by cs => cs.length
decreasing_by
  · simp
  · exact Nat.lt_succ_of_le (lexeme_rest_length c cs)

/-- The tokens of a text. -/
def lex (text : String) : List Token :=
  lexFrom 0 text.toList

/-- The texts of the tokens of a text. -/
def words (text : String) : List String :=
  (lex text).map (·.text)

end Token

/-! ## Block headers -/

/-- The opening line of a block, `<keyword> <selector> {`. -/
structure Header where
  keyword : String
  selector : String
  deriving DecidableEq, Repr

/-- The header a text is: its first token is a word and its last one a
different token, an opening brace. -/
def Header.ofText? (text : String) : Option Header :=
  let tokens := Token.lex text
  match tokens.head?, tokens.getLast? with
  | some first, some last =>
    if 2 ≤ tokens.length ∧ first.kind = .word ∧ last.kind = .opening then
      some ⟨first.text, Text.trim (.ofList (Text.slice first.stop last.start text.toList))⟩
    else none
  | _, _ => none

end CommandScript
