import CommandScript.Json

/-!
# Reading JSON

`Json.parse?` reads a text that is one JSON value, with nothing but blanks
around it. The functions below read from the front of a list of characters
and return what they leave. They take as first argument a bound on how often
they call each other, which `parse?` sets to the length of the text.

An escape can name half of a pair of surrogates, and no text holds that. Such
a string is well formed as JSON all the same: it is read as a value that is no
text, so that whoever has no use for the value need not mind.
-/

namespace CommandScript.Json

/-- The four blanks of the format. -/
def isSpace (c : Char) : Bool :=
  c == ' ' || c == '\t' || c == '\n' || c == '\r'

def skipSpace (cs : List Char) : List Char := cs.dropWhile isSpace

/-! ## Numbers -/

def isNumeralChar (c : Char) : Bool :=
  c.isDigit || c == '-' || c == '+' || c == '.' || c == 'e' || c == 'E'

/-- An exponent, if there is one, and nothing behind it. -/
def isExponent : List Char → Bool
  | [] => true
  | e :: cs =>
    let digits := match cs with
      | '+' :: ds => ds
      | '-' :: ds => ds
      | ds => ds
    (e == 'e' || e == 'E') && !digits.isEmpty && digits.all Char.isDigit

/-- A fraction and an exponent, where there are any, and nothing behind them. -/
def isFraction : List Char → Bool
  | '.' :: cs =>
    !(cs.takeWhile Char.isDigit).isEmpty && isExponent (cs.dropWhile Char.isDigit)
  | cs => isExponent cs

/-- Digits without needless zeros in front. -/
def isInteger : List Char → Bool
  | [] => false
  | ['0'] => true
  | c :: cs => c.isDigit && c != '0' && cs.all Char.isDigit

/-- The value of decimal digits. -/
def digitsValue (cs : List Char) : Nat :=
  cs.foldl (fun n c => 10 * n + (c.toNat - '0'.toNat)) 0

/-- The number a literal stands for. -/
def numeral? (cs : List Char) : Option Json :=
  if isInteger cs then some (.number (digitsValue cs))
  else
    let unsigned := match cs with
      | '-' :: rest => rest
      | rest => rest
    if isInteger (unsigned.takeWhile Char.isDigit) && isFraction (unsigned.dropWhile Char.isDigit)
    then some (.decimal (.ofList cs))
    else none

/-! ## Strings -/

def hexDigit? (c : Char) : Option Nat :=
  if c.isDigit then some (c.toNat - '0'.toNat)
  else if 'a' ≤ c && c ≤ 'f' then some (c.toNat - 'a'.toNat + 10)
  else if 'A' ≤ c && c ≤ 'F' then some (c.toNat - 'A'.toNat + 10)
  else none

/-- Four hexadecimal digits. -/
def readUnit : List Char → Option (Nat × List Char)
  | a :: b :: c :: d :: cs => do
    let a ← hexDigit? a
    let b ← hexDigit? b
    let c ← hexDigit? c
    let d ← hexDigit? d
    some (((a * 16 + b) * 16 + c) * 16 + d, cs)
  | _ => none

def isHighSurrogate (n : Nat) : Bool := 0xD800 ≤ n && n ≤ 0xDBFF

def isLowSurrogate (n : Nat) : Bool := 0xDC00 ≤ n && n ≤ 0xDFFF

/-- The character whose number follows; one beyond four digits is written as a
pair of surrogates, and a surrogate alone is no character. -/
def readCode (cs : List Char) : Option (Option Char × List Char) := do
  let (high, cs) ← readUnit cs
  if isHighSurrogate high then
    match cs with
    | '\\' :: 'u' :: tail =>
      let (low, rest) ← readUnit tail
      if isLowSurrogate low then
        some (some (Char.ofNat (0x10000 + (high - 0xD800) * 0x400 + (low - 0xDC00))), rest)
      else some (none, cs)
    | _ => some (none, cs)
  else if isLowSurrogate high then some (none, cs)
  else some (some (Char.ofNat high), cs)

/-- The character an escape stands for, behind its backslash. -/
def readEscape : List Char → Option (Option Char × List Char)
  | '"' :: cs => some (some '"', cs)
  | '\\' :: cs => some (some '\\', cs)
  | '/' :: cs => some (some '/', cs)
  | 'b' :: cs => some (some '\x08', cs)
  | 'f' :: cs => some (some '\x0c', cs)
  | 'n' :: cs => some (some '\n', cs)
  | 'r' :: cs => some (some '\r', cs)
  | 't' :: cs => some (some '\t', cs)
  | 'u' :: cs => readCode cs
  | _ => none

/-- The inside of a string and its closing quote. -/
def readChars : Nat → List Char → Option (Option (List Char) × List Char)
  | 0, _ => none
  | _ + 1, [] => none
  | _ + 1, '"' :: cs => some (some [], cs)
  | bound + 1, '\\' :: cs => do
    let (c, cs) ← readEscape cs
    let (s, cs) ← readChars bound cs
    some (c.bind fun c => s.map (c :: ·), cs)
  | bound + 1, c :: cs => do
    if c.toNat < 0x20 then none
    else
      let (s, cs) ← readChars bound cs
      some (s.map (c :: ·), cs)

/-- A string behind its opening quote: the text it is, if it is one. -/
def readString (cs : List Char) : Option (Option String × List Char) := do
  let (s, cs) ← readChars (cs.length + 1) cs
  some (s.map .ofList, cs)

/-- The characters of `cs` in front of `rest`, with which it ends. -/
def before (cs rest : List Char) : String := .ofList (cs.take (cs.length - rest.length))

/-- A string that stands between `cs` and `rest` behind its opening quote. -/
def ofText (cs rest : List Char) : Option String → Json
  | some s => .string s
  | none => .illegible ("\"" ++ before cs rest)

/-- An object that stands between `cs` and `rest` behind its opening brace. -/
def ofFields (cs rest : List Char) (fields : List (Option String × Json)) : Json :=
  match fields.mapM fun (k, v) => k.map (·, v) with
  | some fields => .object fields
  | none => .illegible ("\x7b" ++ before cs rest)

/-! ## Values -/

mutual

/-- A value, after any blanks. -/
def readValue : Nat → List Char → Option (Json × List Char)
  | 0, _ => none
  | bound + 1, cs =>
    match skipSpace cs with
    | 'n' :: 'u' :: 'l' :: 'l' :: cs => some (.null, cs)
    | 't' :: 'r' :: 'u' :: 'e' :: cs => some (.bool true, cs)
    | 'f' :: 'a' :: 'l' :: 's' :: 'e' :: cs => some (.bool false, cs)
    | '"' :: cs => (readString cs).map fun (s, rest) => (ofText cs rest s, rest)
    | '[' :: cs =>
      match skipSpace cs with
      | ']' :: cs => some (.array [], cs)
      | cs => (readItems bound cs).map fun (items, cs) => (.array items, cs)
    | '\x7b' :: cs =>
      match skipSpace cs with
      | '\x7d' :: cs => some (.object [], cs)
      | cs => (readFields bound cs).map fun (fields, rest) => (ofFields cs rest fields, rest)
    | cs => (numeral? (cs.takeWhile isNumeralChar)).map (·, cs.dropWhile isNumeralChar)

/-- At least one item, and the bracket that closes the array. -/
def readItems : Nat → List Char → Option (List Json × List Char)
  | 0, _ => none
  | bound + 1, cs => do
    let (v, cs) ← readValue bound cs
    match skipSpace cs with
    | ',' :: cs =>
      let (rest, cs) ← readItems bound cs
      some (v :: rest, cs)
    | ']' :: cs => some ([v], cs)
    | _ => none

/-- At least one field, and the brace that closes the object. -/
def readFields : Nat → List Char → Option (List (Option String × Json) × List Char)
  | 0, _ => none
  | bound + 1, cs =>
    match skipSpace cs with
    | '"' :: cs => do
      let (k, cs) ← readString cs
      match skipSpace cs with
      | ':' :: cs =>
        let (v, cs) ← readValue bound cs
        match skipSpace cs with
        | ',' :: cs =>
          let (rest, cs) ← readFields bound cs
          some ((k, v) :: rest, cs)
        | '\x7d' :: cs => some ([(k, v)], cs)
        | _ => none
      | _ => none
    | _ => none

end

/-- The value a text is. -/
def parse? (text : String) : Option Json := do
  let cs := text.toList
  let (v, rest) ← readValue (cs.length + 1) cs
  if (skipSpace rest).isEmpty then some v else none

end CommandScript.Json
