/-!
# JSON

Values of the data format and their written forms: `compact`, without any
blanks, and `pretty`, indented by two blanks for each level. The reader is in
`CommandScript.Json.Reader`.
-/

namespace CommandScript

/-- A JSON value. Fields keep their order, and a key may occur more than once. -/
inductive Json where
  | null
  | bool (b : Bool)
  /-- A number written with digits only. -/
  | number (n : Nat)
  /-- Any other number, as it is written. -/
  | decimal (literal : String)
  | string (s : String)
  | array (items : List Json)
  | object (fields : List (String × Json))
  /-- A string whose escapes name no text, or an object with such a key, as it
  is written. -/
  | illegible (literal : String)
  deriving Repr

instance : Inhabited Json := ⟨.null⟩

namespace Json

/-! ## Writing strings -/

/-- The two lower-case hexadecimal digits of a number below 256. -/
def hexByte (n : Nat) : String :=
  String.ofList [Nat.digitChar (n / 16), Nat.digitChar (n % 16)]

/-- One character inside a string. -/
def escape (c : Char) : String :=
  match c with
  | '"' => "\\\""
  | '\\' => "\\\\"
  | '\x08' => "\\b"
  | '\t' => "\\t"
  | '\n' => "\\n"
  | '\x0c' => "\\f"
  | '\r' => "\\r"
  | c => if c.toNat < 0x20 then "\\u00" ++ hexByte c.toNat else c.toString

/-- A string between its quotes. -/
def writeString (s : String) : String :=
  "\"" ++ String.join (s.toList.map escape) ++ "\""

/-! ## Writing values -/

def writeBool (b : Bool) : String := if b then "true" else "false"

mutual

/-- A value on one line, without blanks. -/
def compact : Json → String
  | null => "null"
  | bool b => writeBool b
  | number n => n.repr
  | decimal literal => literal
  | string s => writeString s
  | array items => "[" ++ compactItems items ++ "]"
  | object fields => "\x7b" ++ compactFields fields ++ "\x7d"
  | illegible literal => literal

def compactItems : List Json → String
  | [] => ""
  | [v] => compact v
  | v :: rest => compact v ++ "," ++ compactItems rest

def compactFields : List (String × Json) → String
  | [] => ""
  | [(k, v)] => writeString k ++ ":" ++ compact v
  | (k, v) :: rest => writeString k ++ ":" ++ compact v ++ "," ++ compactFields rest

end

/-- The end of a line and the margin of the next. -/
def margin (depth : Nat) : String :=
  "\n" ++ String.ofList (List.replicate (2 * depth) ' ')

mutual

/-- A value over several lines; an array or object without parts stays on one. -/
def prettyAt (depth : Nat) : Json → String
  | null => "null"
  | bool b => writeBool b
  | number n => n.repr
  | decimal literal => literal
  | string s => writeString s
  | array [] => "[]"
  | array (v :: rest) =>
    "[" ++ margin (depth + 1) ++ prettyAt (depth + 1) v ++ prettyItems (depth + 1) rest ++
      margin depth ++ "]"
  | object [] => "\x7b\x7d"
  | object ((k, v) :: rest) =>
    "\x7b" ++ margin (depth + 1) ++ writeString k ++ ": " ++ prettyAt (depth + 1) v ++
      prettyFields (depth + 1) rest ++ margin depth ++ "\x7d"
  | illegible literal => literal

/-- Items that follow another one. -/
def prettyItems (depth : Nat) : List Json → String
  | [] => ""
  | v :: rest => "," ++ margin depth ++ prettyAt depth v ++ prettyItems depth rest

/-- Fields that follow another one. -/
def prettyFields (depth : Nat) : List (String × Json) → String
  | [] => ""
  | (k, v) :: rest =>
    "," ++ margin depth ++ writeString k ++ ": " ++ prettyAt depth v ++ prettyFields depth rest

end

/-- A value over several lines. -/
def pretty (v : Json) : String := prettyAt 0 v

/-! ## Taking values apart -/

def string? : Json → Option String
  | string s => some s
  | _ => none

def array? : Json → Option (List Json)
  | array items => some items
  | _ => none

/-- The texts of an array that holds nothing but strings. -/
def strings? (v : Json) : Option (List String) := do
  (← v.array?).mapM string?

/-- The values of a key, in order. -/
def valuesOf (key : String) (fields : List (String × Json)) : List Json :=
  (fields.filter (·.1 == key)).map (·.2)

/-- The value of a key that occurs exactly once. -/
def field? (key : String) (fields : List (String × Json)) : Option Json :=
  match valuesOf key fields with
  | [v] => some v
  | _ => none

end Json

end CommandScript
