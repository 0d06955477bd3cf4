import CommandScript.Text.Extending
import CommandScript.Text.Ignorable
import CommandScript.Text.Printable

/-!
# Quoted text

The form in which dumps and listings show a text: between double quotes, on
one line, with every character that could not be told apart by eye written
as an escape.
-/

namespace CommandScript.Text

/-- The escape of a code point by its number: `\u` and the hexadecimal digits
in braces. -/
def codeEscape (c : Char) : String :=
  "\\u\x7b" ++ String.ofList (Nat.toDigits 16 c.toNat) ++ "\x7d"

/-- Whether a character can be told by eye: it prints, is never left out, and
is no mark on another one. -/
def isVisible (c : Char) : Bool := isPrintable c && !isIgnorable c && !isExtending c

/-- One character inside quotes. -/
def quotedChar (c : Char) : String :=
  match c with
  | '\x00' => "\\0"
  | '\t' => "\\t"
  | '\r' => "\\r"
  | '\n' => "\\n"
  | '"' => "\\\""
  | '\\' => "\\\\"
  | c => if isVisible c then c.toString else codeEscape c

/-- A text between double quotes. -/
def quoted (s : String) : String :=
  "\"" ++ String.join (s.toList.map quotedChar) ++ "\""

/-- Quoted texts between square brackets, with a comma between two of them. -/
def quotedList (ss : List String) : String :=
  "[" ++ ", ".intercalate (ss.map quoted) ++ "]"

end CommandScript.Text
