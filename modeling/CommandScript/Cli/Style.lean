import CommandScript.Text.Blank

/-!
# Styled text

Colours for a terminal, and the way in which a report is coloured.
-/

namespace CommandScript.Cli

/-- A style, as the codes that switch it on. -/
structure Style where
  codes : String

namespace Style

def failure : Style := ⟨"1;31"⟩
def caution : Style := ⟨"1;33"⟩
def marked : Style := ⟨"97"⟩
def faint : Style := ⟨"90"⟩
def success : Style := ⟨"1;32"⟩
def title : Style := ⟨"1;36"⟩
def subject : Style := ⟨"93"⟩

/-- What switches all styles off. -/
def reset : String := "\x1b[0m"

/-- What switches a style on. -/
def start (s : Style) : String := "\x1b[" ++ s.codes ++ "m"

/-- A text with the style switched on again wherever the text itself switches
it off. -/
def kept (s : Style) : List Char → List Char
  | '\x1b' :: '[' :: '0' :: 'm' :: cs => reset.toList ++ s.start.toList ++ s.kept cs
  | c :: cs => c :: s.kept cs
  | [] => []

/-- A text in a style, where colours are wanted. -/
def apply (s : Style) (colour : Bool) (text : String) : String :=
  if colour then s.start ++ String.ofList (s.kept text.toList) ++ reset else text

/-- The style of a line of a report. -/
def ofReportLine (line : String) : Style :=
  if (Text.after? "ERROR" line).isSome then failure
  else if (Text.after? "WARNING" line).isSome then caution
  else if "<- HERE".toList.isSuffixOf line.toList then marked
  else faint

end Style

/-- A report, line by line in the style of each. -/
def styledReport (colour : Bool) (report : String) : String :=
  String.join ((Text.lines report).map fun line =>
    (Style.ofReportLine line).apply colour line ++ "\n")

end CommandScript.Cli
