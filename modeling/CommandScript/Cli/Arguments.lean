/-!
# Arguments

The command line: `check <file>` and `disasm <file>`, with options before or
behind the file. An option that takes a value has it in the next argument, or
behind `=` in its own; a short option may also have it right behind its
letter. Behind `--` nothing is an option. Each option may be given once.

Arguments are taken in order. The first one that is a misuse, or that asks for
help, decides; that a file is missing is only found at the end.
-/

namespace CommandScript.Cli

/-- The options of the commands. -/
inductive Flag where
  | grammar
  | id
  | context
  | json
  deriving DecidableEq, Repr

namespace Flag

def takesValue : Flag → Bool
  | json => false
  | _ => true

def long : Flag → String
  | grammar => "grammar"
  | id => "id"
  | context => "context"
  | json => "json"

def short? : Flag → Option Char
  | grammar => some 'g'
  | context => some 'c'
  | _ => none

end Flag

/-! ## Values -/

/-- A number of at most 64 bits, which may have a `+` in front. -/
def parseNumber? (text : String) : Option Nat :=
  let digits := match text.toList with
    | '+' :: ds => ds
    | ds => ds
  if !digits.isEmpty && digits.all Char.isDigit then
    let n := digits.foldl (fun n c => 10 * n + (c.toNat - '0'.toNat)) 0
    if n ≤ 18446744073709551615 then some n else none
  else none

/-- The path of a file, which is not empty. -/
def pathOf? (text : String) : Option String := if text.isEmpty then none else some text

/-- What the arguments of a command say, as far as they have been read. -/
structure Parsed where
  file : Option String := none
  grammar : Option String := none
  id : Option String := none
  context : Option Nat := none
  json : Bool := false
  deriving DecidableEq, Repr

namespace Parsed

/-- Puts a value in a place that has to be free. -/
def fill {α : Type} (place value : Option α) : Option (Option α) :=
  if place.isNone then value.map some else none

/-- Notes an option; `none` if it was given before, or if the value is no
value for it. -/
def addFlag? (p : Parsed) (f : Flag) (value : String) : Option Parsed :=
  match f with
  | .grammar => (fill p.grammar (pathOf? value)).map ({ p with grammar := · })
  | .id => (fill p.id (some value)).map ({ p with id := · })
  | .context => (fill p.context (parseNumber? value)).map ({ p with context := · })
  | .json => if p.json then none else some { p with json := true }

/-- Notes the file; `none` if there is one already. -/
def addFile? (p : Parsed) (text : String) : Option Parsed :=
  (fill p.file (pathOf? text)).map ({ p with file := · })

end Parsed

/-! ## Single arguments -/

/-- An argument, by itself. -/
inductive Argument where
  /-- The mark behind which nothing is an option. -/
  | marker
  /-- An option, with the value that is attached to it. -/
  | flag (f : Flag) (value : Option String)
  /-- The request for help. -/
  | help
  | unknown
  | operand (text : String)
  deriving DecidableEq, Repr

namespace Argument

/-- A value behind `=`, or right behind a letter. -/
def attached : List Char → Option String
  | [] => none
  | '=' :: value => some (.ofList value)
  | value => some (.ofList value)

def ofLong (known : List Flag) (cs : List Char) : Argument :=
  let name := String.ofList (cs.takeWhile (· != '='))
  let value := attached (cs.dropWhile (· != '='))
  match known.find? (·.long == name) with
  | some f => .flag f value
  | none => if name = "help" && value.isNone then .help else .unknown

/-- An argument that starts with a short option. Behind the letter of the
request for help, the rest does not matter. -/
def ofShort (known : List Flag) (c : Char) (cs : List Char) : Argument :=
  match known.find? (·.short? == some c) with
  | some f => .flag f (attached cs)
  | none => if c = 'h' then .help else .unknown

/-- What an argument is, where the options in `known` are understood. -/
def ofText (known : List Flag) (text : String) : Argument :=
  match text.toList with
  | ['-', '-'] => .marker
  | '-' :: '-' :: cs => ofLong known cs
  | '-' :: c :: cs => ofShort known c cs
  | _ => .operand text

end Argument

/-! ## Commands -/

/-- Why the arguments of a command are not read to their end. -/
inductive Stop where
  | help
  | misuse
  deriving DecidableEq, Repr

/-- A value, without which there is a misuse. -/
def orMisuse {α : Type} : Option α → Except Stop α
  | some a => .ok a
  | none => .error .misuse

/-- Reads the arguments of a command that understands the options in `known`,
when those in front of them have said `p`. -/
def parseArguments (known : List Flag) (p : Parsed) : List String → Except Stop Parsed
  | [] => .ok p
  | text :: rest =>
    match Argument.ofText known text with
    | .marker => orMisuse (rest.foldlM Parsed.addFile? p)
    | .help => .error .help
    | .unknown => .error .misuse
    | .operand file => do parseArguments known (← orMisuse (p.addFile? file)) rest
    | .flag f (some value) =>
      if f.takesValue then do parseArguments known (← orMisuse (p.addFlag? f value)) rest
      else .error .misuse
    | .flag f none =>
      if f.takesValue then
        match rest with
        | [] => .error .misuse
        | value :: rest =>
          match Argument.ofText known value with
          | .operand _ => do parseArguments known (← orMisuse (p.addFlag? f value)) rest
          | _ => .error .misuse
      else do parseArguments known (← orMisuse (p.addFlag? f "")) rest

/-- The script a command is about. -/
structure Source where
  file : String
  grammar : Option String
  id : Option String
  deriving DecidableEq, Repr

/-- What the program is asked to do. -/
inductive Command where
  /-- Nothing was asked for. -/
  | greet
  | help
  | check (source : Source) (radius : Nat)
  | disassemble (source : Source) (json : Bool)
  deriving DecidableEq, Repr

namespace Command

/-- The script in arguments that name a file. -/
def sourceOf? (p : Parsed) : Option Source := do
  some { file := ← p.file, grammar := p.grammar, id := p.id }

/-- The command in the arguments behind its name. -/
def ofParsed? (make : Source → Parsed → Command) : Except Stop Parsed → Option Command
  | .ok p => (sourceOf? p).map (make · p)
  | .error .help => some help
  | .error .misuse => none

/-- The names that help can be asked about; none of them has others below it. -/
def names : List String := ["check", "disasm", "help"]

/-- The request for help in the arguments behind the word `help`. -/
def ofTopics? : List String → Option Command
  | [] => some help
  | [name] => if names.contains name then some help else none
  | _ => none

/-- The command that arguments ask for; `none` if they make no sense. -/
def ofArguments? : List String → Option Command
  | [] => some greet
  | "check" :: rest =>
    ofParsed? (fun source p => check source (p.context.getD 2))
      (parseArguments [.grammar, .id, .context] {} rest)
  | "disasm" :: rest =>
    ofParsed? (fun source p => disassemble source p.json)
      (parseArguments [.grammar, .id, .json] {} rest)
  | "help" :: topics => ofTopics? topics
  | first :: rest =>
    match Argument.ofText [] first with
    | .help => some help
    | .marker => if rest.isEmpty then some greet else none
    | _ => none

end Command

end CommandScript.Cli
