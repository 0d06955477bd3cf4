import CommandScript.Cli.Run

/-!
# The program

Hands the arguments and the file system to `Cli.Command.run` and prints what
it gives.
-/

namespace CommandScript.Cli

/-- Reads a file of the file system. -/
def readFile (path : String) : IO Contents := do
  try
    return .ok (← IO.FS.readBinFile path)
  catch e =>
    match e with
    | .noFileOrDirectory .. => return .error .notFound
    | .inappropriateType _ code _ =>
      -- Some calls report the code with its sign changed.
      return .error (if code = 20 ∨ code = 0 - 20 then .notDirectory else .isDirectory)
    | .invalidArgument .. => return .error .nameTooLong
    | _ => return .error .notFound

end CommandScript.Cli

open CommandScript.Cli in
def main (args : List String) : IO UInt32 := do
  match Command.ofArguments? args with
  | none =>
    IO.eprint usage
    return 2
  | some command =>
    let colour := (← IO.getEnv "CLICOLOR_FORCE").any (· != "0")
    let output ← command.run readFile colour
    IO.print output.stdout
    IO.eprint output.stderr
    return output.code.toUInt32
