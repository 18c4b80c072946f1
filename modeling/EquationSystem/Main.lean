import EquationSystem.Problem

/-!
# Command line

Reads a problem from a file or from the standard input and writes its answer.
-/

open EquationSystem

def usage : String := "Usage: equation-system [--order] [--debug] <PROBLEM>"

/-- The code and the text of an error of the operating system. Codes may come negated. -/
def fileError : IO.Error → FileError
  | .noFileOrDirectory _ code reason | .inappropriateType _ code reason
  | .invalidArgument _ code reason | .permissionDenied _ code reason
  | .resourceExhausted _ code reason | .noSuchThing _ code reason
  | .otherError code reason => .ofCode (min code (-code)).toNat reason
  | error => .other (toString error)

def load (options : Problem.Options) : IO (Except FileError String) := do
  try
    let bytes ← if options.fromInput then (← IO.getStdin).readBinToEnd
      else IO.FS.readBinFile options.path
    match String.fromUTF8? bytes with
    | some text => return .ok text
    | none => return .error .notText
  catch error =>
    return .error (fileError error)

def main (args : List String) : IO UInt32 := do
  match Problem.Options.ofArguments? args with
  | none =>
    IO.eprintln usage
    return 2
  | some options =>
    let output := match ← load options with
      | .ok text => Problem.run options text
      | .error error => Problem.runUnreadable options error
    IO.print output.stdout
    IO.eprint output.stderr
    return output.exitCode.toUInt32
