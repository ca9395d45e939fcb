/-
  The command line that checks style sheets.
-/
import StyleServer.Check

namespace StyleServer

/-- How the system's refusal to read a file is reported. -/
def readErrorOf : IO.Error → ReadError
  | .inappropriateType .. => .isADirectory
  | _ => .notFound

/-- Reads a file. -/
def readFromSystem (path : String) : IO (Except ReadError String) := do
  try
    let bytes ← IO.FS.readBinFile path
    match String.fromUTF8? bytes with
    | some text => return .ok text
    | none => return .error .notText
  catch e => return .error (readErrorOf e)

/-- Checks the files that a command line names. -/
def runCheck (arguments : List String) : IO UInt32 := do
  match checkCommand.read arguments with
  | .error e =>
    IO.eprintln "Usage: uss-check [--no-properties] [--log-level <LEVEL>] <FILES>..."
    return UInt32.ofNat (Check.usageCode e)
  | .ok given =>
    let contents ← given.files.mapM fun path => do return (path, ← readFromSystem path)
    let read (path : String) : Except ReadError String :=
      (contents.lookup path).getD (.error .notFound)
    let current := Path.parts (← IO.currentDir).toString
    let outcome := Check.run current read given
    IO.print outcome.stdout
    IO.eprint outcome.stderr
    return UInt32.ofNat outcome.exitCode

end StyleServer

/-- Checks the files that the command line names. -/
def main (arguments : List String) : IO UInt32 := StyleServer.runCheck arguments
