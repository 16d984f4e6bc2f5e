import Unravel.CommandLine
import Unravel.Script.Interpreter

/-! The program: reads a file, recovers its code and writes the result. -/

namespace Unravel.Main

def usage : String :=
  "usage: unravel [-h] [--no-STAGE ...] [--json] [-v] input_file output_file"

/-- The text of a file; none if there is no such file. -/
def readText? (path : String) : IO (Option Text) := do
  try
    return some (Text.ofString (← IO.FS.readFile path))
  catch
    | .noFileOrDirectory .. => return none
    | e => throw e

/-- Milliseconds with one place, and with all that were measured. -/
def elapsedOf (nanoseconds : Nat) : CommandLine.Elapsed :=
  let ms := Double.ofRatio false nanoseconds 1000000
  let tenths := (nanoseconds + 50000) / 100000
  { brief := Text.ofString (Nat.repr (tenths / 10) ++ "." ++ Nat.repr (tenths % 10))
    full := Text.ofString (Number.doubleText ms) }

def runWith (a : CommandLine.Arguments) : IO UInt32 := do
  match ← readText? (Text.toString a.input) with
  | none =>
    IO.print (Text.toString (CommandLine.missingInput a))
    return 1
  | some source =>
    let started ← IO.monoNanosNow
    let r := a.report (.of Script.engine matchers) source
    IO.FS.writeFile (Text.toString a.output) (Text.toString r.code)
    let finished ← IO.monoNanosNow
    IO.print (Text.toString (a.printed r (elapsedOf (finished - started))))
    return 0

end Unravel.Main

def main (argv : List String) : IO UInt32 := do
  match Unravel.CommandLine.read (argv.map Unravel.Text.ofString) with
  | .help =>
    IO.println Unravel.Main.usage
    return 0
  | .misuse =>
    IO.eprintln Unravel.Main.usage
    return 2
  | .run a => Unravel.Main.runWith a
