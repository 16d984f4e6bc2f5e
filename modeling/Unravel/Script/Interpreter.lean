import Unravel.Script.Engine
import Unravel.Script.Execute
import Unravel.Script.Library

/-! The engine that runs scripts itself: each is compiled and run on a machine that lasts from one
script to the next. -/

namespace Unravel.Script

/-- The way back to the machine for the functions of the language. -/
def host : Host := hostAt Library.stock.natives runLimit

def setting : Setting := ⟨host, Library.stock.natives⟩

/-- The most instructions that one script may take. -/
def stepLimit : Nat := 150000000

/-- The string or other value that a script gave. -/
def Value.toScriptValue : Value → ScriptValue
  | .string u => .text (u.toText.map fun c => if Text.isSurrogate c then 0xFFFD else c)
  | _ => .other

/-- Evaluates the text of a script on a machine. -/
def evaluate (script : Text) (m : Machine) : Except Text ScriptValue × Machine :=
  match (do Run.runCode setting (← Run.loadText script) : Run Value) { m with steps := stepLimit } with
  | .ok v m => (.ok v.toScriptValue, m)
  | .error _ m => (.error (Text.ofString "Error"), m)

/-- A console that prints nothing. -/
def consoleScript : Text :=
  let members := ["log", "warn", "error", "info", "debug"].map (· ++ ": function()\x7b\x7d")
  Text.ofString ("var console = \x7b" ++ ", ".intercalate members ++ "\x7d;")

/-- The machine of an engine that has just been opened. -/
def fresh : Machine := (evaluate consoleScript Library.stock.machine).2

/-- The engine of this library. -/
def engine : Engine :=
  { State := Machine, start := fresh, opened := fun _ => fresh, eval := evaluate }

end Unravel.Script
