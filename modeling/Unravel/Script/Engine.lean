import Unravel.Text

/-! A script engine as the rest of the library sees it: a state that scripts are run in, one after
the other, each giving a value or failing. -/

namespace Unravel

/-- The value of a script: a string, or something that is none. -/
inductive ScriptValue where
  | text (value : Text)
  | other
deriving DecidableEq, Repr

/-- An engine. Opening it gives a clean state to run scripts in; a script that fails leaves a
message. -/
structure Engine where
  State : Type
  start : State
  opened : State → State
  eval : Text → State → Except Text ScriptValue × State

/-- An engine that has no memory: the same script always gives the same outcome. -/
def Engine.ofFunction (f : Text → Except Text ScriptValue) : Engine :=
  ⟨Unit, (), id, fun script s => (f script, s)⟩

/-- One use of an engine from opening to closing: its time limit and the scripts run. -/
structure Session where
  timeout : Nat
  scripts : List Text
  closed : Bool := true
deriving Repr

namespace Engine

/-- Time limit, in milliseconds, of an evaluation of analysed code. -/
def evalTimeout : Nat := 1000

/-- A script that runs a fragment in a function of its own and returns a call's value. -/
def isolatedCall (fragment : Text) (name : String) (arguments : List Text) : Text :=
  Text.ofString "(function () \x7b\n" ++ fragment ++ Text.ofString ("\nreturn " ++ name ++ "(")
    ++ Text.join [44, 32] arguments ++ Text.ofString ");\n\x7d)()"

end Engine

end Unravel
