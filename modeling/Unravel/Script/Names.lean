import Std.Data.HashMap
import Unravel.Script.Code

/-! Names in scope, as the code of one function sees them. -/

namespace Unravel.Script

/-- A variable as the code of a function sees it. -/
structure Variable where
  place : Place
  isConst : Bool := false
  /-- A write to it is ignored outside strict code. -/
  isSilent : Bool := false
  /-- It has no value before its declaration has run. -/
  isChecked : Bool := false
  /-- Its declaration is known to have run. -/
  isReady : Bool := true
deriving Inhabited

/-- An object whose properties are names in scope. -/
structure NameObject where
  place : Place
  /-- It holds the variables that text run in place declares for a function. Otherwise a statement
  put it in scope, and it is the receiver of functions called by its names. -/
  isBody : Bool := false
deriving Inhabited

/-- Names in scope, and the object in which names are looked up first. -/
structure Scope where
  names : Std.HashMap String Variable := {}
  object? : Option NameObject := none
  /-- Variables and functions of the whole body are declared here. -/
  isBody : Bool := false
  /-- The name caught by a `catch` that binds just one. -/
  isCatch : Bool := false
  /-- Declarations here may be jumped over. -/
  isLoose : Bool := false
deriving Inhabited

/-- What code that is run in place sees of the code around it: its scopes, the innermost first. -/
structure EvalSite where
  scopes : List Scope := []
  strict : Bool := false
deriving Inhabited

end Unravel.Script
