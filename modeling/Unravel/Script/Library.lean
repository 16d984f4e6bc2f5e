import Unravel.Script.Library.Bytes
import Unravel.Script.Library.Collection
import Unravel.Script.Library.Date
import Unravel.Script.Library.Failure
import Unravel.Script.Library.Function
import Unravel.Script.Library.Json
import Unravel.Script.Library.Number
import Unravel.Script.Library.Percent
import Unravel.Script.Library.Promise
import Unravel.Script.Library.Reflect
import Unravel.Script.Library.Regex

/-! All that scripts find at their start. -/

namespace Unravel.Script.Library

open Run

/-- Runs a text as a script of its own. -/
def globalEval : Native := fun h _ args _ => do
  match argument args 0 with
  | .string u => h.evaluate u
  | v => return v

open Setup in
def setupGlobal : Setup Unit := do
  let ref := Fixed.global.ref
  hidden ref "globalThis" (.object ref)
  constant ref "undefined" .undefined
  constant ref "NaN" .nan
  constant ref "Infinity" (.number Numeral.infinity)
  hidden ref "eval" (.object (← intrinsic .eval "eval" 1 globalEval))

def setup : Setup Unit := do
  setupObject
  setupFunction
  setupArray
  setupString
  setupNumber
  setupSymbol
  setupMath
  setupError
  setupCollection
  setupGenerator
  setupRegex
  setupJson
  setupPercent
  setupReflect
  setupBytes
  setupDate
  setupPromise
  setupGlobal

/-- The stock that every engine starts from. -/
def stock : Stock := (setup.run Setup.empty).2

end Unravel.Script.Library
