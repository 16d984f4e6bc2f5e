import Unravel.Script.Library.Setup

/-! Promises. What waits for one would run after the script has given its value, so nothing that
waits is ever run. -/

namespace Unravel.Script.Library

open Run

def newPromise : Run Value := newObject { proto := some Fixed.promiseProto.ref, kind := .promise }

def promiseMake (settle : Nat) : Native := fun h _ args newTarget => do
  if newTarget.isUndefined then typeError "Promise constructor cannot be invoked without 'new'"
  let f := argument args 0
  if !(← isCallable f) then
    typeError ("Promise resolver " ++ (← shownValue f) ++ " is not a function")
  let ref ← alloc { proto := some (← protoFor h newTarget Fixed.promiseProto.ref), kind := .promise }
  try
    let _ ← h.call f .undefined #[.object settle, .object settle]
  catch
    | .thrown _ => pure ()
    | why => throw why
  return .object ref

def promiseThen : Native := fun _ _ _ _ => newPromise

open Setup in
def setupPromise : Setup Unit := do
  let proto := Fixed.promiseProto.ref
  let settle ← function "" 1 Setup.missing
  let c ← constructor "Promise" 1 proto (promiseMake settle)
  species c
  methods c (["all", "allSettled", "any", "race", "resolve", "reject"].map fun name =>
    (name, 1, promiseThen))
  methods proto [("then", 2, promiseThen), ("catch", 1, promiseThen), ("finally", 1, promiseThen)]
  tag proto "Promise"

end Unravel.Script.Library
