import Unravel.Script.Library.Setup

/-! Errors as objects. -/

namespace Unravel.Script.Library

open Run

/-- The text that an error is shown by in its trace. -/
def headline (name message : Units) : Units :=
  if message.isEmpty then name else if name.isEmpty then message
    else name ++ .ofString ": " ++ message

/-- Notes a cause that the options of an error give. -/
def noteCause (h : Host) (ref : Nat) (options : Value) : Run Unit := do
  match options with
  | .object o =>
    if ← hasProperty h o (.ofString "cause") then
      putMember ref (.ofString "cause") (.hidden (← getNamed h options "cause"))
  | _ => pure ()

def errorMake (default : Fixed) (name : String) : Native := fun h _ args newTarget => do
  let ref ← alloc { proto := some (← protoFor h newTarget default.ref), kind := .error }
  let message ← match argument args 0 with
    | .undefined => pure none
    | v => do pure (some (← toText h v))
  putMember ref (.ofString "stack") (.hidden (.string
    (headline (.ofString name) (message.getD #[]) ++ .ofString "\n    at <anonymous>")))
  match message with
  | some u => putMember ref (.ofString "message") (.hidden (.string u))
  | none => pure ()
  noteCause h ref (argument args 1)
  return .object ref

def aggregateMake : Native := fun h _ args newTarget => do
  let v ← errorMake .aggregateErrorProto "AggregateError" h .undefined (args.extract 1 3) newTarget
  match v with
  | .object ref =>
    putMember ref (.ofString "errors") (.hidden (← newArray (← itemsOf h (argument args 0))))
  | _ => pure ()
  return v

def errorText : Native := fun h this _ _ => do
  if !this.isObject then typeError "Error.prototype.toString requires that 'this' be a JSReceiver"
  let name ← match ← getNamed h this "name" with
    | .undefined => pure (Units.ofString "Error")
    | v => toText h v
  let message ← match ← getNamed h this "message" with
    | .undefined => pure #[]
    | v => toText h v
  return .string (headline name message)

/-- Gives an object a trace. -/
def captureTrace : Native := fun h _ args _ => do
  match argument args 0 with
  | .object ref =>
    let text ← errorText h (.object ref) #[] .undefined
    putMember ref (.ofString "stack")
      (.hidden (.string ((← toText h text) ++ .ofString "\n    at <anonymous>")))
    return .undefined
  | v => typeError ("Invalid argument " ++ (← shownValue v))

open Setup in
def setupError : Setup Unit := do
  let base ← constructor "Error" 1 Fixed.errorProto.ref (errorMake .errorProto "Error")
  let describe (proto : Nat) (name : String) : Setup Unit := do
    hidden proto "name" (.ofString name)
    hidden proto "message" (.string #[])
  describe Fixed.errorProto.ref "Error"
  method Fixed.errorProto.ref "toString" 0 errorText
  method base "captureStackTrace" 2 captureTrace
  Setup.put base (.ofString "stackTraceLimit") (.plain (.number 10.0))
  let inherit' (c : Nat) : Setup Unit := modify fun s => { s with
    machine := { s.machine with
      objects := s.machine.objects.modify c fun o => { o with proto := some base } } }
  for kind in ErrorKind.all do
    if kind ≠ .error then
      let fixed := Fixed.ofErrorKind kind
      let c ← constructor kind.name 1 fixed.ref (errorMake fixed kind.name)
      inherit' c
      describe fixed.ref kind.name
  let c ← constructor "AggregateError" 2 Fixed.aggregateErrorProto.ref aggregateMake
  inherit' c
  describe Fixed.aggregateErrorProto.ref "AggregateError"

end Unravel.Script.Library
