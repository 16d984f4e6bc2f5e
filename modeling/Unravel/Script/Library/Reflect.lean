import Unravel.Script.Library.Object

/-! Operations on objects as functions, and objects that answer for others. -/

namespace Unravel.Script.Library

open Run

namespace Reflect

def target (name : String) (v : Value) : Run Nat :=
  match v with
  | .object ref => return ref
  | _ => typeError ("Reflect." ++ name ++ " called on non-object")

def apply : Native := fun h _ args _ => do
  needFunction (argument args 0)
  h.call (argument args 0) (argument args 1) (← listOf h (argument args 2))

def construct : Native := fun h _ args _ => do
  let f := argument args 0
  let newTarget := if args.size < 3 then f else argument args 2
  for v in [f, newTarget] do
    if !(← isConstructor v) then typeError ((← shownValue v) ++ " is not a constructor")
  h.construct f (← listOf h (argument args 1)) newTarget

def defineProperty : Native := fun h _ args _ => do
  let ref ← target "defineProperty" (argument args 0)
  let k ← toKey h (argument args 1)
  return .bool (← defineOwn h ref k (← descriptorOf h (argument args 2)))

def deleteProperty : Native := fun h _ args _ => do
  let ref ← target "deleteProperty" (argument args 0)
  return .bool (← deleteOwn h ref (← toKey h (argument args 1)))

def getProperty : Native := fun h _ args _ => do
  let ref ← target "get" (argument args 0)
  let k ← toKey h (argument args 1)
  getFrom h ref k (if args.size < 3 then argument args 0 else argument args 2)

def setProperty : Native := fun h _ args _ => do
  let ref ← target "set" (argument args 0)
  let k ← toKey h (argument args 1)
  let receiver := if args.size < 4 then argument args 0 else argument args 3
  return .bool (← setOn h ref k (argument args 2) receiver)

def descriptor : Native := fun h _ args _ => do
  let ref ← target "getOwnPropertyDescriptor" (argument args 0)
  match ← ownProperty h ref (← toKey h (argument args 1)) with
  | some p => descriptorObject p
  | none => return .undefined

def getPrototype : Native := fun h _ args _ => do
  return protoValue (← protoOf h (← target "getPrototypeOf" (argument args 0)))

def setPrototype : Native := fun h _ args _ => do
  let ref ← target "setPrototypeOf" (argument args 0)
  match argument args 1 with
  | .object p => return .bool (← setProtoOf h ref (some p))
  | .null => return .bool (← setProtoOf h ref none)
  | v => typeError ("Object prototype may only be an Object or null: " ++ (← shownValue v))

def has : Native := fun h _ args _ => do
  let ref ← target "has" (argument args 0)
  return .bool (← hasProperty h ref (← toKey h (argument args 1)))

def extensible : Native := fun h _ args _ => do
  return .bool (← isExtensible h (← target "isExtensible" (argument args 0)))

def prevent : Native := fun h _ args _ => do
  return .bool (← preventExtensions h (← target "preventExtensions" (argument args 0)))

def keys : Native := fun h _ args _ => do
  newArray ((← ownKeys h (← target "ownKeys" (argument args 0))).map Key.value)

end Reflect

def newProxy (args : Array Value) : Run Nat := do
  match argument args 0, argument args 1 with
  | .object t, .object handler => alloc { proto := none, kind := .proxy (.object t) (.object handler) }
  | _, _ => typeError "Cannot create proxy with a non-object as target or handler"

def proxyMake : Native := fun _ _ args newTarget => do
  if newTarget.isUndefined then typeError "Constructor Proxy requires 'new'"
  return .object (← newProxy args)

/-- Ends the service of the proxy that the function was made for. -/
def proxyRevoke : Native := fun _ _ args _ => do
  match argument args 0 with
  | .object ref => setKind ref (.proxy .null .null)
  | _ => pure ()
  return .undefined

open Setup in
def setupReflect : Setup Unit := do
  let ref := Fixed.reflect.ref
  hidden Fixed.global.ref "Reflect" (.object ref)
  methods ref
    [("defineProperty", 3, Reflect.defineProperty), ("deleteProperty", 2, Reflect.deleteProperty),
     ("apply", 3, Reflect.apply), ("construct", 2, Reflect.construct),
     ("get", 2, Reflect.getProperty), ("getOwnPropertyDescriptor", 2, Reflect.descriptor),
     ("getPrototypeOf", 1, Reflect.getPrototype), ("has", 2, Reflect.has),
     ("isExtensible", 1, Reflect.extensible), ("ownKeys", 1, Reflect.keys),
     ("preventExtensions", 1, Reflect.prevent), ("set", 3, Reflect.setProperty),
     ("setPrototypeOf", 2, Reflect.setPrototype)]
  tag ref "Reflect"
  let c ← functionOf (← register proxyMake) "Proxy" 2 true
  hidden Fixed.global.ref "Proxy" (.object c)
  let revoke ← function "" 0 proxyRevoke
  let revocable : Native := fun _ _ args _ => do
    let proxy ← newProxy args
    let made ← alloc { proto := some Fixed.objectProto.ref }
    let f ← alloc
      { proto := some Fixed.functionProto.ref, kind := .bound revoke .undefined #[.object proxy] }
    putMember made (.ofString "proxy") (.plain (.object proxy))
    putMember made (.ofString "revoke") (.plain (.object f))
    return .object made
  method c "revocable" 2 revocable

end Unravel.Script.Library
