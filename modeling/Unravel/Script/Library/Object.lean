import Unravel.Script.Library.Setup

/-! Objects in general: their properties, prototypes and texts. -/

namespace Unravel.Script.Library

open Run

/-! The constructor's own functions -/

def objectMake : Native := fun h _ args newTarget => do
  match newTarget with
  | .object ref =>
    let isOwn ← isSelf ref
    if !isOwn then
      return ← newObject { proto := some (← protoFor h newTarget Fixed.objectProto.ref) }
  | _ => pure ()
  match argument args 0 with
  | .undefined | .null => newPlain
  | v => return .object (← toObject v)
where
  /-- Whether the function is the one that makes plain objects. -/
  isSelf (ref : Nat) : Run Bool := do
    match ← peek Fixed.objectProto.ref "constructor" with
    | .object c => return c = ref
    | _ => return true

/-- The listed keys of a value with what is made of each. -/
def listedWith (make : Key → Value → Run Value) : Native := fun h _ args _ => do
  let ref ← toObject (argument args 0)
  let mut found := #[]
  for k in ← ownKeys h ref do
    if !k.isSymbol then
      match ← ownProperty h ref k with
      | some p => if p.enumerable then
          found := found.push (← make k (← getFrom h ref k (.object ref)))
      | none => pure ()
  newArray found

def objectKeys : Native := fun h _ args _ => do
  let ref ← toObject (argument args 0)
  newArray ((← listedKeys h ref).map Key.value)

def objectValues : Native := listedWith fun _ v => return v

def objectEntries : Native := listedWith fun k v => newArray #[k.value, v]

def objectAssign : Native := fun h _ args _ => do
  let ref ← toObject (argument args 0)
  for source in args.toList.drop 1 do
    match source with
    | .undefined | .null => pure ()
    | v =>
      let from' ← toObject v
      for k in ← ownKeys h from' do
        match ← ownProperty h from' k with
        | some p => if p.enumerable then put h ref k (← getFrom h from' k (.object from'))
        | none => pure ()
  return .object ref

/-- Defines the properties that an object describes. -/
def defineAll (h : Host) (ref : Nat) (described : Value) : Run Unit := do
  let from' ← toObject described
  let mut found := #[]
  for k in ← ownKeys h from' do
    match ← ownProperty h from' k with
    | some p =>
      if p.enumerable then
        found := found.push (k, ← descriptorOf h (← getFrom h from' k (.object from')))
    | none => pure ()
  for (k, d) in found do
    if !(← defineOwn h ref k d) then typeError ("Cannot redefine property: " ++ Key.shown k)

def objectCreate : Native := fun h _ args _ => do
  let proto ← match argument args 0 with
    | .object p => pure (some p)
    | .null => pure none
    | v => typeError ("Object prototype may only be an Object or null: " ++ (← shownValue v))
  let ref ← alloc { proto := proto }
  match argument args 1 with
  | .undefined => pure ()
  | v => defineAll h ref v
  return .object ref

def objectDefineProperty : Native := fun h _ args _ => do
  match argument args 0 with
  | .object ref =>
    let k ← toKey h (argument args 1)
    let d ← descriptorOf h (argument args 2)
    if !(← defineOwn h ref k d) then
      if (← ownProperty h ref k).isNone then
        typeError ("Cannot define property " ++ Key.shown k ++ ", object is not extensible")
      typeError ("Cannot redefine property: " ++ Key.shown k)
    return .object ref
  | _ => typeError "Object.defineProperty called on non-object"

def objectDefineProperties : Native := fun h _ args _ => do
  match argument args 0 with
  | .object ref =>
    defineAll h ref (argument args 1)
    return .object ref
  | _ => typeError "Object.defineProperties called on non-object"

def objectDescriptor : Native := fun h _ args _ => do
  let ref ← toObject (argument args 0)
  match ← ownProperty h ref (← toKey h (argument args 1)) with
  | some p => descriptorObject p
  | none => return .undefined

def objectDescriptors : Native := fun h _ args _ => do
  let ref ← toObject (argument args 0)
  let made ← alloc { proto := some Fixed.objectProto.ref }
  for k in ← ownKeys h ref do
    match ← ownProperty h ref k with
    | some p => putMember made k (.plain (← descriptorObject p))
    | none => pure ()
  return .object made

def objectNames : Native := fun h _ args _ => do
  let ref ← toObject (argument args 0)
  newArray (((← ownKeys h ref).filter fun k => !k.isSymbol).map Key.value)

def objectSymbols : Native := fun h _ args _ => do
  let ref ← toObject (argument args 0)
  newArray (((← ownKeys h ref).filter Key.isSymbol).map Key.value)

def protoValue : Option Nat → Value
  | some p => .object p
  | none => .null

def objectProtoOf : Native := fun h _ args _ => do
  return protoValue (← protoOf h (← toObject (argument args 0)))

def objectSetProto : Native := fun h _ args _ => do
  let v := argument args 0
  if v.isNullish then typeError "Object.setPrototypeOf called on null or undefined"
  let proto ← match argument args 1 with
    | .object p => pure (some p)
    | .null => pure none
    | p => typeError ("Object prototype may only be an Object or null: " ++ (← shownValue p))
  match v with
  | .object ref =>
    if !(← setProtoOf h ref proto) then
      if (← objectAt ref).extensible then typeError "Cyclic __proto__ value"
      typeError ((← shownValue v) ++ " is not extensible")
  | _ => pure ()
  return v

/-- Makes an object refuse new properties. -/
def preventExtensions (h : Host) (ref : Nat) : Run Bool := do
  match (← objectAt ref).kind with
  | .proxy (.object t) handler =>
    match ← trap? handler "preventExtensions" (getFrom h) with
    | some f => return (← h.call f handler #[.object t]).truthy
    | none =>
      modifyObject t fun o => { o with extensible := false }
      return true
  | _ =>
    modifyObject ref fun o => { o with extensible := false }
    return true

def isExtensible (h : Host) (ref : Nat) : Run Bool := do
  let o ← objectAt ref
  match o.kind with
  | .proxy (.object t) handler =>
    match ← trap? handler "isExtensible" (getFrom h) with
    | some f => return (← h.call f handler #[.object t]).truthy
    | none => return (← objectAt t).extensible
  | _ => return o.extensible

/-- Makes the properties of an object stay; those with values may become unchangeable too. -/
def fixProperties (h : Host) (ref : Nat) (frozen : Bool) : Run Unit := do
  let _ ← preventExtensions h ref
  for k in ← ownKeys h ref do
    match ← ownProperty h ref k with
    | some (.data ..) =>
      let d : Descriptor := { configurable := some false }
      let _ ← defineOwn h ref k (if frozen then { d with writable := some false } else d)
    | some (.accessor ..) =>
      let _ ← defineOwn h ref k { configurable := some false }
    | none => pure ()

def fixing (frozen : Bool) : Native := fun h _ args _ => do
  match argument args 0 with
  | .object ref =>
    fixProperties h ref frozen
    return .object ref
  | v => return v

/-- Whether an object refuses changes: all of its properties stay, and with their values. -/
def isFixed (frozen : Bool) : Native := fun h _ args _ => do
  match argument args 0 with
  | .object ref =>
    if ← isExtensible h ref then return .bool false
    for k in ← ownKeys h ref do
      match ← ownProperty h ref k with
      | some (.data _ w _ c _) => if c || (frozen && w) then return .bool false
      | some (.accessor _ _ _ c _) => if c then return .bool false
      | none => pure ()
    return .bool true
  | _ => return .bool true

def objectPrevent : Native := fun h _ args _ => do
  match argument args 0 with
  | .object ref =>
    if !(← preventExtensions h ref) then
      typeError "'preventExtensions' on proxy: trap returned falsish"
    return .object ref
  | v => return v

def objectIsExtensible : Native := fun h _ args _ => do
  match argument args 0 with
  | .object ref => return .bool (← isExtensible h ref)
  | _ => return .bool false

def objectIs : Native := fun _ _ args _ =>
  return .bool ((argument args 0).same true (argument args 1))

def objectHasOwn : Native := fun h _ args _ => do
  let ref ← toObject (argument args 0)
  return .bool (← ownProperty h ref (← toKey h (argument args 1))).isSome

def objectFromEntries : Native := fun h _ args _ => do
  let ref ← alloc { proto := some Fixed.objectProto.ref }
  let add (_ : Unit) (entry : Value) : Run Unit := do
    if !entry.isObject then
      typeError ("Iterator value " ++ (← shownValue entry) ++ " is not an entry object")
    let k ← getValue h entry (.index 0)
    let v ← getValue h entry (.index 1)
    let _ ← createData h ref (← toKey h k) v
  forItems h add itemLimit (← openItems h (argument args 0)) ()
  return .object ref

def objectGroupBy : Native := fun h _ args _ => do
  let f := argument args 1
  needFunction f
  let ref ← alloc { proto := none }
  let add (i : Nat) (v : Value) : Run Nat := do
    let k ← toKey h (← h.call f .undefined #[v, .ofNat i])
    match (← objectAt ref).members.get? k with
    | some (.data (.object list) ..) =>
      modifyObject list fun o => o.putItem (match o.kind with
        | .array _ n _ => n
        | _ => 0) v
    | _ => putMember ref k (.plain (← newArray #[v]))
    return i + 1
  let _ ← forItems h add itemLimit (← openItems h (argument args 0)) 0
  return .object ref

/-! Methods of all objects -/

def objectText : Native := fun h this _ _ => do
  match this with
  | .undefined | .absent => return .ofString "[object Undefined]"
  | .null => return .ofString "[object Null]"
  | v =>
    let ref ← toObject v
    let isList ← isArray 100 (.object ref)
    let k ← kindOf ref
    let callable ← isCallable (.object ref)
    let name := if isList then "Array" else kindName k callable
    match ← getFrom h ref WellKnown.toStringTag.key v with
    | .string u => return .string (Units.ofString "[object " ++ u ++ .ofString "]")
    | _ => return .ofString ("[object " ++ name ++ "]")

def objectLocaleText : Native := fun h this _ _ => do
  let f ← getNamed h this "toString"
  needFunction f
  h.call f this #[]

def objectValueOf : Native := fun _ this _ _ => do return .object (← toObject this)

def objectHasOwnProperty : Native := fun h this args _ => do
  let k ← toKey h (argument args 0)
  let ref ← toObject this
  return .bool (← ownProperty h ref k).isSome

def objectIsPrototypeOf : Native := fun h this args _ => do
  match argument args 0 with
  | .object v =>
    let ref ← toObject this
    return .bool (← onChain h ref ((← get).objects.size + 1) (← protoOf h v))
  | _ => return .bool false

def objectIsEnumerable : Native := fun h this args _ => do
  let k ← toKey h (argument args 0)
  let ref ← toObject this
  return .bool (((← ownProperty h ref k).map Property.enumerable).getD false)

def objectGetProto : Native := fun h this _ _ => do
  return protoValue (← protoOf h (← toObject this))

def objectPutProto : Native := fun h this args _ => do
  if this.isNullish then typeError "Object.prototype.__proto__ called on null or undefined"
  let set (ref : Nat) (proto : Option Nat) : Run Unit := do
    if !(← setProtoOf h ref proto) then
      if (← objectAt ref).extensible then
        typeError (if ref = Fixed.objectProto.ref then
          "Immutable prototype object 'Object.prototype' cannot have their prototype set"
          else "Cyclic __proto__ value")
      typeError ((← shownValue this) ++ " is not extensible")
  match this, argument args 0 with
  | .object ref, .object p => set ref (some p)
  | .object ref, .null => set ref none
  | _, _ => pure ()
  return .undefined

/-- Defines a function that is called for a property. -/
def defineAccessor (isGetter : Bool) : Native := fun h this args _ => do
  let ref ← toObject this
  let f := argument args 1
  if !(← isCallable f) then
    typeError ("Object.prototype." ++ (if isGetter then "__defineGetter__" else "__defineSetter__")
      ++ ": Expecting function")
  let k ← toKey h (argument args 0)
  let d : Descriptor := { enumerable := some true, configurable := some true }
  let d := if isGetter then { d with getter := some f } else { d with setter := some f }
  if !(← defineOwn h ref k d) then typeError ("Cannot redefine property: " ++ Key.shown k)
  return .undefined

/-- Looks up the function that is called for a property, along the chain. -/
def accessorFrom (h : Host) (isGetter : Bool) (k : Key) : Nat → Nat → Run Value
  | 0, _ => return .undefined
  | n + 1, ref => do
    match ← ownProperty h ref k with
    | some (.accessor g s ..) => return if isGetter then g else s
    | some _ => return .undefined
    | none =>
      match ← protoOf h ref with
      | some p => accessorFrom h isGetter k n p
      | none => return .undefined

def lookUpAccessor (isGetter : Bool) : Native := fun h this args _ => do
  let ref ← toObject this
  let k ← toKey h (argument args 0)
  accessorFrom h isGetter k ((← get).objects.size + 1) ref

open Setup in
def setupObject : Setup Unit := do
  let proto := Fixed.objectProto.ref
  let c ← constructor "Object" 1 proto objectMake
  methods c
    [("keys", 1, objectKeys), ("values", 1, objectValues), ("entries", 1, objectEntries),
     ("assign", 2, objectAssign), ("create", 2, objectCreate),
     ("defineProperty", 3, objectDefineProperty), ("defineProperties", 2, objectDefineProperties),
     ("getOwnPropertyDescriptor", 2, objectDescriptor),
     ("getOwnPropertyDescriptors", 1, objectDescriptors), ("getOwnPropertyNames", 1, objectNames),
     ("getOwnPropertySymbols", 1, objectSymbols), ("getPrototypeOf", 1, objectProtoOf),
     ("setPrototypeOf", 2, objectSetProto), ("freeze", 1, fixing true), ("seal", 1, fixing false),
     ("isFrozen", 1, isFixed true), ("isSealed", 1, isFixed false),
     ("preventExtensions", 1, objectPrevent), ("isExtensible", 1, objectIsExtensible),
     ("is", 2, objectIs), ("hasOwn", 2, objectHasOwn), ("fromEntries", 1, objectFromEntries),
     ("groupBy", 2, objectGroupBy)]
  methods proto
    [("__defineGetter__", 2, defineAccessor true), ("__defineSetter__", 2, defineAccessor false),
     ("hasOwnProperty", 1, objectHasOwnProperty),
     ("__lookupGetter__", 1, lookUpAccessor true), ("__lookupSetter__", 1, lookUpAccessor false),
     ("isPrototypeOf", 1, objectIsPrototypeOf), ("propertyIsEnumerable", 1, objectIsEnumerable),
     ("toString", 0, objectText), ("valueOf", 0, objectValueOf),
     ("toLocaleString", 0, objectLocaleText)]
  let g ← function "get __proto__" 0 objectGetProto
  let s ← function "set __proto__" 1 objectPutProto
  Setup.put proto (.ofString "__proto__") (.accessor (.object g) (.object s) false true 0)

end Unravel.Script.Library
