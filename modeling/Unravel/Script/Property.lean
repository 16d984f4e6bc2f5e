import Unravel.Script.Element

/-! Properties of objects: how they are found and read, on ordinary objects and on those with rules
of their own. -/

namespace Unravel.Script

/-- What is said about a property that is to be defined. -/
structure Descriptor where
  value : Option Value := none
  writable : Option Bool := none
  getter : Option Value := none
  setter : Option Value := none
  enumerable : Option Bool := none
  configurable : Option Bool := none
deriving Inhabited

namespace Descriptor

def isAccessor (d : Descriptor) : Bool := d.getter.isSome || d.setter.isSome

def isData (d : Descriptor) : Bool := d.value.isSome || d.writable.isSome

/-- A property that an assignment makes. -/
def plain (v : Value) : Descriptor :=
  { value := some v, writable := some true, enumerable := some true, configurable := some true }

def hidden (v : Value) : Descriptor :=
  { value := some v, writable := some true, enumerable := some false, configurable := some true }

def ofProperty : Property → Descriptor
  | .data v w e c _ =>
    { value := some v, writable := some w, enumerable := some e, configurable := some c }
  | .accessor g s e c _ =>
    { getter := some g, setter := some s, enumerable := some e, configurable := some c }

/-- The property that a description makes where there is none. -/
def made (d : Descriptor) : Property :=
  if d.isAccessor then
    .accessor (d.getter.getD .undefined) (d.setter.getD .undefined) (d.enumerable.getD false)
      (d.configurable.getD false) 0
  else
    .data (d.value.getD .undefined) (d.writable.getD false) (d.enumerable.getD false)
      (d.configurable.getD false) 0

/-- Whether a property that must stay as it is can be described so. -/
def keeps (d : Descriptor) (old : Property) : Bool :=
  d.configurable != some true && d.enumerable.all (· == old.enumerable) &&
    match old with
    | .data v w _ _ _ =>
      !d.isAccessor && (w || (d.writable != some true && d.value.all fun x => x.same true v))
    | .accessor g s _ _ _ =>
      !d.isData && d.getter.all (fun x => x.same true g) && d.setter.all (fun x => x.same true s)

/-- What a property becomes by a description; none if that is refused. -/
def applied? (d : Descriptor) (old : Option Property) (extensible : Bool) : Option Property :=
  match old with
  | none => if extensible then some d.made else none
  | some old =>
    if !old.configurable && !d.keeps old then none
    else
      let e := d.enumerable.getD old.enumerable
      let c := d.configurable.getD old.configurable
      match old with
      | .data v w _ _ b =>
        if d.isAccessor then
          some (.accessor (d.getter.getD .undefined) (d.setter.getD .undefined) e c b)
        else some (.data (d.value.getD v) (d.writable.getD w) e c b)
      | .accessor g s _ _ b =>
        if d.isData then some (.data (d.value.getD .undefined) (d.writable.getD false) e c b)
        else some (.accessor (d.getter.getD g) (d.setter.getD s) e c b)

end Descriptor

/-- What a look-up along the chain of prototypes found. -/
inductive Found where
  | missing
  | value (v : Value)
  | getter (f : Value)
  /-- An object on the chain that answers for itself. -/
  | other (ref : Nat)

/-- Keys that functions have from the start. -/
def isFunctionKey : Key → Bool
  | .name u => u == Units.ofString "prototype" || u == Units.ofString "length"
    || u == Units.ofString "name" || u == Units.ofString "arguments"
    || u == Units.ofString "caller"
  | _ => false

def Property.found : Property → Found
  | .data v _ _ _ _ => .value v
  | .accessor g _ _ _ _ => .getter g

/-- The number at an index of a row of bytes. -/
def Machine.numberAt? (m : Machine) (t : ElementType) (buffer offset length i : Nat) :
    Option Float :=
  if i < length then
    match (m.objects.getD buffer default).kind with
    | .bytes data => some (t.read data (offset + i * t.width))
    | _ => none
  else none

/-- Looks a key up on an object and then along the chain of its prototypes. -/
def Machine.find (m : Machine) (key : Key) : Nat → Nat → Found
  | 0, _ => .missing
  | fuel + 1, ref =>
    let o := m.objects.getD ref default
    let onward (_ : Unit) : Found :=
      match o.members.get? key with
      | some p => p.found
      | none =>
        match o.proto with
        | some p => m.find key fuel p
        | none => .missing
    match o.kind with
    | .ordinary => onward ()
    | .array items length _ =>
      match key with
      | .index i =>
        match items.getD i .absent with
        | .absent => onward ()
        | v => .value v
      | key => if key == Key.length then .value (.ofNat length) else onward ()
    | .closure c => if c.isFresh && isFunctionKey key then .other ref else onward ()
    | .boxed (.string u) =>
      match key with
      | .index i => if i < u.size then .value (.string #[u.at0 i]) else onward ()
      | key => if key == Key.length then .value (.ofNat u.size) else onward ()
    | .arguments cells =>
      match key with
      | .index i =>
        match cells.getD i none with
        | some c => .value (m.cells.getD c .undefined)
        | none => onward ()
      | _ => onward ()
    | .numbers t b offset length =>
      match key with
      | .index i =>
        match m.numberAt? t b offset length i with
        | some x => .value (.number x)
        | none => .missing
      | _ => onward ()
    | .proxy .. => .other ref
    | _ => onward ()

namespace Run

/-- Gives a function of the program the properties that it has from the start. -/
def equip (ref : Nat) : Run Unit := do
  match (← objectAt ref).kind with
  | .closure c =>
    if c.isFresh then
      setKind ref (.closure { c with isFresh := false })
      let code := c.code
      let fixed (v : Value) : Property := .data v false false true 0
      putMember ref .length (fixed (.ofNat code.length))
      putMember ref (.ofString "name") (fixed (.string code.name))
      match code.kind with
      | .ordinary =>
        if !code.strict then
          putMember ref (.ofString "arguments") (.data .null false false false 0)
          putMember ref (.ofString "caller") (.data .null false false false 0)
        let proto ← alloc { proto := some Fixed.objectProto.ref }
        putMember proto (.ofString "constructor") (.hidden (.object ref))
        putMember ref (.ofString "prototype") (.data (.object proto) true false false 0)
      | .generator =>
        let proto ← alloc { proto := some Fixed.generatorProto.ref }
        putMember ref (.ofString "prototype") (.data (.object proto) true false false 0)
      | _ => pure ()
  | _ => pure ()

/-- Whether a value can be called. -/
def isCallable (v : Value) : Run Bool := do
  match v with
  | .object ref =>
    match (← objectAt ref).kind with
    | .closure _ | .native .. | .bound .. => return true
    | .proxy (.object t) _ =>
      match (← objectAt t).kind with
      | .closure _ | .native .. | .bound .. => return true
      | _ => return false
    | _ => return false
  | _ => return false

/-- Whether a function can make objects; a bound one can if its target can. -/
def constructs : Nat → Nat → Run Bool
  | 0, _ => return false
  | fuel + 1, ref => do
    match (← objectAt ref).kind with
    | .closure c =>
      match c.code.kind with
      | .ordinary | .baseClass | .derivedClass => return true
      | _ => return false
    | .native _ b => return b
    | .bound target _ _ => constructs fuel target
    | .proxy (.object t) _ => constructs fuel t
    | _ => return false

def isConstructor (v : Value) : Run Bool :=
  match v with
  | .object ref => constructs 100 ref
  | _ => return false

/-- The object that primitives of a value's kind inherit from. -/
def protoOfPrimitive : Value → Nat
  | .string _ => Fixed.stringProto.ref
  | .number _ => Fixed.numberProto.ref
  | .bool _ => Fixed.booleanProto.ref
  | .symbol _ => Fixed.symbolProto.ref
  | _ => Fixed.objectProto.ref

/-- The object that a value is, or one that wraps it. -/
def toObject (v : Value) : Run Nat := do
  match v with
  | .object ref => return ref
  | .undefined | .null | .absent => typeError "Cannot convert undefined or null to object"
  | v => alloc { proto := some (protoOfPrimitive v), kind := .boxed v }

/-- A trap of a handler, if it has one. -/
def trap? (handler : Value) (name : String) (read : Nat → Key → Value → Run Value) :
    Run (Option Value) := do
  match handler with
  | .object ref =>
    let f ← read ref (.ofString name) handler
    if f.isNullish then return none
    if ← isCallable f then return some f
    typeError (name ++ " trap is not a function")
  | _ => typeError "Cannot perform an operation on a proxy that has been revoked"

/-- Reads a property of an object for a receiver, to a depth of proxies. -/
def readFrom (h : Host) : Nat → Nat → Key → Value → Run Value
  | 0, _, _, _ => tooDeep
  | n + 1, ref, key, receiver => do
    let m ← get
    match m.find key (m.objects.size + 1) ref with
    | .missing => return .undefined
    | .value v => return v
    | .getter f => match f with
      | .undefined => return .undefined
      | f => h.call f receiver #[]
    | .other at' =>
      match (← objectAt at').kind with
      | .proxy target handler =>
        match ← trap? handler "get" (readFrom h n) with
        | some f => h.call f handler #[target, key.value, receiver]
        | none =>
          match target with
          | .object t => readFrom h n t key receiver
          | _ => return .undefined
      | _ =>
        equip at'
        readFrom h n ref key receiver

/-- The deepest chain of proxies that is followed. -/
def proxyLimit : Nat := 500

/-- Reads a property of an object for a receiver. -/
def getFrom (h : Host) (ref : Nat) (key : Key) (receiver : Value) : Run Value :=
  readFrom h proxyLimit ref key receiver

/-- How a value is named in messages. -/
def nullishName : Value → String
  | .null => "null"
  | _ => "undefined"

def Key.shown : Key → String
  | .symbol _ => "Symbol()"
  | key => key.units.shown

/-- Reads a property of any value. -/
def getValue (h : Host) (v : Value) (key : Key) : Run Value := do
  match v with
  | .object ref => getFrom h ref key v
  | .string u =>
    match key with
    | .index i => if i < u.size then return .string #[u.at0 i]
    | key => if key == Key.length then return .ofNat u.size
    getFrom h Fixed.stringProto.ref key v
  | .undefined | .null | .absent =>
    typeError ("Cannot read properties of " ++ nullishName v ++ " (reading '" ++ Key.shown key ++ "')")
  | v => getFrom h (protoOfPrimitive v) key v

def getNamed (h : Host) (v : Value) (name : String) : Run Value := getValue h v (.ofString name)

/-- The property of a description object. -/
def descriptorOf (h : Host) (v : Value) : Run Descriptor := do
  match v with
  | .object ref =>
    let m ← get
    let has (name : String) : Bool := match m.find (.ofString name) (m.objects.size + 1) ref with
      | .missing => false
      | _ => true
    let field (name : String) : Run (Option Value) := do
      if has name then return some (← getNamed h v name) else return none
    let flag (name : String) : Run (Option Bool) := do return (← field name).map Value.truthy
    let enumerable ← flag "enumerable"
    let configurable ← flag "configurable"
    let value ← field "value"
    let writable ← flag "writable"
    let getter ← field "get"
    let setter ← field "set"
    for (f, name) in [(getter, "Getter"), (setter, "Setter")] do
      match f with
      | some f =>
        if !f.isUndefined && !(← isCallable f) then typeError (name ++ " must be a function")
      | none => pure ()
    let d : Descriptor := ⟨value, writable, getter, setter, enumerable, configurable⟩
    if d.isAccessor && d.isData then
      typeError ("Invalid property descriptor. Cannot both specify accessors and a value or "
        ++ "writable attribute")
    return d
  | _ => typeError "Property description must be an object"

/-- A description as an object that a script sees. -/
def descriptorObject (p : Property) : Run Value := do
  let ref ← alloc { proto := some Fixed.objectProto.ref }
  let put (name : String) (v : Value) : Run Unit := putMember ref (.ofString name) (.plain v)
  match p with
  | .data v w e c _ =>
    put "value" v
    put "writable" (.bool w)
    put "enumerable" (.bool e)
    put "configurable" (.bool c)
  | .accessor g s e c _ =>
    put "get" g
    put "set" s
    put "enumerable" (.bool e)
    put "configurable" (.bool c)
  return .object ref

variable (h : Host)

/-- The own property of an object under a key. -/
def ownFrom : Nat → Nat → Key → Run (Option Property)
  | 0, _, _ => tooDeep
  | n + 1, ref, key => do
    let m ← get
    let o := m.objects.getD ref default
    match o.kind with
    | .ordinary => return o.members.get? key
    | .array items length isFixed =>
      match key with
      | .index i =>
        match items.getD i .absent with
        | .absent => return o.members.get? key
        | v => return some (.plain v)
      | key =>
        if key == Key.length then return some (.data (.ofNat length) (!isFixed) false false 0)
        return o.members.get? key
    | .closure c =>
      if c.isFresh then
        equip ref
        return (← objectAt ref).members.get? key
      else return o.members.get? key
    | .boxed (.string u) =>
      match key with
      | .index i =>
        if i < u.size then return some (.data (.string #[u.at0 i]) false true false 0)
        return o.members.get? key
      | key =>
        if key == Key.length then return some (.data (.ofNat u.size) false false false 0)
        return o.members.get? key
    | .arguments cells =>
      match key, o.members.get? key with
      | .index i, some (.data v w e c b) =>
        match cells.getD i none with
        | some cell => return some (.data (m.cells.getD cell .undefined) w e c b)
        | none => return some (.data v w e c b)
      | _, p => return p
    | .numbers t b offset length =>
      match key with
      | .index i => return (m.numberAt? t b offset length i).map fun x => .plain (.number x)
      | key => return o.members.get? key
    | .proxy target handler =>
      match target with
      | .object t =>
        match ← trap? handler "getOwnPropertyDescriptor" (getFrom h) with
        | none => ownFrom n t key
        | some f =>
          match ← h.call f handler #[target, key.value] with
          | .undefined => return none
          | d => return some (← descriptorOf h d).made
      | _ => typeError "Cannot perform an operation on a proxy that has been revoked"
    | _ => return o.members.get? key

def ownProperty (ref : Nat) (key : Key) : Run (Option Property) := ownFrom h proxyLimit ref key

/-- The prototype of an object. -/
def protoOf (ref : Nat) : Run (Option Nat) := do
  let o ← objectAt ref
  match o.kind with
  | .proxy (.object t) handler =>
    match ← trap? handler "getPrototypeOf" (getFrom h) with
    | some f =>
      match ← h.call f handler #[.object t] with
      | .object p => return some p
      | _ => return none
    | none => return (← objectAt t).proto
  | _ => return o.proto

/-- Whether an object has a property, of its own or along its chain. -/
def hasFrom : Nat → Nat → Key → Run Bool
  | 0, _, _ => return false
  | n + 1, ref, key => do
    let o ← objectAt ref
    match o.kind with
    | .proxy target handler =>
      match ← trap? handler "has" (getFrom h) with
      | some f => return (← h.call f handler #[target, key.value]).truthy
      | none =>
        match target with
        | .object t => hasFrom n t key
        | _ => return false
    | .numbers _ _ _ length =>
      match key with
      | .index i => return i < length
      | key =>
        if (o.members.get? key).isSome then return true
        match o.proto with
        | some p => hasFrom n p key
        | none => return false
    | _ =>
      if (← ownProperty h ref key).isSome then return true
      match o.proto with
      | some p => hasFrom n p key
      | none => return false

def hasProperty (ref : Nat) (key : Key) : Run Bool := do
  hasFrom h ((← get).objects.size + 1) ref key

end Run

end Unravel.Script
