import Unravel.Script.Iterate

/-! What single instructions do beyond the stack: global names, literals, functions, classes and
members of parents. -/

namespace Unravel.Script.Run

variable (h : Host)

/-! Global names -/

def notDefined {α : Type} (name : Units) : Run α := raise .reference (name.shown ++ " is not defined")

def notReady {α : Type} (name : String) : Run α :=
  if name = "this" then
    raise .reference ("Must call super constructor in derived class before accessing 'this' or "
      ++ "returning from derived constructor")
  else raise .reference ("Cannot access '" ++ name ++ "' before initialization")

/-- The value of a variable that a script declares for all; none if there is no such variable. -/
def lexical? (name : Units) : Run (Option Value) := do
  let m ← get
  match m.lexicals[name]? with
  | some l =>
    match m.cells.getD l.cell .absent with
    | .absent => notReady name.shown
    | v => return some v
  | none => return none

def getGlobal (name : Units) : Run Value := do
  match ← lexical? name with
  | some v => return v
  | none =>
    let m ← get
    match m.find (.ofUnits name) (m.objects.size + 1) Fixed.global.ref with
    | .value v => return v
    | .missing => notDefined name
    | _ => getFrom h Fixed.global.ref (.ofUnits name) (.object Fixed.global.ref)

def typeOfGlobal (name : Units) : Run Value := do
  match ← lexical? name with
  | some v => return .ofString (← typeName v)
  | none => return .ofString (← typeName (← getFrom h Fixed.global.ref (.ofUnits name) (.object Fixed.global.ref)))

def setGlobal (name : Units) (v : Value) (strict : Bool) : Run Unit := do
  match (← get).lexicals[name]? with
  | some l =>
    let _ ← lexical? name
    if l.isConst then typeError "Assignment to constant variable."
    modify fun m => { m with cells := m.cells.setIfInBounds l.cell v }
  | none =>
    let g := Fixed.global.ref
    if strict && !(← hasProperty h g (.ofUnits name)) then notDefined name
    setValue h (.object g) (.ofUnits name) v strict

def deleteGlobal (name : Units) : Run Value := do
  if (← get).lexicals.contains name then return .bool false
  return .bool (← deleteOwn h Fixed.global.ref (.ofUnits name))

def declaredTwice {α : Type} (name : Units) : Run α :=
  raise .form ("Identifier '" ++ name.shown ++ "' has already been declared")

def declareGlobal (name : Units) (isFunction : Bool) : Run Unit := do
  if (← get).lexicals.contains name then declaredTwice name
  let g := Fixed.global.ref
  match ← ownProperty h g (.ofUnits name) with
  | none => putMember g (.ofUnits name) (.data .undefined true true false 0)
  | some p =>
    if isFunction && p.configurable then
      putMember g (.ofUnits name) (.data .undefined true true false 0)

def declareLexical (name : Units) (isConst : Bool) : Run Unit := do
  if (← get).lexicals.contains name then declaredTwice name
  match ← ownProperty h Fixed.global.ref (.ofUnits name) with
  | some p => if !p.configurable then declaredTwice name
  | none => pure ()
  let cell ← newCell .absent
  modify fun m => { m with lexicals := m.lexicals.insert name ⟨cell, isConst⟩ }

def setLexical (name : Units) (v : Value) : Run Unit := do
  match (← get).lexicals[name]? with
  | some l => modify fun m => { m with cells := m.cells.setIfInBounds l.cell v }
  | none => pure ()

/-- Whether a name is looked up in an object. -/
def hasName (object : Value) (name : Units) : Run Bool := do
  match object with
  | .object ref =>
    if !(← hasProperty h ref (.ofUnits name)) then return false
    match ← getFrom h ref WellKnown.unscopables.key object with
    | .object u => return !(← getFrom h u (.ofUnits name) (.object u)).truthy
    | _ => return true
  | _ => return false

/-! Arguments, objects and arrays -/

/-- The function that gives the items of arrays. -/
def arrayValues : Run Value := getFrom default Fixed.arrayProto.ref (.ofString "values") .undefined
where
  default : Host := .exhausted (return .undefined)

/-- The object of a call's arguments, tied to cells. -/
def argumentsObject (arguments : Array Value) (cells : Array (Option Nat)) (callee : Option Value) :
    Run Value := do
  let tied := (List.range (min arguments.size cells.size)).map fun i => cells.getD i none
  let ref ← alloc { proto := some Fixed.objectProto.ref, kind := .arguments tied.toArray }
  for (v, i) in arguments.toList.zipIdx do
    putMember ref (.index i) (.plain v)
  putMember ref .length (.hidden (.ofNat arguments.size))
  match callee with
  | some f => putMember ref (.ofString "callee") (.hidden f)
  | none =>
    let refusal := Value.object Fixed.refusal.ref
    putMember ref (.ofString "callee") (.accessor refusal refusal false false 0)
  putMember ref WellKnown.iterator.key (.hidden (← arrayValues))
  return .object ref

/-- Adds an element to the end of an array. -/
def append (array v : Value) : Run Unit :=
  match array with
  | .object ref => modifyObject ref fun o => match o with
    | ⟨proto, .array items length isFixed, members, extensible⟩ =>
      ⟨proto, .array (items.push v) (length + 1) isFixed, members, extensible⟩
    | o => o
  | _ => pure ()

/-- Adds all items of a value to the end of an array. -/
def appendAll (array source : Value) : Run Unit := do
  match source with
  | .undefined | .null | .number _ | .bool _ =>
    typeError "Spread syntax requires ...iterable[Symbol.iterator] to be a function"
  | _ => pure ()
  forItems h (fun _ v => append array v) itemLimit (← openItems h source) ()

/-- Copies the listed properties of a value, symbols included, but for some keys. -/
def copyListed (ref : Nat) (source : Value) (except : Array Key) : Run Unit := do
  match source with
  | .undefined | .null | .absent => pure ()
  | v =>
    let from' ← toObject v
    for k in ← ownKeys h from' do
      if !except.contains k then
        match ← ownProperty h from' k with
        | some p =>
          if p.enumerable then
            let _ ← createData h ref k (← getFrom h from' k v)
        | none => pure ()

/-- The string by which a function under a key is named. -/
def nameOf (key : Value) : Run Units := do
  match key with
  | .symbol id =>
    match (← get).symbols.getD id none with
    | some u => return Units.ofString "[" ++ u ++ .ofString "]"
    | none => return #[]
  | .string u => return u
  | _ => return #[]

/-- Names a function that has no name of its own. -/
def nameFunction (f : Value) (name : Units) : Run Unit := do
  match f with
  | .object ref =>
    equip ref
    match (← objectAt ref).kind with
    | .closure c =>
      if c.code.name.isEmpty then
        match (← objectAt ref).members.get? (.ofString "name") with
        | some (.data (.string _) false _ _ _) | none =>
          putMember ref (.ofString "name") (.data (.string name) false false true 0)
        | _ => pure ()
    | _ => pure ()
  | _ => pure ()

/-- Makes a function the method of an object. -/
def setHome (f home : Value) : Run Unit :=
  match f with
  | .object ref => modifyObject ref fun o => match o.kind with
    | .closure c => { o with kind := .closure { c with home := home } }
    | _ => o
  | _ => pure ()

/-- Puts a function under a key of an object. -/
def defineMember (kind : MemberKind) (enumerable : Bool) (object key f : Value) : Run Unit := do
  setHome f object
  let mark := match kind with
    | .getter => "get "
    | .setter => "set "
    | .method => ""
  let isNamed ← match f with
    | .object ref => match (← objectAt ref).kind with
      | .closure c => pure !c.code.name.isEmpty
      | _ => pure true
    | _ => pure true
  if !isNamed then nameFunction f (Units.ofString mark ++ (← nameOf key))
  match object with
  | .object ref =>
    let k ← toKey h key
    let d : Descriptor := match kind with
      | .method => { value := some f, writable := some true }
      | .getter => { getter := some f }
      | .setter => { setter := some f }
    let ok ← defineOwn h ref k { d with enumerable := some enumerable, configurable := some true }
    if !ok then typeError ("Cannot redefine property: " ++ Key.shown k)
  | _ => pure ()

/-- The prototype that a member `__proto__` of a literal sets. -/
def setProtoMember (object v : Value) : Run Unit := do
  match object, v with
  | .object ref, .object p => modifyObject ref fun o => { o with proto := some p }
  | .object ref, .null => modifyObject ref fun o => { o with proto := none }
  | _, _ => pure ()

/-- The proto of functions of a kind. -/
def functionProtoOf : FunctionKind → Nat
  | .generator => Fixed.generatorFunctionProto.ref
  | .asynchronous | .asyncArrow | .asyncMethod => Fixed.asyncFunctionProto.ref
  | _ => Fixed.functionProto.ref

def newFunction (code : Code) (cells : Array Nat) : Run Value :=
  newObject
    { proto := some (functionProtoOf code.kind), kind := .closure { code := code, cells := cells } }

/-- Makes a class: its constructor and the object that instances inherit from. -/
def makeClass (code : Code) (cells : Array Nat) (parent : Option Value) : Run (Value × Value) := do
  let (protoParent, functionParent) ← match parent with
    | none => pure (some Fixed.objectProto.ref, Fixed.functionProto.ref)
    | some .null => pure (none, Fixed.functionProto.ref)
    | some v =>
      if !(← isConstructor v) then
        let shown ← match v with
          | .object _ => pure "#<Object>"
          | v => pure (primitiveText v).shown
        typeError ("Class extends value " ++ shown ++ " is not a constructor or null")
      match v with
      | .object ref =>
        match ← getNamed h v "prototype" with
        | .object p => pure (some p, ref)
        | .null => pure (none, ref)
        | p =>
          typeError ("Class extends value does not have valid prototype property "
            ++ (primitiveText p).shown)
      | _ => pure (none, Fixed.functionProto.ref)
  let proto ← alloc { proto := protoParent }
  let ref ← alloc
    { proto := some functionParent
      kind := .closure { code := code, cells := cells, home := .object proto, isFresh := false } }
  putMember ref .length (.data (.ofNat code.length) false false true 0)
  putMember ref (.ofString "name") (.data (.string code.name) false false true 0)
  putMember ref (.ofString "prototype") (.data (.object proto) false false false 0)
  putMember proto (.ofString "constructor") (.hidden (.object ref))
  return (.object ref, .object proto)

/-- The object of the strings of a tagged template, which is the same each time. -/
def templateObject (site : Nat) (cooked : Array (Option Units)) (raw : Array Units) : Run Value := do
  match (← get).templates[site]? with
  | some ref => return .object ref
  | none =>
    let frozen (items : Array Value) : Run Nat := do
      let ref ← alloc { proto := some Fixed.arrayProto.ref, kind := .array #[] items.size true }
      for (v, i) in items.toList.zipIdx do
        putMember ref (.index i) (.data v false true false 0)
      return ref
    let rawRef ← frozen (raw.map Value.string)
    let ref ← frozen (cooked.map fun u => (u.map Value.string).getD .undefined)
    putMember ref (.ofString "raw") (.data (.object rawRef) false false false 0)
    for r in [rawRef, ref] do
      modifyObject r fun o => { o with extensible := false }
    modify fun m => { m with templates := m.templates.insert site ref }
    return .object ref

/-- Takes a property of a value away. In strict code a refusal is an error. -/
def deleteValue (v : Value) (key : Key) (strict : Bool) : Run Value := do
  let ref ← toObject v
  let ok ← deleteOwn h ref key
  if !ok && strict then
    let shown ← if ← isArray 100 v then pure "[object Array]" else pure "#<Object>"
    typeError ("Cannot delete property '" ++ Key.shown key ++ "' of " ++ shown)
  return .bool ok

/-! Members of parents -/

/-- The object in which members of `super` are looked up. -/
def superObject (home : Value) : Run (Option Nat) := do
  match home with
  | .object ref => protoOf h ref
  | _ => return none

def superGet (home receiver key : Value) : Run Value := do
  let k ← toKey h key
  match ← superObject h home with
  | some p => getFrom h p k receiver
  | none => typeError ("Cannot read properties of null (reading '" ++ Key.shown k ++ "')")

def superSet (home receiver key v : Value) (strict : Bool) : Run Unit := do
  let k ← toKey h key
  match ← superObject h home with
  | some p => if !(← setOn h p k v receiver) && strict then typeError (refusal k)
  | none => typeError ("Cannot set properties of null (setting '" ++ Key.shown k ++ "')")

/-- The constructor of the parent of a class. -/
def superConstructor (callee : Value) : Run Value := do
  match callee with
  | .object ref =>
    match ← protoOf h ref with
    | some p =>
      if ← isConstructor (.object p) then return .object p
      typeError "Super constructor is not a constructor"
    | none => typeError "Super constructor null of anonymous class is not a constructor"
  | _ => raise .form "'super' keyword unexpected here"

end Unravel.Script.Run
