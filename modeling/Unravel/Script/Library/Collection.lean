import Unravel.Script.Library.Setup

/-! Maps and sets, generators and their kin. -/

namespace Unravel.Script.Library

open Run

/-- The kinds of collections. -/
inductive CollectionKind where
  | map | set | weakMap | weakSet
deriving DecidableEq

namespace CollectionKind

def name : CollectionKind → String
  | .map => "Map" | .set => "Set" | .weakMap => "WeakMap" | .weakSet => "WeakSet"

def proto : CollectionKind → Fixed
  | .map => .mapProto | .set => .setProto | .weakMap => .weakMapProto | .weakSet => .weakSetProto

def isMap : CollectionKind → Bool
  | .map | .weakMap => true
  | _ => false

def isWeak : CollectionKind → Bool
  | .weakMap | .weakSet => true
  | _ => false

def made (k : CollectionKind) (es : Entries) : Kind :=
  match k with
  | .map => .map es
  | .set => .set es
  | .weakMap => .weakMap es
  | .weakSet => .weakSet es

/-- The entries of an object, if it is of the kind. -/
def entries? (k : CollectionKind) (kind : Kind) : Option Entries :=
  match k, kind with
  | .map, .map es | .set, .set es | .weakMap, .weakMap es | .weakSet, .weakSet es => some es
  | _, _ => none

end CollectionKind

/-- The collection that a receiver is. -/
def ownEntries (k : CollectionKind) (method : String) (v : Value) : Run (Nat × Entries) := do
  let fail : Run (Nat × Entries) := do
    typeError ("Method " ++ k.name ++ ".prototype." ++ method ++ " called on incompatible receiver "
      ++ (← shownValue v))
  match v with
  | .object ref =>
    match k.entries? (← kindOf ref) with
    | some es => return (ref, es)
    | none => fail
  | _ => fail

/-- Changes the entries of a collection. -/
def modifyEntries (k : CollectionKind) (ref : Nat) (f : Entries → Entries) : Run Unit :=
  modifyObject ref fun o => match o with
    | ⟨proto, .map es, members, extensible⟩ => ⟨proto, .map (f es), members, extensible⟩
    | ⟨proto, .set es, members, extensible⟩ => ⟨proto, .set (f es), members, extensible⟩
    | o => match k.entries? o.kind with
      | some es => { o with kind := k.made (f es) }
      | none => o

def collectionMake (k : CollectionKind) : Native := fun h _ args newTarget => do
  if newTarget.isUndefined then typeError ("Constructor " ++ k.name ++ " requires 'new'")
  let ref ← alloc { proto := some (← protoFor h newTarget k.proto.ref), kind := k.made {} }
  let source := argument args 0
  if !source.isNullish then
    let adder ← getNamed h (.object ref) (if k.isMap then "set" else "add")
    if !(← isCallable adder) then
      typeError ("'" ++ (← shownValue adder) ++ "' returned for property '"
        ++ (if k.isMap then "set" else "add") ++ "' of object '#<" ++ k.name ++ ">' is not a function")
    let add (_ : Unit) (v : Value) : Run Unit := do
      if k.isMap then
        if !v.isObject then
          typeError ("Iterator value " ++ (← shownValue v) ++ " is not an entry object")
        let key ← getValue h v (.index 0)
        let value ← getValue h v (.index 1)
        let _ ← h.call adder (.object ref) #[key, value]
      else
        let _ ← h.call adder (.object ref) #[v]
    forItems h add itemLimit (← openItems h source) ()
  return .object ref

/-- Keys of weak collections are objects and symbols. -/
def checkWeak (k : CollectionKind) (v : Value) : Run Unit := do
  if k.isWeak then
    match v with
    | .object _ | .symbol _ => pure ()
    | _ => typeError ("Invalid value used " ++ (if k.isMap then "as weak map key" else "in weak set")
)

def collectionGet (k : CollectionKind) : Native := fun _ this args _ => do
  let (_, es) ← ownEntries k "get" this
  return (es.find? (argument args 0)).getD .undefined

def collectionHas (k : CollectionKind) : Native := fun _ this args _ => do
  let (_, es) ← ownEntries k "has" this
  return .bool (es.has (argument args 0))

def collectionPut (k : CollectionKind) : Native := fun _ this args _ => do
  let (ref, _) ← ownEntries k (if k.isMap then "set" else "add") this
  let key := argument args 0
  checkWeak k key
  modifyEntries k ref fun es => es.put key (if k.isMap then argument args 1 else key)
  return this

def collectionDelete (k : CollectionKind) : Native := fun _ this args _ => do
  let (ref, es) ← ownEntries k "delete" this
  let had := es.has (argument args 0)
  modifyEntries k ref fun es => es.erase (argument args 0)
  return .bool had

def collectionClear (k : CollectionKind) : Native := fun _ this _ _ => do
  let (ref, _) ← ownEntries k "clear" this
  modifyEntries k ref Entries.clear
  return .undefined

def collectionSize (k : CollectionKind) : Native := fun _ this _ _ => do
  let (_, es) ← ownEntries k "size" this
  return .ofNat es.size

/-- Calls a function with each entry, those included that come in meanwhile. -/
def eachEntry (h : Host) (k : CollectionKind) (f receiver this : Value) : Nat → Nat → Run Unit
  | 0, _ => exhausted
  | n + 1, place => do
    let (_, es) ← ownEntries k "forEach" this
    match es.next? place with
    | some (key, v, next) =>
      let _ ← h.call f receiver #[v, key, this]
      eachEntry h k f receiver this n next
    | none => pure ()

def collectionForEach (k : CollectionKind) : Native := fun h this args _ => do
  let _ ← ownEntries k "forEach" this
  let f := argument args 0
  needFunction f
  eachEntry h k f (argument args 1) this itemLimit 0
  return .undefined

def entryIterator (k : CollectionKind) (part : Part) (name : String) : Native := fun _ this _ _ => do
  let (ref, _) ← ownEntries k name this
  let proto := if k.isMap then Fixed.mapIteratorProto else Fixed.setIteratorProto
  newObject { proto := some proto.ref, kind := .entryIterator ref 0 part k.isMap }

def entryIteratorNext : Native := fun _ this _ _ => do
  let fail : Run Value := typeError "next method called on incompatible receiver"
  match this with
  | .object it =>
    match ← kindOf it with
    | .entryIterator ref place part isMap =>
      let es := match ← kindOf ref with
        | .map es | .set es => es
        | _ => {}
      match es.next? place with
      | some (key, v, next) =>
        setKind it (.entryIterator ref next part isMap)
        match part with
        | .keys => newResult key false
        | .values => newResult v false
        | .entries => newResult (← newArray #[key, v]) false
      | none =>
        setKind it .ended
        newResult .undefined true
    | .ended => newResult .undefined true
    | _ => fail
  | _ => fail

def mapGroupBy : Native := fun h _ args _ => do
  let f := argument args 1
  needFunction f
  let ref ← alloc { proto := some Fixed.mapProto.ref, kind := .map {} }
  let add (i : Nat) (v : Value) : Run Nat := do
    let key ← h.call f .undefined #[v, .ofNat i]
    let (_, es) ← ownEntries .map "get" (.object ref)
    match es.find? key with
    | some (.object list) =>
      modifyObject list fun o => o.putItem (match o.kind with
        | .array _ n _ => n
        | _ => 0) v
    | _ =>
      let list ← newArray #[v]
      modifyEntries .map ref fun es => es.put key list
    return i + 1
  let _ ← forItems h add itemLimit (← openItems h (argument args 0)) 0
  return .object ref

/-! Sets combined -/

/-- The items of another set, and whether it holds a value. -/
def otherSet (h : Host) (v : Value) : Run (Array Value × Entries) := do
  if !v.isObject then typeError ((← shownValue v) ++ " is not an object")
  let size ← toNumber h (← getNamed h v "size")
  if size.isNaN then typeError "The 'size' property must be a number"
  let keys ← getNamed h v "keys"
  needFunction keys
  let it ← h.call keys v #[]
  let items ← forItems h (fun (found : Array Value) v => return found.push v) itemLimit
    (.iterator it (← getNamed h it "next")) #[]
  return (items, items.foldl (fun es v => es.put v v) {})

def itemsIn (es : Entries) : Array Value := es.places.filterMap fun p => p.map Prod.fst

def newSet (items : Array Value) : Run Value :=
  newObject
    { proto := some Fixed.setProto.ref, kind := .set (items.foldl (fun es v => es.put v v) {}) }

def setCombined (name : String) (f : Entries → Array Value → Entries → Run Value) : Native :=
  fun h this args _ => do
    let (_, es) ← ownEntries .set name this
    let (items, other) ← otherSet h (argument args 0)
    f es items other

/-- How the entries of a set and those of another, in order and by value, are put together. -/
def setOperations : List (String × (Entries → Array Value → Entries → Run Value)) :=
  [("union", fun es items _ => newSet (itemsIn es ++ items)),
   ("intersection", fun es items other =>
     if es.size ≤ other.size then newSet ((itemsIn es).filter other.has)
     else newSet (items.filter es.has)),
   ("difference", fun es _ other => newSet ((itemsIn es).filter fun v => !other.has v)),
   ("symmetricDifference", fun es items other =>
     newSet ((itemsIn es).filter (fun v => !other.has v) ++ items.filter fun v => !es.has v)),
   ("isSubsetOf", fun es _ other => return .bool ((itemsIn es).all other.has)),
   ("isSupersetOf", fun es items _ => return .bool (items.all es.has)),
   ("isDisjointFrom", fun es items _ => return .bool (items.all fun v => !es.has v))]

def setMethods : List (String × Nat × Native) :=
  setOperations.map fun (name, f) => (name, 1, setCombined name f)

/-! Generators -/

def generatorGoOn (mode : Resumption) (name : String) : Native := fun h this args _ => do
  let fail : Run Value := do
    typeError (name ++ " method called on incompatible receiver " ++ (← shownValue this))
  match this with
  | .object ref =>
    match ← kindOf ref with
    | .generator _ => h.resume ref mode (argument args 0)
    | _ => fail
  | _ => fail

open Setup in
def setupCollection : Setup Unit := do
  for k in [CollectionKind.map, .set, .weakMap, .weakSet] do
    let proto := k.proto.ref
    let c ← constructor k.name 0 proto (collectionMake k)
    if !k.isWeak then species c
    tag proto k.name
    if k.isMap then methods proto [("get", 1, collectionGet k), ("set", 2, collectionPut k)]
    else method proto "add" 1 (collectionPut k)
    methods proto [("has", 1, collectionHas k), ("delete", 1, collectionDelete k)]
    if k = .map then method c "groupBy" 2 mapGroupBy
    if !k.isWeak then
      methods proto [("clear", 0, collectionClear k), ("forEach", 1, collectionForEach k)]
      getter proto (.ofString "size") "size" (collectionSize k)
      if k.isMap then
        let entries ← intrinsic .mapEntries "entries" 0 (entryIterator k .entries "entries")
        hidden proto "entries" (.object entries)
        Setup.put proto WellKnown.iterator.key (.hidden (.object entries))
        methods proto
          [("keys", 0, entryIterator k .keys "keys"), ("values", 0, entryIterator k .values "values")]
      else
        let values ← intrinsic .setValues "values" 0 (entryIterator k .values "values")
        hidden proto "values" (.object values)
        hidden proto "keys" (.object values)
        Setup.put proto WellKnown.iterator.key (.hidden (.object values))
        method proto "entries" 0 (entryIterator k .entries "entries")
  methods Fixed.setProto.ref setMethods
  for (proto, name) in
      [(Fixed.mapIteratorProto, "Map Iterator"), (.setIteratorProto, "Set Iterator")] do
    method proto.ref "next" 0 entryIteratorNext
    tag proto.ref name

open Setup in
def setupGenerator : Setup Unit := do
  let proto := Fixed.generatorProto.ref
  methods proto
    [("next", 1, generatorGoOn .next "next"), ("return", 1, generatorGoOn .returned "return"),
     ("throw", 1, generatorGoOn .thrown "throw")]
  tag proto "Generator"
  let functionProto := Fixed.generatorFunctionProto.ref
  Setup.put functionProto (.ofString "prototype") (.data (.object proto) false false true 0)
  Setup.put proto (.ofString "constructor") (.data (.object functionProto) false false true 0)

end Unravel.Script.Library
