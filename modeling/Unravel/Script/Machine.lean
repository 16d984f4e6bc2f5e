import Unravel.Script.Names

/-! The machine that scripts run on: its objects with their properties, the cells of shared
variables, the calls that are under way, and the ways a run can stop. -/

namespace Unravel.Script

/-- A property: a value, or functions that are called for it. `born` orders the properties of an
object by when they were made. -/
inductive Property where
  | data (value : Value) (writable enumerable configurable : Bool) (born : Nat)
  | accessor (getter setter : Value) (enumerable configurable : Bool) (born : Nat)
deriving Inhabited

namespace Property

def enumerable : Property → Bool
  | .data _ _ e _ _ => e
  | .accessor _ _ e _ _ => e

def configurable : Property → Bool
  | .data _ _ _ c _ => c
  | .accessor _ _ _ c _ => c

def born : Property → Nat
  | .data _ _ _ _ b => b
  | .accessor _ _ _ _ b => b

def withBorn (p : Property) (b : Nat) : Property :=
  match p with
  | .data v w e c _ => .data v w e c b
  | .accessor g s e c _ => .accessor g s e c b

/-- A property as an assignment makes it. -/
def plain (v : Value) : Property := .data v true true true 0

/-- A property that is not listed. -/
def hidden (v : Value) : Property := .data v true false true 0

end Property

/-- Properties by key. -/
structure Members where
  table : Std.HashMap Key Property := {}
  next : Nat := 0
deriving Inhabited

namespace Members

def get? (ms : Members) (key : Key) : Option Property := ms.table[key]?

/-- Puts a property under a key; one that replaces another keeps its place in the order. -/
def put (ms : Members) (key : Key) (p : Property) : Members :=
  match ms.table[key]? with
  | some old => { ms with table := ms.table.insert key (p.withBorn old.born) }
  | none => { table := ms.table.insert key (p.withBorn ms.next), next := ms.next + 1 }

def erase (ms : Members) (key : Key) : Members := { ms with table := ms.table.erase key }

/-- Keys in the order in which scripts see them: indices by size, then names and then symbols by
age. -/
def keys (ms : Members) : Array Key :=
  let rank : Key × Nat → Nat × Nat
    | (.index n, _) => (0, n)
    | (.name _, b) => (1, b)
    | (.symbol _, b) => (2, b)
  let all := ms.table.fold (fun done k p => done.push (k, p.born)) #[]
  let before (a b : Key × Nat) : Bool :=
    let (x, m) := rank a
    let (y, n) := rank b
    x < y || (x = y && m ≤ n)
  ((all.toList.mergeSort before).map Prod.fst).toArray

end Members

/-- A value as the key of a collection, in which a NaN equals itself and the zeros are one. -/
inductive Sameness where
  | undefined
  | null
  | bool (value : Bool)
  | number (bits : UInt64)
  | string (units : Units)
  | symbol (id : Nat)
  | object (ref : Nat)
deriving BEq, Hashable, Inhabited

def Sameness.ofValue : Value → Sameness
  | .undefined | .absent => .undefined
  | .null => .null
  | .bool b => .bool b
  | .number x => .number (if x == 0.0 then 0 else if x.isNaN then 1 else x.toBits)
  | .string u => .string u
  | .symbol id => .symbol id
  | .object ref => .object ref

/-- The entries of a map or set in the order in which they were made. One that was taken out leaves
an empty place, so that places keep their meaning. -/
structure Entries where
  places : Array (Option (Value × Value)) := #[]
  index : Std.HashMap Sameness Nat := {}
deriving Inhabited

namespace Entries

def size (es : Entries) : Nat := es.index.size

def find? (es : Entries) (key : Value) : Option Value :=
  match es.index[Sameness.ofValue key]? with
  | some i => (es.places.getD i none).map Prod.snd
  | none => none

def has (es : Entries) (key : Value) : Bool := es.index.contains (Sameness.ofValue key)

def put (es : Entries) (key value : Value) : Entries :=
  let key := match key with
    | .number x => .number (if x == 0.0 then 0.0 else x)
    | v => v
  let k := Sameness.ofValue key
  match es.index[k]? with
  | some i => { es with places := es.places.setIfInBounds i (some (key, value)) }
  | none =>
    let place := es.places.size
    ⟨es.places.push (some (key, value)), es.index.insert k place⟩

def erase (es : Entries) (key : Value) : Entries :=
  let k := Sameness.ofValue key
  match es.index[k]? with
  | some i => ⟨es.places.setIfInBounds i none, es.index.erase k⟩
  | none => es

def clear (es : Entries) : Entries := ⟨es.places.map fun _ => none, {}⟩

/-- The first entry from a place on, and the place after it. -/
def nextFrom (es : Entries) : Nat → Nat → Option (Value × Value × Nat)
  | 0, _ => none
  | n + 1, i =>
    match es.places.getD i none with
    | some (k, v) => some (k, v, i + 1)
    | none => nextFrom es n (i + 1)

def next? (es : Entries) (place : Nat) : Option (Value × Value × Nat) :=
  es.nextFrom (es.places.size - place) place

end Entries

/-- A function of the program: its code, the cells it shares, and the object it is a method of. -/
structure Closure where
  code : Code
  cells : Array Nat
  home : Value := .undefined
  /-- Its own properties are not made before one is asked for. -/
  isFresh : Bool := true
deriving Inhabited

/-- How a part of a function ended. -/
inductive Completion where
  | normal
  | thrown (value : Value)
  | returned (value : Value)
  | jumped (target depth : Nat)
deriving Inhabited

/-- What is to be done when a part of a function is left. -/
inductive Handler where
  | catching (target : Nat)
  | finishing (target : Nat)
  /-- The items of a loop that are kept in a slot. -/
  | items (slot : Nat)
  /-- A last part that is running, and what goes on after it. -/
  | finishingWith (completion : Completion)
deriving Inhabited

/-- What the result of a call is: what is returned, or the object that was to be made, unless
another is returned. -/
inductive After where
  | result
  | made (object : Value)
deriving Inhabited

/-- How a generator goes on. -/
inductive Resumption where
  | next
  | thrown
  | returned
deriving DecidableEq, Inhabited, Repr

/-- A call: what is run and with what. -/
structure Call where
  code : Code
  outer : Array Nat := #[]
  receiver : Value := .undefined
  callee : Value := .undefined
  newTarget : Value := .undefined
  home : Value := .undefined
  arguments : Array Value := #[]
  after : After := .result
deriving Inhabited

/-- A call and how far it has come. -/
structure Frame where
  call : Call
  pc : Nat := 0
  stack : Array Value := #[]
  slots : Array Value := #[]
  cells : Array Nat := #[]
  handlers : List Handler := []
deriving Inhabited

inductive GeneratorState where
  | suspended (frame : Frame) (started : Bool)
  | running
  | finished
deriving Inhabited

/-- Which part of its entries an iterator gives. -/
inductive Part where
  | keys | values | entries
deriving DecidableEq, Inhabited, Repr

/-- The items of a value that a loop runs over. -/
inductive Items where
  | list (ref place : Nat)
  | iterator (iterator next : Value)
  | finished
deriving Inhabited

/-- The elements of an array of numbers of a fixed size. -/
inductive ElementType where
  | int8 | uint8 | clamped8 | int16 | uint16 | int32 | uint32 | float32 | float64
deriving DecidableEq, Inhabited, Repr

/-- What an object is beside its properties. -/
inductive Kind where
  | ordinary
  /-- An array with elements from 0 on; those after are properties. -/
  | array (items : Array Value) (length : Nat) (isFixed : Bool)
  /-- The arguments of a call, tied to cells of its parameters. -/
  | arguments (cells : Array (Option Nat))
  | closure (c : Closure)
  /-- A function of the language itself; whether it can make objects. -/
  | native (id : Nat) (constructs : Bool)
  | bound (target : Nat) (receiver : Value) (arguments : Array Value)
  | boxed (value : Value)
  | error
  | regex (source : Units) (flags : Regex.Flags) (program : Regex.Program)
  | generator (state : GeneratorState)
  | map (entries : Entries)
  | set (entries : Entries)
  | weakMap (entries : Entries)
  | weakSet (entries : Entries)
  | listIterator (target : Value) (place : Nat) (part : Part)
  | textIterator (units : Units) (place : Nat)
  | entryIterator (target : Nat) (place : Nat) (part : Part) (isMap : Bool)
  | matchIterator (regex : Value) (units : Units) (globally unicode : Bool)
  /-- An iterator that has ended. -/
  | ended
  | items (items : Items)
  | keyList (object : Nat) (keys : Array Key) (place : Nat)
  | date (time : Float)
  | promise
  | bytes (data : ByteArray)
  | numbers (type : ElementType) (buffer : Nat) (offset length : Nat)
  | proxy (target handler : Value)
deriving Inhabited

structure Obj where
  proto : Option Nat
  kind : Kind := .ordinary
  members : Members := {}
  extensible : Bool := true
deriving Inhabited

/-- A variable of a script's own, shared by all scripts. -/
structure Lexical where
  cell : Nat
  isConst : Bool
deriving Inhabited

structure Machine where
  objects : Array Obj := #[]
  cells : Array Value := #[]
  codes : Array Code := #[]
  sites : Array EvalSite := #[]
  /-- The texts of the scripts. -/
  scripts : Array (Array Nat) := #[]
  lexicals : Std.HashMap Units Lexical := {}
  /-- What symbols are described by, and those that are known by a key. -/
  symbols : Array (Option Units) := #[]
  registry : Std.HashMap Units Nat := {}
  /-- The string arrays of tagged templates by their place in the code. -/
  templates : Std.HashMap Nat Nat := {}
  /-- How many places for templates the scripts have so far. -/
  templateSites : Nat := 0
  /-- How many more loops and calls the script may take. -/
  steps : Nat := 0
  /-- How many calls are under way. -/
  depth : Nat := 0
  /-- The string that was last searched with success, and what was found there. -/
  lastFound : Units × Array Nat := (#[], #[])
  /-- The arrays whose items are being joined to a text. -/
  joining : List Nat := []
  /-- State of the source of random numbers. -/
  seed : UInt64 := 88172645463325252
deriving Inhabited

/-- A machine that is nowhere in use, to stand in for one that is. -/
def Machine.idle : Machine := {}

/-- Why a run stopped: a value was thrown, the limits were reached, or the script uses something
that is not covered. -/
inductive Stop where
  | thrown (value : Value)
  | exhausted
  | unsupported (what : String)
deriving Inhabited

/-- A piece of a run. -/
abbrev Run := EStateM Stop Machine

/-- The ways in which the functions of the language call on the machine. -/
structure Host where
  call : Value → Value → Array Value → Run Value
  construct : Value → Array Value → Value → Run Value
  /-- Runs the text of a script. -/
  evaluate : Units → Run Value
  /-- Makes a function from the text of its parameters and its body. -/
  makeFunction : FunctionKind → Units → Units → Run Value
  /-- Lets a generator go on with what is sent in. -/
  resume : Nat → Resumption → Value → Run Value

/-- A function of the language itself: what it does with a receiver, arguments, and the function
that is to make an object, if one is. -/
abbrev Native := Host → Value → Array Value → Value → Run Value

/-- Functions of the language that the machine itself knows, by their numbers. -/
inductive Intrinsic where
  | call | apply | eval | arrayValues | mapEntries | setValues
deriving DecidableEq, Repr

/-- The number of such a function. -/
def Intrinsic.id (i : Intrinsic) : Nat := i.ctorIdx

/-- The host that has no room left. -/
def Host.exhausted (tooDeep : Run Value) : Host :=
  ⟨fun _ _ _ => tooDeep, fun _ _ _ => tooDeep, fun _ => tooDeep, fun _ _ _ => tooDeep,
   fun _ _ _ => tooDeep⟩

/-- The objects that every machine starts with, in the order of their numbers. -/
inductive Fixed where
  | objectProto | functionProto | arrayProto | stringProto | numberProto | booleanProto
  | symbolProto | errorProto | typeErrorProto | rangeErrorProto | referenceErrorProto
  | syntaxErrorProto | evalErrorProto | uriErrorProto | iteratorProto | arrayIteratorProto
  | stringIteratorProto | mapIteratorProto | setIteratorProto | matchIteratorProto
  | generatorProto | generatorFunctionProto | asyncFunctionProto | regexProto | mapProto
  | setProto | weakMapProto | weakSetProto | dateProto | promiseProto | bufferProto
  | numbersProto | global | math | json | reflect | aggregateErrorProto | refusal
deriving DecidableEq, Repr

namespace Fixed

def all : List Fixed :=
  [.objectProto, .functionProto, .arrayProto, .stringProto, .numberProto, .booleanProto,
   .symbolProto, .errorProto, .typeErrorProto, .rangeErrorProto, .referenceErrorProto,
   .syntaxErrorProto, .evalErrorProto, .uriErrorProto, .iteratorProto, .arrayIteratorProto,
   .stringIteratorProto, .mapIteratorProto, .setIteratorProto, .matchIteratorProto,
   .generatorProto, .generatorFunctionProto, .asyncFunctionProto, .regexProto, .mapProto,
   .setProto, .weakMapProto, .weakSetProto, .dateProto, .promiseProto, .bufferProto,
   .numbersProto, .global, .math, .json, .reflect, .aggregateErrorProto, .refusal]

/-- The number of a fixed object. -/
def ref (f : Fixed) : Nat := f.ctorIdx

def ofErrorKind : ErrorKind → Fixed
  | .error => .errorProto | .type => .typeErrorProto | .range => .rangeErrorProto
  | .reference => .referenceErrorProto | .form => .syntaxErrorProto | .eval => .evalErrorProto
  | .uri => .uriErrorProto

end Fixed

namespace Run

def unsupported {α : Type} (what : String) : Run α := throw (.unsupported what)

def exhausted {α : Type} : Run α := throw .exhausted

def thrown {α : Type} (v : Value) : Run α := throw (.thrown v)

/-- Takes so many steps at once. -/
def spend (n : Nat) : Run Unit := do
  let m ← get
  if m.steps < n then exhausted
  modify fun m => { m with steps := m.steps - n }

def objectAt (ref : Nat) : Run Obj := do
  let m ← get
  return m.objects.getD ref default

def kindOf (ref : Nat) : Run Kind := do
  let m ← get
  return (m.objects.getD ref default).kind

/-- The greatest number of objects that are made. -/
def objectLimit : Nat := 4000000

def alloc (o : Obj) : Run Nat := fun m =>
  let ref := m.objects.size
  if objectLimit < ref then .error .exhausted m
  else .ok ref { m with objects := m.objects.push o }

@[inline] def modifyObject (ref : Nat) (f : Obj → Obj) : Run Unit :=
  modify fun m => { m with objects := m.objects.modify ref f }

def setKind (ref : Nat) (kind : Kind) : Run Unit := modifyObject ref fun o => { o with kind := kind }

def newObject (o : Obj) : Run Value := do return .object (← alloc o)

def newPlain : Run Value := newObject { proto := some Fixed.objectProto.ref }

def newArray (items : Array Value) : Run Value :=
  newObject { proto := some Fixed.arrayProto.ref, kind := .array items items.size false }

def newCell (v : Value) : Run Nat :=
  modifyGet fun m =>
    let id := m.cells.size
    (id, { m with cells := m.cells.push v })

/-- Puts a property of an ordinary object in place, whatever was there. -/
def putMember (ref : Nat) (key : Key) (p : Property) : Run Unit :=
  modifyObject ref fun o => { o with members := o.members.put key p }

def newRegex (source : Units) (flags : Regex.Flags) (program : Regex.Program) (proto : Nat) :
    Run Value := do
  let ref ← alloc { proto := some proto, kind := .regex source flags program }
  putMember ref (.ofString "lastIndex") (.data (.number 0.0) true false false 0)
  return .object ref

/-- An error of a kind with its message. -/
def newError (kind : ErrorKind) (message : Units) : Run Value := do
  let ref ← alloc { proto := some (Fixed.ofErrorKind kind).ref, kind := .error }
  let shown := if message.isEmpty then .ofString kind.name
    else .ofString (kind.name ++ ": ") ++ message
  putMember ref (.ofString "stack") (.hidden (.string (shown ++ .ofString "\n    at <anonymous>")))
  putMember ref (.ofString "message") (.hidden (.string message))
  return .object ref

def raise {α : Type} (kind : ErrorKind) (message : String) : Run α := do
  thrown (← newError kind (.ofString message))

def typeError {α : Type} (message : String) : Run α := raise .type message

def rangeError {α : Type} (message : String) : Run α := raise .range message

/-- What is reported where calls nest too deeply. -/
def tooDeep {α : Type} : Run α := rangeError "Maximum call stack size exceeded"

end Run

/-- An argument by its position; one that is not passed is undefined. -/
def argument (arguments : Array Value) (i : Nat) : Value := arguments.getD i .undefined

end Unravel.Script
