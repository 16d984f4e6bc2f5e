import Unravel.Script.Iterate

/-! Putting together the objects that every script starts with. -/

namespace Unravel.Script

/-- A machine in the making, and the functions of the language by their numbers. -/
structure Stock where
  natives : Array Native := #[]
  machine : Machine := {}

/-- A step of the making. -/
abbrev Setup := StateM Stock

namespace Setup

/-- A function that is not there yet. -/
def missing : Native := fun _ _ _ _ => return .undefined

/-- The stock with nothing but its fixed objects, the known symbols, and room for the functions
that the machine itself knows. -/
def empty : Stock :=
  let objects := Fixed.all.map fun f => ({ proto := protoOf f, kind := kindOf f } : Obj)
  { natives := Array.replicate (Intrinsic.setValues.id + 1) missing
    machine :=
      { objects := objects.toArray
        symbols := (WellKnown.all.map fun s => some (Units.ofString ("Symbol." ++ s.name))).toArray } }
where
  protoOf : Fixed → Option Nat
    | .objectProto => none
    | .typeErrorProto | .rangeErrorProto | .referenceErrorProto | .syntaxErrorProto | .evalErrorProto
    | .uriErrorProto | .aggregateErrorProto => some Fixed.errorProto.ref
    | .arrayIteratorProto | .stringIteratorProto | .mapIteratorProto | .setIteratorProto
    | .matchIteratorProto | .generatorProto => some Fixed.iteratorProto.ref
    | .generatorFunctionProto | .asyncFunctionProto | .refusal => some Fixed.functionProto.ref
    | _ => some Fixed.objectProto.ref
  kindOf : Fixed → Kind
    | .arrayProto => .array #[] 0 false
    | .stringProto => .boxed (.string #[])
    | .numberProto => .boxed (.number 0.0)
    | .booleanProto => .boxed (.bool false)
    | _ => .ordinary

def add (o : Obj) : Setup Nat :=
  modifyGet fun s =>
    let ref := s.machine.objects.size
    (ref, { s with machine := { s.machine with objects := s.machine.objects.push o } })

def put (ref : Nat) (key : Key) (p : Property) : Setup Unit :=
  modify fun s => { s with
    machine := { s.machine with
      objects := s.machine.objects.modify ref fun o => { o with members := o.members.put key p } } }

/-- A property that is not listed. -/
def hidden (ref : Nat) (name : String) (v : Value) : Setup Unit := put ref (.ofString name) (.hidden v)

/-- A property that always stays the same. -/
def constant (ref : Nat) (name : String) (v : Value) : Setup Unit :=
  put ref (.ofString name) (.data v false false false 0)

/-- The name by which objects of a kind are shown. -/
def tag (ref : Nat) (name : String) : Setup Unit :=
  put ref WellKnown.toStringTag.key (.data (.ofString name) false false true 0)

def register (f : Native) : Setup Nat :=
  modifyGet fun s => (s.natives.size, { s with natives := s.natives.push f })

/-- A function object. -/
def functionOf (id : Nat) (name : String) (length : Nat) (constructs : Bool) : Setup Nat := do
  let ref ← add { proto := some Fixed.functionProto.ref, kind := .native id constructs }
  put ref .length (.data (.ofNat length) false false true 0)
  put ref (.ofString "name") (.data (.ofString name) false false true 0)
  return ref

def function (name : String) (length : Nat) (f : Native) : Setup Nat := do
  functionOf (← register f) name length false

/-- A function that the machine itself knows. -/
def intrinsic (i : Intrinsic) (name : String) (length : Nat) (f : Native) : Setup Nat := do
  modify fun s => { s with natives := s.natives.setIfInBounds i.id f }
  functionOf i.id name length false

def method (ref : Nat) (name : String) (length : Nat) (f : Native) : Setup Unit := do
  hidden ref name (.object (← function name length f))

def methods (ref : Nat) (fs : List (String × Nat × Native)) : Setup Unit := do
  for (name, length, f) in fs do
    method ref name length f

/-- A method under a symbol. -/
def symbolMethod (ref : Nat) (s : WellKnown) (length : Nat) (f : Native) : Setup Unit := do
  let f ← function ("[Symbol." ++ s.name ++ "]") length f
  put ref s.key (.hidden (.object f))

def getter (ref : Nat) (key : Key) (name : String) (f : Native) : Setup Unit := do
  let f ← function ("get " ++ name) 0 f
  put ref key (.accessor (.object f) .undefined false true 0)

/-- A global function that makes objects which inherit from a fixed one. -/
def constructor (name : String) (length : Nat) (proto : Nat) (f : Native) : Setup Nat := do
  let ref ← functionOf (← register f) name length true
  constant ref "prototype" (.object proto)
  hidden proto "constructor" (.object ref)
  hidden Fixed.global.ref name (.object ref)
  return ref

/-- Lets the function of a kind be the default for what it makes in its place. -/
def species (ref : Nat) : Setup Unit :=
  getter ref WellKnown.species.key "[Symbol.species]" fun _ this _ _ => return this

end Setup

end Unravel.Script
