import Unravel.Script.Units

/-! Values of running scripts and the keys of their properties. -/

namespace Unravel.Script

/-- A value. `absent` is none that a script can see: it marks an empty place of an array and a
variable whose declaration has not run. -/
inductive Value where
  | undefined
  | null
  | bool (value : Bool)
  | number (value : Float)
  | string (units : Units)
  | symbol (id : Nat)
  | object (ref : Nat)
  | absent
deriving Repr, Inhabited

namespace Value

def ofString (s : String) : Value := .string (.ofString s)

def ofNat (n : Nat) : Value := .number (Float.ofNat n)

def ofInt (n : Int) : Value := .number (Float.ofInt n)

def zero : Value := .number 0.0

def one : Value := .number 1.0

def nan : Value := .number (0.0 / 0.0)

def isObject : Value → Bool
  | .object _ => true
  | _ => false

def isUndefined : Value → Bool
  | .undefined => true
  | _ => false

/-- Undefined or null. -/
def isNullish : Value → Bool
  | .undefined | .null => true
  | _ => false

def isAbsent : Value → Bool
  | .absent => true
  | _ => false

def truthy : Value → Bool
  | .undefined | .null | .absent => false
  | .bool b => b
  | .number x => !(x == 0.0 || x.isNaN)
  | .string u => 0 < u.size
  | .symbol _ | .object _ => true

/-- What an empty place reads as. -/
def orUndefined : Value → Value
  | .absent => .undefined
  | v => v

/-- Equality without conversion. -/
def strictEquals : Value → Value → Bool
  | .undefined, .undefined | .null, .null | .absent, .absent => true
  | .bool a, .bool b => a == b
  | .number x, .number y => x == y
  | .string u, .string w => u == w
  | .symbol a, .symbol b => a == b
  | .object a, .object b => a == b
  | _, _ => false

/-- Equality in which a NaN equals itself; the two zeros are told apart where `signed` is set. -/
def same (signed : Bool) : Value → Value → Bool
  | .number x, .number y =>
    (x.isNaN && y.isNaN) || (x == y && (!signed || x.toBits == y.toBits))
  | v, w => v.strictEquals w

end Value

/-- The key of a property. A string that spells an array index is that index. -/
inductive Key where
  | index (n : Nat)
  | name (units : Units)
  | symbol (id : Nat)
deriving Repr, Inhabited, BEq, Hashable

namespace Key

def ofUnits (u : Units) : Key :=
  match u.index? with
  | some n => .index n
  | none => .name u

def ofString (s : String) : Key := ofUnits (.ofString s)

/-- The key as the value a script sees. -/
def value : Key → Value
  | .index n => .string (.ofNat n)
  | .name u => .string u
  | .symbol id => .symbol id

/-- The string of a key that is no symbol. -/
def units : Key → Units
  | .index n => .ofNat n
  | .name u => u
  | .symbol _ => #[]

def isSymbol : Key → Bool
  | .symbol _ => true
  | _ => false

def length : Key := .name (.ofString "length")

/-- An index, also one too great for an array. -/
def ofNat (n : Nat) : Key := if n ≤ Units.maxIndex then .index n else .name (.ofNat n)

end Key

/-- The symbols that the language itself knows. -/
inductive WellKnown where
  | iterator | asyncIterator | hasInstance | toPrimitive | toStringTag | species | unscopables
  | isConcatSpreadable | matching | matchingAll | replacing | searching | splitting
deriving DecidableEq, Repr

namespace WellKnown

def all : List WellKnown :=
  [.iterator, .asyncIterator, .hasInstance, .toPrimitive, .toStringTag, .species, .unscopables,
   .isConcatSpreadable, .matching, .matchingAll, .replacing, .searching, .splitting]

/-- The name under which a script finds the symbol. -/
def name : WellKnown → String
  | .iterator => "iterator" | .asyncIterator => "asyncIterator" | .hasInstance => "hasInstance"
  | .toPrimitive => "toPrimitive" | .toStringTag => "toStringTag" | .species => "species"
  | .unscopables => "unscopables" | .isConcatSpreadable => "isConcatSpreadable"
  | .matching => "match" | .matchingAll => "matchAll" | .replacing => "replace"
  | .searching => "search" | .splitting => "split"

def id (s : WellKnown) : Nat := all.idxOf s

def key (s : WellKnown) : Key := .symbol s.id

end WellKnown

end Unravel.Script
