import Unravel.Script.Property

/-! Conversions between kinds of values. -/

namespace Unravel.Script

/-- What a primitive is wanted for. -/
inductive Hint where
  | any
  | text
  | number
deriving DecidableEq

def Hint.name : Hint → String
  | .any => "default"
  | .text => "string"
  | .number => "number"

namespace Run

variable (h : Host)

/-- The method of a value under a key, if it has one. -/
def methodOf (v : Value) (key : Key) : Run (Option Value) := do
  let f ← getValue h v key
  if f.isNullish then return none
  if ← isCallable f then return some f
  typeError (Key.shown key ++ " is not a function")

/-- A value that is no object, by the object's own methods. -/
def toPrimitive (hint : Hint) (v : Value) : Run Value := do
  match v with
  | .object _ =>
    match ← methodOf h v WellKnown.toPrimitive.key with
    | some f =>
      let r ← h.call f v #[.ofString hint.name]
      if r.isObject then typeError "Cannot convert object to primitive value"
      return r
    | none =>
      let names := if hint = .text then ["toString", "valueOf"] else ["valueOf", "toString"]
      for name in names do
        let f ← getNamed h v name
        if ← isCallable f then
          let r ← h.call f v #[]
          if !r.isObject then return r
      typeError "Cannot convert object to primitive value"
  | v => return v

/-- The string of a value that is neither an object nor a symbol. -/
def primitiveText : Value → Units
  | .undefined | .absent => .ofString "undefined"
  | .null => .ofString "null"
  | .bool b => .ofString (if b then "true" else "false")
  | .number x => Numeral.units x
  | .string u => u
  | .symbol _ | .object _ => #[]

/-- The string of a value if it has one without any code being run. -/
def plainText? : Value → Option Units
  | .symbol _ | .object _ => none
  | v => some (primitiveText v)

def toText (v : Value) : Run Units := do
  match v with
  | .string u => return u
  | .object _ =>
    match ← toPrimitive h .text v with
    | .symbol _ => typeError "Cannot convert a Symbol value to a string"
    | p => return primitiveText p
  | .symbol _ => typeError "Cannot convert a Symbol value to a string"
  | v => return primitiveText v

/-- The number of a value that is neither an object nor a symbol. -/
def primitiveNumber : Value → Float
  | .undefined | .absent | .symbol _ | .object _ => Numeral.nan
  | .null => 0.0
  | .bool b => if b then 1.0 else 0.0
  | .number x => x
  | .string u => Numeral.ofUnits u

def toNumber (v : Value) : Run Float := do
  match v with
  | .number x => return x
  | .object _ =>
    match ← toPrimitive h .number v with
    | .symbol _ => typeError "Cannot convert a Symbol value to a number"
    | p => return primitiveNumber p
  | .symbol _ => typeError "Cannot convert a Symbol value to a number"
  | v => return primitiveNumber v

/-- The integer a value stands for, infinities kept. -/
def toIntegerFloat (v : Value) : Run Float := do return Numeral.integerPart (← toNumber h v)

/-- The integer a value stands for; one beyond all lengths for an infinite one. -/
def toInteger (v : Value) : Run Int := do
  let x ← toNumber h v
  if x.isNaN then return 0
  if 1.0e19 < x then return 10000000000000000000
  if x < -1.0e19 then return -10000000000000000000
  return Numeral.truncate x

/-- A length: an integer from 0 to 2 ^ 53 - 1. -/
def toLength (v : Value) : Run Nat := do
  let n ← toInteger h v
  return min n.toNat 9007199254740991

/-- A position counted from the start, or from the end if negative, within a length. -/
def toPosition (v : Value) (length default : Nat) : Run Nat := do
  match v with
  | .undefined => return default
  | v =>
    let n ← toInteger h v
    return if n < 0 then ((length : Int) + n).toNat else min n.toNat length

def toKey (v : Value) : Run Key := do
  match v with
  | .string u => return .ofUnits u
  | .number x =>
    if 0.0 ≤ x && x < 4294967295.0 && x.floor == x then return .index x.toUInt64.toNat
    return .ofUnits (Numeral.units x)
  | .symbol id => return .symbol id
  | .object _ =>
    match ← toPrimitive h .text v with
    | .symbol id => return .symbol id
    | p => return .ofUnits (primitiveText p)
  | v => return .ofUnits (primitiveText v)

/-- The length of what is used like an array. -/
def lengthOf (ref : Nat) : Run Nat := do
  let m ← get
  match (m.objects.getD ref default).kind with
  | .array _ length _ => return length
  | _ => toLength h (← getFrom h ref .length (.object ref))

/-- Whether a value is an array. -/
def isArray : Nat → Value → Run Bool
  | 0, _ => return false
  | n + 1, v => do
    match v with
    | .object ref =>
      match (← objectAt ref).kind with
      | .array .. => return true
      | .proxy target _ => isArray n target
      | _ => return false
    | _ => return false

/-- The values of what is used like an array. -/
def listOf (v : Value) : Run (Array Value) := do
  match v with
  | .object ref =>
    let n ← lengthOf h ref
    spend (n / 16)
    let mut items := #[]
    for i in [0:n] do
      items := items.push (← getFrom h ref (.ofNat i) v)
    return items
  | _ => typeError "CreateListFromArrayLike called on non-object"

/-- An object with a value and whether it is the last. -/
def newResult (v : Value) (done : Bool) : Run Value := do
  let ref ← alloc { proto := some Fixed.objectProto.ref }
  putMember ref (.ofString "value") (.plain v)
  putMember ref (.ofString "done") (.plain (.bool done))
  return .object ref

/-- The name of the type of a value. -/
def typeName (v : Value) : Run String := do
  match v with
  | .undefined | .absent => return "undefined"
  | .null => return "object"
  | .bool _ => return "boolean"
  | .number _ => return "number"
  | .string _ => return "string"
  | .symbol _ => return "symbol"
  | .object _ => return if ← isCallable v then "function" else "object"

/-- The name of what an object is where it has no name for itself. -/
def kindName (k : Kind) (callable : Bool) : String :=
  match k with
  | .array .. => "Array"
  | .arguments _ => "Arguments"
  | .error => "Error"
  | .boxed (.bool _) => "Boolean"
  | .boxed (.number _) => "Number"
  | .boxed (.string _) => "String"
  | .date _ => "Date"
  | .regex .. => "RegExp"
  | _ => if callable then "Function" else "Object"

/-- A property of an object that can be read without a call. -/
def peek (ref : Nat) (name : String) : Run Value := do
  let m ← get
  match m.find (.ofString name) (m.objects.size + 1) ref with
  | .value v => return v
  | _ => return .undefined

/-- How a value is shown in messages, without calling anything. -/
def shownValue (v : Value) : Run String := do
  match v with
  | .string u => return u.shown
  | .symbol id => return "Symbol(" ++ (((← get).symbols.getD id none).getD #[]).shown ++ ")"
  | .object ref =>
    let k ← kindOf ref
    match k with
    | .error =>
      let name := primitiveText (← peek ref "name")
      let message := primitiveText (← peek ref "message")
      return if message.isEmpty then name.shown else name.shown ++ ": " ++ message.shown
    | .array .. | .regex .. | .date _ | .closure _ | .native .. | .bound .. =>
      return "[object " ++ kindName k (← isCallable v) ++ "]"
    | k =>
      match ← peek ref "constructor" with
      | .object c =>
        if ← isCallable (.object c) then
          equip c
          match ← peek c "name" with
          | .string u => if !u.isEmpty then return "#<" ++ u.shown ++ ">"
          | _ => pure ()
      | _ => pure ()
      return "[object " ++ kindName k (← isCallable v) ++ "]"
  | v => return (primitiveText v).shown

/-- A value that has to be a function. -/
def needFunction (v : Value) : Run Unit := do
  if !(← isCallable v) then typeError ((← shownValue v) ++ " is not a function")

end Run

end Unravel.Script
