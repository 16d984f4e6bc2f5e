import Unravel.Number.Elementary
import Unravel.Script.Change

/-! Operators on values. -/

namespace Unravel.Script

/-- Integers of 32 bits combined. -/
@[inline] def bitwise (f : UInt32 → UInt32 → UInt32) (x y : Float) : Value :=
  .number (f (Numeral.toUInt32 x) (Numeral.toUInt32 y)).toInt32.toFloat

/-- An operator on two numbers; absent where it has no meaning there. -/
def BinaryOperator.onNumbers (op : BinaryOperator) (x y : Float) : Value :=
  match op with
  | .add => .number (x + y)
  | .sub => .number (x - y)
  | .mul => .number (x * y)
  | .div => .number (x / y)
  | .mod => .number (Numeral.remainder x y)
  | .pow => .number (Elementary.pow x y)
  | .shl => bitwise (fun a b => a <<< (b % 32)) x y
  | .shr => .number ((Numeral.toInt32 x) >>> (Numeral.toUInt32 y % 32).toInt32).toFloat
  | .ushr => .number ((Numeral.toUInt32 x) >>> (Numeral.toUInt32 y % 32)).toFloat
  | .bitAnd => bitwise (· &&& ·) x y
  | .bitOr => bitwise (· ||| ·) x y
  | .bitXor => bitwise (· ^^^ ·) x y
  | .lt => .bool (x < y)
  | .le => .bool (x ≤ y)
  | .gt => .bool (y < x)
  | .ge => .bool (y ≤ x)
  | .eq | .same => .bool (x == y)
  | .ne | .notSame => .bool !(x == y)
  | .instanceOf | .isIn => .absent

namespace Run

variable (h : Host)

/-- The longest string there is. -/
def textLimit : Nat := 536870888

/-- The longest string that is made. -/
def textRoom : Nat := 67108864

/-- Two strings in a row. -/
def concat (u w : Units) : Run Units := do
  let n := u.size + w.size
  if textLimit < n then rangeError "Invalid string length"
  if textRoom < n then exhausted
  return u ++ w

def plus (v w : Value) : Run Value := do
  match v, w with
  | .number x, .number y => return .number (x + y)
  | .string u, .string t => return .string (← concat u t)
  | v, w =>
    let v ← toPrimitive h .any v
    let w ← toPrimitive h .any w
    match v, w with
    | .string u, w => return .string (← concat u (← toText h w))
    | v, .string t => return .string (← concat (← toText h v) t)
    | v, w =>
      let x ← toNumber h v
      return .number (x + (← toNumber h w))

/-- Equality with conversion. -/
def looseEquals : Nat → Value → Value → Run Bool
  | 0, _, _ => return false
  | n + 1, v, w => do
    match v, w with
    | .undefined, .null | .null, .undefined => return true
    | .number x, .string u => return x == Numeral.ofUnits u
    | .string u, .number x => return x == Numeral.ofUnits u
    | .bool b, w => looseEquals n (.number (if b then 1.0 else 0.0)) w
    | v, .bool b => looseEquals n v (.number (if b then 1.0 else 0.0))
    | .object a, .object b => return a == b
    | .object _, w =>
      match w with
      | .undefined | .null | .absent => return false
      | w => looseEquals n (← toPrimitive h .any v) w
    | v, .object _ =>
      match v with
      | .undefined | .null | .absent => return false
      | v => looseEquals n v (← toPrimitive h .any w)
    | v, w => return v.strictEquals w

/-- Compares two values by order, those that are both strings as such. -/
def compare (op : BinaryOperator) (v w : Value) : Run Value := do
  let v ← toPrimitive h .number v
  let w ← toPrimitive h .number w
  match v, w with
  | .string u, .string t =>
    return .bool (match op with
      | .lt => u.lt t
      | .gt => t.lt u
      | .le => !t.lt u
      | _ => !u.lt t)
  | v, w =>
    let x ← toNumber h v
    let y ← toNumber h w
    return op.onNumbers x y

/-- Whether the prototype of a function is on the chain of an object, whatever the function says
about it. -/
def inherits : Nat → Nat → Value → Run Bool
  | 0, _, _ => return false
  | n + 1, f, v => do
    match (← objectAt f).kind with
    | .bound target _ _ => inherits n target v
    | _ =>
      match v with
      | .object ref =>
        match ← getFrom h f (.ofString "prototype") (.object f) with
        | .object p => onChain h p ((← get).objects.size + 1) (← protoOf h ref)
        | _ => typeError "Function has non-object prototype in instanceof check"
      | _ => return false

def instanceOf (v f : Value) : Run Bool := do
  match f with
  | .object ref =>
    match ← methodOf h f WellKnown.hasInstance.key with
    | some m => return (← h.call m f #[v]).truthy
    | none =>
      if !(← isCallable f) then typeError "Right-hand side of 'instanceof' is not callable"
      inherits h 100 ref v
  | _ => typeError "Right-hand side of 'instanceof' is not an object"

def binary (op : BinaryOperator) (v w : Value) : Run Value := do
  match op with
  | .add => plus h v w
  | .same => return .bool (v.strictEquals w)
  | .notSame => return .bool !(v.strictEquals w)
  | .eq => return .bool (← looseEquals h 6 v w)
  | .ne => return .bool !(← looseEquals h 6 v w)
  | .lt | .le | .gt | .ge => compare h op v w
  | .instanceOf => return .bool (← instanceOf h v w)
  | .isIn =>
    match w with
    | .object ref => return .bool (← hasProperty h ref (← toKey h v))
    | _ => typeError "Cannot use 'in' operator to search for a key in a primitive value"
  | op =>
    let x ← toNumber h v
    let y ← toNumber h w
    return op.onNumbers x y

def unary (op : UnaryOperator) (v : Value) : Run Value := do
  match op with
  | .minus => return .number (-(← toNumber h v))
  | .plus => return .number (← toNumber h v)
  | .not => return .bool !v.truthy
  | .bitNot => return .number (Numeral.toUInt32 (← toNumber h v) ^^^ 0xFFFFFFFF).toInt32.toFloat
  | .typeOf => return .ofString (← typeName v)

end Run

end Unravel.Script
