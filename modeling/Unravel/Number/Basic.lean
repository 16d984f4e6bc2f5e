import Unravel.Number.Shortest

/-! Numbers of the analysed programs: an integer of any size, or a binary64 number. A literal
whose value is integral is an integer, every other one a double. -/

namespace Unravel

-- Powers are the built-in ones, whatever other instances are in scope.
attribute [local instance(5000)] instPowNat

inductive Number where
  | int (value : Int)
  | double (value : Double)
deriving DecidableEq, Repr

namespace Number

/-- The value as a double; an integer beyond the finite range has none. -/
def toDouble? : Number → Option Double
  | .int n => let d := Double.ofInt n; if d.isFinite then some d else none
  | .double d => some d

def neg : Number → Number
  | .int n => .int (-n)
  | .double d => .double d.neg

def isZero : Number → Bool
  | .int n => n = 0
  | .double d => d.isZero

/-- Below zero, the negative zero of the doubles included. -/
def isNegative : Number → Bool
  | .int n => n < 0
  | .double d => d.isNegative

/-- Replaces a double that is an integer by that integer. -/
def normalize : Number → Number
  | .int n => .int n
  | .double d => match d.toInt? with
    | some n => .int n
    | none => .double d

/-- Text of a double that always shows it is one: `1.0`, `1e-05`, `inf`. -/
def doubleText : Double → String
  | .nan => "nan"
  | .infinite s => if s then "-inf" else "inf"
  | .finite s m e =>
    let body := if m = 0 then "0.0" else (Decimal.shortest m e).write .exact
    if s then "-" ++ body else body

def intText (n : Int) : String :=
  if n < 0 then "-" ++ Nat.repr n.natAbs else Nat.repr n.natAbs

/-- The most digits an integer is written or read with. -/
def digitLimit : Nat := 4300

/-- An integer of more digits than are written. -/
def isOverlong : Number → Bool
  | .int n => 10 ^ digitLimit ≤ n.natAbs
  | .double _ => false

/-- Why an overlong integer is not written. -/
def overlongMessage : String :=
  "Exceeds the limit (4300 digits) for integer string conversion; "
    ++ "use sys.set_int_max_str_digits() to increase the limit"

/-- Why as many digits as this are not read. -/
def tooManyDigits (count : Nat) : String :=
  "Exceeds the limit (4300 digits) for integer string conversion: value has " ++ Nat.repr count
    ++ " digits; use sys.set_int_max_str_digits() to increase the limit"

/-- Source spelling of a number: an integral value in plain digits, any other as its double. -/
def text (n : Number) : String :=
  match n.normalize with
  | .int i => intText i
  | .double d => doubleText d

end Number

end Unravel
