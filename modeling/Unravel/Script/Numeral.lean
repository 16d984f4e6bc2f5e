import Unravel.Number.Bits
import Unravel.Number.Shortest
import Unravel.Script.Units

/-! Numbers of running scripts: their text, the numbers that texts spell, and integers of a fixed
width. -/

namespace Unravel

-- Powers are the built-in ones, whatever other instances are in scope.
attribute [local instance(5000)] instPowNat

namespace Script.Numeral

def nan : Float := 0.0 / 0.0

def infinity : Float := 1.0 / 0.0

/-- Whether a number is an integer that all neighbours in the integers can be told from. -/
def isSmallInteger (x : Float) : Bool := x.abs ≤ 9007199254740992.0 && x.floor == x

/-- The text of a number in base ten. -/
def text (x : Float) : String :=
  if isSmallInteger x then
    if x < 0.0 then "-" ++ Nat.repr (-x).toUInt64.toNat else Nat.repr x.toUInt64.toNat
  else
    match Double.ofFloat x with
    | .nan => "NaN"
    | .infinite s => if s then "-Infinity" else "Infinity"
    | .finite s m e =>
      if m = 0 then "0" else (if s then "-" else "") ++ (Decimal.shortest m e).write .script

def units (x : Float) : Units := .ofString (text x)

/-- The integer part of a number, 0 for one that has none. -/
def truncate (x : Float) : Int :=
  if x.abs < 9.2e18 then x.toInt64.toInt else (Double.ofFloat x).truncate

/-- The integer part modulo 2 ^ 32. -/
def toUInt32 (x : Float) : UInt32 :=
  if x.abs < 9.2e18 then x.toInt64.toUInt64.toUInt32
  else ((Double.ofFloat x).truncate % 4294967296).toNat.toUInt32

def toInt32 (x : Float) : Int32 := (toUInt32 x).toInt32

/-- The remainder of the division that rounds toward zero; it takes the sign of the dividend. -/
def remainder (x y : Float) : Float :=
  if isSmallInteger x && isSmallInteger y && y != 0.0 then
    let r := x.abs.toUInt64 % y.abs.toUInt64
    if x < 0.0 || (x == 0.0 && 1.0 / x < 0.0) then -r.toFloat else r.toFloat
  else ((Double.ofFloat x).mod (Double.ofFloat y)).toFloat

/-- Truncation toward zero with infinities kept and a NaN as zero. -/
def integerPart (x : Float) : Float :=
  if x.isNaN then 0.0 else if x < 0.0 then x.ceil + 0.0 else x.floor

/-- The value of a digit, letters as digits from ten on. -/
def digitValue? (c : UInt16) : Option Nat :=
  if 48 ≤ c && c ≤ 57 then some (c.toNat - 48)
  else if 97 ≤ c && c ≤ 122 then some (c.toNat - 87)
  else if 65 ≤ c && c ≤ 90 then some (c.toNat - 55)
  else none

def isDigitIn (base : Nat) (c : UInt16) : Bool := (digitValue? c).any (· < base)

/-- The end of the run of digits in a base that starts at a place. -/
def digitsEnd (u : Units) (base : Nat) : Nat → Nat → Nat
  | 0, i => i
  | n + 1, i => if isDigitIn base (u.at0 i) then digitsEnd u base n (i + 1) else i

def runEnd (u : Units) (base start : Nat) : Nat := digitsEnd u base (u.size - start) start

/-- The value of the digits between two places. -/
def valueIn (u : Units) (base start stop : Nat) : Nat :=
  (u.extract start stop).foldl (fun n c => n * base + (digitValue? c).getD 0) 0

def infinityWord : Units := .ofString "Infinity"

/-- The longest decimal number that starts at a place, and the place after it. -/
def decimalAt? (u : Units) (start : Nat) : Option (Float × Nat) :=
  let negative := u.at0 start == 45
  let start := if negative || u.at0 start == 43 then start + 1 else start
  let signed (x : Float) : Float := if negative then -x else x
  if u.holdsAt infinityWord start then some (signed infinity, start + 8)
  else
    let whole := runEnd u 10 start
    let point := whole < u.size && u.at0 whole == 46
    let fraction := if point then runEnd u 10 (whole + 1) else whole
    let digits := (whole - start) + (if point then fraction - whole - 1 else 0)
    if digits = 0 then none
    else
      let mark := fraction < u.size && (u.at0 fraction == 101 || u.at0 fraction == 69)
      let minus := u.at0 (fraction + 1) == 45
      let from' := if minus || u.at0 (fraction + 1) == 43 then fraction + 2 else fraction + 1
      let last := if mark then runEnd u 10 from' else fraction
      let hasPower := mark && from' < last
      let power : Int := if hasPower then
          (if minus then -(valueIn u 10 from' last : Int) else valueIn u 10 from' last)
        else 0
      let stop := if hasPower then last else fraction
      let places := if point then fraction - whole - 1 else 0
      let value := valueIn u 10 start whole * 10 ^ places
        + (if point then valueIn u 10 (whole + 1) fraction else 0)
      if !point && !hasPower && value < 9007199254740992 then
        some (signed value.toUInt64.toFloat, stop)
      else some (signed (Double.ofDecimal false value (power - places)).toFloat, stop)

/-- The number that a whole string spells. -/
def ofUnits (u : Units) : Float :=
  let t := u.trim
  let based (base : Nat) : Float :=
    if 2 < t.size && runEnd t base 2 = t.size then
      (Double.ofNat (valueIn t base 2 t.size)).toFloat
    else nan
  if t.isEmpty then 0.0
  else
    let c := t.at0 1
    if t.at0 0 == 48 && (c == 120 || c == 88) then based 16
    else if t.at0 0 == 48 && (c == 111 || c == 79) then based 8
    else if t.at0 0 == 48 && (c == 98 || c == 66) then based 2
    else
      match decimalAt? t 0 with
      | some (x, stop) => if stop = t.size then x else nan
      | none => nan

/-- Digits that are taken together before they are added to what came before. -/
def partFrom (u : Units) (base stop : Nat) : Nat → Nat → Nat → Nat → Nat × Nat × Nat
  | 0, i, part, scale => (i, part, scale)
  | n + 1, i, part, scale =>
    if i < stop && scale * base ≤ 4294967295 / 36 then
      partFrom u base stop n (i + 1) (part * base + (digitValue? (u.at0 i)).getD 0) (scale * base)
    else (i, part, scale)

/-- The value of digits in a base that is neither ten nor a power of two. Groups of digits are
added one after the other, and each sum is rounded. -/
def roundedValueIn (u : Units) (base stop : Nat) : Nat → Nat → Float → Float
  | 0, _, x => x
  | n + 1, i, x =>
    if i < stop then
      let (j, part, scale) := partFrom u base stop 40 i 0 1
      roundedValueIn u base stop n j (x * scale.toUInt64.toFloat + part.toUInt64.toFloat)
    else x

/-- The integer that a text starts with, in a base; the base may be told by the text. -/
def integerOf (u : Units) (base : Int) : Float :=
  let t := u.trimStart
  let negative := t.at0 0 == 45
  let start := if negative || t.at0 0 == 43 then 1 else 0
  let isHex := t.at0 start == 48 && (t.at0 (start + 1) == 120 || t.at0 (start + 1) == 88)
    && (base = 0 || base = 16)
  let radix : Int := if isHex then 16 else if base = 0 then 10 else base
  if radix < 2 || 36 < radix then nan
  else
    let start := if isHex then start + 2 else start
    let stop := runEnd t radix.toNat start
    if stop = start then nan
    else
      let x := if radix = 10 || [2, 4, 8, 16, 32].contains radix then
          (Double.ofNat (valueIn t radix.toNat start stop)).toFloat
        else roundedValueIn t radix.toNat stop (stop - start) start 0.0
      if negative then -x else x

/-- The number that a text starts with. -/
def decimalOf (u : Units) : Float :=
  match decimalAt? u.trimStart 0 with
  | some (x, _) => x
  | none => nan

end Script.Numeral

end Unravel
