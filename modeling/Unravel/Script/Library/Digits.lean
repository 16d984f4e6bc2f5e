import Unravel.Script.Numeral

/-! Numbers written in ways that are asked for: in a base, with fixed places, with a count of digits,
or with an exponent. -/

namespace Unravel.Script.Digits

-- Powers are the built-in ones, whatever other instances are in scope.
attribute [local instance(5000)] instPowNat

def digit (d : Nat) : UInt16 := (if d < 10 then 48 + d else 87 + d).toUInt16

/-- Digits of a whole number in a base, the most significant first. Below the precision of a double
they are zeros. -/
def wholeFrom (base : Double) : Nat → Double → List UInt16 → List UInt16
  | 0, _, done => done
  | fuel + 1, x, done =>
    let above := x.div base
    if !above.lt (.ofNat 0x20000000000000) then wholeFrom base fuel above (48 :: done)
    else
      let r := x.mod base
      let done := digit r.truncate.toNat :: done
      let rest := (x.sub r).div base
      if rest.isZero then done else wholeFrom base fuel rest done

/-- Adds one to the last of some digits, held in reverse; the carry may leave them all. -/
def carried (base : Nat) : List Nat → List Nat × Bool
  | [] => ([], true)
  | d :: rest => if d + 1 < base then ((d + 1) :: rest, false) else carried base rest

/-- Digits of a fraction in a base, in reverse, until they tell it from its neighbours; and
whether rounding went up to the next integer. -/
def fractionFrom (base : Nat) : Nat → Double → Double → List Nat → List Nat × Bool
  | 0, _, _, done => (done, false)
  | fuel + 1, fraction, delta, done =>
    let fraction := fraction.mul (.ofNat base)
    let delta := delta.mul (.ofNat base)
    let d := fraction.truncate.toNat
    let done := d :: done
    let fraction := fraction.sub (.ofNat d)
    let half := Double.ofRatio false 1 2
    if (half.lt fraction || (half.numEq fraction && d % 2 = 1))
        && Double.lt (.ofNat 1) (fraction.add delta) then
      carried base done
    else if fraction.lt delta then (done, false)
    else fractionFrom base fuel fraction delta done

/-- The text of a number in a base other than ten. -/
def inBase (base : Nat) (x : Float) : Units :=
  match Double.ofFloat x with
  | .finite s m e =>
    if m = 0 then #[48]
    else
      let x := Double.finite false m e
      let whole := x.truncate.toNat
      let fraction := x.sub (.ofNat whole)
      let delta := Double.ofScaled false 1 (max (e - 1) Double.minExponent)
      let (ds, up) :=
        if fraction.isZero || fraction.lt delta then ([], false)
        else fractionFrom base 1100 fraction delta []
      let whole := if up then whole + 1 else whole
      ((if s then [45] else []) ++ wholeFrom (.ofNat base) 1100 (.ofNat whole) []
        ++ (if ds.isEmpty then [] else 46 :: ds.reverse.map digit)).toArray
  | _ => Numeral.units x

/-- The digits of a number in base ten. -/
def decimal (n : Nat) : List UInt16 := (Nat.toDigits 10 n).map fun c => c.toNat.toUInt16

/-- A quotient rounded to the nearest integer, a half up. -/
def nearestUp (num den : Nat) : Nat := (2 * num + den) / (2 * den)

/-- A number as a quotient of integers. -/
def ratio (m : Nat) (e : Int) : Nat × Nat :=
  if 0 ≤ e then (m * 2 ^ e.toNat, 1) else (m, 2 ^ (-e).toNat)

/-- A number with a fixed count of places, a half going away from zero. -/
def fixed (places : Nat) (x : Float) : Units :=
  match Double.ofFloat x with
  | .finite s m e =>
    if 1.0e21 ≤ x.abs then Numeral.units x
    else
      let (num, den) := ratio m e
      let n := nearestUp (num * 10 ^ places) den
      let ds := decimal n
      let ds := List.replicate (places + 1 - ds.length) 48 ++ ds
      let body := if places = 0 then ds
        else ds.take (ds.length - places) ++ 46 :: ds.drop (ds.length - places)
      -- a number below zero keeps its sign even where nothing of it is left
      (if s && m ≠ 0 then 45 :: body else body).toArray
  | _ => Numeral.units x

/-- Looks for the exponent of the first digit of a quotient, starting near it. -/
def exponentFrom (num den : Nat) : Nat → Int → Int
  | 0, k => k
  | fuel + 1, k =>
    -- 10 ^ k ≤ num / den < 10 ^ (k + 1)
    let (a, b) := if 0 ≤ k then (num, den * 10 ^ k.toNat) else (num * 10 ^ (-k).toNat, den)
    if a < b then exponentFrom num den fuel (k - 1)
    else if 10 * b ≤ a then exponentFrom num den fuel (k + 1)
    else k

/-- So many digits of a number that is not zero, rounded, and the exponent of the first. -/
def counted (count m : Nat) (e : Int) : List UInt16 × Int :=
  let (num, den) := ratio m e
  let k := exponentFrom num den 800 0
  let shift : Int := (count : Int) - 1 - k
  let n := if 0 ≤ shift then nearestUp (num * 10 ^ shift.toNat) den
    else nearestUp num (den * 10 ^ (-shift).toNat)
  if 10 ^ count ≤ n then (decimal (n / 10), k + 1) else (decimal n, k)

/-- An exponent with its sign. -/
def exponent (k : Int) : List UInt16 :=
  101 :: (if k < 0 then 45 else 43) :: decimal k.natAbs

/-- Digits with a point after the first, and an exponent. -/
def withExponent (ds : List UInt16) (k : Int) : List UInt16 :=
  match ds with
  | [] => []
  | [d] => d :: exponent k
  | d :: rest => d :: 46 :: rest ++ exponent k

/-- A number with so many digits. -/
def precise (count : Nat) (x : Float) : Units :=
  match Double.ofFloat x with
  | .finite s m e =>
    let (ds, k) := if m = 0 then (List.replicate count 48, 0) else counted count m e
    let body :=
      if k < -6 || (count : Int) ≤ k then withExponent ds k
      else if k = (count : Int) - 1 then ds
      else if 0 ≤ k then ds.take (k.toNat + 1) ++ 46 :: ds.drop (k.toNat + 1)
      else 48 :: 46 :: (List.replicate ((-k).toNat - 1) 48 ++ ds)
    (if s && m ≠ 0 then 45 :: body else body).toArray
  | _ => Numeral.units x

/-- The fewest digits that tell a number from others, and the exponent of the first. -/
def fewest (m : Nat) (e : Int) : List UInt16 × Int :=
  let d := Decimal.shortest m e
  (decimal d.digits, d.place)

/-- A number with an exponent, and places after the point if their count is given. -/
def exponential (places : Option Nat) (x : Float) : Units :=
  match Double.ofFloat x with
  | .finite s m e =>
    let (ds, k) :=
      if m = 0 then (List.replicate (places.getD 0 + 1) 48, 0)
      else match places with
        | some n => counted (n + 1) m e
        | none => fewest m e
    (if s && m ≠ 0 then 45 :: withExponent ds k else withExponent ds k).toArray
  | _ => Numeral.units x

end Unravel.Script.Digits
