/-! Binary64 numbers with exact arithmetic: every operation rounds the exact rational result to
the nearest number, a half to the even one. The sign of zero is kept. -/

namespace Unravel

-- Powers are the built-in ones, whatever other instances are in scope.
attribute [local instance(5000)] instPowNat

/-- A binary64 number. A finite one is `mantissa * 2 ^ exponent` with the given sign. -/
inductive Double where
  | nan
  | infinite (negative : Bool)
  | finite (negative : Bool) (mantissa : Nat) (exponent : Int)
deriving DecidableEq, Repr

namespace Double

/-- The least exponent, shared by zero and the subnormal numbers. -/
def minExponent : Int := -1074

/-- The exponent of the largest finite numbers. -/
def maxExponent : Int := 971

def zero : Double := .finite false 0 minExponent

/-- The integer nearest to `num / den`, a half going to the even neighbour. -/
def nearest (num den : Nat) : Nat :=
  let q := num / den
  let r := num % den
  if 2 * r < den then q
  else if den < 2 * r then q + 1
  else if q % 2 = 0 then q else q + 1

/-- `num / den` divided by two to the power `e`, as a fraction. -/
def scaled (num den : Nat) (e : Int) : Nat × Nat :=
  if 0 ≤ e then (num, den * 2 ^ e.toNat) else (num * 2 ^ (-e).toNat, den)

/-- The number nearest to a non-negative fraction, with the given sign. -/
def ofRatio (negative : Bool) (num den : Nat) : Double :=
  if num = 0 then .finite negative 0 minExponent
  else
    let low : Int := (Nat.log2 num : Int) - Nat.log2 den - 53
    let (n, d) := scaled num den low
    let e := max (if n / d < 0x20000000000000 then low else low + 1) minExponent
    let (n, d) := scaled num den e
    let m := nearest n d
    let (m, e) := if m = 0x20000000000000 then (0x10000000000000, e + 1) else (m, e)
    if maxExponent < e then .infinite negative else .finite negative m e

def ofNat (n : Nat) : Double := ofRatio false n 1

def ofInt (n : Int) : Double := ofRatio (n < 0) n.natAbs 1

/-- Digits times a power of ten. Exponents far outside the range are decided without the power. -/
def ofDecimal (negative : Bool) (digits : Nat) (exponent : Int) : Double :=
  if digits = 0 then .finite negative 0 minExponent
  else
    let size : Int := (Nat.toDigits 10 digits).length + exponent
    if 400 < size then .infinite negative
    else if size < -400 then .finite negative 0 minExponent
    else if 0 ≤ exponent then ofRatio negative (digits * 10 ^ exponent.toNat) 1
    else ofRatio negative digits (10 ^ (-exponent).toNat)

def isFinite : Double → Bool
  | .finite .. => true
  | _ => false

def isNegative : Double → Bool
  | .nan => false
  | .infinite s => s
  | .finite s _ _ => s

def isZero : Double → Bool
  | .finite _ 0 _ => true
  | _ => false

def neg : Double → Double
  | .nan => .nan
  | .infinite s => .infinite !s
  | .finite s m e => .finite (!s) m e

def abs (x : Double) : Double :=
  if x.isNegative then x.neg else x

/-- The sign to which an exact zero sum of two finite numbers rounds. -/
def zeroSign (s t : Bool) : Bool := s && t

/-- A signed multiple of a common power of two. -/
def signedAt (s : Bool) (m : Nat) (e base : Int) : Int :=
  let v : Int := m * 2 ^ (e - base).toNat
  if s then -v else v

/-- A signed integer times a power of two, rounded. -/
def ofScaled (negativeZero : Bool) (v : Int) (e : Int) : Double :=
  if v = 0 then .finite negativeZero 0 minExponent
  else if 0 ≤ e then ofRatio (v < 0) (v.natAbs * 2 ^ e.toNat) 1
  else ofRatio (v < 0) v.natAbs (2 ^ (-e).toNat)

def add : Double → Double → Double
  | .nan, _ => .nan
  | _, .nan => .nan
  | .infinite s, .infinite t => if s = t then .infinite s else .nan
  | .infinite s, _ => .infinite s
  | _, .infinite t => .infinite t
  | .finite s m e, .finite t n f =>
    let base := min e f
    ofScaled (zeroSign s t) (signedAt s m e base + signedAt t n f base) base

def sub (x y : Double) : Double := add x y.neg

def mul : Double → Double → Double
  | .nan, _ => .nan
  | _, .nan => .nan
  | .infinite s, y => if y.isZero then .nan else .infinite (s != y.isNegative)
  | x, .infinite t => if x.isZero then .nan else .infinite (x.isNegative != t)
  | .finite s m e, .finite t n f =>
    let v : Int := m * n
    ofScaled (s != t) (if s != t then -v else v) (e + f)

def div : Double → Double → Double
  | .nan, _ => .nan
  | _, .nan => .nan
  | .infinite _, .infinite _ => .nan
  | .infinite s, y => .infinite (s != y.isNegative)
  | x, .infinite t => .finite (x.isNegative != t) 0 minExponent
  | .finite s m e, .finite t n f =>
    if n = 0 then (if m = 0 then .nan else .infinite (s != t))
    else if e < f then ofRatio (s != t) m (n * 2 ^ (f - e).toNat)
    else ofRatio (s != t) (m * 2 ^ (e - f).toNat) n

/-- The integer a finite number stands for, if it is one. -/
def toInt? : Double → Option Int
  | .finite s m e =>
    if 0 ≤ e then some (if s then -(m * 2 ^ e.toNat : Int) else m * 2 ^ e.toNat)
    else if m % 2 ^ (-e).toNat = 0 then
      some (if s then -(m / 2 ^ (-e).toNat : Nat) else (m / 2 ^ (-e).toNat : Nat))
    else none
  | _ => none

/-- The integer part of a finite number, toward zero. -/
def truncate : Double → Int
  | .finite s m e =>
    let v : Int := if 0 ≤ e then m * 2 ^ e.toNat else (m / 2 ^ (-e).toNat : Nat)
    if s then -v else v
  | _ => 0

/-- The remainder of the division that rounds toward zero; it takes the sign of the dividend. -/
def mod : Double → Double → Double
  | .nan, _ => .nan
  | _, .nan => .nan
  | .infinite _, _ => .nan
  | x, .infinite _ => x
  | .finite s m e, .finite _ n f =>
    if n = 0 then .nan
    else
      let base := min e f
      let a := m * 2 ^ (e - base).toNat
      let b := n * 2 ^ (f - base).toNat
      let r : Int := (a % b : Nat)
      ofScaled s (if s then -r else r) base

/-- Numeric order. Nothing is below or above a NaN. -/
def lt : Double → Double → Bool
  | .nan, _ => false
  | _, .nan => false
  | .infinite s, .infinite t => s && !t
  | .infinite s, _ => s
  | _, .infinite t => !t
  | .finite s m e, .finite t n f =>
    let base := min e f
    signedAt s m e base < signedAt t n f base

/-- Numeric equality: the two zeros are equal, a NaN equals nothing. -/
def numEq : Double → Double → Bool
  | .nan, _ => false
  | _, .nan => false
  | .infinite s, .infinite t => s == t
  | .infinite _, _ => false
  | _, .infinite _ => false
  | .finite s m e, .finite t n f =>
    let base := min e f
    signedAt s m e base == signedAt t n f base

end Double

end Unravel
