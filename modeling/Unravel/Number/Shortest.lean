import Unravel.Number.Double

/-! The shortest decimal that reads back as a given binary64 number, nearest of those of its
length, and the layouts in which such a decimal is written. -/

namespace Unravel

-- Powers are the built-in ones, whatever other instances are in scope.
attribute [local instance(5000)] instPowNat

/-- A positive decimal `digits * 10 ^ exponent` whose last digit is not zero. -/
structure Decimal where
  digits : Nat
  exponent : Int
deriving DecidableEq, Repr

namespace Decimal

def digitCount (n : Nat) : Nat := (Nat.toDigits 10 n).length

/-- Drops trailing zeros of the digits. -/
def trim : Nat → Decimal → Decimal
  | 0, d => d
  | fuel + 1, d =>
    if d.digits ≠ 0 ∧ d.digits % 10 = 0 then trim fuel ⟨d.digits / 10, d.exponent + 1⟩ else d

/-- The place of the leading digit of a positive fraction: `10 ^ p ≤ num / den < 10 ^ (p + 1)`. -/
def leadingPlace (num den : Nat) : Int :=
  if den ≤ num then (digitCount (num / den) : Int) - 1
  else
    let j := digitCount (den / num)
    if den ≤ num * 10 ^ (j - 1) then 1 - (j : Int) else -(j : Int)

/-- A fraction over a power of ten, as a fraction. -/
def overTen (num den : Nat) (k : Int) : Nat × Nat :=
  if 0 ≤ k then (num, den * 10 ^ k.toNat) else (num * 10 ^ (-k).toNat, den)

/-- The open or closed interval of the reals that round to a number, over a common denominator. -/
structure Basin where
  value : Nat
  low : Nat
  high : Nat
  den : Nat
  closed : Bool

def Basin.ofFinite (m : Nat) (e : Int) : Basin :=
  let narrow := m = 0x10000000000000 ∧ Double.minExponent < e
  let quarter (n : Nat) : Nat := if 0 ≤ e - 2 then n * 2 ^ (e - 2).toNat else n
  { value := quarter (4 * m)
    low := quarter (if narrow then 4 * m - 1 else 4 * m - 2)
    high := quarter (4 * m + 2)
    den := if 0 ≤ e - 2 then 1 else 2 ^ (2 - e).toNat
    closed := m % 2 = 0 }

/-- Whether `digits * 10 ^ k` lies in the interval. -/
def Basin.contains (b : Basin) (digits : Nat) (k : Int) : Bool :=
  let (d, t) := if 0 ≤ k then (digits * 10 ^ k.toNat, 1) else (digits, 10 ^ (-k).toNat)
  let x := d * b.den
  let lo := b.low * t
  let hi := b.high * t
  if b.closed then lo ≤ x && x ≤ hi else lo < x && x < hi

/-- The neighbour of the value on the grid `10 ^ k` that lies in its interval, the nearer of two. -/
def Basin.onGrid? (b : Basin) (k : Int) : Option Nat :=
  let (n, d) := overTen b.value b.den k
  let f := n / d
  let below := b.contains f k
  let above := b.contains (f + 1) k
  if below && above then
    let r := n % d
    if 2 * r < d then some f
    else if d < 2 * r then some (f + 1)
    else if f % 2 = 0 then some f else some (f + 1)
  else if below then some f
  else if above then some (f + 1)
  else none

/-- Tries grids from coarse to fine, starting at place `k`. -/
def Basin.search (b : Basin) : Nat → Int → Decimal
  | 0, k => ⟨(overTen b.value b.den k).1 / (overTen b.value b.den k).2, k⟩
  | fuel + 1, k =>
    match b.onGrid? k with
    | some d => trim (digitCount d) ⟨d, k⟩
    | none => search b fuel (k - 1)

/-- The shortest decimal for a positive mantissa and exponent. Seventeen digits always suffice. -/
def shortest (m : Nat) (e : Int) : Decimal :=
  let b := Basin.ofFinite m e
  b.search 17 (leadingPlace b.value b.den)

/-- Place of the leading digit. -/
def place (d : Decimal) : Int :=
  (digitCount d.digits : Int) - 1 + d.exponent

/-- How a decimal is laid out: which leading places are written positionally, whether an integer
keeps a point, and how many digits an exponent has at least. -/
structure Layout where
  firstPlace : Int
  lastPlace : Int
  keepPoint : Bool
  exponentDigits : Nat

/-- Places -4 to 15 are positional, an integer keeps `.0`, an exponent has two digits. -/
def Layout.exact : Layout := ⟨-4, 15, true, 2⟩

/-- Places -6 to 20 are positional, an integer has no point, an exponent has no padding. -/
def Layout.script : Layout := ⟨-6, 20, false, 1⟩

def zeros (n : Nat) : List Char := List.replicate n '0'

def write (layout : Layout) (d : Decimal) : String :=
  let ds := Nat.toDigits 10 d.digits
  let p := d.place
  if layout.firstPlace ≤ p ∧ p ≤ layout.lastPlace then
    if 0 ≤ d.exponent then
      String.ofList (ds ++ zeros d.exponent.toNat ++ (if layout.keepPoint then ['.', '0'] else []))
    else if 0 ≤ p then
      String.ofList (ds.take (p.toNat + 1) ++ ['.'] ++ ds.drop (p.toNat + 1))
    else
      String.ofList (['0', '.'] ++ zeros ((-p).toNat - 1) ++ ds)
  else
    let mark := if p < 0 then ['e', '-'] else ['e', '+']
    let exponent := Nat.toDigits 10 p.natAbs
    let padded := zeros (layout.exponentDigits - exponent.length) ++ exponent
    let mantissa := match ds with
      | [] => []
      | [c] => [c]
      | c :: rest => c :: '.' :: rest
    String.ofList (mantissa ++ mark ++ padded)

end Decimal

end Unravel
