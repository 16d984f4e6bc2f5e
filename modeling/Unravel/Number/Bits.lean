import Unravel.Number.Double

/-! The numbers of the processor beside those with exact arithmetic: the same 64 bits, read in two
ways. -/

namespace Unravel

namespace Double

/-- The exact value of a floating point number. -/
def ofFloat (x : Float) : Double :=
  let bits := x.toBits.toNat
  let negative := 0x8000000000000000 ≤ bits
  let exponent : Nat := bits / 0x10000000000000 % 2048
  let fraction : Nat := bits % 0x10000000000000
  if exponent = 2047 then (if fraction = 0 then .infinite negative else .nan)
  else if exponent = 0 then .finite negative fraction minExponent
  else .finite negative (fraction + 0x10000000000000) ((exponent : Int) - 1075)

def toFloat : Double → Float
  | .nan => 0.0 / 0.0
  | .infinite s => if s then -1.0 / 0.0 else 1.0 / 0.0
  | .finite s m e =>
    let sign : Nat := if s then 0x8000000000000000 else 0
    if m < 0x10000000000000 then
      -- subnormal numbers are written with the least exponent
      Float.ofBits (sign + m).toUInt64
    else Float.ofBits (sign + (e + 1075).toNat * 0x10000000000000 + (m - 0x10000000000000)).toUInt64

end Double

end Unravel
