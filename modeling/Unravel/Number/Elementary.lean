import Unravel.Number.Bits

/-! Elementary functions on floating point numbers: each argument is reduced to a small interval
and a polynomial is evaluated there, step by step, so that every bit of the result is fixed. -/

namespace Unravel.Elementary

-- Powers are the built-in ones, whatever other instances are in scope.
attribute [local instance(5000)] instPowNat

/-! Words of a number -/

/-- The upper half of the bits, without the sign. -/
def upper (x : Float) : Nat := (x.toBits.toNat / 0x100000000) % 0x80000000

/-- The lower half of the bits. -/
def lower (x : Float) : Nat := x.toBits.toNat % 0x100000000

def isMinus (x : Float) : Bool := 0x8000000000000000 ≤ x.toBits.toNat

/-- The upper half of the bits as a signed number. -/
def signedUpper (x : Float) : Int := if isMinus x then (upper x : Int) - 0x80000000 else upper x

def ofWords (hi lo : Nat) : Float := Float.ofBits (hi * 0x100000000 + lo).toUInt64

/-- A number with another upper half, the sign included. -/
def withUpper (x : Float) (hi : Nat) : Float := ofWords (hi % 0x100000000) (lower x)

/-- A number with the lower half of its bits cleared. -/
def coarse (x : Float) : Float := Float.ofBits ((x.toBits >>> 32) <<< 32)

def nan : Float := 0.0 / 0.0

def infinity : Float := 1.0 / 0.0

def ofInt (n : Int) : Float := Float.ofInt n

/-- A polynomial by its coefficients, the constant one first. -/
def poly (x : Float) : List Float → Float
  | [] => 0.0
  | [c] => c
  | c :: rest => c + x * poly x rest

/-- The integer part of a small number. -/
def whole (x : Float) : Int := x.toInt64.toInt

/-! Exponentials -/

def ln2Hi : Float := 6.93147180369123816490e-01
def ln2Lo : Float := 1.90821492927058770002e-10
def ln2 : Float := 6.93147180559945286227e-01
def invLn2 : Float := 1.44269504088896338700e+00

def expTerms : List Float :=
  [1.66666666666666019037e-01, -2.77777777770155933842e-03, 6.61375632143793436117e-05,
   -1.65339022054652515390e-06, 4.13813679705723846039e-08]

def exp (x : Float) : Float :=
  let minus := isMinus x
  let hx := upper x
  if x.isNaN then x
  else if 0x7FF00000 ≤ hx then (if minus then 0.0 else x)
  else if 7.09782712893383973096e+02 < x then infinity
  else if x < -7.45133219101941108420e+02 then 0.0
  else if hx < 0x3E300000 then 1.0 + x
  else
    let sign : Float := if minus then -1.0 else 1.0
    let (hi, lo, k) : Float × Float × Int :=
      if 0x3FD62E42 < hx then
        if hx < 0x3FF0A2B2 then (x - sign * ln2Hi, sign * ln2Lo, if minus then -1 else 1)
        else
          let k := whole (invLn2 * x + (if minus then -0.5 else 0.5))
          let t := ofInt k
          (x - t * ln2Hi, t * ln2Lo, k)
      else (x, 0.0, 0)
    if x == 1.0 then 2.718281828459045
    else
      let r := if k = 0 then x else hi - lo
      let t := r * r
      let c := r - t * poly t expTerms
      if k = 0 then 1.0 - ((r * c) / (c - 2.0) - r)
      else
        let y := 1.0 - ((lo - (r * c) / (2.0 - c)) - hi)
        if -1021 ≤ k then
          if k = 1024 then y * 2.0 * 8.98846567431157953865e+307
          else y * ofWords ((0x3FF00000 + k * 0x100000).toNat) 0
        else y * ofWords ((0x3FF00000 + (k + 1000) * 0x100000).toNat) 0 * 9.33263618503218878990e-302

def expm1Terms : List Float :=
  [1.0, -3.33333333333331316428e-02, 1.58730158725481460165e-03, -7.93650757867487942473e-05,
   4.00821782732936239552e-06, -2.01099218183624371326e-07]

/-- One less than the exponential, exact near zero. -/
def expm1 (x : Float) : Float :=
  let minus := isMinus x
  let hx := upper x
  if x.isNaN then x
  else if 0x7FF00000 ≤ hx then (if minus then -1.0 else x)
  else if 7.09782712893383973096e+02 < x then infinity
  else if 0x4043687A ≤ hx && minus then -1.0
  else if hx < 0x3C900000 then x
  else
    let (hi, lo, k) : Float × Float × Int :=
      if 0x3FD62E42 < hx then
        if hx < 0x3FF0A2B2 then
          (if minus then (x + ln2Hi, -ln2Lo, -1) else (x - ln2Hi, ln2Lo, 1))
        else
          let k := whole (invLn2 * x + (if minus then -0.5 else 0.5))
          let t := ofInt k
          (x - t * ln2Hi, t * ln2Lo, k)
      else (x, 0.0, 0)
    let r := if k = 0 then x else hi - lo
    let c := if k = 0 then 0.0 else (hi - r) - lo
    let hfx := 0.5 * r
    let hxs := r * hfx
    let r1 := poly hxs expm1Terms
    let t := 3.0 - r1 * hfx
    let e := hxs * ((r1 - t) / (6.0 - r * t))
    if k = 0 then r - (r * e - hxs)
    else
      let e := (r * (e - c) - c) - hxs
      if k = -1 then 0.5 * (r - e) - 0.5
      else if k = 1 then (if r < -0.25 then -2.0 * (e - (r + 0.5)) else 1.0 + 2.0 * (r - e))
      else
        let power := ofWords ((0x3FF00000 + k * 0x100000).toNat) 0
        if k ≤ -2 || 56 < k then
          let y := 1.0 - (e - r)
          (if k = 1024 then y * 2.0 * 8.98846567431157953865e+307 else y * power) - 1.0
        else if k < 20 then
          let t := ofWords (0x3FF00000 - 0x200000 / 2 ^ k.toNat) 0
          (t - (e - r)) * power
        else
          let t := ofWords ((0x3FF - k.toNat) * 0x100000) 0
          ((r - (e + t)) + 1.0) * power

/-! Logarithms -/

def two54 : Float := 1.80143985094819840000e+16

/-- The two interleaved halves of the series that all logarithms share, at `f / (2 + f)`. -/
def logSeries (s : Float) : Float :=
  let z := s * s
  let w := z * z
  let t1 := w * poly w [3.999999999940941908e-01, 2.222219843214978396e-01, 1.531383769920937332e-01]
  let t2 := z * poly w
    [6.666666666666735130e-01, 2.857142874366239149e-01, 1.818357216161805012e-01,
     1.479819860511658591e-01]
  t2 + t1

/-- A positive number scaled to lie above the subnormal ones, and by how much. -/
def scaledUp (x : Float) : Float × Int := if upper x < 0x00100000 then (x * two54, -54) else (x, 0)

def log (x : Float) : Float :=
  if x.isNaN then x
  else if x == 0.0 then -infinity
  else if x < 0.0 then nan
  else if 0x7FF00000 ≤ upper x then x
  else
    let (x, k) := scaledUp x
    let hx := upper x
    let k := k + (hx / 0x100000 : Nat) - 1023
    let hx := hx % 0x100000
    let i : Nat := (hx + 0x95F64) / 0x100000 % 2
    let x := withUpper x (hx + (if i = 1 then 0x3FE00000 else 0x3FF00000))
    let k := k + i
    let f := x - 1.0
    let dk := ofInt k
    if (2 + hx) % 0x100000 < 3 then
      if f == 0.0 then (if k = 0 then 0.0 else dk * ln2Hi + dk * ln2Lo)
      else
        let r := f * f * (0.5 - 0.33333333333333333 * f)
        if k = 0 then f - r else dk * ln2Hi - ((r - dk * ln2Lo) - f)
    else
      let s := f / (2.0 + f)
      let r := logSeries s
      -- inside an interval around one the square is taken out of the series
      if 0x6147A ≤ hx && hx ≤ 0x6B851 && !(hx = 0x6147A && hx = 0x6B851) then
        let hfsq := 0.5 * f * f
        if k = 0 then f - (hfsq - s * (hfsq + r))
        else dk * ln2Hi - ((hfsq - (s * (hfsq + r) + dk * ln2Lo)) - f)
      else if k = 0 then f - s * (f - r)
      else dk * ln2Hi - ((s * (f - r) - dk * ln2Lo) - f)

/-- The logarithm of one more than a number, exact near zero. -/
def log1p (x : Float) : Float :=
  let hx := signedUpper x
  let ax := upper x
  if x.isNaN then x
  else if x == -1.0 then -infinity
  else if x < -1.0 then nan
  else if 0x7FF00000 ≤ ax then x
  else if ax < 0x3E200000 then (if ax < 0x3C900000 then x else x - x * x * 0.5)
  else
    let near := hx < 0x3FDA827A && (0 < hx || hx ≤ (0xBFD2BEC4 : Int) - 0x100000000)
    let (k, f, hu, c) : Int × Float × Nat × Float :=
      if near then (0, x, 1, 0.0)
      else
        let (u, c, k) : Float × Float × Int :=
          if hx < 0x43400000 then
            let u := 1.0 + x
            let k := (upper u / 0x100000 : Nat) - (1023 : Int)
            (u, (if 0 < k then 1.0 - (u - x) else x - (u - 1.0)) / u, k)
          else (x, 0.0, (upper x / 0x100000 : Nat) - (1023 : Int))
        let hu := upper u % 0x100000
        if hu < 0x6A09E then (k, withUpper u (hu + 0x3FF00000) - 1.0, hu, c)
        else (k + 1, withUpper u (hu + 0x3FE00000) - 1.0, (0x00100000 - hu) / 4, c)
    let dk := ofInt k
    let hfsq := 0.5 * f * f
    if hu = 0 then
      if f == 0.0 then (if k = 0 then 0.0 else dk * ln2Hi + (c + dk * ln2Lo))
      else
        let r := hfsq * (1.0 - 0.66666666666666666 * f)
        if k = 0 then f - r else dk * ln2Hi - ((r - (dk * ln2Lo + c)) - f)
    else
      let s := f / (2.0 + f)
      let z := s * s
      let r := z * poly z
        [6.666666666666735130e-01, 3.999999999940941908e-01, 2.857142874366239149e-01,
         2.222219843214978396e-01, 1.818357216161805012e-01, 1.531383769920937332e-01,
         1.479819860511658591e-01]
      if k = 0 then f - (hfsq - s * (hfsq + r))
      else dk * ln2Hi - ((hfsq - (s * (hfsq + r) + (dk * ln2Lo + c))) - f)

def log2 (x : Float) : Float :=
  if x.isNaN then x
  else if x == 0.0 then -infinity
  else if x < 0.0 then nan
  else if 0x7FF00000 ≤ upper x then x
  else if x == 1.0 then 0.0
  else
    let (x, k) := scaledUp x
    let hx := upper x
    let k := k + (hx / 0x100000 : Nat) - 1023
    let hx := hx % 0x100000
    let i : Nat := (hx + 0x95F64) / 0x100000 % 2
    let x := withUpper x (hx + (if i = 1 then 0x3FE00000 else 0x3FF00000))
    let y := ofInt (k + i)
    let f := x - 1.0
    let hfsq := 0.5 * f * f
    let s := f / (2.0 + f)
    let r := s * (hfsq + logSeries s)
    let invHi : Float := 1.44269504072144627571e+00
    let invLo : Float := 1.67517131648865118353e-10
    let hi := coarse (f - hfsq)
    let lo := (f - hi) - hfsq + r
    let valHi := hi * invHi
    let valLo := (lo + hi) * invLo + lo * invHi
    let w := y + valHi
    (valLo + ((y - w) + valHi)) + w

def log10 (x : Float) : Float :=
  if x.isNaN then x
  else if x == 0.0 then -infinity
  else if x < 0.0 then nan
  else if 0x7FF00000 ≤ upper x then x
  else if x == 1.0 then 0.0
  else
    let (x, k) := scaledUp x
    let hx := upper x
    let k := k + (hx / 0x100000 : Nat) - 1023
    let i : Nat := if k < 0 then 1 else 0
    let x := withUpper x (hx % 0x100000 + (0x3FF - i) * 0x100000)
    let y := ofInt (k + i)
    let z := y * 3.69423907715893078616e-13 + 4.34294481903251816668e-01 * log x
    z + y * 3.01029995663611771306e-01

/-! Powers -/

/-- Whether a number is an odd integer, an even one, or none. -/
inductive Parity where
  | none | odd | even
deriving DecidableEq

def parityOf (y : Float) : Parity :=
  if y.abs < 9007199254740992.0 then
    if y.floor == y then (if (y.abs.toUInt64 % 2) == 1 then .odd else .even) else .none
  else .even

/-- Terms of the logarithm to base two of a number near one, after its first two. -/
def log2Terms : List Float :=
  [5.99999999999994648725e-01, 4.28571428578550184252e-01, 3.33333329818377432918e-01,
   2.72728123808534006489e-01, 2.30660745775561754067e-01, 2.06975017800338417784e-01]

/-- The logarithm to base two of a number very near one, as a sum of a coarse and a fine part. -/
def log2NearOne (x : Float) : Float × Float :=
  let t := x - 1.0
  let w := (t * t) * (0.5 - t * (0.3333333333333333333333 - t * 0.25))
  let u := 1.44269502162933349609e+00 * t
  let v := t * 1.92596299112661746887e-08 - w * invLn2
  let high := coarse (u + v)
  (high, v - (high - u))

/-- The logarithm to base two of a positive number, as a sum of a coarse and a fine part. -/
def log2Parts (x : Float) : Float × Float :=
  let isSmall := upper x < 0x00100000
  let x := if isSmall then x * 9007199254740992.0 else x
  let hx := upper x
  let n : Int := (hx / 0x100000 : Nat) - 0x3FF - (if isSmall then 53 else 0)
  let j := hx % 0x100000
  -- the number is brought near one, or near one and a half
  let (n, hx, isHalf) : Int × Nat × Bool :=
    if j ≤ 0x3988E then (n, j + 0x3FF00000, false)
    else if j < 0xBB67A then (n, j + 0x3FF00000, true)
    else (n + 1, j + 0x3FE00000, false)
  let x := ofWords hx (lower x)
  let near := if isHalf then 1.5 else 1.0
  let dpHigh := if isHalf then 5.84962487220764160156e-01 else 0.0
  let dpLow := if isHalf then 1.35003920212974897128e-08 else 0.0
  let u := x - near
  let v := 1.0 / (x + near)
  let ss := u * v
  let sHigh := coarse ss
  let tHigh := ofWords (hx / 2 + 0x20000000 + 0x00080000 + (if isHalf then 0x40000 else 0)) 0
  let tLow := x - (tHigh - near)
  let sLow := v * ((u - sHigh * tHigh) - sHigh * tLow)
  let s2 := ss * ss
  let r := s2 * s2 * poly s2 log2Terms + sLow * (sHigh + ss)
  let s2 := sHigh * sHigh
  let tHigh := coarse (3.0 + s2 + r)
  let tLow := r - ((tHigh - 3.0) - s2)
  let u := sHigh * tHigh
  let v := sLow * tHigh + tLow * ss
  let pHigh := coarse (u + v)
  let pLow := v - (pHigh - u)
  let zHigh := 9.61796700954437255859e-01 * pHigh
  let zLow := -7.02846165095275826516e-09 * pHigh + pLow * 9.61796693925975554329e-01 + dpLow
  let t := ofInt n
  let high := coarse (((zHigh + zLow) + dpHigh) + t)
  (high, zLow - (((high - t) - dpHigh) - zHigh))

/-- Two to a power that is given as a sum of a coarse and a fine part. -/
def exp2Parts (high low : Float) : Float :=
  let z := low + high
  let hz := upper z
  let (n, high) : Int × Float :=
    if 0x3FE00000 < hz then
      let hn := hz + 0x00100000 / 2 ^ (hz / 0x100000 - 0x3FE)
      let k := hn / 0x100000 - 0x3FF
      let step := 2 ^ (20 - k)
      let t := ofWords (hn - hn % step) 0
      let n : Int := ((hn % 0x100000 + 0x100000) / step : Nat)
      if isMinus z then (-n, high + t) else (n, high - t)
    else (0, high)
  let t := coarse (low + high)
  let u := t * 6.93147182464599609375e-01
  let v := (low - (t - high)) * ln2 + t * -1.90465429995776804525e-09
  let z := u + v
  let w := v - (z - u)
  let t := z * z
  let c := z - t * poly t expTerms
  let r := (z * c) / ((c - 2.0) - (w + z * w))
  let z := 1.0 - (r - z)
  let hz : Int := upper z + n * 0x100000
  if hz < 0x100000 then ofWords (hz + 54 * 0x100000).toNat (lower z) * 5.55111512312578270212e-17
  else ofWords hz.toNat (lower z)

/-- A power of a positive number, the exponent being neither zero nor infinite. -/
def positivePow (x y : Float) : Float :=
  let hx := upper x
  let hy := upper y
  let isLarge (up : Bool) : Float := if up then infinity else 0.0
  if 0x43F00000 < hy then isLarge (isMinus y = decide (hx ≤ 0x3FEFFFFF))
  else if 0x41E00000 < hy && hx < 0x3FEFFFFF then isLarge (isMinus y)
  else if 0x41E00000 < hy && 0x3FF00000 < hx then isLarge (!isMinus y)
  else
    let (high, low) := if 0x41E00000 < hy then log2NearOne x else log2Parts x
    let y1 := coarse y
    let pLow := (y - y1) * high + y * low
    let pHigh := y1 * high
    let z := pLow + pHigh
    if 1024.0 < z || (z == 1024.0 && z - pHigh < pLow + 8.0085662595372944372e-17) then infinity
    else if z < -1075.0 || (z == -1075.0 && pLow ≤ z - pHigh) then 0.0
    else exp2Parts pHigh pLow

/-- A power. -/
def pow (x y : Float) : Float :=
  if y == 0.0 then 1.0
  else if x.isNaN || y.isNaN then nan
  else
    let ax := x.abs
    let parity := if isMinus x then parityOf y else .none
    if upper y = 0x7FF00000 then
      if ax == 1.0 then nan
      else if 1.0 < ax then (if isMinus y then 0.0 else infinity)
      else (if isMinus y then infinity else 0.0)
    else if y == 1.0 then x
    else if y == -1.0 then 1.0 / x
    else if y == 2.0 then x * x
    else if y == 0.5 && !isMinus x then x.sqrt
    else if ax == 0.0 || upper x = 0x7FF00000 || (ax == 1.0 && (!isMinus x || parity ≠ .none)) then
      let z := if isMinus y then 1.0 / ax else ax
      if parity = .odd then -z else z
    else if isMinus x && parity = .none then nan
    else
      let z := positivePow ax y
      if parity = .odd then -z else z

/-- The cube root. -/
def cbrt (x : Float) : Float :=
  let hx := upper x
  if 0x7FF00000 ≤ hx || x == 0.0 then x
  else
    let sign := if isMinus x then 0x80000000 else 0
    let t :=
      if hx < 0x00100000 then
        let t := two54 * x
        ofWords (sign + upper t / 3 + 696219795) 0
      else ofWords (sign + hx / 3 + 715094163) 0
    let r := (t * t) * (t / x)
    let t := t * ((1.87595182427177009643 + r * (-1.88497979543377169875 + r * 1.621429720105354466140))
      + ((r * r) * r) * (-0.758397934778766047437 + r * 0.145996192886612446982))
    let t := Float.ofBits ((t.toBits + 0x80000000) &&& 0xFFFFFFFFC0000000)
    let s := t * t
    let r := x / s
    let w := t + t
    let r := (r - t) / (w + r)
    t + t * r

/-! Hyperbolic functions -/

def sinh (x : Float) : Float :=
  let h : Float := if x < 0.0 then -0.5 else 0.5
  let ax := x.abs
  if ax < 22.0 then
    if ax < 3.725290298461914e-9 then x
    else
      let t := expm1 ax
      if ax < 1.0 then h * (2.0 * t - t * t / (t + 1.0)) else h * (t + t / (t + 1.0))
  else if ax < 709.7822265625 then h * exp ax
  else if ax ≤ 710.4758600739439 then
    let w := exp (0.5 * ax)
    (h * w) * w
  else x * 1.0e307

def cosh (x : Float) : Float :=
  let ix := upper x
  let ax := x.abs
  if ix < 0x3FD62E43 then
    let t := expm1 ax
    let w := 1.0 + t
    if ix < 0x3C800000 then w else 1.0 + (t * t) / (w + w)
  else if ix < 0x40360000 then
    let t := exp ax
    0.5 * t + 0.5 / t
  else if ix < 0x40862E42 then 0.5 * exp ax
  else if ax ≤ 710.4758600739439 then
    let w := exp (0.5 * ax)
    (0.5 * w) * w
  else if x.isNaN then x
  else infinity

def tanh (x : Float) : Float :=
  let ix := upper x
  if x.isNaN then x
  else if 0x7FF00000 ≤ ix then (if isMinus x then -1.0 else 1.0)
  else if ix < 0x3E300000 then x
  else
    let z : Float :=
      if ix < 0x40360000 then
        if 0x3FF00000 ≤ ix then 1.0 - 2.0 / (expm1 (2.0 * x.abs) + 2.0)
        else
          let t := expm1 (-2.0 * x.abs)
          let u := -t
          u / (t + 2.0)
      else 1.0
    if isMinus x then -z else z

def asinh (x : Float) : Float :=
  let ix := upper x
  if 0x7FF00000 ≤ ix || ix < 0x3E300000 then x
  else
    let t := x.abs
    let w :=
      if 0x41B00000 < ix then log t + ln2
      else if 0x40000000 < ix then log (2.0 * t + 1.0 / ((x * x + 1.0).sqrt + t))
      else
        let q := x * x
        log1p (t + q / (1.0 + (1.0 + q).sqrt))
    if isMinus x then -w else w

def acosh (x : Float) : Float :=
  if x.isNaN || x < 1.0 then nan
  else
    let hx := upper x
    if 0x7FF00000 ≤ hx then x
    else if 0x41B00000 ≤ hx then log x + ln2
    else if x == 1.0 then 0.0
    else if 0x40000000 < hx then log (2.0 * x - 1.0 / (x + (x * x - 1.0).sqrt))
    else
      let t := x - 1.0
      log1p (t + (2.0 * t + t * t).sqrt)

def atanh (x : Float) : Float :=
  let a := x.abs
  if x.isNaN || 1.0 < a then nan
  else if a == 1.0 then x / 0.0
  else if upper x < 0x3E300000 then x
  else
    let t :=
      if upper x < 0x3FE00000 then
        let t := a + a
        0.5 * log1p (t + t * a / (1.0 - a))
      else 0.5 * log1p ((a + a) / (1.0 - a))
    if isMinus x then -t else t

/-! Inverse trigonometric functions -/

def atanTerms (x : Float) : Float :=
  let z := x * x
  let w := z * z
  let s1 := z * poly w
    [3.33333333333329318027e-01, 1.42857142725034663711e-01, 9.09088713343650656196e-02,
     6.66107313738753120669e-02, 4.97687799461593236017e-02, 1.62858201153657823623e-02]
  let s2 := w * poly w
    [-1.99999999998764832476e-01, -1.11111104054623557880e-01, -7.69187620504482999495e-02,
     -5.83357013379057348645e-02, -3.65315727442169155270e-02]
  s1 + s2

def atan (x : Float) : Float :=
  let ix := upper x
  let signed (z : Float) : Float := if isMinus x then -z else z
  let around (hi lo r : Float) : Float := signed (hi - ((r * atanTerms r - lo) - r))
  if x.isNaN then x
  else if 0x44100000 ≤ ix then signed 1.57079632679489655800e+00
  else if ix < 0x3FDC0000 then (if ix < 0x3E400000 then x else x - x * atanTerms x)
  else
    let a := x.abs
    if ix < 0x3FE60000 then
      around 4.63647609000806093515e-01 2.26987774529616870924e-17 ((2.0 * a - 1.0) / (2.0 + a))
    else if ix < 0x3FF30000 then
      around 7.85398163397448278999e-01 3.06161699786838301793e-17 ((a - 1.0) / (a + 1.0))
    else if ix < 0x40038000 then
      around 9.82793723247329054082e-01 1.39033110312309984516e-17 ((a - 1.5) / (1.0 + 1.5 * a))
    else around 1.57079632679489655800e+00 6.12323399573676603587e-17 (-1.0 / a)

def pi : Float := 3.1415926535897931160
def halfPi : Float := 1.5707963267948965580
def piLo : Float := 1.2246467991473531772e-16

def atan2 (y x : Float) : Float :=
  let signed (z : Float) : Float := if isMinus y then -z else z
  if x.isNaN || y.isNaN then nan
  else if x == 1.0 then atan y
  else if y == 0.0 then (if isMinus x then signed pi else y)
  else if x == 0.0 then signed halfPi
  else if upper x = 0x7FF00000 then
    if upper y = 0x7FF00000 then
      signed (if isMinus x then 3.0 * 7.8539816339744827900e-01 else 7.8539816339744827900e-01)
    else signed (if isMinus x then pi else 0.0)
  else if upper y = 0x7FF00000 then signed halfPi
  else
    let k := ((upper y : Int) - upper x) / 0x100000
    if 60 < k then signed (halfPi + 0.5 * piLo)
    else
      let z := if isMinus x && k < -60 then 0.0 else atan (y / x).abs
      if !isMinus x then signed z
      else if isMinus y then (z - piLo) - pi
      else pi - (z - piLo)

/-- The quotient of polynomials in which arcs are expressed. -/
def arcRatio (t : Float) : Float :=
  let p := t * poly t
    [1.66666666666666657415e-01, -3.25565818622400915405e-01, 2.01212532134862925881e-01,
     -4.00555345006794114027e-02, 7.91534994289814532176e-04, 3.47933107596021167570e-05]
  let q := poly t
    [1.0, -2.40339491173441421878e+00, 2.02094576023350569471e+00, -6.88283971605453293030e-01,
     7.70381505559019352791e-02]
  p / q

def halfPiHi : Float := 1.57079632679489655800e+00
def halfPiLo : Float := 6.12323399573676603587e-17

def asin (x : Float) : Float :=
  let ix := upper x
  let a := x.abs
  if x.isNaN || 1.0 < a then nan
  else if a == 1.0 then x * halfPiHi + x * halfPiLo
  else if ix < 0x3FE00000 then (if ix < 0x3E400000 then x else x + x * arcRatio (x * x))
  else
    let quarter : Float := 7.85398163397448278999e-01
    let t := (1.0 - a) * 0.5
    let r := arcRatio t
    let s := t.sqrt
    let z :=
      if 0x3FEF3333 ≤ ix then halfPiHi - (2.0 * (s + s * r) - halfPiLo)
      else
        let w := coarse s
        let c := (t - w * w) / (s + w)
        let p := 2.0 * s * r - (halfPiLo - 2.0 * c)
        let q := quarter - 2.0 * w
        quarter - (p - q)
    if isMinus x then -z else z

def acos (x : Float) : Float :=
  let ix := upper x
  if x.isNaN || 1.0 < x.abs then nan
  else if x == 1.0 then 0.0
  else if x == -1.0 then pi + 2.0 * halfPiLo
  else if ix < 0x3FE00000 then
    if ix ≤ 0x3C600000 then halfPiHi + halfPiLo
    else halfPiHi - (x - (halfPiLo - x * arcRatio (x * x)))
  else if isMinus x then
    let z := (1.0 + x) * 0.5
    let s := z.sqrt
    let w := arcRatio z * s - halfPiLo
    pi - 2.0 * (s + w)
  else
    let z := (1.0 - x) * 0.5
    let s := z.sqrt
    let df := coarse s
    let c := (z - df * df) / (s + df)
    let w := arcRatio z * s + c
    2.0 * (df + w)

/-! Trigonometric functions -/

/-- The circle constant times 2 ^ 1300, for the exact reduction of large arguments; its digits come
from the arc tangents of one fifth and one 239th. -/
def arcTanScaled (scale inverse : Nat) : Nat → Nat → Nat → Int → Int
  | 0, _, _, done => done
  | n + 1, term, i, done =>
    if term = 0 then done
    else
      let part : Int := term / (2 * i + 1)
      arcTanScaled scale inverse n (term / (inverse * inverse)) (i + 1)
        (if i % 2 = 0 then done + part else done - part)

def piBits : Nat := 1300

def piScaled : Nat :=
  let scale := 2 ^ (piBits + 32)
  let a := arcTanScaled scale 5 1000 (scale / 5) 0 0
  let b := arcTanScaled scale 239 1000 (scale / 239) 0 0
  ((16 * a - 4 * b) / 0x100000000).toNat

/-- How many quarter turns are nearest to a finite angle, modulo four, and what is left, as a
signed multiple of two to the power of minus `piBits`. -/
def reduced (x : Double) : Nat × Int :=
  match x with
  | .finite s m e =>
    let a : Nat := if 0 ≤ e + piBits then m * 2 ^ (e + piBits).toNat
      else m / 2 ^ (-(e + piBits)).toNat
    let quarter := piScaled / 2
    let n := (2 * a + quarter) / (2 * quarter)
    -- the multiple is taken of all the digits, not of the halved ones
    let left : Int := (2 * a : Int) - (n * piScaled : Nat)
    if s then ((4 - n % 4) % 4, -left) else (n % 4, left)
  | _ => (0, 0)

/-- The series of the sine or cosine in fixed point, from a first term on. -/
def waveSeries (square : Int) (scale : Nat) : Nat → Nat → Int → Int → Int
  | 0, _, _, done => done
  | n + 1, i, term, done =>
    if term = 0 then done
    else
      let term := -(term * square / scale) / ((i * (i + 1) : Nat) : Int)
      waveSeries square scale n (i + 2) term (done + term)

/-- The number nearest to a fraction. -/
def ofRatio (v : Int) (scale : Nat) : Float := (Double.ofRatio (v < 0) v.natAbs scale).toFloat

/-- The sine or cosine of what is left of an angle, rounded to the nearest number. -/
def wave (isSine : Bool) (left : Int) : Float :=
  let scale : Nat := 2 ^ (piBits + 1)
  -- small angles keep their digits, so the angle itself scales the sine
  let square := left * left / scale
  let v := if isSine then waveSeries square scale 200 2 left left
    else waveSeries square scale 200 1 (scale : Int) scale
  ofRatio v scale

def sin (x : Float) : Float :=
  if x.isNaN || upper x = 0x7FF00000 then nan
  else if upper x < 0x3E500000 then x
  else
    let (n, left) := reduced (Double.ofFloat x)
    match n with
    | 0 => wave true left
    | 1 => wave false left
    | 2 => -wave true left
    | _ => -wave false left

def cos (x : Float) : Float :=
  if x.isNaN || upper x = 0x7FF00000 then nan
  else if upper x < 0x3E400000 then 1.0
  else
    let (n, left) := reduced (Double.ofFloat x)
    match n with
    | 0 => wave false left
    | 1 => -wave true left
    | 2 => -wave false left
    | _ => wave true left

/-- What is left of an angle after the nearest number of quarter turns, as a sum, and that number. -/
def quarterTurns (x : Float) : Int × Float × Float :=
  let hx := upper x
  let p1 : Float := 1.57079632673412561417e+00
  let p1t : Float := 6.07710050650619224932e-11
  let p2 : Float := 6.07710050630396597660e-11
  let p2t : Float := 2.02226624879595063154e-21
  let p3 : Float := 2.02226624871116645580e-21
  let p3t : Float := 8.47842766036889956997e-32
  if hx < 0x4002D97C then
    let (z, t) : Float × Float :=
      let z := x.abs - p1
      if hx = 0x3FF921FB then (z - p2, p2t) else (z, p1t)
    let y0 := z - t
    let y1 := (z - y0) - t
    if isMinus x then (-1, -y0, -y1) else (1, y0, y1)
  else if hx ≤ 0x413921FB then
    let t := x.abs
    let n := whole (t * 6.36619772367581382433e-01 + 0.5)
    let fn := ofInt n
    let r := t - fn * p1
    let w := fn * p1t
    let lost (y : Float) : Int := (hx / 0x100000 : Nat) - ((upper y / 0x100000 : Nat) : Int)
    let (r, w) : Float × Float :=
      if n < 32 && hx ≠ upper (fn * halfPi) then (r, w)
      else if lost (r - w) ≤ 16 then (r, w)
      else
        let t := r
        let w := fn * p2
        let r := t - w
        let w := fn * p2t - ((t - r) - w)
        if lost (r - w) ≤ 49 then (r, w)
        else
          let t := r
          let w := fn * p3
          let r := t - w
          (r, fn * p3t - ((t - r) - w))
    let y0 := r - w
    let y1 := (r - y0) - w
    if isMinus x then (-n, -y0, -y1) else (n, y0, y1)
  else
    let (n, left) := reduced (Double.ofFloat x)
    let scale : Nat := 2 ^ (piBits + 1)
    let y0 := ofRatio left scale
    let taken := match Double.ofFloat y0 with
      | .finite s m e =>
        let v : Int := if 0 ≤ e + (piBits + 1 : Nat) then m * 2 ^ (e + (piBits + 1 : Nat)).toNat
          else (m / 2 ^ (-(e + (piBits + 1 : Nat))).toNat : Nat)
        if s then -v else v
      | _ => 0
    (n, y0, ofRatio (left - taken) scale)

/-- The tangent near zero of a sum, or minus its inverse. -/
def tanNear (x y : Float) (inverted : Bool) : Float :=
  let hx := upper x
  let minusInverse (w z v : Float) : Float :=
    let a := -1.0 / w
    let t := coarse a
    let s := 1.0 + t * z
    t + a * (s + t * v)
  if hx < 0x3E300000 then
    if !inverted then x
    else
      let w := x + y
      let z := coarse w
      minusInverse w z (y - (z - x))
  else
    let big := 0x3FE59428 ≤ hx
    let (x', y') : Float × Float :=
      if big then
        let (x', y') := if isMinus x then (-x, -y) else (x, y)
        ((7.85398163397448278999e-01 - x') + (3.06161699786838301793e-17 - y'), 0.0)
      else (x, y)
    let z := x' * x'
    let w := z * z
    let r := poly w
      [1.33333333333201242699e-01, 2.18694882948595424599e-02, 3.59207910759131235356e-03,
       5.88041240820264096874e-04, 7.81794442939557092300e-05, -1.85586374855275456654e-05]
    let v := z * poly w
      [5.39682539762260521377e-02, 8.86323982359930005737e-03, 1.45620945432529025516e-03,
       2.46463134818469906812e-04, 7.14072491382608190305e-05, 2.59073051863633712884e-05]
    let s := z * x'
    let r := y' + z * (s * (r + v) + y')
    let r := r + 3.33333333333334091986e-01 * s
    let w := x' + r
    if big then
      let v : Float := if inverted then -1.0 else 1.0
      let sign : Float := if isMinus x then -1.0 else 1.0
      sign * (v - 2.0 * (x' - (w * w / (w + v) - r)))
    else if !inverted then w
    else
      let z := coarse w
      minusInverse w z (r - (z - x'))

def tan (x : Float) : Float :=
  if x.isNaN || upper x = 0x7FF00000 then nan
  else if upper x ≤ 0x3FE921FB then tanNear x 0.0 false
  else
    let (n, y0, y1) := quarterTurns x
    tanNear y0 y1 (n % 2 ≠ 0)

end Unravel.Elementary
