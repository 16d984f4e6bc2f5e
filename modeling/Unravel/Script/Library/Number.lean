import Unravel.Script.Library.Digits
import Unravel.Script.Library.Setup

/-! Numbers, truth values and symbols, and the functions of mathematics. -/

namespace Unravel.Script.Library

open Run

/-! Reading numbers -/

def parseInteger : Native := fun h _ args _ => do
  let u ← toText h (argument args 0)
  let base ← toNumber h (argument args 1)
  return .number (Numeral.integerOf u (Numeral.toInt32 base).toInt)

def parseDecimal : Native := fun h _ args _ => do
  return .number (Numeral.decimalOf (← toText h (argument args 0)))

def globalIsNaN : Native := fun h _ args _ => do
  return .bool (← toNumber h (argument args 0)).isNaN

def globalIsFinite : Native := fun h _ args _ => do
  return .bool (← toNumber h (argument args 0)).isFinite

/-- A test that holds of some numbers and of nothing else. -/
def numberTest (test : Float → Bool) : Native := fun _ _ args _ => do
  match argument args 0 with
  | .number x => return .bool (test x)
  | _ => return .bool false

def isInteger (x : Float) : Bool := x.isFinite && x.floor == x

def isSafeInteger (x : Float) : Bool := isInteger x && x.abs ≤ 9007199254740991.0

/-! Numbers as objects -/

def numberMake : Native := fun h _ args newTarget => do
  let x ← if args.isEmpty then pure 0.0 else toNumber h (argument args 0)
  match newTarget with
  | .undefined => return .number x
  | _ =>
    newObject { proto := some (← protoFor h newTarget Fixed.numberProto.ref), kind := .boxed (.number x) }

/-- The number that a receiver is or wraps. -/
def ownNumber (name : String) (v : Value) : Run Float := do
  let fail : Run Float := typeError ("Number.prototype." ++ name ++ " requires that 'this' be a Number")
  match v with
  | .number x => return x
  | .object ref =>
    match ← kindOf ref with
    | .boxed (.number x) => return x
    | _ => fail
  | _ => fail

def numberText : Native := fun h this args _ => do
  let x ← ownNumber "toString" this
  match argument args 0 with
  | .undefined => return .string (Numeral.units x)
  | b =>
    let base ← toInteger h b
    if base < 2 || 36 < base then rangeError "toString() radix must be between 2 and 36"
    return .string (if base = 10 then Numeral.units x else Digits.inBase base.toNat x)

def numberFixed : Native := fun h this args _ => do
  let x ← ownNumber "toFixed" this
  let places ← toInteger h (argument args 0)
  if places < 0 || 100 < places then
    rangeError "toFixed() digits argument must be between 0 and 100"
  return .string (Digits.fixed places.toNat x)

def numberPrecision : Native := fun h this args _ => do
  let x ← ownNumber "toPrecision" this
  match argument args 0 with
  | .undefined => return .string (Numeral.units x)
  | v =>
    let count ← toInteger h v
    if !x.isFinite then return .string (Numeral.units x)
    if count < 1 || 100 < count then
      rangeError "toPrecision() argument must be between 1 and 100"
    return .string (Digits.precise count.toNat x)

def numberExponential : Native := fun h this args _ => do
  let x ← ownNumber "toExponential" this
  let places ← toInteger h (argument args 0)
  if !x.isFinite then return .string (Numeral.units x)
  if places < 0 || 100 < places then
    rangeError "toExponential() argument must be between 0 and 100"
  return .string (Digits.exponential
    (if (argument args 0).isUndefined then none else some places.toNat) x)

/-- Digits in groups of three. -/
def grouped (ds : List UInt16) : List UInt16 :=
  (ds.reverse.zipIdx.flatMap fun (d, i) => if i ≠ 0 && i % 3 = 0 then [44, d] else [d]).reverse

/-- A number for people: at most three places, digits in groups. -/
def numberLocaleText : Native := fun _ this _ _ => do
  let x ← ownNumber "toLocaleString" this
  if x.isNaN then return .ofString "NaN"
  if !x.isFinite then return .ofString (if x < 0.0 then "-∞" else "∞")
  match Double.ofFloat x with
  | .finite s m e =>
    let (num, den) := Digits.ratio m e
    -- a half goes to the even neighbour
    let n := Double.nearest (num * 1000) den
    let whole := grouped (Digits.decimal (n / 1000))
    let places := Digits.decimal (1000 + n % 1000) |>.drop 1
    let places := (places.reverse.dropWhile (· == 48)).reverse
    let body := if places.isEmpty then whole else whole ++ 46 :: places
    return .string (if s then (45 :: body).toArray else body.toArray)
  | _ => return .string (Numeral.units x)

def numberValueOf : Native := fun _ this _ _ => do return .number (← ownNumber "valueOf" this)

/-! Truth values -/

def booleanMake : Native := fun h _ args newTarget => do
  let b := (argument args 0).truthy
  match newTarget with
  | .undefined => return .bool b
  | _ =>
    newObject { proto := some (← protoFor h newTarget Fixed.booleanProto.ref), kind := .boxed (.bool b) }

def ownBoolean (name : String) (v : Value) : Run Bool := do
  let fail : Run Bool := typeError ("Boolean.prototype." ++ name ++ " requires that 'this' be a Boolean")
  match v with
  | .bool b => return b
  | .object ref =>
    match ← kindOf ref with
    | .boxed (.bool b) => return b
    | _ => fail
  | _ => fail

def booleanText : Native := fun _ this _ _ => do
  return .ofString (if ← ownBoolean "toString" this then "true" else "false")

def booleanValueOf : Native := fun _ this _ _ => do return .bool (← ownBoolean "valueOf" this)

/-! Symbols -/

def newSymbol (description : Option Units) : Run Nat :=
  modifyGet fun m => (m.symbols.size, { m with symbols := m.symbols.push description })

def symbolMake : Native := fun h _ args newTarget => do
  if !newTarget.isUndefined then typeError "Symbol is not a constructor"
  let description ← match argument args 0 with
    | .undefined => pure none
    | v => do pure (some (← toText h v))
  return .symbol (← newSymbol description)

def symbolFor : Native := fun h _ args _ => do
  let key ← toText h (argument args 0)
  match (← get).registry[key]? with
  | some id => return .symbol id
  | none =>
    let id ← newSymbol (some key)
    modify fun m => { m with registry := m.registry.insert key id }
    return .symbol id

def symbolKeyFor : Native := fun _ _ args _ => do
  match argument args 0 with
  | .symbol id =>
    let m ← get
    match m.symbols.getD id none with
    | some key => return if m.registry[key]? = some id then .string key else .undefined
    | none => return .undefined
  | v => typeError ((← shownValue v) ++ " is not a symbol")

def ownSymbol (v : Value) : Run Nat := do
  let fail : Run Nat := typeError "Symbol.prototype method requires that 'this' be a Symbol"
  match v with
  | .symbol id => return id
  | .object ref =>
    match ← kindOf ref with
    | .boxed (.symbol id) => return id
    | _ => fail
  | _ => fail

def symbolText : Native := fun _ this _ _ => do
  return .ofString (← shownValue (.symbol (← ownSymbol this)))

def symbolValueOf : Native := fun _ this _ _ => do return .symbol (← ownSymbol this)

def symbolDescription : Native := fun _ this _ _ => do
  match (← get).symbols.getD (← ownSymbol this) none with
  | some u => return .string u
  | none => return .undefined

/-! Mathematics -/

def onNumber (f : Float → Float) : Native := fun h _ args _ => do
  return .number (f (← toNumber h (argument args 0)))

def onNumbers (f : Float → Float → Float) : Native := fun h _ args _ => do
  let x ← toNumber h (argument args 0)
  return .number (f x (← toNumber h (argument args 1)))

def isMinus (x : Float) : Bool := 1.0 / x < 0.0 && x == 0.0

/-- A number rounded to an integer, a half going up; what comes to zero keeps its sign. -/
def rounded (x : Float) : Float :=
  if !x.isFinite || x.floor == x then x
  else if x < 0.0 && -0.5 ≤ x then -0.0
  else
    let f := x.floor
    if x - f < 0.5 then f else f + 1.0

def truncated (x : Float) : Float := if x < 0.0 then x.ceil else x.floor

def signOf (x : Float) : Float := if x.isNaN || x == 0.0 then x else if x < 0.0 then -1.0 else 1.0

/-- The extreme of the arguments by an order; the empty extreme if there are none. -/
def extreme (start : Float) (better : Float → Float → Bool) : Native := fun h _ args _ => do
  let mut xs : Array Float := #[]
  for a in args do
    xs := xs.push (← toNumber h a)
  return .number (xs.foldl (fun best x =>
    if best.isNaN || x.isNaN then Numeral.nan else if better x best then x else best) start)

/-- Whether one number is above another, zero above its negative. -/
def above (x y : Float) : Bool := y < x || (x == 0.0 && y == 0.0 && !isMinus x && isMinus y)

/-- The length of a vector, its squares summed up with what each addition loses. -/
def hypotenuse : Native := fun h _ args _ => do
  let mut xs : Array Float := #[]
  for a in args do
    xs := xs.push (← toNumber h a).abs
  if xs.isEmpty then return .number 0.0
  if xs.any fun x => x == Numeral.infinity then return .number Numeral.infinity
  if xs.any Float.isNaN then return .nan
  let greatest := xs.foldl (fun a b => if a < b then b else a) 0.0
  if greatest == 0.0 then return .number 0.0
  let (sum, _) := xs.foldl (fun ((sum, lost) : Float × Float) x =>
    let n := x / greatest
    let summand := n * n - lost
    let next := sum + summand
    (next, (next - sum) - summand)) (0.0, 0.0)
  return .number (sum.sqrt * greatest)

def leadingZeros (x : Float) : Float :=
  let n := (Numeral.toUInt32 x).toNat
  if n = 0 then 32.0 else Float.ofNat (31 - Nat.log2 n)

def product32 (x y : Float) : Float := (Numeral.toUInt32 x * Numeral.toUInt32 y).toInt32.toFloat

/-- A number between 0 and 1 that cannot be foretold. -/
def random : Native := fun _ _ _ _ => do
  let s := (← get).seed
  let s := s ^^^ (s <<< 13)
  let s := s ^^^ (s >>> 7)
  let s := s ^^^ (s <<< 17)
  modify fun m => { m with seed := s }
  return .number ((s >>> 11).toFloat / 9007199254740992.0)

def mathFunctions : List (String × Nat × Native) :=
  ([("floor", Float.floor), ("ceil", Float.ceil), ("round", rounded), ("trunc", truncated),
    ("abs", Float.abs), ("sign", signOf), ("sqrt", Float.sqrt), ("cbrt", Elementary.cbrt),
    ("exp", Elementary.exp), ("expm1", Elementary.expm1), ("log", Elementary.log),
    ("log1p", Elementary.log1p), ("log2", Elementary.log2), ("log10", Elementary.log10),
    ("sin", Elementary.sin), ("cos", Elementary.cos), ("tan", Elementary.tan),
    ("asin", Elementary.asin), ("acos", Elementary.acos), ("atan", Elementary.atan),
    ("sinh", Elementary.sinh), ("cosh", Elementary.cosh), ("tanh", Elementary.tanh),
    ("asinh", Elementary.asinh), ("acosh", Elementary.acosh), ("atanh", Elementary.atanh),
    ("clz32", leadingZeros), ("fround", fun x => x.toFloat32.toFloat)].map fun (name, f) =>
      (name, 1, onNumber f)) ++
  [("atan2", 2, onNumbers Elementary.atan2), ("pow", 2, onNumbers Elementary.pow),
   ("imul", 2, onNumbers product32), ("hypot", 2, hypotenuse), ("random", 0, random),
   ("max", 2, extreme (-Numeral.infinity) above),
   ("min", 2, extreme Numeral.infinity fun x y => above y x)]

def mathConstants : List (String × Float) :=
  [("E", 2.718281828459045), ("LN10", 2.302585092994046), ("LN2", 0.6931471805599453),
   ("LOG10E", 0.4342944819032518), ("LOG2E", 1.4426950408889634), ("PI", 3.141592653589793),
   ("SQRT1_2", 0.7071067811865476), ("SQRT2", 1.4142135623730951)]

open Setup in
def setupNumber : Setup Unit := do
  let proto := Fixed.numberProto.ref
  let c ← constructor "Number" 1 proto numberMake
  let global := Fixed.global.ref
  for (name, length, f) in [("parseInt", 2, parseInteger), ("parseFloat", 1, parseDecimal)] do
    let f ← function name length f
    hidden global name (.object f)
    hidden c name (.object f)
  methods global [("isNaN", 1, globalIsNaN), ("isFinite", 1, globalIsFinite)]
  methods c
    [("isInteger", 1, numberTest isInteger), ("isFinite", 1, numberTest Float.isFinite),
     ("isNaN", 1, numberTest Float.isNaN), ("isSafeInteger", 1, numberTest isSafeInteger)]
  for (name, x) in
      [("MAX_VALUE", 1.7976931348623157e308), ("MIN_VALUE", Float.ofBits 1), ("NaN", Numeral.nan),
       ("NEGATIVE_INFINITY", -Numeral.infinity), ("POSITIVE_INFINITY", Numeral.infinity),
       ("MAX_SAFE_INTEGER", 9007199254740991.0), ("MIN_SAFE_INTEGER", -9007199254740991.0),
       ("EPSILON", 2.220446049250313e-16)] do
    constant c name (.number x)
  methods proto
    [("toExponential", 1, numberExponential), ("toFixed", 1, numberFixed),
     ("toPrecision", 1, numberPrecision), ("toString", 1, numberText),
     ("valueOf", 0, numberValueOf), ("toLocaleString", 0, numberLocaleText)]
  let _ ← constructor "Boolean" 1 Fixed.booleanProto.ref booleanMake
  methods Fixed.booleanProto.ref [("toString", 0, booleanText), ("valueOf", 0, booleanValueOf)]

open Setup in
def setupSymbol : Setup Unit := do
  let proto := Fixed.symbolProto.ref
  let c ← constructor "Symbol" 0 proto symbolMake
  methods c [("for", 1, symbolFor), ("keyFor", 1, symbolKeyFor)]
  for s in WellKnown.all do
    constant c s.name (.symbol s.id)
  methods proto [("toString", 0, symbolText), ("valueOf", 0, symbolValueOf)]
  getter proto (.ofString "description") "description" symbolDescription
  tag proto "Symbol"
  let f ← function "[Symbol.toPrimitive]" 1 symbolValueOf
  Setup.put proto WellKnown.toPrimitive.key (.data (.object f) false false true 0)

open Setup in
def setupMath : Setup Unit := do
  let ref := Fixed.math.ref
  hidden Fixed.global.ref "Math" (.object ref)
  methods ref mathFunctions
  for (name, x) in mathConstants do
    constant ref name (.number x)
  tag ref "Math"

end Unravel.Script.Library
