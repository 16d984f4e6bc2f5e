import Unravel.Script.Library.Setup

/-! Dates: points in time in milliseconds, and the calendar. Local time is that of the zero
meridian. -/

namespace Unravel.Script.Library

open Run

namespace Date

/-! The calendar -/

/-- Days from the start of 1970 to a day of a month; months count from 0 and may be any number. -/
def daysFrom (year month day : Int) : Int :=
  let y := year + month.fdiv 12
  let m := month.fmod 12
  -- years that start in March, so that the odd day comes last
  let y' := if m < 2 then y - 1 else y
  let m' := (m + 10).fmod 12
  let era := y'.fdiv 400
  let inEra := y' - era * 400
  let inYear := (153 * m' + 2) / 5
  era * 146097 + inEra * 365 + inEra / 4 - inEra / 100 + inYear - 719468 + (day - 1)

/-- The parts of a point in time. -/
structure Parts where
  year : Int
  month : Int
  day : Int
  hour : Int
  minute : Int
  second : Int
  milli : Int

def Parts.ofTime (t : Int) : Parts :=
  let days := t.fdiv 86400000
  let rest := t.fmod 86400000
  let z := days + 719468
  let era := z.fdiv 146097
  let doe := z - era * 146097
  let yoe := (doe - doe / 1460 + doe / 36524 - doe / 146096) / 365
  let doy := doe - (365 * yoe + yoe / 4 - yoe / 100)
  let mp := (5 * doy + 2) / 153
  let day := doy - (153 * mp + 2) / 5 + 1
  let month := if mp < 10 then mp + 2 else mp - 10
  let year := yoe + era * 400 + (if month < 2 then 1 else 0)
  { year := year, month := month, day := day, hour := rest / 3600000, minute := rest / 60000 % 60
    second := rest / 1000 % 60, milli := rest % 1000 }

/-- The point in time of parts, each of which may be any number. -/
def Parts.time (p : Parts) : Int :=
  daysFrom p.year p.month p.day * 86400000 + p.hour * 3600000 + p.minute * 60000 + p.second * 1000
    + p.milli

def weekday (t : Int) : Int := (t.fdiv 86400000 + 4).fmod 7

/-- A point in time as a number; none beyond the range of dates. -/
def clip (t : Int) : Float :=
  if t.natAbs ≤ 8640000000000000 then Float.ofInt t else Numeral.nan

/-! Texts -/

def months : List String :=
  ["Jan", "Feb", "Mar", "Apr", "May", "Jun", "Jul", "Aug", "Sep", "Oct", "Nov", "Dec"]

def weekdays : List String := ["Sun", "Mon", "Tue", "Wed", "Thu", "Fri", "Sat"]

def padded (width : Nat) (n : Int) : String :=
  let s := Nat.repr n.natAbs
  String.ofList (List.replicate (width - s.length) '0') ++ s

def yearText (y : Int) : String := if y < 0 then "-" ++ padded 6 y else padded 4 y

def clock (p : Parts) : String :=
  padded 2 p.hour ++ ":" ++ padded 2 p.minute ++ ":" ++ padded 2 p.second

def dayText (t : Int) (p : Parts) : String :=
  weekdays.getD (weekday t).toNat "" ++ " " ++ months.getD p.month.toNat "" ++ " "
    ++ padded 2 p.day ++ " " ++ yearText p.year

def zone : String := "GMT+0000 (Coordinated Universal Time)"

def isoText (p : Parts) : String :=
  let year := if 0 ≤ p.year && p.year ≤ 9999 then padded 4 p.year
    else (if p.year < 0 then "-" else "+") ++ padded 6 p.year
  year ++ "-" ++ padded 2 (p.month + 1) ++ "-" ++ padded 2 p.day ++ "T" ++ clock p ++ "."
    ++ padded 3 p.milli ++ "Z"

def worldText (t : Int) (p : Parts) : String :=
  weekdays.getD (weekday t).toNat "" ++ ", " ++ padded 2 p.day ++ " "
    ++ months.getD p.month.toNat "" ++ " " ++ yearText p.year ++ " " ++ clock p ++ " GMT"

def localDay (p : Parts) : String :=
  Nat.repr (p.month + 1).toNat ++ "/" ++ Nat.repr p.day.toNat ++ "/" ++ toString p.year

def localClock (p : Parts) : String :=
  let h := if p.hour % 12 = 0 then 12 else p.hour % 12
  Nat.repr h.toNat ++ ":" ++ padded 2 p.minute ++ ":" ++ padded 2 p.second ++ " "
    ++ (if p.hour < 12 then "AM" else "PM")

/-! Reading -/

/-- So many digits at a place. -/
def digitsAt? (u : Units) (i count : Nat) : Option Int :=
  if i + count ≤ u.size && (u.extract i (i + count)).all Units.isDigit then
    let n : Nat := (u.extract i (i + count)).foldl (fun n c => n * 10 + (c.toNat - 48)) 0
    some n
  else none

/-- The offset of a time zone in minutes, at the end of a text. -/
def offsetAt? (u : Units) (i : Nat) : Option Int :=
  if i = u.size then some 0
  else if u.at0 i == 90 && i + 1 = u.size then some 0
  else do
    let sign : Int ← if u.at0 i == 43 then some 1 else if u.at0 i == 45 then some (-1) else none
    let hour ← digitsAt? u (i + 1) 2
    let at' := if u.at0 (i + 3) == 58 then i + 4 else i + 3
    let minute ← digitsAt? u at' 2
    if at' + 2 = u.size then some (sign * (hour * 60 + minute)) else none

/-- A date in the form of the standard. -/
def iso? (u : Units) : Option Int := do
  let (sign, start, width) : Int × Nat × Nat :=
    if u.at0 0 == 43 then (1, 1, 6) else if u.at0 0 == 45 then (-1, 1, 6) else (1, 0, 4)
  let year ← digitsAt? u start width
  let i := start + width
  let (month, i) ← if u.at0 i == 45 then do pure (← digitsAt? u (i + 1) 2, i + 3) else some (1, i)
  let (day, i) ← if u.at0 i == 45 then do pure (← digitsAt? u (i + 1) 2, i + 3) else some (1, i)
  if month < 1 || 12 < month || day < 1 || 31 < day then none
  let p : Parts := ⟨sign * year, month - 1, day, 0, 0, 0, 0⟩
  if i = u.size then return p.time
  if u.at0 i != 84 && u.at0 i != 32 then none
  let hour ← digitsAt? u (i + 1) 2
  if u.at0 (i + 3) != 58 then none
  let minute ← digitsAt? u (i + 4) 2
  let i := i + 6
  let (second, i) ← if u.at0 i == 58 then do pure (← digitsAt? u (i + 1) 2, i + 3) else some (0, i)
  let (milli, i) ←
    if u.at0 i == 46 then do
      let stop := Numeral.runEnd u 10 (i + 1)
      if stop = i + 1 then none
      let ds := (u.extract (i + 1) (min stop (i + 4))).toList.map fun c => c.toNat - 48
      let ds := ds ++ List.replicate (3 - ds.length) 0
      pure ((ds.foldl (fun n d => n * 10 + d) 0 : Nat), stop)
    else some (0, i)
  if 24 < hour || 59 < minute || 59 < second then none
  let offset ← offsetAt? u i
  return { p with hour := hour, minute := minute, second := second, milli := (milli : Int) }.time
    - offset * 60000

/-- The words and numbers of a text. -/
def words (u : Units) : List Text :=
  let isSeparator (c : Nat) : Bool := c = 32 || c = 44 || c = 47 || c = 45
  let (done, last) := u.toText.foldl (fun ((done, last) : List Text × Text) c =>
    if isSeparator c then (if last.isEmpty then (done, []) else (last.reverse :: done, []))
    else (done, c :: last)) ([], [])
  (if last.isEmpty then done else last.reverse :: done).reverse

def number? (t : Text) : Option Int :=
  if !t.isEmpty && t.all Text.isAsciiDigit then
    let n : Nat := t.foldl (fun n c => n * 10 + (c - 48)) 0
    some n
  else none

/-- A date in words: a month by its name, or numbers in the order month, day, year. -/
def loose? (u : Units) : Option Int := do
  let ws := words u
  let month? := ws.findSome? fun w =>
    let name := Text.ofString "" ++ (w.take 3).map fun c => if 65 ≤ c && c ≤ 90 then c + 32 else c
    months.findIdx? fun m => (Text.ofString m).map (fun c => if 65 ≤ c && c ≤ 90 then c + 32 else c) = name
  let numbers := ws.filterMap number?
  let time := ws.find? fun w => w.contains 58
  let (hour, minute, second) ← match time with
    | none => some (0, 0, 0)
    | some w => do
      let parts := (w.foldr (fun c acc => match acc with
        | [] => if c = 58 then [[], []] else [[c]]
        | p :: rest => if c = 58 then [] :: p :: rest else (c :: p) :: rest) ([[]] : List Text))
      let ns := parts.map number?
      match ns with
      | [some a, some b] => some (a, b, 0)
      | [some a, some b, some c] => some (a, b, c)
      | _ => none
  let (year, month, day) ← match month?, numbers with
    | some m, [d, y] => if 31 < d then some (d, (m : Int), y) else some (y, (m : Int), d)
    | some m, [y] => some (y, (m : Int), 1)
    | none, [a, b, c] => if 31 < a then some (a, b - 1, c) else some (c, a - 1, b)
    | _, _ => none
  let year := if year < 50 then 2000 + year else if year < 100 then 1900 + year else year
  if 11 < month || day < 1 || 31 < day then none
  return Parts.time ⟨year, month, day, hour, minute, second, 0⟩

def parse (u : Units) : Float :=
  match iso? u with
  | some t => clip t
  | none => match loose? u with
    | some t => clip t
    | none => Numeral.nan

/-! Dates as objects -/

/-- The point in time at which all scripts run. -/
def now : Float := 1700000000000.0

/-- The point in time that a list of parts gives; none if one is no number. -/
def ofArguments (h : Host) (args : Array Value) : Run Float := do
  let mut xs : Array Float := #[]
  for a in args.extract 0 7 do
    xs := xs.push (← toNumber h a)
  if xs.any fun x => !x.isFinite then return Numeral.nan
  let part (i : Nat) (default : Int) : Int := (xs[i]?.map Numeral.truncate).getD default
  let year := part 0 1970
  let year := if 0 ≤ year && year ≤ 99 then 1900 + year else year
  return clip (Parts.time ⟨year, part 1 0, part 2 1, part 3 0, part 4 0, part 5 0, part 6 0⟩)

/-- The text of a date, or what is shown where there is none. -/
def textWith (f : Int → Parts → String) (x : Float) : String :=
  if x.isNaN then "Invalid Date"
  else
    let t := Numeral.truncate x
    f t (Parts.ofTime t)

def fullText (t : Int) (p : Parts) : String := dayText t p ++ " " ++ clock p ++ " " ++ zone

def dateMake : Native := fun h _ args newTarget => do
  if newTarget.isUndefined then return .ofString (textWith fullText now)
  let x ← match args.toList with
    | [] => pure now
    | [v] =>
      let isDate ← match v with
        | .object ref => do
          match ← kindOf ref with
          | .date x => pure (some x)
          | _ => pure none
        | _ => pure none
      match isDate with
      | some x => pure x
      | none =>
        match ← toPrimitive h .any v with
        | .string u => pure (parse u)
        | p => do
          let x ← toNumber h p
          pure (if x.isFinite then clip (Numeral.truncate x) else Numeral.nan)
    | _ => ofArguments h args
  newObject { proto := some (← protoFor h newTarget Fixed.dateProto.ref), kind := .date x }

def ownTime (v : Value) : Run (Nat × Float) := do
  let fail : Run (Nat × Float) := typeError "this is not a Date object."
  match v with
  | .object ref =>
    match ← kindOf ref with
    | .date x => return (ref, x)
    | _ => fail
  | _ => fail

/-- A part of a date as a number. -/
def part (f : Int → Parts → Int) : Native := fun _ this _ _ => do
  let (_, x) ← ownTime this
  if x.isNaN then return .nan
  let t := Numeral.truncate x
  return .ofInt (f t (Parts.ofTime t))

/-- Changes parts of a date from one on, as many as are given. -/
def change (setters : List (Parts → Int → Parts)) (fromNothing : Bool) : Native :=
  fun h this args _ => do
    let (ref, x) ← ownTime this
    let mut xs : List Float := []
    for a in args.toList.take setters.length do
      xs := xs ++ [← toNumber h a]
    let isBad := xs.isEmpty || xs.any (fun y => !y.isFinite) || (x.isNaN && !fromNothing)
    let changed := if isBad then Numeral.nan
      else
        let p := Parts.ofTime (if x.isNaN then 0 else Numeral.truncate x)
        clip ((setters.zip xs).foldl (fun p (set, y) => set p (Numeral.truncate y)) p).time
    setKind ref (.date changed)
    return .number changed

def setYear (p : Parts) (n : Int) : Parts := { p with year := n }
def setMonth (p : Parts) (n : Int) : Parts := { p with month := n }
def setDay (p : Parts) (n : Int) : Parts := { p with day := n }
def setHour (p : Parts) (n : Int) : Parts := { p with hour := n }
def setMinute (p : Parts) (n : Int) : Parts := { p with minute := n }
def setSecond (p : Parts) (n : Int) : Parts := { p with second := n }
def setMilli (p : Parts) (n : Int) : Parts := { p with milli := n }

def text (f : Int → Parts → String) : Native := fun _ this _ _ => do
  return .ofString (textWith f (← ownTime this).2)

def toIso : Native := fun _ this _ _ => do
  let (_, x) ← ownTime this
  if x.isNaN then rangeError "Invalid time value"
  return .ofString (textWith (fun _ => isoText) x)

def toJson : Native := fun h this _ _ => do
  let ref ← toObject this
  match ← toPrimitive h .number (.object ref) with
  | .number x => if !x.isFinite then return .null
  | _ => pure ()
  let f ← getNamed h (.object ref) "toISOString"
  needFunction f
  h.call f (.object ref) #[]

def getTime : Native := fun _ this _ _ => do return .number (← ownTime this).2

def setTime : Native := fun h this args _ => do
  let (ref, _) ← ownTime this
  let x ← toNumber h (argument args 0)
  let t := if x.isFinite then clip (Numeral.truncate x) else Numeral.nan
  setKind ref (.date t)
  return .number t

/-- A date where a primitive is wanted: its text, unless a number is asked for. -/
def primitive : Native := fun h this args _ => do
  if !this.isObject then typeError "Date.prototype[Symbol.toPrimitive] called on non-object"
  let names ← match argument args 0 with
    | .string u =>
      if u == Units.ofString "number" then pure ["valueOf", "toString"]
      else if u == Units.ofString "string" || u == Units.ofString "default" then
        pure ["toString", "valueOf"]
      else typeError ("Invalid hint: " ++ u.shown)
    | v => typeError ("Invalid hint: " ++ (← shownValue v))
  for name in names do
    let f ← getNamed h this name
    if ← isCallable f then
      let r ← h.call f this #[]
      if !r.isObject then return r
  typeError "Cannot convert object to primitive value"

/-- Methods that stand for local and for world time, without the mark of the latter. -/
def partMethods : List (String × Nat × Native) :=
  [("FullYear", 0, part fun _ p => p.year), ("Month", 0, part fun _ p => p.month),
   ("Date", 0, part fun _ p => p.day), ("Day", 0, part fun t _ => weekday t),
   ("Hours", 0, part fun _ p => p.hour), ("Minutes", 0, part fun _ p => p.minute),
   ("Seconds", 0, part fun _ p => p.second), ("Milliseconds", 0, part fun _ p => p.milli)]

def changeMethods : List (String × Nat × Native) :=
  [("FullYear", 3, change [setYear, setMonth, setDay] true),
   ("Month", 2, change [setMonth, setDay] false), ("Date", 1, change [setDay] false),
   ("Hours", 4, change [setHour, setMinute, setSecond, setMilli] false),
   ("Minutes", 3, change [setMinute, setSecond, setMilli] false),
   ("Seconds", 2, change [setSecond, setMilli] false), ("Milliseconds", 1, change [setMilli] false)]

end Date

open Setup in
def setupDate : Setup Unit := do
  let proto := Fixed.dateProto.ref
  let c ← constructor "Date" 7 proto Date.dateMake
  methods c
    [("now", 0, fun _ _ _ _ => return .number Date.now),
     ("parse", 1, fun h _ args _ => do return .number (Date.parse (← toText h (argument args 0)))),
     ("UTC", 7, fun h _ args _ => do return .number (← Date.ofArguments h args))]
  for (name, length, f) in Date.partMethods do
    methods proto [("get" ++ name, length, f), ("getUTC" ++ name, length, f)]
  for (name, length, f) in Date.changeMethods do
    methods proto [("set" ++ name, length, f), ("setUTC" ++ name, length, f)]
  methods proto
    [("toString", 0, Date.text Date.fullText), ("toDateString", 0, Date.text Date.dayText),
     ("toTimeString", 0, Date.text fun _ p => Date.clock p ++ " " ++ Date.zone),
     ("toISOString", 0, Date.toIso), ("toUTCString", 0, Date.text Date.worldText),
     ("toGMTString", 0, Date.text Date.worldText), ("toJSON", 1, Date.toJson),
     ("toLocaleString", 0, Date.text fun _ p => Date.localDay p ++ ", " ++ Date.localClock p),
     ("toLocaleDateString", 0, Date.text fun _ p => Date.localDay p),
     ("toLocaleTimeString", 0, Date.text fun _ p => Date.localClock p),
     ("getTime", 0, Date.getTime), ("valueOf", 0, Date.getTime), ("setTime", 1, Date.setTime),
     ("getYear", 0, Date.part fun _ p => p.year - 1900),
     ("getTimezoneOffset", 0, Date.part fun _ _ => 0)]
  let f ← function "[Symbol.toPrimitive]" 1 Date.primitive
  Setup.put proto WellKnown.toPrimitive.key (.data (.object f) false false true 0)

end Unravel.Script.Library
