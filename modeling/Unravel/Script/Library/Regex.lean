import Unravel.Script.Library.String

/-! Regular expressions as objects. -/

namespace Unravel.Script.Library

open Run

/-! Making them -/

/-- The text of an expression as it could stand in a script. -/
def escapedSource (u : Units) : Units :=
  if u.isEmpty then .ofString "(?:)"
  else (u.foldl step (#[], false, false)).1
where
  /-- What is done, whether a backslash stands before, and whether a set is open. -/
  step : Units × Bool × Bool → UInt16 → Units × Bool × Bool
    | (done, escaped, inSet), c =>
      let lineEnd : Option String :=
        if c == 10 then some "n" else if c == 13 then some "r"
        else if c == 0x2028 then some "u2028" else if c == 0x2029 then some "u2029" else none
      match lineEnd with
      | some name =>
        ((if escaped then done else done.push 92) ++ Units.ofString name, false, inSet)
      | none =>
        if escaped then (done.push c, false, inSet)
        else if c == 92 then (done.push c, true, inSet)
        else if c == 91 then (done.push c, false, true)
        else if c == 93 then (done.push c, false, false)
        else if c == 47 && !inSet then ((done.push 92).push c, false, inSet)
        else (done.push c, false, inSet)

/-- Makes an expression from its text and its flags. -/
def regexOf (source flags : Units) (proto : Nat) : Run Value := do
  match Regex.Flags.ofUnits? flags with
  | none => raise .form ("Invalid flags supplied to RegExp constructor '" ++ flags.shown ++ "'")
  | some fs =>
    match Regex.Pattern.ofUnits? source fs with
    | none => raise .form ("Invalid regular expression: /" ++ source.shown ++ "/" ++ flags.shown)
    | some p => newRegex source fs (.ofPattern p) proto

def regexMake : Native := fun h _ args newTarget => do
  let pattern := argument args 0
  let flags := argument args 1
  let isOne ← isRegex h pattern
  if newTarget.isUndefined && isOne && flags.isUndefined then
    let c ← getNamed h pattern "constructor"
    let own ← peek Fixed.regexProto.ref "constructor"
    if c.strictEquals own then return pattern
  let proto ← protoFor h newTarget Fixed.regexProto.ref
  let textOf (v : Value) : Run Units :=
    match v with
    | .undefined => return #[]
    | v => toText h v
  match pattern with
  | .object ref =>
    match ← kindOf ref with
    | .regex source own _ =>
      let fs ← if flags.isUndefined then pure (Units.ofString own.text) else toText h flags
      return ← regexOf source fs proto
    | _ => pure ()
    if isOne then
      let source ← textOf (← getNamed h pattern "source")
      let fs ← if flags.isUndefined then textOf (← getNamed h pattern "flags") else toText h flags
      return ← regexOf source fs proto
  | _ => pure ()
  let source ← textOf pattern
  regexOf source (← textOf flags) proto

/-! Matching -/

/-- The first place from one on, with so many to try, at which an expression matches. -/
def searchFrom (program : Regex.Program) (u : Units) : Nat → Nat → Run (Option (Array Nat))
  | 0, _ => return none
  | n + 1, place => do
    match program.matchAt u place with
    | .matched slots => return some slots
    | .failed => searchFrom program u n (place + 1)
    | .exhausted => exhausted

/-- What a group caught; none if it took no part. -/
def caught? (u : Units) (slots : Array Nat) (g : Nat) : Option Units :=
  let a := slots.getD (2 * g) 0
  let b := slots.getD (2 * g + 1) 0
  if a = 0 || b = 0 then none else some (u.extract (a - 1) (b - 1))

def caughtValue (u : Units) (slots : Array Nat) (g : Nat) : Value :=
  match caught? u slots g with
  | some w => .string w
  | none => .undefined

/-- Where a match starts and ends. -/
def extent (slots : Array Nat) : Nat × Nat := (slots.getD 0 1 - 1, slots.getD 1 1 - 1)

/-- Names of groups and what each stands for, where of groups with one name the one that took part
counts. -/
def namedGroups (program : Regex.Program) (value : Nat → Value) : Array (Units × Value) :=
  program.names.foldl (fun found (name, g) =>
    let v := value g
    match found.findIdx? fun e => e.1 == name with
    | some i => if v.isUndefined then found else found.setIfInBounds i (name, v)
    | none => found.push (name, v)) #[]

def objectOf (entries : Array (Units × Value)) : Run Value := do
  let ref ← alloc { proto := none }
  for (name, v) in entries do
    putMember ref (.ofUnits name) (.plain v)
  return .object ref

/-- The array that describes a match. -/
def matchObject (program : Regex.Program) (flags : Regex.Flags) (u : Units) (slots : Array Nat) :
    Run Value := do
  let items := (Array.range (program.groups + 1)).map (caughtValue u slots)
  let groups ← if program.names.isEmpty then pure .undefined
    else objectOf (namedGroups program (caughtValue u slots))
  let ref ← alloc { proto := some Fixed.arrayProto.ref, kind := .array items items.size false }
  putMember ref (.ofString "index") (.plain (.ofNat (extent slots).1))
  putMember ref (.ofString "input") (.plain (.string u))
  putMember ref (.ofString "groups") (.plain groups)
  if flags.hasIndices then
    let pair (g : Nat) : Run Value := do
      let a := slots.getD (2 * g) 0
      let b := slots.getD (2 * g + 1) 0
      if a = 0 || b = 0 then return .undefined
      newArray #[.ofNat (a - 1), .ofNat (b - 1)]
    let pairs ← (Array.range (program.groups + 1)).mapM pair
    let list ← newArray pairs
    let named ← if program.names.isEmpty then pure .undefined
      else objectOf (namedGroups program fun g => pairs.getD g .undefined)
    match list with
    | .object l => putMember l (.ofString "groups") (.plain named)
    | _ => pure ()
    putMember ref (.ofString "indices") (.plain list)
  return .object ref

def lastIndexKey : Key := .ofString "lastIndex"

/-- Matches a string from where the expression stands, and moves it on. -/
def matchNext (h : Host) (ref : Nat) (flags : Regex.Flags) (program : Regex.Program) (u : Units) :
    Run (Option (Array Nat)) := do
  let last ← toLength h (← getFrom h ref lastIndexKey (.object ref))
  let isMoving := flags.globally || flags.sticky
  let start := if isMoving then last else 0
  if u.size < start then
    if isMoving then Run.put h ref lastIndexKey (.number 0.0)
    return none
  let found ← searchFrom program u (if flags.sticky then 1 else u.size - start + 1) start
  match found with
  | none =>
    if isMoving then Run.put h ref lastIndexKey (.number 0.0)
    return none
  | some slots =>
    if isMoving then Run.put h ref lastIndexKey (.ofNat (extent slots).2)
    modify fun m => { m with lastFound := (u, slots) }
    return some slots

def ownRegex (name : String) (v : Value) : Run (Nat × Units × Regex.Flags × Regex.Program) := do
  let fail : Run (Nat × Units × Regex.Flags × Regex.Program) := do
    typeError ("Receiver is not a RegExp in " ++ name ++ ": " ++ (← shownValue v))
  match v with
  | .object ref =>
    match ← kindOf ref with
    | .regex source flags program => return (ref, source, flags, program)
    | _ => fail
  | _ => fail

def regexExec : Native := fun h this args _ => do
  let (ref, _, flags, program) ← ownRegex "RegExp.prototype.exec" this
  let u ← toText h (argument args 0)
  match ← matchNext h ref flags program u with
  | some slots => matchObject program flags u slots
  | none => return .null

/-- Whether an expression matches in the way that all do at the start. -/
def isUsual (h : Host) (v : Value) : Run Bool := do
  match v with
  | .object ref =>
    match ← kindOf ref with
    | .regex .. =>
      match ← getNamed h v "exec" with
      | .object f =>
        match ← kindOf f with
        | .native .. => return true
        | _ => return false
      | _ => return false
    | _ => return false
  | _ => return false

/-- The result of an expression's own method for matching. -/
def execute (h : Host) (v : Value) (u : Units) : Run Value := do
  if ← isUsual h v then regexExec h v #[.string u] .undefined
  else
    let f ← getNamed h v "exec"
    if ← isCallable f then
      let r ← h.call f v #[.string u]
      match r with
      | .object _ | .null => return r
      | _ => typeError "object null is not a function"
    else regexExec h v #[.string u] .undefined

def regexTest : Native := fun h this args _ => do
  if !this.isObject then typeError "RegExp.prototype.test called on incompatible receiver"
  let u ← toText h (argument args 0)
  if ← isUsual h this then
    let (ref, _, flags, program) ← ownRegex "RegExp.prototype.test" this
    return .bool (← matchNext h ref flags program u).isSome
  return .bool (← execute h this u).isObject

def regexText : Native := fun h this _ _ => do
  if !this.isObject then typeError "RegExp.prototype.toString requires that 'this' be an Object"
  let source ← toText h (← getNamed h this "source")
  let flags ← toText h (← getNamed h this "flags")
  return .string (Units.ofString "/" ++ source ++ .ofString "/" ++ flags)

def regexCompile : Native := fun h this args _ => do
  let (ref, _, _, _) ← ownRegex "RegExp.prototype.compile" this
  match ← regexMake h .undefined args .undefined with
  | .object made =>
    setKind ref (← kindOf made)
    Run.put h ref lastIndexKey (.number 0.0)
  | _ => pure ()
  return this

/-- The place after an empty match. -/
def placeAfter (u : Units) (i : Nat) (unicode : Bool) : Nat :=
  if unicode && i < u.size then i + (u.pointAt i).2 else i + 1

def flagsOf (h : Host) (v : Value) : Run Units := do toText h (← getNamed h v "flags")

def isUnicode (flags : Units) : Bool := flags.contains 117 || flags.contains 118

/-- Moves an expression on after an empty match. -/
def moveOn (h : Host) (ref : Nat) (u : Units) (unicode : Bool) : Run Unit := do
  let i ← toLength h (← getFrom h ref lastIndexKey (.object ref))
  Run.put h ref lastIndexKey (.ofNat (placeAfter u i unicode))

/-- All results of an expression that goes through a string, or the only one. -/
def allResults (h : Host) (ref : Nat) (u : Units) (globally unicode : Bool) :
    Nat → Array Value → Run (Array Value)
  | 0, _ => exhausted
  | n + 1, found => do
    match ← execute h (.object ref) u with
    | .object r =>
      let found := found.push (.object r)
      if !globally then return found
      let matched ← toText h (← getFrom h r (.index 0) (.object r))
      if matched.isEmpty then moveOn h ref u unicode
      allResults h ref u globally unicode n found
    | _ => return found

def regexReceiver (name : String) (v : Value) : Run Nat :=
  match v with
  | .object ref => return ref
  | _ => typeError ("RegExp.prototype." ++ name ++ " called on incompatible receiver")

def regexMatch : Native := fun h this args _ => do
  let ref ← regexReceiver "@@match" this
  let u ← toText h (argument args 0)
  let flags ← flagsOf h this
  if !flags.contains 103 then execute h this u
  else
    Run.put h ref lastIndexKey (.number 0.0)
    let results ← allResults h ref u true (isUnicode flags) (u.size + 3) #[]
    if results.isEmpty then return .null
    let mut items := #[]
    for r in results do
      items := items.push (Value.string (← toText h (← getValue h r (.index 0))))
    newArray items

def regexReplace : Native := fun h this args _ => do
  let ref ← regexReceiver "@@replace" this
  let u ← toText h (argument args 0)
  let by' ← replacerOf h (argument args 1)
  let flags ← flagsOf h this
  let globally := flags.contains 103
  if globally then Run.put h ref lastIndexKey (.number 0.0)
  let results ← allResults h ref u globally (isUnicode flags) (u.size + 3) #[]
  let mut done : Units := #[]
  let mut next := 0
  for r in results do
    let count := (← toLength h (← getValue h r .length)) - 1
    let matched ← toText h (← getValue h r (.index 0))
    let place := min (← toInteger h (← getNamed h r "index")).toNat u.size
    let mut captures := #[]
    for k in [0:count] do
      let c ← getValue h r (.index (k + 1))
      captures := captures.push (← if c.isUndefined then pure c else do pure (.string (← toText h c)))
    let groups ← getNamed h r "groups"
    let finding : Finding := { place, matched, captures, groups }
    let text ← finding.replacement h u by'
    if next ≤ place then
      done := done ++ u.extract next place ++ text
      next := place + matched.size
  return .string (if u.size ≤ next then done else done ++ u.extract next u.size)

def regexSearch : Native := fun h this args _ => do
  let ref ← regexReceiver "@@search" this
  let u ← toText h (argument args 0)
  let before ← getFrom h ref lastIndexKey this
  if !before.same true (.number 0.0) then Run.put h ref lastIndexKey (.number 0.0)
  let r ← execute h this u
  let after ← getFrom h ref lastIndexKey this
  if !after.same true before then Run.put h ref lastIndexKey before
  match r with
  | .object o => getFrom h o (.ofString "index") r
  | _ => return .ofInt (-1)

/-- The pieces of a string between matches, with what groups caught in them. -/
def cutFrom (program : Regex.Program) (u : Units) (unicode : Bool) :
    Nat → Nat → Nat → Array Value → Run (Array Value)
  | 0, last, _, done => return done.push (.string (u.extract last u.size))
  | n + 1, last, place, done => do
    if u.size ≤ place then return done.push (.string (u.extract last u.size))
    match program.matchAt u place with
    | .exhausted => exhausted
    | .failed => cutFrom program u unicode n last (placeAfter u place unicode) done
    | .matched slots =>
      let stop := min (extent slots).2 u.size
      if stop = last then cutFrom program u unicode n last (placeAfter u place unicode) done
      else
        let pieces := (Array.range program.groups).map fun g => caughtValue u slots (g + 1)
        cutFrom program u unicode n stop stop
          (done.push (.string (u.extract last place)) ++ pieces)

def regexSplit : Native := fun h this args _ => do
  let ref ← regexReceiver "@@split" this
  let u ← toText h (argument args 0)
  let flags ← flagsOf h this
  let limit ← match argument args 1 with
    | .undefined => pure 4294967295
    | v => do pure (Numeral.toUInt32 (← toNumber h v)).toNat
  match ← kindOf ref with
  | .regex source own program =>
    let program ←
      if Units.ofString own.text == flags then pure program
      else
        match ← regexOf source flags Fixed.regexProto.ref with
        | .object r =>
          match ← kindOf r with
          | .regex _ _ p => pure p
          | _ => pure program
        | _ => pure program
    if limit = 0 then newArray #[]
    else if u.isEmpty then
      match program.matchAt u 0 with
      | .matched _ => newArray #[]
      | .failed => newArray #[.string u]
      | .exhausted => exhausted
    else
      let pieces ← cutFrom program u (isUnicode flags) (2 * u.size + 2) 0 0 #[]
      newArray (pieces.extract 0 limit)
  | _ => unsupported "split by an object of one's own"

def regexMatchAll : Native := fun h this args _ => do
  let ref ← regexReceiver "@@matchAll" this
  let u ← toText h (argument args 0)
  let flags ← flagsOf h this
  let c ← getNamed h this "constructor"
  let c ← if ← isConstructor c then pure c else peek Fixed.regexProto.ref "constructor"
  let copy ← h.construct c #[this, .string flags] c
  let last ← toLength h (← getFrom h ref lastIndexKey this)
  match copy with
  | .object r => Run.put h r lastIndexKey (.ofNat last)
  | _ => pure ()
  newObject
    { proto := some Fixed.matchIteratorProto.ref
      kind := .matchIterator copy u (flags.contains 103) (isUnicode flags) }

def matchIteratorNext : Native := fun h this _ _ => do
  let fail : Run Value := typeError "next method called on incompatible receiver"
  match this with
  | .object it =>
    match ← kindOf it with
    | .matchIterator regex u globally unicode =>
      match ← execute h regex u with
      | .object r =>
        if globally then
          let matched ← toText h (← getFrom h r (.index 0) (.object r))
          match regex with
          | .object ref => if matched.isEmpty then moveOn h ref u unicode
          | _ => pure ()
        else setKind it .ended
        newResult (.object r) false
      | _ =>
        setKind it .ended
        newResult .undefined true
    | .ended => newResult .undefined true
    | _ => fail
  | _ => fail

/-! What an expression says of itself -/

def regexSource : Native := fun _ this _ _ => do
  match this with
  | .object ref =>
    match ← kindOf ref with
    | .regex source _ _ => return .string (escapedSource source)
    | _ =>
      if ref = Fixed.regexProto.ref then return .ofString "(?:)"
      typeError "RegExp.prototype.source getter called on non-RegExp object"
  | _ => typeError "RegExp.prototype.source getter called on non-object"

/-- The flags and what each is called, in the order in which they are written. -/
def flagNames : List (Char × String × (Regex.Flags → Bool)) :=
  [('d', "hasIndices", fun f => f.hasIndices), ('g', "global", fun f => f.globally),
   ('i', "ignoreCase", fun f => f.ignoreCase), ('m', "multiline", fun f => f.multiline),
   ('s', "dotAll", fun f => f.dotAll), ('u', "unicode", fun f => f.unicode),
   ('v', "unicodeSets", fun f => f.unicodeSets), ('y', "sticky", fun f => f.sticky)]

def regexFlags : Native := fun h this _ _ => do
  if !this.isObject then typeError "RegExp.prototype.flags getter called on non-object"
  let mut u : Units := #[]
  for (c, name, _) in flagNames do
    if (← getNamed h this name).truthy then u := u.push c.toNat.toUInt16
  return .string u

def regexFlag (name : String) (f : Regex.Flags → Bool) : Native := fun _ this _ _ => do
  match this with
  | .object ref =>
    match ← kindOf ref with
    | .regex _ flags _ => return .bool (f flags)
    | _ =>
      if ref = Fixed.regexProto.ref then return .undefined
      typeError ("RegExp.prototype." ++ name ++ " getter called on non-RegExp object")
  | _ => typeError ("RegExp.prototype." ++ name ++ " getter called on non-object")

/-- What was found last, as properties of the constructor. -/
def lastFoundParts : List (String × (Units → Array Nat → Units)) :=
  ((List.range 9).map fun i => ("$" ++ Nat.repr (i + 1), fun (u : Units) (slots : Array Nat) =>
    (caught? u slots (i + 1)).getD #[])) ++
  [("input", fun u _ => u), ("$_", fun u _ => u),
   ("lastMatch", fun u slots => (caught? u slots 0).getD #[]),
   ("$&", fun u slots => (caught? u slots 0).getD #[]),
   ("leftContext", fun u slots => u.extract 0 (extent slots).1),
   ("$\x60", fun u slots => u.extract 0 (extent slots).1),
   ("rightContext", fun u slots => u.extract (extent slots).2 u.size),
   ("$'", fun u slots => u.extract (extent slots).2 u.size)]

def lastFoundPart (f : Units → Array Nat → Units) : Native := fun _ _ _ _ => do
  let (u, slots) := (← get).lastFound
  return .string (f u slots)

open Setup in
def setupRegex : Setup Unit := do
  let proto := Fixed.regexProto.ref
  let c ← constructor "RegExp" 2 proto regexMake
  species c
  let ignore ← function "set" 1 Setup.missing
  for (name, f) in lastFoundParts do
    let g ← function ("get " ++ name) 0 (lastFoundPart f)
    Setup.put c (.ofString name) (.accessor (.object g) (.object ignore) false true 0)
  methods proto
    [("exec", 1, regexExec), ("test", 1, regexTest), ("toString", 0, regexText),
     ("compile", 2, regexCompile)]
  getter proto (.ofString "source") "source" regexSource
  getter proto (.ofString "flags") "flags" regexFlags
  for (_, name, f) in flagNames do
    getter proto (.ofString name) name (regexFlag name f)
  symbolMethod proto .matching 1 regexMatch
  symbolMethod proto .matchingAll 1 regexMatchAll
  symbolMethod proto .replacing 2 regexReplace
  symbolMethod proto .searching 1 regexSearch
  symbolMethod proto .splitting 2 regexSplit
  let iterator := Fixed.matchIteratorProto.ref
  method iterator "next" 0 matchIteratorNext
  tag iterator "RegExp String Iterator"

end Unravel.Script.Library
