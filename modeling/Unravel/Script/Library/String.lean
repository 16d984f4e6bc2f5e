import Unravel.Script.Library.Array
import Unravel.Script.Library.Replacement
import Unravel.Text.LetterCase

/-! Strings. Positions count code units. -/

namespace Unravel.Script.Library

open Run

section
variable (h : Host)

/-- The string a receiver stands for. -/
def receiverText (name : String) (v : Value) : Run Units := do
  match v with
  | .string u => return u
  | .undefined | .null | .absent =>
    typeError ("String.prototype." ++ name ++ " called on null or undefined")
  | v => toText h v

/-- A position given by an argument, within a length. -/
def clamped (v : Value) (length default : Nat) : Run Nat := do
  match v with
  | .undefined => return default
  | v => return min (← toInteger h v).toNat length

end

def placeValue : Option Nat → Value
  | some i => .ofNat i
  | none => .ofInt (-1)

/-! Making strings -/

def stringMake : Native := fun h _ args newTarget => do
  let v := argument args 0
  match newTarget with
  | .undefined =>
    match v with
    | .symbol _ => return .ofString (← shownValue v)
    | v => if args.isEmpty then return .string #[] else return .string (← toText h v)
  | _ =>
    let u ← if args.isEmpty then pure #[] else toText h v
    newObject { proto := some (← protoFor h newTarget Fixed.stringProto.ref), kind := .boxed (.string u) }

def stringFromCharCode : Native := fun h _ args _ => do
  let mut u : Units := #[]
  for a in args do
    u := u.push (Numeral.toUInt32 (← toNumber h a)).toUInt16
  return .string u

def stringFromCodePoint : Native := fun h _ args _ => do
  let mut u : Units := #[]
  for a in args do
    let x ← toNumber h a
    if !(0.0 ≤ x && x ≤ 1114111.0) || x.floor != x then
      rangeError ("Invalid code point " ++ (← toText h a).shown)
    u := u.pushPoint x.toUInt64.toNat
  return .string u

def stringRaw : Native := fun h _ args _ => do
  let raw ← getNamed h (.object (← toObject (argument args 0))) "raw"
  let ref ← toObject raw
  let n ← lengthOf h ref
  let mut u : Units := #[]
  for i in [0:n] do
    u := u ++ (← toText h (← itemAt h ref i))
    if i + 1 < n && i + 1 < args.size then u := u ++ (← toText h (argument args (i + 1)))
  return .string u

/-! Single units -/

def stringCharAt : Native := fun h this args _ => do
  let u ← receiverText h "charAt" this
  let n ← toInteger h (argument args 0)
  return .string (if n < 0 || (u.size : Int) ≤ n then #[] else #[u.at0 n.toNat])

def stringCharCodeAt : Native := fun h this args _ => do
  let u ← receiverText h "charCodeAt" this
  let n ← toInteger h (argument args 0)
  return if n < 0 || (u.size : Int) ≤ n then .nan else .ofNat (u.at0 n.toNat).toNat

def stringCodePointAt : Native := fun h this args _ => do
  let u ← receiverText h "codePointAt" this
  let n ← toInteger h (argument args 0)
  return if n < 0 || (u.size : Int) ≤ n then .undefined else .ofNat (u.pointAt n.toNat).1

def stringAt : Native := fun h this args _ => do
  let u ← receiverText h "at" this
  let n ← toInteger h (argument args 0)
  let i := if n < 0 then (u.size : Int) + n else n
  return if i < 0 || (u.size : Int) ≤ i then .undefined else .string #[u.at0 i.toNat]

/-! Searching -/

/-- Whether a value counts as a regular expression. -/
def isRegex (h : Host) (v : Value) : Run Bool := do
  match v with
  | .object ref =>
    match ← getValue h v WellKnown.matching.key with
    | .undefined =>
      match ← kindOf ref with
      | .regex .. => return true
      | _ => return false
    | m => return m.truthy
  | _ => return false

/-- The text that is searched for, which must be no regular expression. -/
def searchText (h : Host) (name : String) (v : Value) : Run Units := do
  if ← isRegex h v then
    typeError ("First argument to String.prototype." ++ name ++ " must not be a regular expression")
  toText h v

def stringIndexOf : Native := fun h this args _ => do
  let u ← receiverText h "indexOf" this
  let w ← toText h (argument args 0)
  let start ← clamped h (argument args 1) u.size 0
  return placeValue (u.indexOf w start)

def stringLastIndexOf : Native := fun h this args _ => do
  let u ← receiverText h "lastIndexOf" this
  let w ← toText h (argument args 0)
  let x ← toNumber h (argument args 1)
  let last ← if x.isNaN then pure u.size else clamped h (.number x) u.size u.size
  if u.size < w.size then return .ofInt (-1)
  return placeValue (u.lastIndexOf w (min last (u.size - w.size)))

def stringIncludes : Native := fun h this args _ => do
  let u ← receiverText h "includes" this
  let w ← searchText h "includes" (argument args 0)
  return .bool (u.indexOf w (← clamped h (argument args 1) u.size 0)).isSome

def stringStartsWith : Native := fun h this args _ => do
  let u ← receiverText h "startsWith" this
  let w ← searchText h "startsWith" (argument args 0)
  return .bool (u.holdsAt w (← clamped h (argument args 1) u.size 0))

def stringEndsWith : Native := fun h this args _ => do
  let u ← receiverText h "endsWith" this
  let w ← searchText h "endsWith" (argument args 0)
  let stop ← clamped h (argument args 1) u.size u.size
  return .bool (w.size ≤ stop && u.holdsAt w (stop - w.size))

/-! Parts -/

def stringSlice : Native := fun h this args _ => do
  let u ← receiverText h "slice" this
  let start ← toPosition h (argument args 0) u.size 0
  let stop ← toPosition h (argument args 1) u.size u.size
  return .string (u.extract start stop)

def stringSubstring : Native := fun h this args _ => do
  let u ← receiverText h "substring" this
  let a ← clamped h (argument args 0) u.size 0
  let b ← clamped h (argument args 1) u.size u.size
  return .string (u.extract (min a b) (max a b))

def stringSubstr : Native := fun h this args _ => do
  let u ← receiverText h "substr" this
  let start ← toPosition h (argument args 0) u.size 0
  let count ← clamped h (argument args 1) u.size u.size
  return .string (u.extract start (start + count))

/-- The pieces between occurrences of a separator that is not empty. -/
def piecesFrom (u sep : Units) : Nat → Nat → Array Units → Array Units
  | 0, start, done => done.push (u.extract start u.size)
  | n + 1, start, done =>
    match u.indexOf sep start with
    | some i => piecesFrom u sep n (i + sep.size) (done.push (u.extract start i))
    | none => done.push (u.extract start u.size)

/-- What a method with a regular expression is passed on to. -/
def handOn (h : Host) (this v : Value) (s : WellKnown) (others : Array Value)
    (otherwise : Run Value) : Run Value := do
  match v with
  | .object _ =>
    match ← methodOf h v s.key with
    | some f => h.call f v (#[this] ++ others)
    | none => otherwise
  | _ => otherwise

def stringSplit : Native := fun h this args _ => do
  let v := argument args 0
  let limit := argument args 1
  if this.isNullish then typeError "String.prototype.split called on null or undefined"
  handOn h this v .splitting #[limit] do
    let u ← receiverText h "split" this
    let n ← match limit with
      | .undefined => pure 4294967295
      | v => do pure (Numeral.toUInt32 (← toNumber h v)).toNat
    let sep ← toText h v
    if n = 0 then newArray #[]
    else if v.isUndefined then newArray #[.string u]
    else
      let pieces := if sep.isEmpty then u.map fun c => (#[c] : Units)
        else piecesFrom u sep (u.size + 1) 0 #[]
      newArray ((pieces.extract 0 n).map Value.string)

/-! Changed texts -/

/-- A string with each code unit changed if all are ASCII; otherwise a rule for code points. -/
def recased (ascii : UInt16 → UInt16) (rule : Text → Text) (u : Units) : Units :=
  if u.all (· < 128) then u.map ascii else .ofText (rule u.toText)

def stringUpper : Native := fun h this _ _ => do
  let u ← receiverText h "toUpperCase" this
  return .string (recased (fun c => if 97 ≤ c && c ≤ 122 then c - 32 else c)
    (fun t => t.flatMap Text.upperForm) u)

def stringLower : Native := fun h this _ _ => do
  let u ← receiverText h "toLowerCase" this
  return .string (recased (fun c => if 65 ≤ c && c ≤ 90 then c + 32 else c) (Text.lowerFrom []) u)

def stringTrim : Native := fun h this _ _ => do return .string (← receiverText h "trim" this).trim

def stringTrimStart : Native := fun h this _ _ => do
  return .string (← receiverText h "trimStart" this).trimStart

def stringTrimEnd : Native := fun h this _ _ => do
  return .string (← receiverText h "trimEnd" this).trimEnd

/-- A length that a string may have. -/
def checkRoom (n : Nat) : Run Unit := do
  if textLimit < n then rangeError "Invalid string length"
  if textRoom < n then exhausted
  spend (n / 16)

def stringRepeat : Native := fun h this args _ => do
  let u ← receiverText h "repeat" this
  let x ← toIntegerFloat h (argument args 0)
  if x < 0.0 || x == Numeral.infinity then
    rangeError ("Invalid count value: " ++ (← toText h (argument args 0)).shown)
  if u.isEmpty then return .string #[]
  let n := x.toUInt64.toNat
  checkRoom (u.size * n)
  return .string (u.repeated n #[])

/-- The filler that brings a text to a length. -/
def filler (h : Host) (u : Units) (args : Array Value) : Run Units := do
  let n ← toLength h (argument args 0)
  if n ≤ u.size then return #[]
  let w ← match argument args 1 with
    | .undefined => pure #[32]
    | w => toText h w
  if w.isEmpty then return #[]
  checkRoom n
  let missing := n - u.size
  return (Units.repeated w (missing / w.size + 1) #[]).extract 0 missing

def stringPadStart : Native := fun h this args _ => do
  let u ← receiverText h "padStart" this
  return .string ((← filler h u args) ++ u)

def stringPadEnd : Native := fun h this args _ => do
  let u ← receiverText h "padEnd" this
  return .string (u ++ (← filler h u args))

def stringConcat : Native := fun h this args _ => do
  let mut u ← receiverText h "concat" this
  for a in args do
    u ← concat u (← toText h a)
  return .string u

/-- Replaces what stands at the given places. -/
def replacedAt (h : Host) (u w : Units) (by' : Sum Value Units) : List Nat → Nat → Units → Run Units
  | [], last, done => return done ++ u.extract last u.size
  | i :: rest, last, done => do
    let r ← Finding.replacement h { place := i, matched := w } u by'
    replacedAt h u w by' rest (i + w.size) (done ++ u.extract last i ++ r)

/-- The places of a text in another, each after the end of the one before. -/
def placesFrom (u w : Units) : Nat → Nat → List Nat
  | 0, _ => []
  | n + 1, start =>
    match u.indexOf w start with
    | some i => i :: placesFrom u w n (i + max 1 w.size)
    | none => []

def stringReplace : Native := fun h this args _ => do
  if this.isNullish then typeError "String.prototype.replace called on null or undefined"
  handOn h this (argument args 0) .replacing #[argument args 1] do
    let u ← receiverText h "replace" this
    let w ← toText h (argument args 0)
    let by' ← replacerOf h (argument args 1)
    return .string (← replacedAt h u w by' (u.indexOf w 0).toList 0 #[])

def stringReplaceAll : Native := fun h this args _ => do
  let v := argument args 0
  if this.isNullish then typeError "String.prototype.replaceAll called on null or undefined"
  if ← isRegex h v then
    let flags ← toText h (← getNamed h v "flags")
    if !flags.contains 103 then typeError "replaceAll must be called with a global RegExp"
  handOn h this v .replacing #[argument args 1] do
    let u ← receiverText h "replaceAll" this
    let w ← toText h v
    let by' ← replacerOf h (argument args 1)
    return .string (← replacedAt h u w by' (placesFrom u w (u.size + 2) 0) 0 #[])

/-- Makes a regular expression of an argument and calls a method of it. -/
def byRegex (h : Host) (this v : Value) (flags : Value) (s : WellKnown) : Run Value := do
  let u ← toText h this
  let c ← getNamed h (.object Fixed.regexProto.ref) "constructor"
  let r ← h.construct c #[v, flags] c
  let f ← getValue h r s.key
  needFunction f
  h.call f r #[.string u]

def stringMatch : Native := fun h this args _ => do
  let v := argument args 0
  if this.isNullish then typeError "String.prototype.match called on null or undefined"
  handOn h this v .matching #[] (byRegex h this v .undefined .matching)

def stringMatchAll : Native := fun h this args _ => do
  let v := argument args 0
  if this.isNullish then typeError "String.prototype.matchAll called on null or undefined"
  if ← isRegex h v then
    let flags ← toText h (← getNamed h v "flags")
    if !flags.contains 103 then typeError "String.prototype.matchAll called with a non-global RegExp argument"
  handOn h this v .matchingAll #[] (byRegex h this v (.ofString "g") .matchingAll)

def stringSearch : Native := fun h this args _ => do
  let v := argument args 0
  if this.isNullish then typeError "String.prototype.search called on null or undefined"
  handOn h this v .searching #[] (byRegex h this v .undefined .searching)

/-- The place of a character in the usual order of words: blanks, marks, digits, then letters, for
which capitals do not count at first. -/
def collationKey (c : Nat) : Nat :=
  let marks := Text.ofString "\t\n\x0b\x0c\r _-,;:!?.'\"()[]\x7b\x7d@*/\\&#%\x60^+<=>|~$"
  if 48 ≤ c && c ≤ 57 then 1000 + c
  else if 65 ≤ c && c ≤ 90 then 2000 + c + 32
  else if 97 ≤ c && c ≤ 122 then 2000 + c
  else match marks.idxOf? c with
    | some i => 100 + i
    | none => if c < 128 then 0 else 3000 + c

/-- Compares words in their usual order; small letters come before capitals. -/
def collated (t s : Text) : Ordering :=
  let keys (t : Text) : List Nat := (t.map collationKey).filter (· ≠ 0)
  match compareLists (keys t) (keys s) with
  | .eq => compareLists (t.map fun c => if 65 ≤ c && c ≤ 90 then 1 else 0)
      (s.map fun c => if 65 ≤ c && c ≤ 90 then 1 else 0)
  | o => o
where
  compareLists : List Nat → List Nat → Ordering
    | [], [] => .eq
    | [], _ => .lt
    | _, [] => .gt
    | a :: as, b :: bs => if a < b then .lt else if b < a then .gt else compareLists as bs

def stringLocaleCompare : Native := fun h this args _ => do
  let u ← receiverText h "localeCompare" this
  let w ← toText h (argument args 0)
  return .ofInt (match collated u.toText w.toText with
    | .lt => -1
    | .eq => 0
    | .gt => 1)

def stringNormalize : Native := fun h this args _ => do
  let u ← receiverText h "normalize" this
  let form ← match argument args 0 with
    | .undefined => pure (Units.ofString "NFC")
    | v => toText h v
  if !(["NFC", "NFD", "NFKC", "NFKD"].map Units.ofString).contains form then
    rangeError "The normalization form should be one of NFC, NFD, NFKC, NFKD."
  if u.all (· < 128) || (form == Units.ofString "NFC" && u.all (· < 0x300)) then return .string u
  unsupported "normalize"

/-- Whether surrogates stand in pairs only, from a place on; and the string with a stand-in for
those that do not. -/
def wellFormedFrom (u : Units) : Nat → Nat → Units → Units
  | 0, _, done => done
  | n + 1, i, done =>
    if u.size ≤ i then done
    else
      let (c, taken) := u.pointAt i
      if taken = 2 then wellFormedFrom u n (i + 2) ((done.push (u.at0 i)).push (u.at0 (i + 1)))
      else wellFormedFrom u n (i + 1)
        (done.push (if 0xD800 ≤ c && c < 0xE000 then 0xFFFD else u.at0 i))

def stringIsWellFormed : Native := fun h this _ _ => do
  let u ← receiverText h "isWellFormed" this
  return .bool (wellFormedFrom u u.size 0 #[] == u)

def stringToWellFormed : Native := fun h this _ _ => do
  let u ← receiverText h "toWellFormed" this
  return .string (wellFormedFrom u u.size 0 #[])

/-- The string that a receiver is or wraps. -/
def ownText (name : String) : Native := fun _ this _ _ => do
  let fail : Run Value := typeError ("String.prototype." ++ name ++ " requires that 'this' be a String")
  match this with
  | .string _ => return this
  | .object ref =>
    match ← kindOf ref with
    | .boxed (.string u) => return .string u
    | _ => fail
  | _ => fail

/-- A text between tags. -/
def tagged (name element property : String) : Native := fun h this args _ => do
  let u ← receiverText h name this
  let value ← if property.isEmpty then pure #[]
    else do
      let v ← toText h (argument args 0)
      let quoted := v.foldl (fun (d : Units) c => if c == 34 then d ++ Units.ofString "&quot;" else d.push c) #[]
      pure (Units.ofString (" " ++ property ++ "=\"") ++ quoted ++ .ofString "\"")
  return .string (Units.ofString ("<" ++ element) ++ value ++ .ofString ">" ++ u
    ++ .ofString ("</" ++ element ++ ">"))

def tagMethods : List (String × Nat × Native) :=
  [("anchor", "a", "name"), ("big", "big", ""), ("blink", "blink", ""), ("bold", "b", ""),
   ("fixed", "tt", ""), ("fontcolor", "font", "color"), ("fontsize", "font", "size"),
   ("italics", "i", ""), ("link", "a", "href"), ("small", "small", ""), ("strike", "strike", ""),
   ("sub", "sub", ""), ("sup", "sup", "")].map fun (name, element, property) =>
    (name, if property = "" then 0 else 1, tagged name element property)

def stringIterator : Native := fun h this _ _ => do
  let u ← receiverText h "[Symbol.iterator]" this
  newObject { proto := some Fixed.stringIteratorProto.ref, kind := .textIterator u 0 }

def stringIteratorNext : Native := fun _ this _ _ => do
  let fail : Run Value := typeError "next method called on incompatible receiver"
  match this with
  | .object it =>
    match ← kindOf it with
    | .textIterator u place =>
      if place < u.size then
        let taken := (u.pointAt place).2
        setKind it (.textIterator u (place + taken))
        newResult (.string (u.extract place (place + taken))) false
      else
        setKind it .ended
        newResult .undefined true
    | .ended => newResult .undefined true
    | _ => fail
  | _ => fail

open Setup in
def setupString : Setup Unit := do
  let proto := Fixed.stringProto.ref
  let c ← constructor "String" 1 proto stringMake
  methods c
    [("fromCharCode", 1, stringFromCharCode), ("fromCodePoint", 1, stringFromCodePoint),
     ("raw", 1, stringRaw)]
  methods proto tagMethods
  methods proto
    [("at", 1, stringAt), ("charAt", 1, stringCharAt), ("charCodeAt", 1, stringCharCodeAt),
     ("codePointAt", 1, stringCodePointAt), ("concat", 1, stringConcat),
     ("endsWith", 1, stringEndsWith), ("includes", 1, stringIncludes),
     ("indexOf", 1, stringIndexOf), ("isWellFormed", 0, stringIsWellFormed),
     ("lastIndexOf", 1, stringLastIndexOf), ("localeCompare", 1, stringLocaleCompare),
     ("match", 1, stringMatch), ("matchAll", 1, stringMatchAll), ("normalize", 0, stringNormalize),
     ("padEnd", 1, stringPadEnd), ("padStart", 1, stringPadStart), ("repeat", 1, stringRepeat),
     ("replace", 2, stringReplace), ("replaceAll", 2, stringReplaceAll),
     ("search", 1, stringSearch), ("slice", 2, stringSlice), ("split", 2, stringSplit),
     ("substr", 2, stringSubstr), ("substring", 2, stringSubstring),
     ("startsWith", 1, stringStartsWith), ("toString", 0, ownText "toString"),
     ("toWellFormed", 0, stringToWellFormed), ("trim", 0, stringTrim),
     ("toLocaleLowerCase", 0, stringLower), ("toLocaleUpperCase", 0, stringUpper),
     ("toLowerCase", 0, stringLower), ("toUpperCase", 0, stringUpper),
     ("valueOf", 0, ownText "valueOf")]
  for (name, other, f) in
      [("trimStart", "trimLeft", stringTrimStart), ("trimEnd", "trimRight", stringTrimEnd)] do
    let ref ← function name 0 f
    hidden proto name (.object ref)
    hidden proto other (.object ref)
  symbolMethod proto .iterator 0 stringIterator
  let iterator := Fixed.stringIteratorProto.ref
  method iterator "next" 0 stringIteratorNext
  tag iterator "String Iterator"

end Unravel.Script.Library
