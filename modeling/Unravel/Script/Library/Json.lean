import Unravel.Script.Library.Array

/-! The text format of data. -/

namespace Unravel.Script.Library

open Run

namespace Json

/-! Reading -/

/-- A piece of text is no value: where the fault is. -/
def fault {α : Type} (u : Units) (i : Nat) : Run α :=
  if u.size ≤ i then raise .form "Unexpected end of JSON input"
  else
    raise .form ("Unexpected token '" ++ (Units.unit (u.at0 i)).shown ++ "', \""
      ++ u.shown ++ "\" is not valid JSON")

def isGap (c : UInt16) : Bool := c == 32 || c == 10 || c == 13 || c == 9

def skipGaps (u : Units) : Nat → Nat → Nat
  | 0, i => i
  | n + 1, i => if i < u.size && isGap (u.at0 i) then skipGaps u n (i + 1) else i

def after (u : Units) (i : Nat) : Nat := skipGaps u (u.size - i) i

/-- The four digits of an escape. -/
def hexAt (u : Units) (i : Nat) : Nat → Nat → Run Nat
  | 0, v => return v
  | n + 1, v => do
    match Numeral.digitValue? (u.at0 i) with
    | some d => if i < u.size && d < 16 then hexAt u (i + 1) n (v * 16 + d) else fault u i
    | none => fault u i

/-- A string after its first quote. -/
def readString (u : Units) : Nat → Nat → Units → Run (Units × Nat)
  | 0, i, _ => fault u i
  | n + 1, i, done => do
    if u.size ≤ i then fault u i
    let c := u.at0 i
    if c == 34 then return (done, i + 1)
    if c < 32 then fault u i
    if c != 92 then readString u n (i + 1) (done.push c)
    else
      let d := u.at0 (i + 1)
      let single : Option UInt16 :=
        if d == 34 || d == 92 || d == 47 then some d
        else if d == 98 then some 8 else if d == 102 then some 12 else if d == 110 then some 10
        else if d == 114 then some 13 else if d == 116 then some 9 else none
      match single with
      | some x => readString u n (i + 2) (done.push x)
      | none =>
        if d == 117 then
          let v ← hexAt u (i + 2) 4 0
          readString u n (i + 6) (done.push v.toUInt16)
        else fault u (i + 1)

/-- A number: where it ends. -/
def numberEnd (u : Units) (start : Nat) : Run Nat := do
  let i := if u.at0 start == 45 then start + 1 else start
  let whole ←
    if i < u.size && u.at0 i == 48 then pure (i + 1)
    else do
      let j := Numeral.runEnd u 10 i
      if j = i then fault u i
      pure j
  let part ←
    if whole < u.size && u.at0 whole == 46 then do
      let j := Numeral.runEnd u 10 (whole + 1)
      if j = whole + 1 then fault u j
      pure j
    else pure whole
  if part < u.size && (u.at0 part == 101 || u.at0 part == 69) then
    let k := if part + 1 < u.size && (u.at0 (part + 1) == 43 || u.at0 (part + 1) == 45) then part + 2
      else part + 1
    let j := Numeral.runEnd u 10 k
    if j = k then fault u j
    return j
  return part

/-- A word that stands for a value. -/
def word? (u : Units) (i : Nat) : Option (Value × Nat) :=
  [("true", Value.bool true), ("false", .bool false), ("null", .null)].findSome? fun (w, v) =>
    let w := Units.ofString w
    if u.holdsAt w i then some (v, i + w.size) else none

/-- A value that starts at a place, and where the text goes on. -/
def read (h : Host) (u : Units) : Nat → Nat → Run (Value × Nat)
  | 0, _ => tooDeep
  | n + 1, i => do
    if u.size ≤ i then fault u i
    let c := u.at0 i
    if c == 34 then
      let (s, j) ← readString u (u.size + 1) (i + 1) #[]
      return (.string s, j)
    else if c == 91 then
      let list ← newArray #[]
      let i := after u (i + 1)
      if i < u.size && u.at0 i == 93 then return (list, i + 1)
      let j ← readItems h u n list (u.size + 1) i
      return (list, j)
    else if c == 123 then
      let ref ← alloc { proto := some Fixed.objectProto.ref }
      let i := after u (i + 1)
      if i < u.size && u.at0 i == 125 then return (.object ref, i + 1)
      let j ← readMembers h u n ref (u.size + 1) i
      return (.object ref, j)
    else if c == 45 || Units.isDigit c then
      let j ← numberEnd u i
      return (.number (Numeral.ofUnits (u.extract i j)), j)
    else
      match word? u i with
      | some r => return r
      | none => fault u i
where
  readItems (h : Host) (u : Units) (depth : Nat) (list : Value) : Nat → Nat → Run Nat
    | 0, i => fault u i
    | n + 1, i => do
      let (v, i) ← read h u depth i
      match list with
      | .object ref => modifyObject ref fun o => match o with
        | ⟨proto, .array items length isFixed, members, extensible⟩ =>
          ⟨proto, .array (items.push v) (length + 1) isFixed, members, extensible⟩
        | o => o
      | _ => pure ()
      let i := after u i
      if u.size ≤ i then fault u i
      if u.at0 i == 44 then readItems h u depth list n (after u (i + 1))
      else if u.at0 i == 93 then return i + 1
      else fault u i
  readMembers (h : Host) (u : Units) (depth ref : Nat) : Nat → Nat → Run Nat
    | 0, i => fault u i
    | n + 1, i => do
      if u.size ≤ i || u.at0 i != 34 then fault u i
      let (key, i) ← readString u (u.size + 1) (i + 1) #[]
      let i := after u i
      if u.size ≤ i || u.at0 i != 58 then fault u i
      let (v, i) ← read h u depth (after u (i + 1))
      putMember ref (.ofUnits key) (.plain v)
      let i := after u i
      if u.size ≤ i then fault u i
      if u.at0 i == 44 then readMembers h u depth ref n (after u (i + 1))
      else if u.at0 i == 125 then return i + 1
      else fault u i

/-- How deep values may nest. -/
def depthLimit : Nat := 4000

/-- Lets a function change what was read, from the inside out. -/
def revive (h : Host) (f : Value) : Nat → Nat → Key → Run Value
  | 0, _, _ => tooDeep
  | n + 1, holder, key => do
    let v ← getFrom h holder key (.object holder)
    match v with
    | .object ref =>
      let keys ←
        if ← isArray 100 v then do
          let count ← lengthOf h ref
          pure ((Array.range count).map Key.ofNat)
        else listedKeys h ref
      for k in keys do
        match ← revive h f n ref k with
        | .undefined =>
          let _ ← deleteOwn h ref k
        | w =>
          let _ ← createData h ref k w
    | _ => pure ()
    h.call f (.object holder) #[key.value, v]

def parse : Native := fun h _ args _ => do
  let u ← toText h (argument args 0)
  let (v, i) ← read h u depthLimit (after u 0)
  let i := after u i
  if i < u.size then
    raise .form ("Unexpected non-whitespace character after JSON at position " ++ Nat.repr i)
  let f := argument args 1
  if ← isCallable f then
    let root ← alloc { proto := some Fixed.objectProto.ref }
    putMember root (.name #[]) (.plain v)
    revive h f depthLimit root (.name #[])
  else return v

/-! Writing -/

def hexDigit (n : Nat) : UInt16 := (if n < 10 then 48 + n else 87 + n).toUInt16

def unicodeEscape (c : UInt16) : Units :=
  let n := c.toNat
  #[92, 117, hexDigit (n / 4096), hexDigit (n / 256 % 16), hexDigit (n / 16 % 16), hexDigit (n % 16)]

/-- A string in quotes. Controls and surrogates that stand alone are escaped. -/
def quoted (u : Units) : Units :=
  go u.size 0 #[34]
where
  go : Nat → Nat → Units → Units
    | 0, _, done => done.push 34
    | n + 1, i, done =>
      if u.size ≤ i then done.push 34
      else
        let c := u.at0 i
        if c == 34 || c == 92 then go n (i + 1) ((done.push 92).push c)
        else if c < 32 then
          let short : Option UInt16 :=
            if c == 8 then some 98 else if c == 9 then some 116 else if c == 10 then some 110
            else if c == 12 then some 102 else if c == 13 then some 114 else none
          match short with
          | some d => go n (i + 1) ((done.push 92).push d)
          | none => go n (i + 1) (done ++ unicodeEscape c)
        else if (u.pointAt i).2 = 2 then go n (i + 2) ((done.push c).push (u.at0 (i + 1)))
        else if 0xD800 ≤ c && c < 0xE000 then go n (i + 1) (done ++ unicodeEscape c)
        else go n (i + 1) (done.push c)

/-- How values are written. -/
structure Style where
  replacer : Option Value
  /-- The only keys that are written, if they are given. -/
  keys : Option (Array Key)
  gap : Units

/-- The value under a key as it is to be written. -/
def prepared (h : Host) (style : Style) (holder : Value) (key : Key) (v : Value) : Run Value := do
  let v ← match v with
    | .object _ =>
      let f ← getNamed h v "toJSON"
      if ← isCallable f then h.call f v #[key.value] else pure v
    | v => pure v
  let v ← match style.replacer with
    | some f => h.call f holder #[key.value, v]
    | none => pure v
  match v with
  | .object ref =>
    match ← kindOf ref with
    | .boxed (.number _) => return .number (← toNumber h v)
    | .boxed (.string _) => return .string (← toText h v)
    | .boxed (.bool b) => return .bool b
    | _ => return v
  | v => return v

/-- Pieces in brackets, on lines of their own where there is a gap. -/
def bracketed (opening closing : UInt16) (pieces : Array Units) (gap indent : Units) : Units :=
  if pieces.isEmpty then #[opening, closing]
  else if gap.isEmpty then
    (Units.join #[44] pieces.toList |> fun body => (#[opening] : Units) ++ body).push closing
  else
    let inner := indent ++ gap
    let body := Units.join (#[44, 10] ++ inner) pieces.toList
    ((#[opening, 10] : Units) ++ inner ++ body ++ #[10] ++ indent).push closing

/-- The text of a value; none if it has none. `open'` holds the objects around it. -/
def write (h : Host) (style : Style) : Nat → Value → Key → Value → Units → List Nat →
    Run (Option Units)
  | 0, _, _, _, _, _ => tooDeep
  | n + 1, holder, key, v, indent, open' => do
    match ← prepared h style holder key v with
    | .null => return some (.ofString "null")
    | .bool b => return some (.ofString (if b then "true" else "false"))
    | .string u => return some (quoted u)
    | .number x => return some (if x.isFinite then Numeral.units x else .ofString "null")
    | .undefined | .symbol _ | .absent => return none
    | .object ref =>
      let v := Value.object ref
      if ← isCallable v then return none
      if open'.contains ref then
        typeError "Converting circular structure to JSON"
      let inner := indent ++ style.gap
      if ← isArray 100 v then
        let count ← lengthSpent h ref
        let mut pieces : Array Units := #[]
        for i in [0:count] do
          let item ← itemAt h ref i
          let t ← write h style n v (.ofNat i) item inner (ref :: open')
          pieces := pieces.push (t.getD (.ofString "null"))
        return some (bracketed 91 93 pieces style.gap indent)
      else
        let keys ← match style.keys with
          | some ks => pure ks
          | none => listedKeys h ref
        let mut pieces : Array Units := #[]
        for k in keys do
          match ← write h style n v k (← getFrom h ref k v) inner (ref :: open') with
          | some t =>
            let sep : Units := if style.gap.isEmpty then #[58] else #[58, 32]
            pieces := pieces.push (quoted k.units ++ sep ++ t)
          | none => pure ()
        return some (bracketed 123 125 pieces style.gap indent)

/-- The keys that a list gives, each once. -/
def keysOf (h : Host) (ref : Nat) : Run (Array Key) := do
  let mut found : Array Key := #[]
  for i in [0:← lengthOf h ref] do
    let v ← itemAt h ref i
    let k ← match v with
      | .string u => pure (some (Key.ofUnits u))
      | .number _ => do pure (some (Key.ofUnits (← toText h v)))
      | .object r =>
        match ← kindOf r with
        | .boxed (.string _) | .boxed (.number _) => do pure (some (Key.ofUnits (← toText h v)))
        | _ => pure none
      | _ => pure none
    match k with
    | some k => if !found.contains k then found := found.push k
    | none => pure ()
  return found

/-- What lines are indented by. -/
def gapOf (h : Host) (v : Value) : Run Units := do
  let v ← match v with
    | .object ref =>
      match ← kindOf ref with
      | .boxed (.number _) => do pure (.number (← toNumber h v))
      | .boxed (.string _) => do pure (.string (← toText h v))
      | _ => pure v
    | v => pure v
  match v with
  | .number _ => return Array.replicate (min (← toInteger h v).toNat 10) 32
  | .string u => return u.extract 0 10
  | _ => return #[]

def stringify : Native := fun h _ args _ => do
  let r := argument args 1
  let style : Style ← match r with
    | .object ref =>
      if ← isCallable r then pure { replacer := some r, keys := none, gap := #[] }
      else if ← isArray 100 r then pure { replacer := none, keys := some (← keysOf h ref), gap := #[] }
      else pure { replacer := none, keys := none, gap := #[] }
    | _ => pure { replacer := none, keys := none, gap := #[] }
  let style := { style with gap := ← gapOf h (argument args 2) }
  let root ← alloc { proto := some Fixed.objectProto.ref }
  putMember root (.name #[]) (.plain (argument args 0))
  match ← write h style depthLimit (.object root) (.name #[]) (argument args 0) #[] [] with
  | some u => return .string u
  | none => return .undefined

end Json

open Setup in
def setupJson : Setup Unit := do
  let ref := Fixed.json.ref
  hidden Fixed.global.ref "JSON" (.object ref)
  methods ref [("parse", 2, Json.parse), ("stringify", 3, Json.stringify)]
  tag ref "JSON"

end Unravel.Script.Library
