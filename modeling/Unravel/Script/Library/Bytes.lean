import Unravel.Script.Library.Array

/-! Rows of bytes, and arrays of numbers of a fixed width in them. -/

namespace Unravel.Script.Library

open Run

/-- The most bytes that are set aside at once. -/
def byteRoom : Nat := 16777216

def newBytes (n : Nat) (proto : Nat) : Run Nat := do
  if 9007199254740991 < n then rangeError "Array buffer allocation failed"
  if byteRoom < n then exhausted
  alloc { proto := some proto, kind := .bytes ⟨Array.replicate n 0⟩ }

def bufferMake : Native := fun h _ args newTarget => do
  if newTarget.isUndefined then typeError "Constructor ArrayBuffer requires 'new'"
  let n ← toInteger h (argument args 0)
  if n < 0 then rangeError "Array buffer allocation failed"
  return .object (← newBytes n.toNat (← protoFor h newTarget Fixed.bufferProto.ref))

def ownBytes (v : Value) : Run (Nat × ByteArray) := do
  let fail : Run (Nat × ByteArray) := typeError "Receiver is not an ArrayBuffer"
  match v with
  | .object ref =>
    match ← kindOf ref with
    | .bytes data => return (ref, data)
    | _ => fail
  | _ => fail

def bufferLength : Native := fun _ this _ _ => do return .ofNat (← ownBytes this).2.size

def bufferSlice : Native := fun h this args _ => do
  let (_, data) ← ownBytes this
  let start ← toPosition h (argument args 0) data.size 0
  let stop ← toPosition h (argument args 1) data.size data.size
  newObject { proto := some Fixed.bufferProto.ref, kind := .bytes (data.extract start (max start stop)) }

/-- The numbers of a receiver: their type, row, offset and count. -/
def ownNumbers (v : Value) : Run (Nat × ElementType × Nat × Nat × Nat) := do
  let fail : Run (Nat × ElementType × Nat × Nat × Nat) := typeError "this is not a typed array."
  match v with
  | .object ref =>
    match ← kindOf ref with
    | .numbers t buffer offset length => return (ref, t, buffer, offset, length)
    | _ => fail
  | _ => fail

/-- Numbers of a type, in a row of their own. -/
def newNumbers (t : ElementType) (proto : Nat) (xs : Array Float) : Run Value := do
  let buffer ← newBytes (xs.size * t.width) Fixed.bufferProto.ref
  let data := (xs.foldl (fun ((d, i) : ByteArray × Nat) x => (t.write d (i * t.width) x, i + 1))
    (⟨Array.replicate (xs.size * t.width) 0⟩, 0)).1
  setKind buffer (.bytes data)
  newObject { proto := some proto, kind := .numbers t buffer 0 xs.size }

/-- Values as numbers. -/
def floatsOf (h : Host) (vs : Array Value) : Run (Array Float) := vs.mapM (toNumber h)

def numbersMake (t : ElementType) (default : Nat) : Native := fun h _ args newTarget => do
  if newTarget.isUndefined then typeError ("Constructor " ++ t.name ++ " requires 'new'")
  let proto ← protoFor h newTarget default
  let v := argument args 0
  match v with
  | .object ref =>
    match ← kindOf ref with
    | .bytes data =>
      let offset := (← toInteger h (argument args 1)).toNat
      if offset % t.width ≠ 0 then
        rangeError ("start offset of " ++ t.name ++ " should be a multiple of " ++ Nat.repr t.width)
      let length ← match argument args 2 with
        | .undefined =>
          if data.size % t.width ≠ 0 then
            rangeError ("byte length of " ++ t.name ++ " should be a multiple of " ++ Nat.repr t.width)
          pure ((data.size - offset) / t.width)
        | l => do pure (← toInteger h l).toNat
      if data.size < offset + length * t.width then
        rangeError ("Invalid typed array length: " ++ Nat.repr length)
      newObject { proto := some proto, kind := .numbers t ref offset length }
    | _ =>
      let items ← match ← getValue h v WellKnown.iterator.key with
        | .undefined | .null => allItems h ref
        | _ => itemsOf h v
      newNumbers t proto (← floatsOf h items)
  | v =>
    let n ← toInteger h v
    if n < 0 then rangeError ("Invalid typed array length: " ++ (← shownValue v))
    if byteRoom < n.toNat * t.width then exhausted
    newNumbers t proto (Array.replicate n.toNat 0.0)

def numbersFrom : Native := fun h this args _ => do
  let source := argument args 0
  let f := argument args 1
  if !f.isUndefined then needFunction f
  let items ← match ← getValue h source WellKnown.iterator.key with
    | .undefined | .null => allItems h (← toObject source)
    | _ => itemsOf h source
  let mut done := #[]
  for (v, i) in items.toList.zipIdx do
    done := done.push (← if f.isUndefined then pure v else h.call f (argument args 2) #[v, .ofNat i])
  h.construct this #[← newArray done] this

def numbersOf : Native := fun h this args _ => do h.construct this #[← newArray args] this

/-- Another array like a given one, of some items. -/
def numbersLike (h : Host) (ref : Nat) (items : Array Value) : Run Value := do
  let c ← getFrom h ref (.ofString "constructor") (.object ref)
  h.construct c #[← newArray items] c

def numbersLength : Native := fun _ this _ _ => do
  let (_, _, _, _, n) ← ownNumbers this
  return .ofNat n

def numbersByteLength : Native := fun _ this _ _ => do
  let (_, t, _, _, n) ← ownNumbers this
  return .ofNat (n * t.width)

def numbersByteOffset : Native := fun _ this _ _ => do
  let (_, _, _, offset, _) ← ownNumbers this
  return .ofNat offset

def numbersBuffer : Native := fun _ this _ _ => do
  let (_, _, buffer, _, _) ← ownNumbers this
  return .object buffer

def numbersName : Native := fun _ this _ _ => do
  match this with
  | .object ref =>
    match ← kindOf ref with
    | .numbers t .. => return .ofString t.name
    | _ => return .undefined
  | _ => return .undefined

def putNumber (h : Host) (ref i : Nat) (v : Value) : Run Unit := do
  let x ← toNumber h v
  let _ ← defineOwn h ref (.ofNat i) { value := some (.number x) }

def numbersSet : Native := fun h this args _ => do
  let (ref, _, _, _, n) ← ownNumbers this
  let offset ← toInteger h (argument args 1)
  if offset < 0 then rangeError "offset is out of bounds"
  let items ← allItems h (← toObject (argument args 0))
  if n < items.size + offset.toNat then rangeError "offset is out of bounds"
  for (v, i) in items.toList.zipIdx do
    putNumber h ref (offset.toNat + i) v
  return .undefined

def numbersFill : Native := fun h this args _ => do
  let (ref, _, _, _, n) ← ownNumbers this
  let x ← toNumber h (argument args 0)
  let start ← toPosition h (argument args 1) n 0
  let stop ← toPosition h (argument args 2) n n
  for i in [start:stop] do
    putNumber h ref i (.number x)
  return this

def numbersSlice : Native := fun h this args _ => do
  let (ref, _, _, _, n) ← ownNumbers this
  let start ← toPosition h (argument args 0) n 0
  let stop ← toPosition h (argument args 1) n n
  numbersLike h ref ((← allItems h ref).extract start stop)

def numbersSubarray : Native := fun h this args _ => do
  let (ref, t, buffer, offset, n) ← ownNumbers this
  let start ← toPosition h (argument args 0) n 0
  let stop ← toPosition h (argument args 1) n n
  let c ← getFrom h ref (.ofString "constructor") this
  h.construct c #[.object buffer, .ofNat (offset + start * t.width), .ofNat (stop - start)] c

def numbersMap : Native := fun h this args newTarget => do
  let (ref, _, _, _, _) ← ownNumbers this
  walk #[] (fun (done : Array Value) _ _ r => return (done.push r, false)) (numbersLike h ref) h this args
    newTarget

def numbersFilter : Native := fun h this args newTarget => do
  let (ref, _, _, _, _) ← ownNumbers this
  walk #[] (fun (done : Array Value) _ v r => return (if r.truthy then done.push v else done, false))
    (numbersLike h ref) h this args newTarget

def numbersSort : Native := fun h this args _ => do
  let (ref, _, _, _, _) ← ownNumbers this
  checkComparison (argument args 0)
  let byOrder : Sort.Comparison := fun x y =>
    match x, y with
    | .number a, .number b =>
      return if a < b then -1.0 else if b < a then 1.0
        else if a.isNaN && !b.isNaN then 1.0 else if b.isNaN && !a.isNaN then -1.0 else 0.0
    | _, _ => return 0.0
  let cmp := match argument args 0 with
    | .undefined => byOrder
    | f => comparisonOf h f
  let sorted ← Sort.sorted cmp (← allItems h ref)
  for (v, i) in sorted.toList.zipIdx do
    putNumber h ref i v
  return this

def numbersReverse : Native := fun h this _ _ => do
  let (ref, _, _, _, _) ← ownNumbers this
  for (v, i) in (← allItems h ref).reverse.toList.zipIdx do
    putNumber h ref i v
  return this

open Setup in
def setupBytes : Setup Unit := do
  let bufferProto := Fixed.bufferProto.ref
  let c ← constructor "ArrayBuffer" 1 bufferProto bufferMake
  let isView : Native := fun _ _ args _ => do
    match argument args 0 with
    | .object ref => match ← kindOf ref with
      | .numbers .. => return .bool true
      | _ => return .bool false
    | _ => return .bool false
  method c "isView" 1 isView
  getter bufferProto (.ofString "byteLength") "byteLength" bufferLength
  method bufferProto "slice" 2 bufferSlice
  tag bufferProto "ArrayBuffer"
  let proto := Fixed.numbersProto.ref
  let base ← functionOf (← register fun _ _ _ _ => typeError "Abstract class TypedArray not directly constructable")
    "TypedArray" 0 true
  constant base "prototype" (.object proto)
  hidden proto "constructor" (.object base)
  methods base [("from", 1, numbersFrom), ("of", 0, numbersOf)]
  species base
  getter proto .length "length" numbersLength
  getter proto (.ofString "byteLength") "byteLength" numbersByteLength
  getter proto (.ofString "byteOffset") "byteOffset" numbersByteOffset
  getter proto (.ofString "buffer") "buffer" numbersBuffer
  getter proto WellKnown.toStringTag.key "[Symbol.toStringTag]" numbersName
  methods proto
    [("set", 1, numbersSet), ("fill", 1, numbersFill), ("slice", 2, numbersSlice),
     ("subarray", 2, numbersSubarray), ("map", 1, numbersMap), ("filter", 1, numbersFilter),
     ("sort", 1, numbersSort), ("reverse", 0, numbersReverse), ("at", 1, arrayAt),
     ("find", 1, found false giveItem), ("findIndex", 1, found false givePlace),
     ("findLast", 1, found true giveItem), ("findLastIndex", 1, found true givePlace),
     ("indexOf", 1, arrayIndexOf), ("lastIndexOf", 1, arrayLastIndexOf),
     ("includes", 1, arrayIncludes), ("join", 1, arrayJoin), ("forEach", 1, arrayForEach),
     ("every", 1, arrayEvery), ("some", 1, arraySome), ("reduce", 1, reduction false),
     ("reduceRight", 1, reduction true), ("copyWithin", 2, arrayCopyWithin),
     ("keys", 0, listIterator .keys), ("entries", 0, listIterator .entries),
     ("toLocaleString", 0, arrayLocaleText), ("toString", 0, arrayText)]
  let values ← function "values" 0 (listIterator .values)
  hidden proto "values" (.object values)
  Setup.put proto WellKnown.iterator.key (.hidden (.object values))
  for t in ElementType.all do
    let own ← add { proto := some proto }
    let c ← constructor t.name 3 own (numbersMake t own)
    modify fun s => { s with
      machine := { s.machine with
        objects := s.machine.objects.modify c fun o => { o with proto := some base } } }
    constant c "BYTES_PER_ELEMENT" (.ofNat t.width)
    constant own "BYTES_PER_ELEMENT" (.ofNat t.width)

end Unravel.Script.Library
