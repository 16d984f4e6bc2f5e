import Unravel.Script.Library.Setup
import Unravel.Script.Library.Sort

/-! Arrays and what is used like them. -/

namespace Unravel.Script.Library

open Run

/-- The items of an array that are all in a row. -/
def denseItems? (ref : Nat) : Run (Option (Array Value)) := do
  match ← kindOf ref with
  | .array items length _ =>
    if items.size = length && !items.any Value.isAbsent then return some items else return none
  | _ => return none

section
variable (h : Host)

def itemAt (ref i : Nat) : Run Value := do
  let m ← get
  match (m.objects.getD ref default).kind with
  | .array items _ _ =>
    match items.getD i .absent with
    | .absent => getFrom h ref (.ofNat i) (.object ref)
    | v => return v
  | _ => getFrom h ref (.ofNat i) (.object ref)

def hasAt (ref i : Nat) : Run Bool := do
  let m ← get
  match (m.objects.getD ref default).kind with
  | .array items _ _ =>
    match items.getD i .absent with
    | .absent => hasProperty h ref (.ofNat i)
    | _ => return true
  | _ => hasProperty h ref (.ofNat i)

def putAt (ref i : Nat) (v : Value) : Run Unit := Run.put h ref (.ofNat i) v

def deleteAt (ref i : Nat) : Run Unit := do
  if !(← deleteOwn h ref (.ofNat i)) then
    typeError ("Cannot delete property '" ++ Nat.repr i ++ "' of [object Array]")

def putLength (ref n : Nat) : Run Unit := do
  match ← kindOf ref with
  | .array .. =>
    if !(← defineOwn h ref .length { value := some (.ofNat n) }) then
      typeError "Cannot assign to read only property 'length' of object '[object Array]'"
  | _ => Run.put h ref .length (.ofNat n)

/-- The length of what is used like an array, which counts as so many steps. -/
def lengthSpent (ref : Nat) : Run Nat := do
  let n ← lengthOf h ref
  spend (n / 8)
  return n

/-- An array of a length, made by the constructor of the array it comes from. -/
def makeLike (ref length : Nat) : Run Nat := do
  let plain : Run Nat := do
    if Units.maxIndex + 1 < length then rangeError "Invalid array length"
    alloc { proto := some Fixed.arrayProto.ref, kind := .array #[] length false }
  if !(← isArray 100 (.object ref)) then plain
  else
    let c ← getFrom h ref (.ofString "constructor") (.object ref)
    let c ← if c.isObject then getValue h c WellKnown.species.key else pure c
    match c with
    | .undefined | .null => plain
    | c =>
      if !(← isConstructor c) then typeError "object.constructor[Symbol.species] is not a constructor"
      let usual ← peek Fixed.arrayProto.ref "constructor"
      let isPlain : Bool := match c, usual with
        | .object a, .object b => a == b
        | _, _ => false
      if isPlain then plain
      else
        match ← h.construct c #[.ofNat length] c with
        | .object r => return r
        | _ => plain

/-- An array of items, of the kind of another. -/
def arrayLike (ref : Nat) (items : Array Value) : Run Value := do
  let made ← makeLike h ref 0
  match ← kindOf made with
  | .array #[] 0 false =>
    setKind made (.array items items.size false)
    return .object made
  | _ =>
    for (v, i) in items.toList.zipIdx do
      createDataOrFail h made (.ofNat i) v
    putLength h made items.size
    return .object made

end

/-! Making arrays -/

def arrayMake : Native := fun h _ args newTarget => do
  let proto ← protoFor h newTarget Fixed.arrayProto.ref
  let withItems (items : Array Value) (length : Nat) : Run Value :=
    newObject { proto := some proto, kind := .array items length false }
  match args.toList with
  | [.number x] =>
    if x < 0.0 || 4294967295.0 < x || x.floor != x then rangeError "Invalid array length"
    let n := x.toUInt64.toNat
    withItems (if n ≤ 100000 then Array.replicate n .absent else #[]) n
  | _ => withItems args args.size

def arrayIsArray : Native := fun _ _ args _ => do return .bool (← isArray 100 (argument args 0))

/-- What a constructor makes for a number of items; a plain array if it is none. -/
def makeBy (h : Host) (c : Value) (args : Array Value) : Run Nat := do
  if ← isConstructor c then
    match ← h.construct c args c with
    | .object r => return r
    | _ => alloc { proto := some Fixed.arrayProto.ref, kind := .array #[] 0 false }
  else alloc { proto := some Fixed.arrayProto.ref, kind := .array #[] 0 false }

def arrayOf : Native := fun h this args _ => do
  let ref ← makeBy h this #[.ofNat args.size]
  for (v, i) in args.toList.zipIdx do
    createDataOrFail h ref (.ofNat i) v
  putLength h ref args.size
  return .object ref

def arrayFrom : Native := fun h this args _ => do
  let source := argument args 0
  let f := argument args 1
  if !f.isUndefined then needFunction f
  let mapped (v : Value) (i : Nat) : Run Value :=
    if f.isUndefined then return v else h.call f (argument args 2) #[v, .ofNat i]
  if source.isNullish then typeError ((← shownValue source) ++ " is not iterable")
  match ← getValue h source WellKnown.iterator.key with
  | .undefined | .null =>
    let from' ← toObject source
    let n ← lengthSpent h from'
    let ref ← makeBy h this #[.ofNat n]
    for i in [0:n] do
      createDataOrFail h ref (.ofNat i) (← mapped (← itemAt h from' i) i)
    putLength h ref n
    return .object ref
  | _ =>
    let ref ← makeBy h this #[]
    let add (i : Nat) (v : Value) : Run Nat := do
      createDataOrFail h ref (.ofNat i) (← mapped v i)
      return i + 1
    let n ← forItems h add itemLimit (← openItems h source) 0
    putLength h ref n
    return .object ref

/-! Ends of arrays -/

/-- The length of an array whose end can be changed in its row; none if it has other rules. -/
@[noinline] def plainLength? (ref : Nat) : Run (Option Nat) := do
  let m ← get
  let o := m.objects.getD ref default
  match o.kind with
  | .array items length false =>
    return if items.size = length && o.extensible && o.members.table.isEmpty then some length else none
  | _ => return none

def arrayPush : Native := fun h this args _ => do
  let ref ← toObject this
  match ← plainLength? ref with
  | some length =>
    modifyObject ref fun o => match o with
      | ⟨proto, .array items length isFixed, members, extensible⟩ =>
        ⟨proto, .array (items ++ args) (length + args.size) isFixed, members, extensible⟩
      | o => o
    return .ofNat (length + args.size)
  | none =>
    let n ← lengthOf h ref
    for (v, i) in args.toList.zipIdx do
      putAt h ref (n + i) v
    putLength h ref (n + args.size)
    return .ofNat (n + args.size)

def arrayPop : Native := fun h this _ _ => do
  let ref ← toObject this
  let n ← lengthOf h ref
  if n = 0 then
    putLength h ref 0
    return .undefined
  let v ← itemAt h ref (n - 1)
  match ← plainLength? ref with
  | some _ =>
    modifyObject ref fun o => match o with
      | ⟨proto, .array items length isFixed, members, extensible⟩ =>
        ⟨proto, .array items.pop (length - 1) isFixed, members, extensible⟩
      | o => o
    return v
  | none => pure ()
  deleteAt h ref (n - 1)
  putLength h ref (n - 1)
  return v

/-- Whether an array can be changed in its row. -/
def isSimple (o : Obj) : Bool :=
  match o.kind with
  | .array items length false =>
    items.size = length && o.extensible && o.members.table.isEmpty && !items.any Value.isAbsent
  | _ => false

def arrayShift : Native := fun h this _ _ => do
  let ref ← toObject this
  let n ← lengthSpent h ref
  if n = 0 then
    putLength h ref 0
    return .undefined
  let first ← itemAt h ref 0
  if isSimple (← objectAt ref) then
    modifyObject ref fun o => match o with
      | ⟨proto, .array items length isFixed, members, extensible⟩ =>
        ⟨proto, .array (items.extract 1 items.size) (length - 1) isFixed, members, extensible⟩
      | o => o
    return first
  for i in [1:n] do
    if ← hasAt h ref i then putAt h ref (i - 1) (← itemAt h ref i) else deleteAt h ref (i - 1)
  deleteAt h ref (n - 1)
  putLength h ref (n - 1)
  return first

/-- Moves items from a place on to a later one, the last first. -/
def moveUp (h : Host) (ref from' by' : Nat) : Nat → Run Unit
  | 0 => pure ()
  | k + 1 => do
    let i := from' + k
    if ← hasAt h ref i then putAt h ref (i + by') (← itemAt h ref i) else deleteAt h ref (i + by')
    moveUp h ref from' by' k

/-- Moves items from a place on to an earlier one. -/
def moveDown (h : Host) (ref from' by' count : Nat) : Run Unit := do
  for k in [0:count] do
    let i := from' + k
    if ← hasAt h ref i then putAt h ref (i - by') (← itemAt h ref i) else deleteAt h ref (i - by')

def arrayUnshift : Native := fun h this args _ => do
  let ref ← toObject this
  let n ← lengthSpent h ref
  if isSimple (← objectAt ref) then
    modifyObject ref fun o => match o with
      | ⟨proto, .array items length isFixed, members, extensible⟩ =>
        ⟨proto, .array (args ++ items) (length + args.size) isFixed, members, extensible⟩
      | o => o
    return .ofNat (n + args.size)
  if args.size ≠ 0 then
    moveUp h ref 0 args.size n
    for (v, i) in args.toList.zipIdx do
      putAt h ref i v
  putLength h ref (n + args.size)
  return .ofNat (n + args.size)

/-! Parts of arrays -/

def arraySlice : Native := fun h this args _ => do
  let ref ← toObject this
  let n ← lengthSpent h ref
  let start ← toPosition h (argument args 0) n 0
  let stop ← toPosition h (argument args 1) n n
  match ← denseItems? ref with
  | some items => arrayLike h ref (items.extract start stop)
  | none =>
    let made ← makeLike h ref (stop - start)
    for i in [0:stop - start] do
      if ← hasAt h ref (start + i) then
        createDataOrFail h made (.ofNat i) (← itemAt h ref (start + i))
    putLength h made (stop - start)
    return .object made

def arraySplice : Native := fun h this args _ => do
  let ref ← toObject this
  let n ← lengthSpent h ref
  let start ← toPosition h (argument args 0) n 0
  let gone ←
    if args.size = 0 then pure 0
    else if args.size = 1 then pure (n - start)
    else do pure (min (← toInteger h (argument args 1)).toNat (n - start))
  let added := args.extract 2 args.size
  if isSimple (← objectAt ref) then
    match ← denseItems? ref with
    | some items =>
      let made ← arrayLike h ref (items.extract start (start + gone))
      let items := items.extract 0 start ++ added ++ items.extract (start + gone) items.size
      setKind ref (.array items items.size false)
      return made
    | none => pure ()
  let made ← makeLike h ref gone
  for i in [0:gone] do
    if ← hasAt h ref (start + i) then
      createDataOrFail h made (.ofNat i) (← itemAt h ref (start + i))
  putLength h made gone
  let rest := n - start - gone
  if added.size < gone then
    moveDown h ref (start + gone) (gone - added.size) rest
    for k in [0:gone - added.size] do
      deleteAt h ref (n - 1 - k)
  else if gone < added.size then moveUp h ref (start + gone) (added.size - gone) rest
  for (v, i) in added.toList.zipIdx do
    putAt h ref (start + i) v
  putLength h ref (n - gone + added.size)
  return .object made

/-- Whether a value is taken apart when arrays are put together. -/
def isSpreadable (h : Host) (v : Value) : Run Bool := do
  if !v.isObject then return false
  match ← getValue h v WellKnown.isConcatSpreadable.key with
  | .undefined => isArray 100 v
  | s => return s.truthy

def arrayConcat : Native := fun h this args _ => do
  let ref ← toObject this
  let made ← makeLike h ref 0
  let mut n := 0
  for v in #[Value.object ref] ++ args do
    if ← isSpreadable h v then
      let from' ← toObject v
      let count ← lengthSpent h from'
      match ← denseItems? from', ← kindOf made with
      | some more, .array _ length false =>
        if length = n && isSimple (← objectAt made) then
          modifyObject made fun o => match o with
            | ⟨proto, .array items length isFixed, members, extensible⟩ =>
              ⟨proto, .array (items ++ more) (length + more.size) isFixed, members, extensible⟩
            | o => o
        else
          for (x, i) in more.toList.zipIdx do
            createDataOrFail h made (.ofNat (n + i)) x
      | _, _ =>
        for i in [0:count] do
          if ← hasAt h from' i then createDataOrFail h made (.ofNat (n + i)) (← itemAt h from' i)
      n := n + count
    else
      createDataOrFail h made (.ofNat n) v
      n := n + 1
  putLength h made n
  return .object made

def arrayReverse : Native := fun h this _ _ => do
  let ref ← toObject this
  let n ← lengthSpent h ref
  if isSimple (← objectAt ref) then
    modifyObject ref fun o => match o with
      | ⟨proto, .array items length isFixed, members, extensible⟩ =>
        ⟨proto, .array items.reverse length isFixed, members, extensible⟩
      | o => o
    return .object ref
  for low in [0:n / 2] do
    let high := n - 1 - low
    let hasLow ← hasAt h ref low
    let lowItem ← if hasLow then itemAt h ref low else pure .undefined
    let hasHigh ← hasAt h ref high
    let highItem ← if hasHigh then itemAt h ref high else pure .undefined
    if hasHigh then putAt h ref low highItem
    else if hasLow then deleteAt h ref low
    if hasLow then putAt h ref high lowItem
    else if hasHigh then deleteAt h ref high
  return .object ref

def arrayFill : Native := fun h this args _ => do
  let ref ← toObject this
  let n ← lengthSpent h ref
  let start ← toPosition h (argument args 1) n 0
  let stop ← toPosition h (argument args 2) n n
  for i in [start:stop] do
    putAt h ref i (argument args 0)
  return .object ref

def arrayCopyWithin : Native := fun h this args _ => do
  let ref ← toObject this
  let n ← lengthSpent h ref
  let target ← toPosition h (argument args 0) n 0
  let start ← toPosition h (argument args 1) n 0
  let stop ← toPosition h (argument args 2) n n
  let count := min (stop - start) (n - target)
  let move (i k : Nat) : Run Unit := do
    if ← hasAt h ref i then putAt h ref k (← itemAt h ref i) else deleteAt h ref k
  if start < target && target < start + count then
    for k in [0:count] do
      move (start + count - 1 - k) (target + count - 1 - k)
  else
    for k in [0:count] do
      move (start + k) (target + k)
  return .object ref

/-! Searching -/

def arrayIndexOf : Native := fun h this args _ => do
  let ref ← toObject this
  let n ← lengthSpent h ref
  if n = 0 then return .ofInt (-1)
  let start ← toPosition h (argument args 1) n 0
  for i in [start:n] do
    if ← hasAt h ref i then
      if (← itemAt h ref i).strictEquals (argument args 0) then return .ofNat i
  return .ofInt (-1)

def arrayLastIndexOf : Native := fun h this args _ => do
  let ref ← toObject this
  let n ← lengthSpent h ref
  if n = 0 then return .ofInt (-1)
  let last : Int ←
    if args.size < 2 then pure ((n : Int) - 1)
    else do
      let k ← toInteger h (argument args 1)
      pure (if k < 0 then (n : Int) + k else min k ((n : Int) - 1))
  if last < 0 then return .ofInt (-1)
  for k in [0:last.toNat + 1] do
    let i := last.toNat - k
    if ← hasAt h ref i then
      if (← itemAt h ref i).strictEquals (argument args 0) then return .ofNat i
  return .ofInt (-1)

def arrayIncludes : Native := fun h this args _ => do
  let ref ← toObject this
  let n ← lengthSpent h ref
  if n = 0 then return .bool false
  let start ← toPosition h (argument args 1) n 0
  for i in [start:n] do
    if (← itemAt h ref i).same false (argument args 0) then return .bool true
  return .bool false

def arrayAt : Native := fun h this args _ => do
  let ref ← toObject this
  let n ← lengthOf h ref
  let k ← toInteger h (argument args 0)
  let i := if k < 0 then (n : Int) + k else k
  if i < 0 || (n : Int) ≤ i then return .undefined
  itemAt h ref i.toNat

/-- The first item, from the start or the end, for which a function holds. -/
def found (backward : Bool) (give : Option (Nat × Value) → Value) : Native := fun h this args _ => do
  let ref ← toObject this
  let n ← lengthSpent h ref
  let f := argument args 0
  needFunction f
  for k in [0:n] do
    let i := if backward then n - 1 - k else k
    let v ← itemAt h ref i
    if (← h.call f (argument args 1) #[v, .ofNat i, .object ref]).truthy then
      return give (some (i, v))
  return give none

def giveItem : Option (Nat × Value) → Value
  | some (_, v) => v
  | none => .undefined

def givePlace : Option (Nat × Value) → Value
  | some (i, _) => .ofNat i
  | none => .ofInt (-1)

/-! Going through arrays -/

/-- Calls a function with each item that is there. The state may end the walk. -/
def walk {σ : Type} (start : σ) (step : σ → Nat → Value → Value → Run (σ × Bool))
    (finish : σ → Run Value) : Native := fun h this args _ => do
  let ref ← toObject this
  let n ← lengthSpent h ref
  let f := argument args 0
  needFunction f
  let mut s := start
  for i in [0:n] do
    if ← hasAt h ref i then
      let v ← itemAt h ref i
      let r ← h.call f (argument args 1) #[v, .ofNat i, .object ref]
      let (next, stop) ← step s i v r
      s := next
      if stop then return ← finish s
  finish s

def arrayForEach : Native := walk () (fun _ _ _ _ => return ((), false)) fun _ => return .undefined

def arraySome : Native :=
  walk false (fun _ _ _ r => return (r.truthy, r.truthy)) fun b => return .bool b

def arrayEvery : Native :=
  walk true (fun _ _ _ r => return (r.truthy, !r.truthy)) fun b => return .bool b

def arrayMap : Native := fun h this args newTarget => do
  let ref ← toObject this
  let n ← lengthOf h ref
  needFunction (argument args 0)
  let made ← makeLike h ref n
  walk () (fun _ i _ r => do
      createDataOrFail h made (.ofNat i) r
      return ((), false)) (fun _ => return .object made) h (.object ref) args newTarget

def arrayFilter : Native := fun h this args newTarget => do
  let ref ← toObject this
  needFunction (argument args 0)
  let made ← makeLike h ref 0
  walk 0 (fun k _ v r => do
      if !r.truthy then return (k, false)
      createDataOrFail h made (.ofNat k) v
      return (k + 1, false)) (fun _ => return .object made) h (.object ref) args newTarget

/-- Combines items from the start or the end. -/
def reduction (backward : Bool) : Native := fun h this args _ => do
  let ref ← toObject this
  let n ← lengthSpent h ref
  let f := argument args 0
  needFunction f
  let mut acc : Option Value := if args.size < 2 then none else some (argument args 1)
  for k in [0:n] do
    let i := if backward then n - 1 - k else k
    if ← hasAt h ref i then
      let v ← itemAt h ref i
      match acc with
      | none => acc := some v
      | some a => acc := some (← h.call f .undefined #[a, v, .ofNat i, .object ref])
  match acc with
  | some a => return a
  | none => typeError "Reduce of empty array with no initial value"

/-- Items of nested arrays, to a depth. -/
def flattened (h : Host) : Nat → Nat → Array Value → Run (Array Value)
  | 0, _, done => return done
  | depth + 1, ref, done => do
    let n ← lengthSpent h ref
    let mut done := done
    for i in [0:n] do
      if ← hasAt h ref i then
        let v ← itemAt h ref i
        match v with
        | .object r =>
          if depth ≠ 0 && (← isArray 100 v) then done ← flattened h depth r done
          else done := done.push v
        | v => done := done.push v
    return done

def arrayFlat : Native := fun h this args _ => do
  let ref ← toObject this
  let depth ← match argument args 0 with
    | .undefined => pure 1
    | v => do pure (min (← toInteger h v).toNat 1000)
  arrayLike h ref (← flattened h (depth + 1) ref #[])

def arrayFlatMap : Native := fun h this args newTarget => do
  let ref ← toObject this
  if !(← isCallable (argument args 0)) then typeError "flatMap mapper function is not callable"
  walk #[] (fun done _ _ r => do
      match r with
      | .object inner => if ← isArray 100 r then return (← flattened h 1 inner done, false)
      | _ => pure ()
      return (done.push r, false)) (arrayLike h ref) h (.object ref) args newTarget

/-! Order -/

/-- The comparison that an argument gives, or that of texts. -/
def comparisonOf (h : Host) (f : Value) : Sort.Comparison := fun x y =>
  match f with
  | .undefined => do
    let u ← toText h x
    let w ← toText h y
    return if u.lt w then -1.0 else if w.lt u then 1.0 else 0.0
  | f => do
    let r ← toNumber h (← h.call f .undefined #[x, y])
    return if r.isNaN then 0.0 else r

/-- Items sorted, those that are undefined last. -/
def sortedItems (h : Host) (f : Value) (items : Array Value) : Run (Array Value) := do
  let defined := items.filter fun v => !v.isUndefined
  spend defined.size
  -- texts are made once for each item
  let sorted ← match f with
    | .undefined => do
      let mut keyed : Array (Units × Value) := #[]
      for v in defined do
        keyed := keyed.push (← toText h v, v)
      pure ((keyed.toList.mergeSort fun a b => !b.1.lt a.1).map Prod.snd).toArray
    | f => Sort.sorted (comparisonOf h f) defined
  return sorted ++ Array.replicate (items.size - defined.size) .undefined

def checkComparison (f : Value) : Run Unit := do
  if !f.isUndefined && !(← isCallable f) then
    typeError ("The comparison function must be either a function or undefined ["
      ++ (← shownValue f) ++ "]")

def arraySort : Native := fun h this args _ => do
  checkComparison (argument args 0)
  let ref ← toObject this
  let n ← lengthSpent h ref
  let mut items := #[]
  for i in [0:n] do
    if ← hasAt h ref i then items := items.push (← itemAt h ref i)
  let sorted ← sortedItems h (argument args 0) items
  for (v, i) in sorted.toList.zipIdx do
    putAt h ref i v
  for i in [sorted.size:n] do
    if ← hasAt h ref i then deleteAt h ref i
  return .object ref

/-! Copies with changes -/

def allItems (h : Host) (ref : Nat) : Run (Array Value) := do
  let n ← lengthSpent h ref
  let mut items := #[]
  for i in [0:n] do
    items := items.push (← itemAt h ref i)
  return items

def arrayToReversed : Native := fun h this _ _ => do
  newArray (← allItems h (← toObject this)).reverse

def arrayToSorted : Native := fun h this args _ => do
  checkComparison (argument args 0)
  newArray (← sortedItems h (argument args 0) (← allItems h (← toObject this)))

def arrayToSpliced : Native := fun h this args _ => do
  let items ← allItems h (← toObject this)
  let start ← toPosition h (argument args 0) items.size 0
  let gone ←
    if args.size = 0 then pure 0
    else if args.size = 1 then pure (items.size - start)
    else do pure (min (← toInteger h (argument args 1)).toNat (items.size - start))
  newArray (items.extract 0 start ++ args.extract 2 args.size
    ++ items.extract (start + gone) items.size)

def arrayWith : Native := fun h this args _ => do
  let items ← allItems h (← toObject this)
  let k ← toInteger h (argument args 0)
  let i := if k < 0 then (items.size : Int) + k else k
  if i < 0 || (items.size : Int) ≤ i then rangeError "Invalid index : "
  newArray (items.setIfInBounds i.toNat (argument args 1))

/-! Texts -/

/-- How deep arrays nest in the text of one. -/
def joinLimit : Nat := 200

/-- The items' texts with a separator. Arrays inside themselves are left out. -/
def joinItems (h : Host) (ref : Nat) (separator : Units) : Run Units := do
  let n ← lengthSpent h ref
  let mut done : Units := #[]
  for i in [0:n] do
    if i ≠ 0 then done := done ++ separator
    let v ← itemAt h ref i
    match v with
    | .undefined | .null => pure ()
    | .string u => done := done ++ u
    | v => done := done ++ (← toText h v)
    if textLimit < done.size then rangeError "Invalid string length"
    if textRoom < done.size then exhausted
  return done

/-- Does something to an array that is not already at work. -/
def guarded (ref : Nat) (action : Run Units) : Run Units := do
  let m ← get
  if m.joining.contains ref then return #[]
  set { m with joining := ref :: m.joining }
  let leave : Run Unit := modify fun m => { m with joining := m.joining.tail }
  let r ← try action
    catch e => do
      leave
      throw e
  leave
  return r

def arrayJoin : Native := fun h this args _ => do
  let ref ← toObject this
  let separator ← match argument args 0 with
    | .undefined => pure (Units.ofString ",")
    | v => toText h v
  return .string (← guarded ref (joinItems h ref separator))

def arrayText : Native := fun h this _ newTarget => do
  let ref ← toObject this
  let f ← getNamed h (.object ref) "join"
  if ← isCallable f then
    if ← isIntrinsicJoin f then arrayJoin h (.object ref) #[] newTarget
    else h.call f (.object ref) #[]
  else
    let f ← getFrom h Fixed.objectProto.ref (.ofString "toString") .undefined
    h.call f (.object ref) #[]
where
  /-- Whether a function is the one that arrays start with. -/
  isIntrinsicJoin (f : Value) : Run Bool := do
    match f, ← peek Fixed.arrayProto.ref "join" with
    | .object a, .object b =>
      match ← kindOf a with
      | .native .. => return a = b
      | _ => return false
    | _, _ => return false

def arrayLocaleText : Native := fun h this _ _ => do
  let ref ← toObject this
  let n ← lengthSpent h ref
  let action : Run Units := do
    let mut parts : Array Units := #[]
    for i in [0:n] do
      let v ← itemAt h ref i
      if v.isNullish then parts := parts.push #[]
      else
        let f ← getNamed h v "toLocaleString"
        needFunction f
        parts := parts.push (← toText h (← h.call f v #[]))
    return Units.join (.ofString ",") parts.toList
  return .string (← guarded ref action)

/-! Iterators -/

def listIterator (part : Part) : Native := fun _ this _ _ => do
  let ref ← toObject this
  newObject { proto := some Fixed.arrayIteratorProto.ref, kind := .listIterator (.object ref) 0 part }

def arrayIteratorNext : Native := fun h this _ _ => do
  let fail : Run Value := typeError "next method called on incompatible receiver"
  match this with
  | .object it =>
    match ← kindOf it with
    | .listIterator (.object ref) place part =>
      let n ← match ← kindOf ref with
        | .numbers _ _ _ length => pure length
        | _ => lengthOf h ref
      if place < n then
        setKind it (.listIterator (.object ref) (place + 1) part)
        match part with
        | .keys => newResult (.ofNat place) false
        | .values => newResult (← itemAt h ref place) false
        | .entries => newResult (← newArray #[.ofNat place, ← itemAt h ref place]) false
      else
        setKind it .ended
        newResult .undefined true
    | .ended => newResult .undefined true
    | _ => fail
  | _ => fail

open Setup in
def setupArray : Setup Unit := do
  let proto := Fixed.arrayProto.ref
  let c ← constructor "Array" 1 proto arrayMake
  species c
  methods c [("isArray", 1, arrayIsArray), ("from", 1, arrayFrom), ("of", 0, arrayOf)]
  methods proto
    [("at", 1, arrayAt), ("concat", 1, arrayConcat), ("copyWithin", 2, arrayCopyWithin),
     ("fill", 1, arrayFill), ("find", 1, found false giveItem),
     ("findIndex", 1, found false givePlace), ("findLast", 1, found true giveItem),
     ("findLastIndex", 1, found true givePlace), ("lastIndexOf", 1, arrayLastIndexOf),
     ("pop", 0, arrayPop), ("push", 1, arrayPush), ("reverse", 0, arrayReverse),
     ("shift", 0, arrayShift), ("unshift", 1, arrayUnshift), ("slice", 2, arraySlice),
     ("sort", 1, arraySort), ("splice", 2, arraySplice), ("includes", 1, arrayIncludes),
     ("indexOf", 1, arrayIndexOf), ("join", 1, arrayJoin), ("keys", 0, listIterator .keys),
     ("entries", 0, listIterator .entries), ("forEach", 1, arrayForEach),
     ("filter", 1, arrayFilter), ("flat", 0, arrayFlat), ("flatMap", 1, arrayFlatMap),
     ("map", 1, arrayMap), ("every", 1, arrayEvery), ("some", 1, arraySome),
     ("reduce", 1, reduction false), ("reduceRight", 1, reduction true),
     ("toReversed", 0, arrayToReversed), ("toSorted", 1, arrayToSorted),
     ("toSpliced", 2, arrayToSpliced), ("toLocaleString", 0, arrayLocaleText),
     ("toString", 0, arrayText), ("with", 2, arrayWith)]
  let values ← intrinsic .arrayValues "values" 0 (listIterator .values)
  hidden proto "values" (.object values)
  Setup.put proto WellKnown.iterator.key (.hidden (.object values))
  let unscopables ← add { proto := none }
  for name in ["at", "copyWithin", "entries", "fill", "find", "findIndex", "findLast",
      "findLastIndex", "flat", "flatMap", "includes", "keys", "toReversed", "toSorted",
      "toSpliced", "values"] do
    Setup.put unscopables (.ofString name) (.plain (.bool true))
  Setup.put proto WellKnown.unscopables.key (.data (.object unscopables) false false true 0)
  let iterator := Fixed.arrayIteratorProto.ref
  method iterator "next" 0 arrayIteratorNext
  tag iterator "Array Iterator"
  symbolMethod Fixed.iteratorProto.ref .iterator 0 fun _ this _ _ => return this

end Unravel.Script.Library
