import Std.Data.HashSet
import Unravel.Script.Operator

/-! Items of values: what loops, patterns and spread arguments run over. -/

namespace Unravel.Script

namespace Run

variable (h : Host)

/-- Whether a value is a function that the machine itself knows. -/
def isIntrinsic (i : Intrinsic) (v : Value) : Run Bool := do
  match v with
  | .object ref =>
    match (← objectAt ref).kind with
    | .native id _ => return id == i.id
    | _ => return false
  | _ => return false

/-- What is said of a value that has no items. -/
def notIterable (v : Value) : Run String := do
  match v with
  | .undefined | .absent => return "undefined is not iterable (cannot read property Symbol(Symbol.iterator))"
  | .null => return "object null is not iterable (cannot read property Symbol(Symbol.iterator))"
  | .object _ => return "object is not iterable (cannot read property Symbol(Symbol.iterator))"
  | .symbol _ => return "symbol is not iterable"
  | v => return (← typeName v) ++ " " ++ (primitiveText v).shown
      ++ " is not iterable (cannot read property Symbol(Symbol.iterator))"

/-- Starts on the items of a value. Those of an array are read one by one from the array. -/
def openItems (v : Value) : Run Items := do
  if v.isNullish then typeError (← notIterable v)
  let f ← getValue h v WellKnown.iterator.key
  if f.isNullish || !(← isCallable f) then typeError (← notIterable v)
  match v with
  | .object ref =>
    match (← objectAt ref).kind with
    | .array .. => if ← isIntrinsic .arrayValues f then return .list ref 0
    | _ => pure ()
  | _ => pure ()
  let iterator ← h.call f v #[]
  match iterator with
  | .object _ => return .iterator iterator (← getNamed h iterator "next")
  | _ => typeError "Result of the Symbol.iterator method is not an object"

/-- What an iterator gives on being asked for its next item. -/
def iteratorResult (result : Value) : Run (Option Value) := do
  match result with
  | .object _ =>
    if (← getNamed h result "done").truthy then return none
    return some (← getNamed h result "value")
  | v => typeError ("Iterator result " ++ (primitiveText v).shown ++ " is not an object")

/-- The next item, and how to go on. -/
def nextOf (items : Items) : Run (Option Value × Items) := do
  match items with
  | .finished => return (none, .finished)
  | .list ref place =>
    let m ← get
    match (m.objects.getD ref default).kind with
    | .array row length _ =>
      if place < length then
        match row.getD place .absent with
        | .absent => return (some (← getFrom h ref (.ofNat place) (.object ref)), .list ref (place + 1))
        | v => return (some v, .list ref (place + 1))
      else return (none, .finished)
    | _ => return (none, .finished)
  | .iterator iterator next =>
    if !(← isCallable next) then
      typeError ((← typeName next) ++ " is not a function")
    match ← iteratorResult h (← h.call next iterator #[]) with
    | some v => return (some v, items)
    | none => return (none, .finished)

/-- Tells an iterator that no more items are wanted. -/
def closeOf (items : Items) : Run Unit := do
  match items with
  | .iterator iterator _ =>
    match ← methodOf h iterator (.ofString "return") with
    | some f =>
      let r ← h.call f iterator #[]
      if !r.isObject then typeError ((primitiveText r).shown ++ " is not an object")
    | none => pure ()
  | _ => pure ()

/-- As above; what goes wrong on the way is not reported. -/
def closeQuietly (items : Items) : Run Unit := do
  try closeOf h items
  catch
    | .thrown _ => pure ()
    | s => throw s

/-- Does something with each item left. If that fails, the iterator is told. -/
def forItems {σ : Type} (f : σ → Value → Run σ) : Nat → Items → σ → Run σ
  | 0, _, _ => exhausted
  | n + 1, items, s => do
    match ← nextOf h items with
    | (none, _) => return s
    | (some v, items) =>
      let s ← try f s v
        catch e => do
          closeQuietly h items
          throw e
      forItems f n items s

/-- The greatest number of items that are taken at once. -/
def itemLimit : Nat := 20000000

/-- All items of a value. -/
def itemsOf (v : Value) : Run (Array Value) := do
  forItems h (fun found v => return found.push v) itemLimit (← openItems h v) #[]

/-! Items kept in a slot of a call -/

def keepItems (items : Items) : Run Value := newObject { proto := none, kind := .items items }

def keptItems (v : Value) : Run Items := do
  match v with
  | .object ref =>
    match (← objectAt ref).kind with
    | .items items => return items
    | _ => return .finished
  | _ => return .finished

/-- The next of the kept items. One that fails has no more. -/
def stepKept (v : Value) : Run (Option Value) := do
  let items ← keptItems v
  match v with
  | .object ref =>
    let (next, items) ← try nextOf h items
      catch e => do
        setKind ref (.items .finished)
        throw e
    setKind ref (.items items)
    return next
  | _ => return none

def closeKept (v : Value) (quietly : Bool) : Run Unit := do
  let items ← keptItems v
  match v with
  | .object ref => setKind ref (.items .finished)
  | _ => pure ()
  if quietly then closeQuietly h items else closeOf h items

/-! Keys that a loop runs over -/

/-- Keys of an object and its prototypes that are listed, each once. -/
def chainKeys : Nat → Nat → Std.HashSet Key → Array Key → Run (Array Key)
  | 0, _, _, found => return found
  | n + 1, ref, seen, found => do
    let mut seen := seen
    let mut found := found
    for k in ← ownKeys h ref do
      if !k.isSymbol && !seen.contains k then
        match ← ownProperty h ref k with
        | some p =>
          seen := seen.insert k
          if p.enumerable then found := found.push k
        | none => pure ()
    match ← protoOf h ref with
    | some p => chainKeys n p seen found
    | none => return found

def openKeys (v : Value) : Run Value := do
  if v.isNullish then newObject { proto := none, kind := .keyList 0 #[] 0 }
  else
    let ref ← toObject v
    let keys ← chainKeys h ((← get).objects.size + 1) ref {} #[]
    newObject { proto := none, kind := .keyList ref keys 0 }

/-- The first key from a place on that is still there, and the place after it. -/
def keyFrom (ref : Nat) (keys : Array Key) : Nat → Nat → Run (Option (Key × Nat))
  | 0, _ => return none
  | n + 1, i => do
    match keys[i]? with
    | none => return none
    | some k => if ← hasProperty h ref k then return some (k, i + 1) else keyFrom ref keys n (i + 1)

def stepKey (v : Value) : Run (Option Value) := do
  match v with
  | .object list =>
    match (← objectAt list).kind with
    | .keyList ref keys place =>
      match ← keyFrom h ref keys (keys.size + 1 - place) place with
      | some (k, next) =>
        setKind list (.keyList ref keys next)
        return some k.value
      | none => return none
    | _ => return none
  | _ => return none

end Run

end Unravel.Script
