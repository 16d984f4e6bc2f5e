import Unravel.Script.Convert

/-! Changes of properties: how they are defined, written and taken away, on ordinary objects and on
those with rules of their own. -/

namespace Unravel.Script.Run

variable (h : Host)

/-- Changes the length of an array. Elements that cannot be taken away stop it. -/
def setLength (ref n : Nat) : Run Bool := do
  let o ← objectAt ref
  match o.kind with
  | .array _ length isFixed =>
    if n = length then return true
    if isFixed then return false
    let beyond := if o.members.table.isEmpty then #[] else o.members.keys.filter fun k => match k with
      | .index i => n ≤ i
      | _ => false
    -- the greatest index that has to stay
    let kept := beyond.foldl (fun kept k => match k, o.members.get? k with
      | .index i, some p => if p.configurable then kept else max kept (i + 1)
      | _, _ => kept) n
    let gone := beyond.filter fun k => match k with
      | .index i => kept ≤ i
      | _ => false
    modifyObject ref fun o => { o with
      kind := match o.kind with
        | .array items _ isFixed =>
          .array (if kept < items.size then items.shrink kept else items) kept isFixed
        | k => k
      members := gone.foldl Members.erase o.members }
    return kept = n
  | _ => return false

/-- Defines an own property by a description; false if that is refused. -/
def defineFrom : Nat → Nat → Key → Descriptor → Run Bool
  | 0, _, _, _ => tooDeep
  | n + 1, ref, key, d => do
    let o ← objectAt ref
    match o.kind with
    | .proxy target handler =>
      match target with
      | .object t =>
        match ← trap? handler "defineProperty" (getFrom h) with
        | none => defineFrom n t key d
        | some f =>
          return (← h.call f handler #[target, key.value, ← descriptorObject d.made]).truthy
      | _ => typeError "Cannot perform an operation on a proxy that has been revoked"
    | .array _ length isFixed =>
      match key with
      | .index i =>
        if length ≤ i && isFixed then return false
        let old ← ownProperty h ref key
        match d.applied? old o.extensible with
        | none => return false
        | some (.data v true true true _) =>
          -- an element among the properties stays there
          modifyObject ref fun o =>
            if (o.members.get? key).isSome then
              { o with members := o.members.put key (.plain v) }
            else o.putItem i v
          return true
        | some p =>
          modifyObject ref fun o =>
            let o := o.loosened
            let kind := match o.kind with
              | .array items l f => .array items (max l (i + 1)) f
              | k => k
            { o with kind := kind, members := o.members.put key p }
          return true
      | key =>
        if key == Key.length then
          if d.configurable == some true || d.enumerable == some true || d.isAccessor then return false
          let toFixed : Run Unit := do
            if d.writable == some false then
              modifyObject ref fun o => match o.kind with
                | .array items l _ => { o with kind := .array items l true }
                | _ => o
          match d.value with
          | none =>
            if isFixed && d.writable == some true then return false
            toFixed
            return true
          | some v =>
            let wanted := Numeral.toUInt32 (← toNumber h v)
            let x ← toNumber h v
            if x != Float.ofNat wanted.toNat then rangeError "Invalid array length"
            if isFixed && d.writable == some true then return false
            let ok ← setLength ref wanted.toNat
            toFixed
            return ok
        else
          match d.applied? (o.members.get? key) o.extensible with
          | none => return false
          | some p =>
            putMember ref key p
            return true
    | .arguments cells =>
      let old ← ownProperty h ref key
      match d.applied? old o.extensible with
      | none => return false
      | some p =>
        match key with
        | .index i =>
          match cells.getD i none with
          | some cell =>
            match p with
            | .data v w _ _ _ =>
              modify fun m => { m with cells := m.cells.setIfInBounds cell v }
              if !w then setKind ref (.arguments (cells.setIfInBounds i none))
            | .accessor .. => setKind ref (.arguments (cells.setIfInBounds i none))
          | none => pure ()
        | _ => pure ()
        putMember ref key p
        return true
    | .numbers t b offset length =>
      match key with
      | .index i =>
        match d.value with
        | some v =>
          let x ← toNumber h v
          if i < length then
            modifyObject b fun o => match o.kind with
              | .bytes data => { o with kind := .bytes (t.write data (offset + i * t.width) x) }
              | _ => o
            return true
          else return false
        | none => return i < length
      | key =>
        match d.applied? (o.members.get? key) o.extensible with
        | none => return false
        | some p =>
          putMember ref key p
          return true
    | _ =>
      let old ← ownProperty h ref key
      match d.applied? old o.extensible with
      | none => return false
      | some p =>
        match o.kind, old, key with
        -- the characters of a string are not kept among the properties
        | .boxed (.string _), some (.data _ false _ false _), .index _ => return true
        | _, _, _ =>
          putMember ref key p
          return true

def defineOwn (ref : Nat) (key : Key) (d : Descriptor) : Run Bool :=
  defineFrom h proxyLimit ref key d

/-- Makes a plain property, or replaces what is there. -/
def createData (ref : Nat) (key : Key) (v : Value) : Run Bool := do
  let m ← get
  let o := m.objects.getD ref default
  match o.kind, o.extensible with
  | .ordinary, true =>
    match o.members.get? key with
    | none =>
      putMember ref key (.plain v)
      return true
    | some p =>
      if p.configurable then
        putMember ref key (.plain v)
        return true
      else defineOwn h ref key (.plain v)
  | _, _ => defineOwn h ref key (.plain v)

/-- As above, but an error where it is refused. -/
def createDataOrFail (ref : Nat) (key : Key) (v : Value) : Run Unit := do
  if !(← createData h ref key v) then
    typeError ("Cannot add property " ++ Key.shown key ++ ", object is not extensible")

/-- How a write goes on. -/
inductive Write where
  /-- The element is replaced in its row. -/
  | item
  /-- The element is added to its row. -/
  | append
  /-- The value of a property of the object is replaced. -/
  | replace
  /-- The property is new to the object and to those it inherits from. -/
  | create
  /-- The general rules decide. -/
  | general

/-- Writes a property of an object for a receiver; false if that is refused. -/
def writeFrom : Nat → Nat → Key → Value → Value → Run Bool
  | 0, _, _, _, _ => tooDeep
  | n + 1, ref, key, v, receiver => do
    let o ← objectAt ref
    -- along the chain of prototypes
    let onward : Run Bool := do
      match (← objectAt ref).proto with
      | some p => writeFrom n p key v receiver
      | none =>
        match receiver with
        | .object r =>
          match ← ownProperty h r key with
          | some (.data _ w _ _ _) => if w then defineOwn h r key { value := some v } else return false
          | some (.accessor ..) => return false
          | none => createData h r key v
        | _ => return false
    match o.kind with
    | .proxy target handler =>
      match target with
      | .object t =>
        match ← trap? handler "set" (getFrom h) with
        | none => writeFrom n t key v receiver
        | some f => return (← h.call f handler #[target, key.value, v, receiver]).truthy
      | _ => typeError "Cannot perform an operation on a proxy that has been revoked"
    | .numbers _ _ _ length =>
      match key with
      | .index i =>
        if i < length then defineOwn h ref key { value := some v }
        else
          let _ ← toNumber h v
          return true
      | _ => onward
    | _ =>
      match ← ownProperty h ref key with
      | none => onward
      | some (.data _ w _ _ _) =>
        if !w then return false
        match receiver with
        | .object r =>
          if r = ref then defineOwn h r key { value := some v }
          else
            match ← ownProperty h r key with
            | some (.data _ w _ _ _) =>
              if w then defineOwn h r key { value := some v } else return false
            | some (.accessor ..) => return false
            | none => createData h r key v
        | _ => return false
      | some (.accessor _ f _ _ _) =>
        if f.isUndefined then return false
        let _ ← h.call f receiver #[v]
        return true

/-- Writes a property of an object for a receiver. What is plain is done at once. -/
def setOn (ref : Nat) (key : Key) (v : Value) (receiver : Value) : Run Bool := do
  let m ← get
  let o := m.objects.getD ref default
  let own := match receiver with
    | .object r => r == ref
    | _ => false
  let isNew (_ : Unit) : Bool :=
    match o.proto with
    | some p => match m.find key (m.objects.size + 1) p with
      | .missing => true
      | _ => false
    | none => true
  let plan : Write :=
    if !own then .general
    else
      match o.kind, key with
      | .array items length isFixed, .index i =>
        match items.getD i .absent with
        | .absent =>
          if i == items.size && i == length && !isFixed && o.extensible && isNew () then .append
          else .general
        | _ => .item
      | .array .., key =>
        if key == Key.length then .general
        else
          match o.members.get? key with
          | some (.data _ true _ _ _) => .replace
          | _ => .general
      | .ordinary, key =>
        match o.members.get? key with
        | some (.data _ true _ _ _) => .replace
        | some _ => .general
        | none => if o.extensible && isNew () then .create else .general
      | _, _ => .general
  match plan, key with
  | .append, _ =>
    modifyObject ref fun o => match o with
      | ⟨proto, .array items length isFixed, members, extensible⟩ =>
        ⟨proto, .array (items.push v) (length + 1) isFixed, members, extensible⟩
      | o => o
    return true
  | .create, key =>
    putMember ref key (.plain v)
    return true
  | .item, .index i =>
    modifyObject ref fun o => match o with
      | ⟨proto, .array items length isFixed, members, extensible⟩ =>
        ⟨proto, .array (items.setIfInBounds i v) length isFixed, members, extensible⟩
      | o => o
    return true
  | .replace, key =>
    modifyObject ref fun o => { o with
      members := { o.members with
        table := o.members.table.modify key fun p => match p with
          | .data _ w e c b => .data v w e c b
          | p => p } }
    return true
  | _, key => writeFrom h ((← get).objects.size + 1) ref key v receiver

/-- What is said of a write that is refused. -/
def refusal (key : Key) : String :=
  "Cannot assign to read only property '" ++ Key.shown key ++ "' of object"

/-- Writes a property of any value. In strict code a refusal is an error. -/
def setValue (v : Value) (key : Key) (w : Value) (strict : Bool) : Run Unit := do
  match v with
  | .object ref =>
    if !(← setOn h ref key w v) && strict then typeError (refusal key)
  | .undefined | .null | .absent =>
    typeError ("Cannot set properties of " ++ nullishName v ++ " (setting '" ++ Key.shown key ++ "')")
  | v =>
    let ok ← match v, key with
      | .string u, .index i =>
        if i < u.size then pure false else writeFrom h ((← get).objects.size + 1) (protoOfPrimitive v) key w v
      | .string _, key =>
        if key == Key.length then pure false
        else writeFrom h ((← get).objects.size + 1) (protoOfPrimitive v) key w v
      | v, key => writeFrom h ((← get).objects.size + 1) (protoOfPrimitive v) key w v
    if !ok && strict then
      typeError ("Cannot create property '" ++ Key.shown key ++ "' on a primitive value")

/-- Writes a property, and fails where that is refused. -/
def put (ref : Nat) (key : Key) (v : Value) : Run Unit := do
  if !(← setOn h ref key v (.object ref)) then typeError (refusal key)

/-- Takes an own property away; false if it has to stay. -/
def deleteFrom : Nat → Nat → Key → Run Bool
  | 0, _, _ => tooDeep
  | n + 1, ref, key => do
    match (← objectAt ref).kind with
    | .proxy target handler =>
      match target with
      | .object t =>
        match ← trap? handler "deleteProperty" (getFrom h) with
        | none => deleteFrom n t key
        | some f => return (← h.call f handler #[target, key.value]).truthy
      | _ => typeError "Cannot perform an operation on a proxy that has been revoked"
    | _ =>
      match ← ownProperty h ref key with
      | none => return true
      | some p =>
        if !p.configurable then return false
        modifyObject ref fun o =>
          match o.kind, key with
          | .array items length isFixed, .index i =>
            if i < items.size then
              { o with kind := .array (items.setIfInBounds i .absent) length isFixed }
            else { o with members := o.members.erase key }
          | .arguments cells, .index i =>
            { o with
              kind := .arguments (cells.setIfInBounds i none), members := o.members.erase key }
          | _, _ => { o with members := o.members.erase key }
        return true

def deleteOwn (ref : Nat) (key : Key) : Run Bool := deleteFrom h proxyLimit ref key

/-- Indices below a size, in order, that a row of elements holds. -/
def presentIndices (items : Array Value) : Array Key :=
  (List.range items.size).foldl (fun ks i => match items.getD i .absent with
    | .absent => ks
    | _ => ks.push (.index i)) #[]

/-- The own keys of an object, in order. -/
def ownKeysFrom : Nat → Nat → Run (Array Key)
  | 0, _ => tooDeep
  | n + 1, ref => do
    let o ← objectAt ref
    match o.kind with
    | .array items _ _ =>
      let rest := o.members.keys
      let indices := rest.filter fun k => match k with
        | .index _ => true
        | _ => false
      let others := rest.filter fun k => match k with
        | .index _ => false
        | _ => true
      return presentIndices items ++ indices ++ #[Key.length] ++ others
    | .boxed (.string u) =>
      let rest := o.members.keys
      let indices := rest.filter fun k => match k with
        | .index _ => true
        | _ => false
      let others := rest.filter fun k => match k with
        | .index _ => false
        | _ => true
      return ((List.range u.size).map Key.index).toArray ++ indices ++ #[Key.length] ++ others
    | .numbers _ _ _ length =>
      return ((List.range length).map Key.index).toArray ++ o.members.keys
    | .closure _ =>
      equip ref
      return (← objectAt ref).members.keys
    | .proxy target handler =>
      match target with
      | .object t =>
        match ← trap? handler "ownKeys" (getFrom h) with
        | none => ownKeysFrom n t
        | some f =>
          let list ← h.call f handler #[target]
          match ← getValue h list .length with
          | .number x =>
            let mut keys := #[]
            for i in List.range x.toUInt64.toNat do
              match ← getValue h list (.index i) with
              | .string u => keys := keys.push (Key.ofUnits u)
              | .symbol s => keys := keys.push (.symbol s)
              | _ => typeError "A key is neither a string nor a symbol"
            return keys
          | _ => return #[]
      | _ => typeError "Cannot perform an operation on a proxy that has been revoked"
    | _ => return o.members.keys

def ownKeys (ref : Nat) : Run (Array Key) := ownKeysFrom h proxyLimit ref

/-- The own keys that are strings and listed. -/
def listedKeys (ref : Nat) : Run (Array Key) := do
  let mut found := #[]
  for k in ← ownKeys h ref do
    if !k.isSymbol then
      match ← ownProperty h ref k with
      | some p => if p.enumerable then found := found.push k
      | none => pure ()
  return found

/-- Whether an object is on the chain of another's prototypes. -/
def onChain (wanted : Nat) : Nat → Option Nat → Run Bool
  | 0, _ => return false
  | _, none => return false
  | n + 1, some p => do
    if p = wanted then return true
    onChain wanted n (← protoOf h p)

/-- Gives an object another prototype; false if that is refused. -/
def setProtoOf (ref : Nat) (proto : Option Nat) : Run Bool := do
  let o ← objectAt ref
  match o.kind with
  | .proxy (.object t) handler =>
    match ← trap? handler "setPrototypeOf" (getFrom h) with
    | some f =>
      let p := match proto with
        | some p => Value.object p
        | none => .null
      return (← h.call f handler #[.object t, p]).truthy
    | none =>
      modifyObject t fun o => { o with proto := proto }
      return true
  | _ =>
    if o.proto = proto then return true
    if !o.extensible then return false
    if ref = Fixed.objectProto.ref then return false
    match proto with
    | some p => if ← onChain h ref ((← get).objects.size + 1) (some p) then return false
    | none => pure ()
    modifyObject ref fun o => { o with proto := proto }
    return true

/-- The prototype for what a function makes: that of the function if it is an object. -/
def protoFor (newTarget : Value) (default : Nat) : Run Nat := do
  match newTarget with
  | .object ref =>
    match ← getFrom h ref (.ofString "prototype") newTarget with
    | .object p => return p
    | _ => return default
  | _ => return default

end Unravel.Script.Run
