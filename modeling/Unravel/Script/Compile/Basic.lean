import Unravel.Script.Compile.Declared
import Unravel.Script.Names

/-! The state of a compilation: the function whose code is being written, those around it, and the
names in scope. -/

namespace Unravel.Script

/-- A statement that can be left or gone on with from inside. -/
structure Target where
  labels : List String
  isLoop : Bool
  /-- Whether a jump that names no label goes here. -/
  takesBreak : Bool
  /-- How many tries are open outside the statement, and where its next round starts. -/
  breakDepth : Nat
  continueDepth : Nat
  breaks : Array Nat := #[]
  continues : Array Nat := #[]
deriving Inhabited

/-- A function whose code is being written. -/
structure FunctionState where
  kind : FunctionKind
  strict : Bool
  instrs : Array Instr := #[]
  slots : Nat := 0
  cells : Nat := 0
  scopes : List Scope := []
  captures : Array Place := #[]
  /-- Names that functions inside mention; all of them if code inside is not known yet. -/
  inner : Std.HashSet String := {}
  sharesAll : Bool := false
  targets : List Target := []
  depth : Nat := 0
  /-- Where the value of the last statement is kept, if it is asked for. -/
  completion : Option Nat := none
  /-- Its variables are those of all scripts. -/
  isTop : Bool := false
  /-- Where `this` is, in a constructor that has to call another first. -/
  derivedThis : Option Place := none
deriving Inhabited

structure CompileState where
  current : FunctionState
  /-- The functions around, the nearest first. -/
  outer : List FunctionState := []
  codes : Array Code := #[]
  sites : Array EvalSite := #[]
  /-- How many codes and sites the machine has already. -/
  codeBase : Nat := 0
  siteBase : Nat := 0
  templateCount : Nat := 0
  /-- The script, and where the functions that it numbers stand in its text. -/
  script : Nat := 0
  spans : Array Span := #[]
deriving Inhabited

/-- A compilation; it fails on what cannot run at all. -/
abbrev Compile := EStateM String CompileState

namespace Compile

@[inline] def modifyCurrent (f : FunctionState → FunctionState) : Compile Unit :=
  modify fun s => { s with current := f s.current }

def current : Compile FunctionState := do return (← get).current

def isStrict : Compile Bool := do return (← get).current.strict

def emit (i : Instr) : Compile Unit :=
  modifyCurrent fun f => { f with instrs := f.instrs.push i }

/-- The place of the next instruction. -/
def here : Compile Nat := do return (← get).current.instrs.size

/-- An instruction whose target is still open; its place is given back. -/
def emitOpen (i : Instr) : Compile Nat := do
  let at' ← here
  emit i
  return at'

def closeAt (at' target : Nat) : Compile Unit :=
  modifyCurrent fun f => { f with instrs := f.instrs.modify at' (·.withTarget target) }

/-- Lets an open instruction jump to the next place. -/
def close (at' : Nat) : Compile Unit := do closeAt at' (← here)

def newSlot : Compile Nat := do
  let n := (← get).current.slots
  modifyCurrent fun f => { f with slots := n + 1 }
  return n

def newCell : Compile Nat := do
  let n := (← get).current.cells
  modifyCurrent fun f => { f with cells := n + 1 }
  return n

/-- Whether functions inside may use a variable of the current one. -/
def isShared (name : String) : Compile Bool := do
  let f := (← get).current
  return f.sharesAll || f.inner.contains name

/-- Makes room for a variable. A shared one gets a new cell with a value. -/
def makePlace (name : String) (start : Value) : Compile Place := do
  if ← isShared name then
    let c ← newCell
    emit (.newCell c start)
    return .cell c
  else return .slot (← newSlot)

def pushScope (s : Scope) : Compile Unit := modifyCurrent fun f => { f with scopes := s :: f.scopes }

def popScope : Compile Unit := modifyCurrent fun f => { f with scopes := f.scopes.tail }

/-- Puts a variable into the innermost scope. -/
def bindName (name : String) (v : Variable) : Compile Unit :=
  modifyCurrent fun f => match f.scopes with
    | s :: rest => { f with scopes := { s with names := s.names.insert name v } :: rest }
    | [] => f

/-- The variable of a name in the innermost scope. -/
def ownVariable? (name : String) : Compile (Option Variable) := do
  match (← get).current.scopes with
  | s :: _ => return s.names[name]?
  | [] => return none

/-- Notes that the declaration of a name has run. -/
def markReady (name : String) : Compile Unit :=
  modifyCurrent fun f =>
    let rec go : List Scope → List Scope
      | [] => []
      | s :: rest =>
        match s.names[name]? with
        | some v =>
          if s.isLoose then s :: rest
          else { s with names := s.names.insert name { v with isReady := true } } :: rest
        | none => s :: go rest
    { f with scopes := go f.scopes }

/-- What a name stands for: objects that are asked first, then a variable, or none if the name is
global. -/
structure Resolved where
  objects : List NameObject := []
  bound? : Option Variable := none
deriving Inhabited

/-- Looks a name up in scopes, the innermost first. -/
def lookUp (name : String) : List Scope → Resolved → Resolved × Bool
  | [], r => (r, false)
  | s :: rest, r =>
    match s.names[name]? with
    | some v => ({ r with bound? := some v }, true)
    | none =>
      match s.object? with
      | some o => lookUp name rest { r with objects := r.objects ++ [o] }
      | none => lookUp name rest r

/-- A place of the function around, as the function itself sees it. -/
def importPlace (f : FunctionState) (p : Place) : Place × FunctionState :=
  match f.captures.idxOf? p with
  | some i => (.outer i, f)
  | none => (.outer f.captures.size, { f with captures := f.captures.push p })

/-- A place of the function so many steps outside the first, as the first sees it. -/
def carried (p : Place) : Nat → List FunctionState → Place × List FunctionState
  | n + 1, f :: around =>
    let (q, around) := carried p n around
    let (q, f) := importPlace f q
    (q, f :: around)
  | _, functions => (p, functions)

/-- Resolves a name in a function and those around it; what is shared on the way is noted. -/
def resolveIn (name : String) : List FunctionState → Resolved × List FunctionState
  | [] => ({}, [])
  | f :: around =>
    match lookUp name f.scopes {} with
    | (r, true) => (r, f :: around)
    | (r, false) =>
      let (s, around) := resolveIn name around
      let step (acc : List NameObject × FunctionState) (o : NameObject) :
          List NameObject × FunctionState :=
        let (q, f) := importPlace acc.2 o.place
        (acc.1 ++ [{ o with place := q }], f)
      let (objects, f) := s.objects.foldl step ([], f)
      match s.bound? with
      | none => ({ r with objects := r.objects ++ objects }, f :: around)
      | some v =>
        let (q, f) := importPlace f v.place
        ({ objects := r.objects ++ objects
           bound? := some { v with place := q, isReady := !v.isChecked } }, f :: around)

/-- A place of the function so many steps outside the current one, as that one sees it. -/
def imported (p : Place) (steps : Nat) : Compile Place := do
  let s ← get
  match carried p steps (s.current :: s.outer) with
  | (q, f :: around) =>
    set { s with current := f, outer := around }
    return q
  | (q, []) => return q

def resolve (name : String) : Compile Resolved := do
  let s ← get
  match lookUp name s.current.scopes {} with
  | (r, true) => return r
  | _ =>
    match resolveIn name (s.current :: s.outer) with
    | (r, f :: around) =>
      set { s with current := f, outer := around }
      return r
    | (r, []) => return r

/-- Reads a variable. -/
def loadVariable (name : String) (v : Variable) : Compile Unit :=
  if v.isChecked && !v.isReady then emit (.getChecked v.place name) else emit (.get v.place)

/-- Tries the objects that are asked first. Where one has the name, `found` runs with the object on
the stack; otherwise `base` does. -/
def throughObjects (name : String) (objects : List NameObject) (found : NameObject → Compile Unit)
    (base : Compile Unit) : Compile Unit := do
  let mut ends := #[]
  for o in objects do
    emit (.get o.place)
    emit (.hasName (.ofString name))
    let no ← emitOpen (.jumpIfFalse 0)
    found o
    ends := ends.push (← emitOpen (.jump 0))
    close no
    emit .pop
  base
  for e in ends do
    close e

/-- Leaves the value of a name. -/
def load (name : String) : Compile Unit := do
  let r ← resolve name
  throughObjects name r.objects (fun _ => emit (.getMember (.ofString name))) do
    match r.bound? with
    | some v => loadVariable name v
    | none =>
      if name = "undefined" then emit (.const .undefined)
      else emit (.getGlobal (.ofString name))

/-- Leaves the name of the type of a name's value. -/
def loadType (name : String) : Compile Unit := do
  let r ← resolve name
  let found : Compile Unit := do
    emit (.getMember (.ofString name))
    emit (.unary .typeOf)
  throughObjects name r.objects (fun _ => found) do
    match r.bound? with
    | some v => do
      loadVariable name v
      emit (.unary .typeOf)
    | none => emit (.typeOfGlobal (.ofString name))

/-- Leaves the value of a name and the receiver for a call of it. -/
def loadCallee (name : String) : Compile Unit := do
  let r ← resolve name
  let found (o : NameObject) : Compile Unit := do
    if o.isBody then
      emit (.getMember (.ofString name))
      emit (.const .undefined)
    else emit (.getMethod (.ofString name))
  throughObjects name r.objects found do
    match r.bound? with
    | some v => loadVariable name v
    | none => emit (.getGlobal (.ofString name))
    emit (.const .undefined)

/-- Takes a value for a variable that has been declared. -/
def assignVariable (name : String) (v : Variable) : Compile Unit := do
  if v.isConst then
    if v.isSilent && !(← isStrict) then emit .pop
    else
      if v.isChecked && !v.isReady then
        emit (.getChecked v.place name)
      emit (.fail .type "Assignment to constant variable.")
  else if v.isChecked && !v.isReady then emit (.setChecked v.place name)
  else emit (.set v.place)

/-- Takes a value for a name. -/
def store (name : String) : Compile Unit := do
  let r ← resolve name
  let found : Compile Unit := do
    emit .swap
    emit (.setMember (.ofString name))
    emit .pop
  throughObjects name r.objects (fun _ => found) do
    match r.bound? with
    | some v => assignVariable name v
    | none => emit (.setGlobal (.ofString name))

/-- Takes the first value of a name that a declaration binds. -/
def initName (name : String) : Compile Unit := do
  match lookUp name (← get).current.scopes {} with
  | (r, true) =>
    match r.bound? with
    | some v =>
      emit (.set v.place)
      markReady name
    | none => emit .pop
  | _ => emit (.setLexical (.ofString name))

/-- The variable of a name in the scope of the whole body, if nothing in between hides it. -/
def bodyVariable? (name : String) : Compile (Option Variable) := do
  let rec go : List Scope → Option Variable
    | [] => none
    | s :: rest =>
      if s.isBody then s.names[name]?
      else if s.names.contains name && !s.isCatch then none
      else go rest
  match (← get).current.scopes with
  | [] => return none
  -- the innermost scope is the block that declares the name itself
  | s :: rest => return if s.isBody then s.names[name]? else go rest

/-! Variables that text run in place declares -/

/-- Where a variable that is declared for all the code around belongs. -/
inductive Home where
  /-- The function around has such a variable. -/
  | function (v : Variable)
  /-- An object takes what the function around does not have. -/
  | object (place : Place)
  | script
  /-- A block around has the name for itself. -/
  | taken

/-- Looks for the home of a variable in scopes, the innermost first. -/
def homeIn (name : String) : List Scope → Home
  | [] => .script
  | s :: rest =>
    match s.names[name]? with
    | some v =>
      if s.isCatch then homeIn name rest
      else if s.isBody && !v.isChecked then .function v
      else .taken
    | none =>
      match s.object? with
      | some o => if o.isBody then .object o.place else homeIn name rest
      | none => homeIn name rest

/-- The home of a variable of text run in place, or of a script. -/
def home (name : String) : Compile Home := do
  return homeIn name ((← get).outer.flatMap fun f => f.scopes)

/-- A scope for what text run in place declares in the current function. -/
def pushVariables : Compile Unit := do
  let cell ← newCell
  emit (.newCell cell .undefined)
  emit .newObject
  emit (.const .null)
  emit .setProto
  emit (.set (.cell cell))
  pushScope { object? := some { place := .cell cell, isBody := true } }

/-- Takes a value for a variable that is declared for all the code around. -/
def storeHome (name : String) : Compile Unit := do
  match ← home name with
  | .function v => emit (.set (← imported v.place 1))
  | .object p =>
    emit (.get (← imported p 1))
    emit .swap
    emit (.define (.ofString name))
    emit .pop
  | .script => emit (.setGlobal (.ofString name))
  | .taken => emit .pop

/-- Declares a variable for all the code around; one that there is keeps its value. -/
def declareHome (name : String) : Compile Unit := do
  match ← home name with
  | .object p =>
    emit (.get (← imported p 1))
    emit (.hasName (.ofString name))
    let found ← emitOpen (.jumpIfTrue 0)
    emit (.const .undefined)
    emit (.define (.ofString name))
    close found
    emit .pop
  | .script => emit (.declareGlobal (.ofString name) false)
  | .function _ | .taken => pure ()

/-! Statements that can be left -/

def openTarget (t : Target) : Compile Unit :=
  modifyCurrent fun f => { f with targets := t :: f.targets }

/-- Ends a statement that can be left: its jumps go on here, and its rounds at the given place. -/
def closeTarget (continueAt : Nat) : Compile Unit := do
  match (← get).current.targets with
  | t :: rest =>
    modifyCurrent fun f => { f with targets := rest }
    for b in t.breaks do
      close b
    for c in t.continues do
      closeAt c continueAt
  | [] => pure ()

/-- Fixes where the rounds of the innermost statement go on. -/
def closeContinues : Compile Unit := do
  match (← get).current.targets with
  | t :: rest =>
    for c in t.continues do
      close c
    modifyCurrent fun f => { f with targets := { t with continues := #[] } :: rest }
  | [] => pure ()

/-- A jump to a statement around, through the tries that are open in between. -/
def jumpThrough (depth : Nat) : Compile Nat := do
  if (← get).current.depth = depth then emitOpen (.jump 0) else emitOpen (.leave 0 depth)

/-- Leaves a statement by its label, or the nearest one that can be left without. -/
def jumpOut (isBreak : Bool) (label : Option String) : Compile Unit := do
  let accepts (t : Target) : Bool :=
    match label with
    | some l => t.labels.contains l && (isBreak || t.isLoop)
    | none => if isBreak then t.takesBreak else t.isLoop
  let targets := (← get).current.targets
  match targets.findIdx? accepts with
  | none => throw "Illegal jump"
  | some i =>
    let t := targets.getD i default
    let at' ← jumpThrough (if isBreak then t.breakDepth else t.continueDepth)
    let noted (t : Target) : Target :=
      if isBreak then { t with breaks := t.breaks.push at' }
      else { t with continues := t.continues.push at' }
    modifyCurrent fun f => { f with targets := f.targets.modify i noted }

/-- Code in which one more try is open. -/
def deeper (p : Compile Unit) : Compile Unit := do
  modifyCurrent fun f => { f with depth := f.depth + 1 }
  p
  modifyCurrent fun f => { f with depth := f.depth - 1 }

end Compile

/-- The entry points through which the rules of compilation call each other. -/
structure Compiler where
  /-- Leaves the value of an expression. -/
  expression : Node → Compile Unit
  statement : List String → Node → Compile Unit
  /-- Compiles a function under a name; the number of its code is given back. -/
  function : FunctionKind → Units → Node → Compile Nat
  /-- Takes a value apart for a target, whose names take their first values if `isFirst`. -/
  bind : Bool → Node → Compile Unit

/-- The compiler that has no room left. -/
def Compiler.exhausted : Compiler :=
  ⟨fun _ => throw "too deep", fun _ _ => throw "too deep", fun _ _ _ => throw "too deep",
   fun _ _ => throw "too deep"⟩

end Unravel.Script
