import Unravel.Scope.Binding

/-! Scopes built one by one. Scopes are numbered as they are made, so a parent has a smaller
number than its children and every chain of parents ends. -/

namespace Unravel

/-- A scope of the table. -/
structure ScopeEntry where
  parent : Option Nat
  isFunction : Bool
  bindings : List Binding := []
  children : List Nat := []
deriving Repr

structure ScopeTable where
  entries : Array ScopeEntry
deriving Repr

namespace ScopeTable

/-- A single function scope, numbered 0. -/
def start : ScopeTable := ⟨#[⟨none, true, [], []⟩]⟩

/-- Makes a scope inside another and gives its number. -/
def addChild (t : ScopeTable) (parent : Nat) (isFunction : Bool) : ScopeTable × Nat :=
  let i := t.entries.size
  let es := t.entries.modify parent fun e => { e with children := e.children ++ [i] }
  (⟨es.push ⟨some parent, isFunction, [], []⟩⟩, i)

def declare (t : ScopeTable) (i : Nat) (kind : BindingKind) (o : Occurrence) : ScopeTable :=
  ⟨t.entries.modify i fun e => { e with bindings := Binding.declareIn kind o e.bindings }⟩

def binding? (t : ScopeTable) (i : Nat) (name : String) : Option Binding :=
  (t.entries[i]?).bind fun e => Binding.find? name e.bindings

/-- The nearest scope on the chain of parents with a property. -/
def nearest? (t : ScopeTable) (test : ScopeEntry → Bool) (i : Nat) : Option Nat :=
  match t.entries[i]? with
  | none => none
  | some e =>
    if test e then some i
    else
      match e.parent with
      | none => none
      | some p => if p < i then t.nearest? test p else none
termination_by i

/-- The function scope that a scope belongs to. -/
def functionScope? (t : ScopeTable) (i : Nat) : Option Nat :=
  t.nearest? (·.isFunction) i

/-- The scope that declares a name as seen from a scope. -/
def lookup? (t : ScopeTable) (i : Nat) (name : String) : Option Nat :=
  t.nearest? (fun e => (Binding.find? name e.bindings).isSome) i

/-- Looks a name up and adds a reference to its binding. -/
def refer (t : ScopeTable) (i : Nat) (o : Occurrence) : ScopeTable × Option Nat :=
  match t.lookup? i o.name with
  | none => (t, none)
  | some j =>
    let note (b : Binding) : Binding :=
      if b.name = o.name then { b with references := b.references ++ [o] } else b
    (⟨t.entries.modify j fun e => { e with bindings := e.bindings.map note }⟩, some j)

/-- A scope and all scopes inside it, each before the scopes inside it. The fuel bounds the
nesting, which never exceeds the number of scopes. -/
def walkFrom (t : ScopeTable) : Nat → Nat → List Nat
  | 0, _ => []
  | fuel + 1, i =>
    match t.entries[i]? with
    | none => []
    | some e => i :: e.children.flatMap (t.walkFrom fuel)

def walk (t : ScopeTable) (i : Nat) : List Nat := t.walkFrom t.entries.size i

def names (t : ScopeTable) (i : Nat) : List String :=
  match t.entries[i]? with
  | none => []
  | some e => e.bindings.map (·.name)

end ScopeTable

end Unravel
