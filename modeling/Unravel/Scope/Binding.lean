import Unravel.Syntax.Path

/-! Names bound in a scope. A name is bound once per scope, however often it is declared there. -/

namespace Unravel

inductive BindingKind where
  | function
  | param
  | var
deriving DecidableEq, Repr

def BindingKind.text : BindingKind → String
  | .function => "function"
  | .param => "param"
  | .var => "var"

/-- An identifier somewhere in a tree. A tag is the base of an element name in markup. -/
structure Occurrence where
  name : String
  path : Path
  isTag : Bool := false
deriving DecidableEq, Repr

/-- A name bound in a scope, with the identifiers that declare it and those that refer to it. -/
structure Binding where
  name : String
  kind : BindingKind
  declarations : List Occurrence
  references : List Occurrence := []
deriving DecidableEq, Repr

namespace Binding

/-- Declarations first, then references. -/
def occurrences (b : Binding) : List Occurrence := b.declarations ++ b.references

def describe (b : Binding) : String :=
  "<Binding " ++ b.kind.text ++ " " ++ b.name ++ " refs=" ++ Nat.repr b.references.length ++ ">"

/-- A further declaration of a bound name: only a function declaration changes the kind. -/
def redeclare (b : Binding) (kind : BindingKind) (o : Occurrence) : Binding :=
  { b with
    kind := if kind = .function then .function else b.kind
    declarations := b.declarations ++ [o] }

/-- Declares a name among the bindings of a scope, in order of first declaration. -/
def declareIn (kind : BindingKind) (o : Occurrence) : List Binding → List Binding
  | [] => [⟨o.name, kind, [o], []⟩]
  | b :: rest =>
    if b.name = o.name then b.redeclare kind o :: rest else b :: declareIn kind o rest

def find? (name : String) (bs : List Binding) : Option Binding :=
  bs.find? fun b => b.name = name

end Binding

end Unravel
