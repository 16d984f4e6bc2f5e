import Unravel.Scope.Event

/-! Scope analysis. A name is looked up in the innermost scope around it that declares it
anywhere, before or after the use; a name that no scope declares belongs to no binding. -/

namespace Unravel

/-- A scope with its bindings and the scopes inside it. -/
inductive Scope where
  | mk (path : Path) (label : Label) (isFunction : Bool) (bindings : List Binding)
    (children : List Scope)
deriving Repr

namespace Scope

def bindings : Scope → List Binding
  | .mk _ _ _ bs _ => bs

mutual
/-- A scope and all scopes inside it, in order of creation. -/
def walk : Scope → List Scope
  | .mk p l f bs cs => .mk p l f bs cs :: walkAll cs
def walkAll : List Scope → List Scope
  | [] => []
  | s :: rest => s.walk ++ walkAll rest
end

end Scope

namespace Event

mutual
/-- Declarations that land in a scope, in walking order. The flags say which reaches land there
from where the events stand. -/
def landing (here function root : Bool) : Event → List (BindingKind × Occurrence)
  | .declare .here kind o => if here then [(kind, o)] else []
  | .declare .function kind o => if function then [(kind, o)] else []
  | .declare .root kind o => if root then [(kind, o)] else []
  | .refer _ => []
  | .scope _ _ isFunction events => landingAll false (function && !isFunction) root events
def landingAll (here function root : Bool) : List Event → List (BindingKind × Occurrence)
  | [] => []
  | e :: rest => landing here function root e ++ landingAll here function root rest
end

/-- The bindings of a scope with the given events, not yet referred to. -/
def bindingsOf (isFunction isRoot : Bool) (events : List Event) : List Binding :=
  (landingAll true isFunction isRoot events).foldl
    (fun bs (kind, o) => Binding.declareIn kind o bs) []

mutual
/-- Positions of all declared identifiers. -/
def declared : Event → List Path
  | .declare _ _ o => [o.path]
  | .refer _ => []
  | .scope _ _ _ events => declaredAll events
def declaredAll : List Event → List Path
  | [] => []
  | e :: rest => declared e ++ declaredAll rest
end

/-- The scopes around a place, innermost first: where each stands and the names it binds. -/
abbrev Surroundings := List (Path × List String)

/-- The innermost scope that binds a name. -/
def Surroundings.find? (env : Surroundings) (name : String) : Option Path :=
  (List.find? (fun s => s.2.contains name) env).map Prod.fst

mutual
/-- Uses of names with the scope that binds each, in walking order. Declared identifiers are no
uses, and a use that no scope binds is left out. -/
def resolve (declared : List Path) (isRoot : Bool) (env : Surroundings) :
    Event → List (Path × Occurrence)
  | .declare .. => []
  | .refer o =>
    if declared.contains o.path then []
    else (env.find? o.name).toList.map fun s => (s, o)
  | .scope p _ isFunction events =>
    resolveAll declared ((p, (bindingsOf isFunction isRoot events).map (·.name)) :: env) events
def resolveAll (declared : List Path) (env : Surroundings) : List Event → List (Path × Occurrence)
  | [] => []
  | e :: rest => resolve declared false env e ++ resolveAll declared env rest
end

/-- Adds to a binding the uses that resolve to it. -/
def withReferences (resolved : List (Path × Occurrence)) (scope : Path) (b : Binding) : Binding :=
  { b with
    references := (resolved.filter fun r => r.1 = scope && r.2.name = b.name).map Prod.snd }

mutual
/-- The scopes that events open, with their bindings. -/
def scopes (resolved : List (Path × Occurrence)) (isRoot : Bool) : Event → List Scope
  | .declare .. => []
  | .refer _ => []
  | .scope p l isFunction events =>
    [.mk p l isFunction ((bindingsOf isFunction isRoot events).map (withReferences resolved p))
      (scopesAll resolved events)]
def scopesAll (resolved : List (Path × Occurrence)) : List Event → List Scope
  | [] => []
  | e :: rest => scopes resolved false e ++ scopesAll resolved rest
end

end Event

/-- The scope tree of a program. -/
def Node.scope (program : Node) : Scope :=
  let events := program.events
  let declared := Event.declaredAll events
  let resolved := events.flatMap (Event.resolve declared true [])
  match events.flatMap (Event.scopes resolved true) with
  | s :: _ => s
  | [] => .mk [] program.label true [] []

end Unravel
