import Unravel.Scope.Binding

/-! The identifiers that a declaration target or parameter binds. -/

namespace Unravel

/-- Identifiers bound by a node as a target, and as a member of an object pattern. -/
structure Targets where
  asTarget : Path → List Occurrence
  asMember : Path → List Occurrence

namespace Targets

/-- The targets in a slot, in order. -/
def below (cs : List (Field × Node × Targets)) (f : Field)
    (pick : Targets → Path → List Occurrence) (p : Path) : List Occurrence :=
  cs.zipIdx.flatMap fun ((g, _, t), i) => if g = f then pick t (p ++ [i]) else []

def step (l : Label) (cs : List (Field × Node × Targets)) : Targets :=
  let target : Path → List Occurrence :=
    match l with
    | .identifier name => fun p => [⟨name, p, false⟩]
    | .assignmentPattern => below cs .left asTarget
    | .restElement => below cs .argument asTarget
    | .arrayPattern => below cs .elements asTarget
    | .objectPattern => below cs .properties asMember
    | _ => fun _ => []
  match l with
  | .property .. => ⟨target, below cs .value asTarget⟩
  | _ => ⟨target, target⟩

end Targets

/-- The identifiers a declaration target binds, in source order. -/
def Node.boundIdentifiers (n : Node) (p : Path) : List Occurrence :=
  (n.fold Targets.step).asTarget p

end Unravel
