import Unravel.Syntax.Literal
import Unravel.Syntax.Path

/-! What the search for string tables reads off a tree: the names a fragment uses, the methods it
calls, and whether it holds a large array of strings. -/

namespace Unravel

namespace Node

mutual
/-- A tree and all trees below it with their positions, in visiting order. -/
def located (p : Path) : Node → List (Path × Node)
  | .marked m l cs => (p, .marked m l cs) :: locatedAll p 0 cs
def locatedAll (p : Path) (i : Nat) : List (Field × Node) → List (Path × Node)
  | [] => []
  | (_, n) :: rest => n.located (p ++ [i]) ++ locatedAll p (i + 1) rest
end

/-- Whether the name at a subtree counts as used: keys and member names only where computed. -/
def namesUsed (l : Label) (f : Field) : Bool :=
  match l with
  | .memberExpression computed => computed || f = .object
  | .property computed .. | .methodDefinition computed .. => computed || f = .value
  | _ => true

/-- Identifier names used in a tree, plain property names left out, in order and repeated. -/
def referencedNames (n : Node) : List String :=
  n.fold fun l cs =>
    match l with
    | .identifier name => [name]
    | l => cs.flatMap fun (f, _, names) => if namesUsed l f then names else []

/-- Names of the methods that a tree calls. -/
def memberCalls (n : Node) : List Text :=
  n.fold fun l cs =>
    let inner := cs.flatMap fun (_, _, names) => names
    match l with
    | .callExpression =>
      match cs.find? fun c => c.1 = .callee with
      | some (_, callee, _) => callee.memberName?.toList ++ inner
      | none => inner
    | _ => inner

/-- The least number of strings that makes an array a table. -/
def minTableSize : Nat := 6

def isTable (n : Node) : Bool :=
  n.label = .arrayExpression && minTableSize ≤ (n.row .elements).length
    && (n.row .elements).all isString

/-- Whether an array of strings large enough to be a table stands anywhere in a tree. -/
def holdsTable (n : Node) : Bool :=
  (n.located []).any fun (_, m) => m.isTable

def hasStringTable (function : Node) : Bool :=
  (function.child? .body).any holdsTable

/-- A statement that calls a function expression on the spot. -/
def isIifeStatement (s : Node) : Bool :=
  match s.label, s.child? .expression with
  | .expressionStatement .., some e =>
    match e.label, (e.child? .callee).map Node.label with
    | .callExpression, some (.functionExpression _) => true
    | .callExpression, some (.arrowFunctionExpression _) => true
    | _, _ => false
  | _, _ => false

/-- Source text of an argument that is a plain literal. -/
def literalArgument? (a : Node) : Option Text :=
  match a.stringValue? with
  | some t => some t.quoted
  | none => a.numericValue?.map fun v => Text.ofString v.text

/-- Source text of each argument; none if one is not a plain literal. -/
def literalArguments? (arguments : List Node) : Option (List Text) :=
  arguments.mapM literalArgument?

end Node

end Unravel
