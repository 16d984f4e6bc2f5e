import Unravel.Syntax.Node
import Unravel.Text.Quoted

/-! Literals: what kind a literal has, how one is built from a value, and the names of properties
that are known without evaluation. -/

namespace Unravel.Node

/-- The text of a string literal. -/
def stringValue? (n : Node) : Option Text :=
  match n.label with
  | .literal (.text t) _ => some t
  | _ => none

/-- The number of a numeric literal. -/
def numberValue? (n : Node) : Option Number :=
  match n.label with
  | .literal (.number v) _ => some v
  | _ => none

def boolValue? (n : Node) : Option Bool :=
  match n.label with
  | .literal (.bool b) _ => some b
  | _ => none

def isString (n : Node) : Bool := n.stringValue?.isSome

def isNumber (n : Node) : Bool := n.numberValue?.isSome

def isBoolean (n : Node) : Bool := n.boolValue?.isSome

/-- The value of a numeric literal or of a minus before one. -/
def numericValue? (n : Node) : Option Number :=
  match n.numberValue? with
  | some v => some v
  | none =>
    match n.label with
    | .unaryExpression "-" _ => (n.child? .argument).bind fun a => a.numberValue?.map Number.neg
    | _ => none

def ofText (t : Text) : Node := .mk (.literal (.text t) (some t.quoted)) []

def ofBool (b : Bool) : Node :=
  .mk (.literal (.bool b) (some (Text.ofString (if b then "true" else "false")))) []

/-- A literal of a number that is not negative. -/
def ofMagnitude (n : Number) : Node :=
  .mk (.literal (.number n.normalize) (some (Text.ofString n.text))) []

/-- A number as an expression. A negative one is a minus before a literal, since no literal is. -/
def ofNumber (n : Number) : Node :=
  if n.isNegative then unary "-" (ofMagnitude n.neg) else ofMagnitude n

/-- The name of a property key that is known without evaluation. -/
def staticKey? (key : Node) (computed : Bool) : Option Text :=
  match key.stringValue? with
  | some t => some t
  | none => if computed then none else key.identifierName?.map Text.ofString

/-- The property name of a member access that is known without evaluation. -/
def memberName? (n : Node) : Option Text :=
  match n.label with
  | .memberExpression computed => (n.child? .property).bind fun p => p.staticKey? computed
  | _ => none

end Unravel.Node
