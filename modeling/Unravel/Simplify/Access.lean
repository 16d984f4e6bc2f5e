import Unravel.Syntax.Literal
import Unravel.Syntax.Repeated

/-! Property access by a plain name: `obj['name']` becomes `obj.name`. -/

namespace Unravel.Simplify

def isPlainStart (c : Nat) : Bool :=
  (97 ≤ c && c ≤ 122) || (65 ≤ c && c ≤ 90) || c = 95 || c = 36

def isPlainPart (c : Nat) : Bool :=
  isPlainStart c || (48 ≤ c && c ≤ 57)

/-- A name of ASCII letters, digits, `_` and `$` that does not start with a digit. -/
def isPlainName : Text → Bool
  | [] => false
  | c :: rest => isPlainStart c && rest.all isPlainPart

def accessRule : Rule where
  finish _ n :=
    match n.label, n.child? .object, (n.child? .property).bind Node.stringValue? with
    | .memberExpression true, some object, some name =>
      if isPlainName name then
        .change (n.update (.memberExpression false)
          [(.object, object), (.property, .identifier name.toString)])
      else .keep n
    | _, _, _ => .keep n

/-- Changes access by a literal name; the count is the number of accesses changed. -/
def access (tree : Node) : Node × Nat := accessRule.run tree

end Unravel.Simplify
