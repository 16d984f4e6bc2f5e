import Unravel.Syntax.Literal
import Unravel.Syntax.Repeated

/-! Plain spelling of string literals that are written with `\x` or `\u` escapes. -/

namespace Unravel.Simplify

/-- Whether the backslashes at hand, an odd number of them if `odd`, escape a following `x` or
`u`, or such an escape comes later. -/
def escapesFrom (odd : Bool) : Text → Bool
  | [] => false
  | 92 :: rest => escapesFrom (!odd) rest
  | c :: rest => (odd && (c = 120 || c = 117 || c = 88 || c = 85)) || escapesFrom false rest

/-- Whether a spelling holds an unescaped backslash before `x` or `u`, in either case. -/
def hasEscape (raw : Text) : Bool := escapesFrom false raw

def escapeRule : Rule where
  finish _ n :=
    match n.label with
    | .literal (.text t) (some raw) =>
      if hasEscape raw then .change (n.update (.literal (.text t) (some t.quoted)) n.subtrees)
      else .keep n
    | _ => .keep n

/-- Respells escaped literals; the count is the number of literals respelled. -/
def escapes (tree : Node) : Node × Nat := escapeRule.run tree

end Unravel.Simplify
