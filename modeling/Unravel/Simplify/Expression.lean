import Unravel.Syntax.Literal
import Unravel.Syntax.Repeated

/-! Folding of constant expressions: arithmetic on numbers, joined strings, the array spellings
of the booleans, `void 0`, and hexadecimal spellings of numbers. -/

namespace Unravel.Simplify

/-- Double arithmetic on two numbers. None if the operator is not arithmetic, an operand has no
double, the divisor is zero, or the result is not finite. -/
def foldArithmetic (operator : String) (left right : Number) : Option Double :=
  if operator = "/" ∧ right.isZero then none
  else do
    let x ← left.toDouble?
    let y ← right.toDouble?
    let z ← match operator with
      | "+" => some (x.add y)
      | "-" => some (x.sub y)
      | "*" => some (x.mul y)
      | "/" => some (x.div y)
      | _ => none
    if z.isFinite then some z else none

def isEmptyArray (n : Node) : Bool :=
  n.label = .arrayExpression && n.subtrees.isEmpty

/-- `! e` for an operand that satisfies a test. -/
def isNegated (test : Node → Bool) (n : Node) : Bool :=
  match n.label with
  | .unaryExpression "!" _ => (n.child? .argument).any test
  | _ => false

/-- `!![]` is true; it is settled before the inner `![]` is folded. -/
def foldEarly (n : Node) : Option Visit :=
  if isNegated (isNegated isEmptyArray) n then some (.replace n (.node (.ofBool true))) else none

def foldUnary (n : Node) : Visit :=
  if isNegated isEmptyArray n then .replace n (.node (.ofBool false))
  else
    match n.label, (n.child? .argument).bind Node.numberValue? with
    | .unaryExpression "void" _, some v =>
      if v.isZero then .replace n (.node (.identifier "undefined")) else .keep n
    | _, _ => .keep n

def foldNumbers (operator : String) (left right : Node) : Option Double := do
  foldArithmetic operator (← left.numericValue?) (← right.numericValue?)

def foldStrings (operator : String) (left right : Node) : Option Text :=
  if operator = "+" then do return (← left.stringValue?) ++ (← right.stringValue?) else none

def foldBinary (operator : String) (n : Node) : Visit :=
  match n.child? .left, n.child? .right with
  | some l, some r =>
    match foldNumbers operator l r with
    | some d => .replace n (.node (.ofNumber (.double d)))
    | none =>
      match foldStrings operator l r with
      | some t => .replace n (.node (.ofText t))
      | none => .keep n
  | _, _ => .keep n

/-- Whether a number is spelled in hexadecimal. -/
def isHexSpelling (raw : Text) : Bool :=
  match raw with
  | 48 :: x :: _ => x = 120 || x = 88
  | _ => false

def expressionRule : Rule where
  early := foldEarly
  finish _ n :=
    match n.label with
    | .unaryExpression .. => foldUnary n
    | .binaryExpression op => foldBinary op n
    | .literal (.number v) (some raw) =>
      if isHexSpelling raw then
        .change (n.update (.literal (.number v) (some (Text.ofString v.text))) n.subtrees)
      else .keep n
    | _ => .keep n

/-- Whether a number that is spelled in hexadecimal has too many digits for a plain spelling. -/
def hasOverlongSpelling (tree : Node) : Bool :=
  tree.fold fun l cs =>
    cs.any (fun (_, _, found) => found) ||
      match l with
      | .literal (.number v) (some raw) => isHexSpelling raw && v.isOverlong
      | _ => false

/-- Folds constant expressions; the count is the number of folds. -/
def expressions (tree : Node) : Node × Nat := expressionRule.run tree

end Unravel.Simplify
