import Unravel.Syntax.Literal
import Unravel.Syntax.Repeated

/-! Flattened control flow: a loop over a switch whose case labels are spelled out, in running
order, by a string such as `'2|0|1'`. The loop is replaced by the case bodies in that order. -/

namespace Unravel.Simplify

/-- The labels of `'<labels>'.split('|')`. -/
def splitOrder (n : Node) : Option (List Text) := do
  if n.label ≠ .callExpression then none
  let callee ← n.child? .callee
  let name ← callee.memberName?
  if name ≠ Text.ofString "split" then none
  let labels ← (callee.child? .object).bind Node.stringValue?
  match n.row .arguments with
  | [a] => if a.stringValue? = some [124] then some (Text.splitAt 124 labels) else none
  | _ => none

/-- `i++` on a plain variable. -/
def isStateIncrement (n : Node) : Bool :=
  match n.label with
  | .updateExpression "++" false => ((n.child? .argument).bind Node.identifierName?).isSome
  | _ => false

/-- The label that a case test matches, a number as it is spelled. -/
def caseLabel (test : Node) : Option Text :=
  match test.stringValue? with
  | some t => some t
  | none => test.numberValue?.map fun v => Text.ofString v.text

/-- The labels a declaration gives to a variable, if it declares it; the last declarator counts. -/
def orderIn (name : String) (found : Option (List Text)) (declaration : Node) :
    Option (List Text) :=
  match declaration.label with
  | .variableDeclaration _ =>
    (declaration.row .declarations).foldl (fun found d =>
      if (d.child? .id).bind Node.identifierName? = some name then (d.child? .init).bind splitOrder
      else found) found
  | _ => found

/-- The labels that the statements before a loop give to a variable; the last one to declare it
decides. -/
def declaredOrder (earlier : List Node) (name : String) : Option (List Text) :=
  earlier.foldl (orderIn name) none

/-- The running order that the discriminant `order[i++]` of a switch reads. -/
def dispatchOrder (earlier : List Node) (discriminant : Node) : Option (List Text) := do
  match discriminant.label with
  | .memberExpression true =>
    let index ← discriminant.child? .property
    if !isStateIncrement index then none
    let object ← discriminant.child? .object
    match splitOrder object with
    | some order => some order
    | none => object.identifierName?.bind (declaredOrder earlier)
  | _ => none

def isJump (s : Node) : Bool :=
  s.label = .continueStatement || s.label = .breakStatement

/-- The body of the case of a label without its jumps; of two cases with one label the last. -/
def caseBody (cases : List Node) (label : Text) : List Node :=
  match cases.reverse.find? fun c => ((c.child? .test).bind caseLabel) = some label with
  | some c => (c.row .consequent).filter fun s => !isJump s
  | none => []

/-- The statements of a flattened loop in running order. -/
def unflatten? (earlier : List Node) (loop : Node) : Option (List Node) := do
  let body ← loop.child? .body
  if body.label ≠ .blockStatement then none
  let switch ← (body.row .body).find? fun s => s.label = .switchStatement
  let order ← (switch.child? .discriminant).bind (dispatchOrder earlier)
  match order.flatMap (caseBody (switch.row .cases)) with
  | [] => none
  | statements => some statements

def flatteningRule : Rule where
  finish ctx n :=
    match n.label with
    | .whileStatement =>
      match unflatten? ctx.earlier n with
      | some ss => .replace n (.statements ss)
      | none => .keep n
    | _ => .keep n

/-- The switch of a loop that runs in a known order. -/
def dispatched? (earlier : List Node) (loop : Node) : Option Node := do
  let body ← loop.child? .body
  if loop.label ≠ .whileStatement || body.label ≠ .blockStatement then none
  let switch ← (body.row .body).find? fun s => s.label = .switchStatement
  let _ ← (switch.child? .discriminant).bind (dispatchOrder earlier)
  return switch

/-- Counts the loops with a case label too long to be written. -/
def overlongLabelRule : Rule where
  finish ctx n :=
    let isOverlong (c : Node) : Bool := ((c.child? .test).bind Node.numberValue?).any Number.isOverlong
    if (dispatched? ctx.earlier n).any fun switch => (switch.row .cases).any isOverlong then .change n
    else .keep n

def hasOverlongLabel (tree : Node) : Bool := 0 < (overlongLabelRule.runOnce tree).2

/-- Whether some order in a tree names a label twice. -/
def repeatsLabel (tree : Node) : Bool :=
  tree.fold fun l cs =>
    cs.any (fun (_, _, found) => found) ||
      match splitOrder (.mk l (cs.map fun (f, n, _) => (f, n))) with
      | some order => order.eraseDups.length < order.length
      | none => false

/-- Undoes flattened control flow; the count is the number of loops replaced. Where an order names
a label twice the statements under it stand at two places, so all nodes are marked first. -/
def flattening (tree : Node) : Node × Nat :=
  if repeatsLabel tree then
    let (tree, count) := flatteningRule.runRepeated (tree.number tree.nextMark).1
    (tree.dropSingleMarks, count)
  else flatteningRule.run tree

end Unravel.Simplify
