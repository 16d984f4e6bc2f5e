import Unravel.Syntax.Literal
import Unravel.Syntax.Repeated

/-! Removal of branches that a test decided without running it never takes. -/

namespace Unravel.Simplify

/-- Whether an operator compares for equality, and which answer equal operands give. -/
def equalityAnswer? : String → Option Bool
  | "===" | "==" => some true
  | "!==" | "!=" => some false
  | _ => none

/-- The outcome of a test that is a boolean or compares two strings. -/
def staticTest (test : Node) : Option Bool :=
  match test.label with
  | .literal (.bool b) _ => some b
  | .binaryExpression op => do
    let whenEqual ← equalityAnswer? op
    let l ← (test.child? .left).bind Node.stringValue?
    let r ← (test.child? .right).bind Node.stringValue?
    return (l = r) == whenEqual
  | _ => none

/-- A statement whose names are bound by the block around it. -/
def isLexicalDeclaration (s : Node) : Bool :=
  match s.label with
  | .classDeclaration | .functionDeclaration .. => true
  | .variableDeclaration kind => kind ≠ "var"
  | _ => false

def declaresLexically (block : Node) : Bool :=
  (block.row .body).any isLexicalDeclaration

/-- What stays of an `if` whose branch is known: a block gives up its statements unless names are
bound to it. -/
def takenBranch : Option Node → Replacement
  | none => .nothing
  | some branch =>
    if branch.label = .blockStatement && !declaresLexically branch then
      .statements (branch.row .body)
    else .node branch

def branch (n : Node) (outcome : Bool) : Option Node :=
  n.child? (if outcome then .consequent else .alternate)

def deadCodeRule : Rule where
  finish _ n :=
    match n.label, (n.child? .test).bind staticTest with
    | .conditionalExpression, some outcome =>
      match branch n outcome with
      | some e => .replace n (.node e)
      | none => .replace n .nothing
    | .ifStatement, some outcome => .replace n (takenBranch (branch n outcome))
    | _, _ => .keep n

/-- Removes branches that are never taken; the count is the number of decided tests. -/
def deadCode (tree : Node) : Node × Nat := deadCodeRule.run tree

end Unravel.Simplify
