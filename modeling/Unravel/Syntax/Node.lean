import Unravel.Syntax.Label

/-! Syntax trees: a label over its subtrees, each filed under the slot it hangs in. A statement
may stand at several places of a tree; its occurrences then carry one mark. -/

namespace Unravel

/-- A syntax tree. Subtrees are listed in slot order; a row contributes one entry per member.
Nodes with the same mark are occurrences of one node. -/
inductive Node where
  | marked (mark : Option Nat) (label : Label) (subtrees : List (Field × Node))
deriving Repr

namespace Node

/-- A node of its own, that no other place of the tree shares. -/
@[match_pattern]
abbrev mk (label : Label) (subtrees : List (Field × Node)) : Node := .marked none label subtrees

instance : Inhabited Node := ⟨.mk .hole []⟩

def mark? : Node → Option Nat
  | .marked m _ _ => m

def label : Node → Label
  | .marked _ l _ => l

def subtrees : Node → List (Field × Node)
  | .marked _ _ cs => cs

/-- The subtree in a slot that holds at most one. -/
def child? (n : Node) (f : Field) : Option Node :=
  (n.subtrees.find? fun c => c.1 = f).map Prod.snd

/-- The members of a row, holes included. -/
def row (n : Node) (f : Field) : List Node :=
  (n.subtrees.filter fun c => c.1 = f).map Prod.snd

def isHole (n : Node) : Bool := n.label = .hole

def isStatement (n : Node) : Bool := n.label.isStatement

/-- The subtrees in visiting order, without the holes of arrays. -/
def children (n : Node) : List Node :=
  (n.subtrees.map Prod.snd).filter fun c => !c.isHole

mutual
/-- Number of nodes. -/
def size : Node → Nat
  | .marked _ _ cs => 1 + sizeAll cs
def sizeAll : List (Field × Node) → Nat
  | [] => 0
  | (_, n) :: rest => n.size + sizeAll rest
end

/-- Folds a tree bottom-up. The step sees a label, and each subtree beside its result. -/
def fold {α : Type} (step : Label → List (Field × Node × α) → α) : Node → α
  | .marked _ l cs => step l (foldAll step cs)
where
  foldAll {α : Type} (step : Label → List (Field × Node × α) → α) :
      List (Field × Node) → List (Field × Node × α)
    | [] => []
    | (f, n) :: rest => (f, n, n.fold step) :: foldAll step rest

def identifier (name : String) : Node := .mk (.identifier name) []

/-- The name of an identifier node. -/
def identifierName? (n : Node) : Option String :=
  match n.label with
  | .identifier name => some name
  | _ => none

def block (body : List Node) : Node := .mk .blockStatement (body.map fun s => (.body, s))

def empty : Node := .mk .emptyStatement []

def unary (operator : String) (argument : Node) : Node :=
  .mk (.unaryExpression operator true) [(.argument, argument)]

/-- An operation on two operands; `||` and `&&` are logical ones. -/
def binary (operator : String) (left right : Node) : Node :=
  .mk (if operator = "||" ∨ operator = "&&" then .logicalExpression operator
    else .binaryExpression operator) [(.left, left), (.right, right)]

def call (callee : Node) (arguments : List Node) : Node :=
  .mk .callExpression ((.callee, callee) :: arguments.map fun a => (.arguments, a))

end Node

end Unravel
