import Std.Data.HashSet
import Unravel.Syntax.Node

/-! What the parts of a script declare and mention, known before any of it runs. -/

namespace Unravel

namespace Node

/-- The subtree in a slot; a hole if there is none. -/
def part (n : Node) (f : Field) : Node := (n.child? f).getD default

/-- The names that a declaration target binds, in order. -/
def boundNames (n : Node) : List String :=
  n.fold fun l cs =>
    let inSlot (f : Field) : List String := cs.flatMap fun c => if c.1 = f then c.2.2 else []
    match l with
    | .identifier name => [name]
    | .assignmentPattern => inSlot .left
    | .restElement => inSlot .argument
    | .arrayPattern => inSlot .elements
    | .objectPattern => inSlot .properties
    | .property .. => inSlot .value
    | _ => []

def idName? (n : Node) : Option String := (n.child? .id).bind identifierName?

/-- Whether a node is a function with a receiver and arguments of its own. -/
def isPlainFunction (n : Node) : Bool :=
  match n.label with
  | .functionDeclaration .. | .functionExpression _ => true
  | _ => false

def isArrow (n : Node) : Bool :=
  match n.label with
  | .arrowFunctionExpression _ => true
  | _ => false

def isFunction (n : Node) : Bool := n.isPlainFunction || n.isArrow

def isFunctionDeclaration (n : Node) : Bool :=
  match n.label with
  | .functionDeclaration .. => true
  | _ => false

/-- A statement without the labels before it. -/
def unlabelled : Node → Node
  | .marked _ .labeledStatement [_, (_, body)] => body.unlabelled
  | n => n

/-- Names of `var` declarations in statements, those inside functions left out. -/
def varNames (n : Node) : List String :=
  n.fold fun l cs =>
    let inner := cs.flatMap fun c => c.2.2
    match l with
    | .functionDeclaration .. | .functionExpression _ | .arrowFunctionExpression _ => []
    | .variableDeclaration "var" => (cs.flatMap fun c => (c.2.1.part .id).boundNames) ++ inner
    | _ => inner

/-- Names with their constancy that a statement of a list declares for that list. -/
def lexicalNames (n : Node) : List (String × Bool) :=
  match n.label with
  | .variableDeclaration "var" => []
  | .variableDeclaration kind =>
    (n.row .declarations).flatMap fun d => (d.part .id).boundNames.map (·, kind = "const")
  | .classDeclaration => n.idName?.toList.map (·, false)
  | _ => []

/-- Whether a body starts with a directive that makes it strict. -/
def startsStrict (body : List Node) : Bool :=
  (body.takeWhile fun s => match s.label with
    | .expressionStatement (some _) _ => true
    | _ => false).any fun s =>
      match s.label with
      | .expressionStatement (some raw) _ => raw = Text.ofString "use strict"
      | _ => false

/-- Functions that a list of statements declares, labels before them left aside. -/
def declaredFunctions (statements : List Node) : List Node :=
  (statements.map unlabelled).filter isFunctionDeclaration

end Node

namespace Script

/-- Names of functions declared in the blocks of a body that are also variables of the whole
body. A name that a block around declares in another way is none. -/
def blockFunctionNames (n : Node) (isTop : Bool) (blocked : List String) : List String :=
  (go n isTop blocked).eraseDups
where
  go : Node → Bool → List String → List String
  | .marked _ l cs, isTop, blocked =>
    match l with
    | .functionExpression _ | .arrowFunctionExpression _ | .classDeclaration | .classExpression => []
    | .functionDeclaration .. =>
      if isTop then []
      else
        match (cs.find? fun c => c.1 = .id).bind fun c => c.2.identifierName? with
        | some name => if blocked.contains name then [] else [name]
        | none => []
    | .labeledStatement => goAll cs isTop blocked
    | .blockStatement | .switchStatement | .forStatement | .forInStatement _ | .forOfStatement
    | .catchClause =>
      let direct := cs.flatMap fun c => match c.2.label with
        | .switchCase => c.2.row .consequent
        | _ => [c.2]
      let lexicals := direct.flatMap fun s => s.lexicalNames.map Prod.fst
      let functions := (Node.declaredFunctions direct).filterMap Node.idName?
      let caught := match l with
        | .catchClause => cs.flatMap fun c =>
            if c.1 = .param && c.2.identifierName?.isNone then c.2.boundNames else []
        | _ => []
      goBlock cs (lexicals ++ caught) functions blocked
    | _ => goAll cs false blocked
  goAll : List (Field × Node) → Bool → List String → List String
  | [], _, _ => []
  | (_, n) :: rest, isTop, blocked => go n isTop blocked ++ goAll rest isTop blocked
  goBlock : List (Field × Node) → List String → List String → List String → List String
  | [], _, _, _ => []
  | (_, n) :: rest, lexicals, functions, blocked =>
    -- a function is blocked by what stands around its own block, not by its neighbours there
    let own := if n.isFunctionDeclaration then lexicals ++ blocked
      else match n.label with
        | .labeledStatement | .switchCase => lexicals ++ blocked
        | _ => lexicals ++ functions ++ blocked
    go n false own ++ goBlock rest lexicals functions blocked

/-- Names that code mentions: by itself, and in the functions inside it. The receiver and the like
count as names. -/
structure Mentions where
  own : Std.HashSet String := {}
  inner : Std.HashSet String := {}
  /-- Whether code is run in place that is not known yet. -/
  hasEval : Bool := false
  /-- Whether that happens outside the functions inside. -/
  hasOwnEval : Bool := false

/-- Names that every function with a receiver has for itself. -/
def ownNames : List String := ["this", "arguments", "new.target", "super"]

namespace Mentions

mutual
def visit : Node → Mentions → Mentions
  | .marked _ l cs, acc =>
    match l with
    | .identifier name => { acc with own := acc.own.insert name }
    | .thisExpression => { acc with own := acc.own.insert "this" }
    | .superKeyword => { acc with own := (acc.own.insert "super").insert "this" }
    | .metaProperty => { acc with own := acc.own.insert "new.target" }
    | .functionDeclaration .. | .functionExpression _ =>
      let sub := visitAll cs {}
      let all := ownNames.foldl Std.HashSet.erase (sub.own.fold Std.HashSet.insert sub.inner)
      let named := match (cs.find? fun c => c.1 = .id).bind fun c => c.2.identifierName? with
        | some name => acc.own.insert name
        | none => acc.own
      { acc with
        own := named, inner := all.fold Std.HashSet.insert acc.inner
        hasEval := acc.hasEval || sub.hasEval }
    | .arrowFunctionExpression _ =>
      let sub := visitAll cs {}
      let all := sub.own.fold Std.HashSet.insert sub.inner
      -- unknown code in place may use all that surrounds it
      let all := if sub.hasEval then ownNames.foldl Std.HashSet.insert all else all
      { acc with
        inner := all.fold Std.HashSet.insert acc.inner, hasEval := acc.hasEval || sub.hasEval }
    | .callExpression =>
      let isEval := cs.any fun c => c.1 = .callee && c.2.identifierName? = some "eval"
      visitAll cs
        { acc with hasEval := acc.hasEval || isEval, hasOwnEval := acc.hasOwnEval || isEval }
    | _ => visitAll cs acc
def visitAll : List (Field × Node) → Mentions → Mentions
  | [], acc => acc
  | (_, n) :: rest, acc => visitAll rest (visit n acc)
end

/-- What the parameters and the body of a function mention. -/
def ofFunction (n : Node) : Mentions :=
  visitAll (n.subtrees.filter fun c => c.1 ≠ .id) {}

end Mentions

end Script

end Unravel
