import Unravel.Syntax.Literal
import Unravel.Syntax.Repeated

/-! Proxy objects: object literals whose members are strings or wrap one operation or call.
`p.add(x, y)` becomes `x + y`, and `p.name` the string it holds. -/

namespace Unravel.Simplify

/-- What a member of a proxy object stands for. -/
inductive Operation where
  | string (value : Text)
  | binary (operator : String)
  | logical (operator : String)
  | call
deriving DecidableEq, Repr

/-- The name a parameter or argument passes on; a rest or spread one is marked by dots. -/
def passedName? (n : Node) : Option String :=
  match n.label with
  | .identifier name => some name
  | .restElement | .spreadElement =>
    ((n.child? .argument).bind Node.identifierName?).map fun name => "..." ++ name
  | _ => none

/-- The expression that is all a function does: its concise body, or its one return. -/
def returned? (f : Node) : Option Node := do
  let body ← f.child? .body
  if body.label ≠ .blockStatement then some body
  else
    match body.row .body with
    | [s] => if s.label = .returnStatement then s.child? .argument else none
    | _ => none

def isNamed (n : Option Node) (name : Option String) : Bool :=
  match n.bind Node.identifierName?, name with
  | some a, some b => a = b
  | _, _ => false

/-- Whether arguments pass on the named parameters one by one. -/
def forwards (arguments : List Node) (params : List (Option String)) : Bool :=
  arguments.length = params.length &&
    (arguments.zip params).all fun (a, p) => p.isSome && passedName? a = p

/-- The operation a function of the given parameters wraps. -/
def wrapped? (params : List (Option String)) (e : Node) : Option Operation :=
  let operands : Bool :=
    isNamed (e.child? .left) (params[0]?.join) && isNamed (e.child? .right) (params[1]?.join)
  match e.label with
  | .binaryExpression op => if operands then some (.binary op) else none
  | .logicalExpression op => if operands then some (.logical op) else none
  | .callExpression =>
    match params with
    | [] => none
    | p :: rest =>
      if isNamed (e.child? .callee) p && forwards (e.row .arguments) rest then some .call else none
  | _ => none

/-- What a property value stands for, if it is a string or wraps one operation. -/
def classify (value : Node) : Option Operation :=
  match value.stringValue? with
  | some t => some (.string t)
  | none =>
    match value.label with
    | .functionExpression _ | .arrowFunctionExpression _ =>
      (returned? value).bind (wrapped? ((value.row .params).map passedName?))
    | _ => none

/-- The members of proxy objects by object name and property name. -/
abbrev ProxyTable := List (String × List (Text × Operation))

/-- The operation filed under an object and a key. Of two objects of one name the first listed,
which is the one declared last, is the one read. -/
def ProxyTable.lookup (t : ProxyTable) (object : String) (key : Text) : Option Operation :=
  ((t.find? fun e => e.1 = object).bind fun e => (e.2.find? fun m => m.1 = key)).map Prod.snd

/-- The members of an object literal that stand for an operation, the last of a name first. -/
def operations (object : Node) : List (Text × Operation) :=
  (object.row .properties).foldl (fun found p =>
    match p.label with
    | .property computed _ _ "init" =>
      match (p.child? .key).bind fun k => k.staticKey? computed, (p.child? .value).bind classify with
      | some key, some op => (key, op) :: found
      | _, _ => found
    | _ => found) []

/-- The entry of a declarator that names a proxy object. -/
def proxyDeclared? (declarator : Node) : Option (String × List (Text × Operation)) := do
  let name ← (declarator.child? .id).bind Node.identifierName?
  let object ← declarator.child? .init
  if object.label = .objectExpression then
    match operations object with
    | [] => none
    | ops => some (name, ops)
  else none

mutual
/-- All proxy objects of a tree, the one declared last first. -/
def proxies (found : ProxyTable) : Node → ProxyTable
  | .marked m l cs =>
    let inner := proxiesAll found cs
    if l = .variableDeclarator then ((proxyDeclared? (.marked m l cs)).map (· :: inner)).getD inner
    else inner
def proxiesAll (found : ProxyTable) : List (Field × Node) → ProxyTable
  | [] => found
  | (_, n) :: rest => proxiesAll (proxies found n) rest
end

/-- The operation behind a member access of a proxy object. -/
def ProxyTable.member? (t : ProxyTable) (n : Node) : Option Operation :=
  match n.label with
  | .memberExpression _ => do
    t.lookup (← (n.child? .object).bind Node.identifierName?) (← n.memberName?)
  | _ => none

/-- Whether a node in this place is called, written or deleted rather than read. -/
def Context.isTarget (ctx : Context) : Bool :=
  match ctx.parent with
  | some .callExpression | some .newExpression => ctx.field = .callee
  | some (.assignmentExpression _) => ctx.field = .left
  | some (.updateExpression ..) => true
  | some (.unaryExpression "delete" _) => true
  | _ => false

def isSpread (n : Node) : Bool := n.label = .spreadElement

/-- A call through a proxy member, with the wrapped operation in its place. -/
def inlineCall? (t : ProxyTable) (n : Node) : Option Node := do
  let op ← (n.child? .callee).bind t.member?
  match op, n.row .arguments with
  | .binary o, [a, b] | .logical o, [a, b] =>
    if isSpread a || isSpread b then none else some (.binary o a b)
  | .call, f :: args => if isSpread f then none else some (.call f args)
  | _, _ => none

def proxyRule (t : ProxyTable) : Rule where
  finish ctx n :=
    match n.label with
    | .callExpression =>
      match inlineCall? t n with
      | some e => .replace n (.node e)
      | none => .keep n
    | .memberExpression _ =>
      if Context.isTarget ctx then .keep n
      else
        match t.member? n with
        | some (.string s) => .replace n (.node (.ofText s))
        | _ => .keep n
    | _ => .keep n

/-- Inlines calls through proxy objects and reads of their strings. -/
def proxyCalls (tree : Node) : Node × Nat :=
  match proxies [] tree with
  | [] => (tree, 0)
  | t => (proxyRule t).run tree

end Unravel.Simplify
