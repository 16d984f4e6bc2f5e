import Unravel.Json
import Unravel.Syntax.Node

/-! Syntax trees as JSON records: the kind under `type`, atoms and subtrees under their names.
An absent atom is false or null, and a number is a record that tells an integer from a double. -/

namespace Unravel

namespace Json

def flag (j : Json) (key : String) : Bool :=
  match j.get? key with
  | some (.bool b) => b
  | _ => false

def text? (j : Json) (key : String) : Option Text :=
  match j.get? key with
  | some (.text t) => some t
  | _ => none

def string (j : Json) (key : String) : String :=
  ((j.text? key).getD []).toString

def nat? : Json → Option Nat
  | .number (.int n) => if 0 ≤ n then some n.toNat else none
  | _ => none

end Json

namespace Number

/-- Digits, with an optional sign before them. -/
def int? (t : Text) : Option Int :=
  let digits (ds : Text) : Option Nat :=
    if ds.isEmpty || ds.any (fun c => c < 48 || 57 < c) then none
    else some (ds.foldl (fun n c => n * 10 + (c - 48)) 0)
  match t with
  | 45 :: ds => (digits ds).map fun n => -(n : Int)
  | ds => (digits ds).map fun n => (n : Int)

/-- The double that a decimal text names, rounded to nearest. -/
def double? (t : Text) : Option Double :=
  let (negative, body) := match t with
    | 45 :: more => (true, more)
    | more => (false, more)
  if body = Text.ofString "inf" then some (.infinite negative)
  else if body = Text.ofString "nan" then some .nan
  else
    let isDigit (c : Nat) : Bool := 48 ≤ c && c ≤ 57
    let value (ds : Text) : Nat := ds.foldl (fun n c => n * 10 + (c - 48)) 0
    let whole := body.takeWhile isDigit
    let rest := body.dropWhile isDigit
    let (fraction, rest) := match rest with
      | 46 :: more => (more.takeWhile isDigit, more.dropWhile isDigit)
      | more => ([], more)
    let digits := value (whole ++ fraction)
    let places : Int := fraction.length
    match rest with
    | [] => some (Double.ofDecimal negative digits (-places))
    | e :: more =>
      if e = 101 || e = 69 then
        let more := match more with
          | 43 :: m => m
          | m => m
        (int? more).map fun x => Double.ofDecimal negative digits (x - places)
      else none

def toJson : Number → Json
  | .int n => .record [("int", .ofString (intText n))]
  | .double d => .record [("float", .ofString (doubleText d))]

def ofJson? (j : Json) : Option Number :=
  match j.text? "int" with
  | some t => (int? t).map .int
  | none => (j.text? "float").bind fun t => (double? t).map .double

end Number

namespace Label

def flagsOf (j : Json) : FunctionFlags :=
  ⟨j.flag "generator", j.flag "isAsync", j.flag "expression"⟩

def spanOf (j : Json) : Option Span :=
  match j.get? "range" with
  | some (.list [a, b]) => do return ⟨← a.nat?, ← b.nat?⟩
  | _ => none

def literalOf (j : Json) : LiteralValue :=
  match j.get? "regex" with
  | some r => .regex ((r.text? "pattern").getD []) ((r.text? "flags").getD [])
  | none =>
    match j.get? "value" with
    | some (.text t) => .text t
    | some (.bool b) => .bool b
    | some (.object ms) =>
      match Number.ofJson? (.object ms) with
      | some n => .number n
      | none => .null
    | _ => .null

/-- The label of a record of the given kind. -/
def ofRecord? (kind : String) (j : Json) : Option Label :=
  match kind with
  | "ArrayExpression" => some .arrayExpression
  | "ArrayPattern" => some .arrayPattern
  | "ArrowFunctionExpression" => some (.arrowFunctionExpression (flagsOf j))
  | "AssignmentExpression" => some (.assignmentExpression (j.string "operator"))
  | "AssignmentPattern" => some .assignmentPattern
  | "AwaitExpression" => some .awaitExpression
  | "BinaryExpression" => some (.binaryExpression (j.string "operator"))
  | "BlockStatement" => some .blockStatement
  | "BreakStatement" => some .breakStatement
  | "CallExpression" => some .callExpression
  | "CatchClause" => some .catchClause
  | "ClassBody" => some .classBody
  | "ClassDeclaration" => some .classDeclaration
  | "ClassExpression" => some .classExpression
  | "ConditionalExpression" => some .conditionalExpression
  | "ContinueStatement" => some .continueStatement
  | "DebuggerStatement" => some .debuggerStatement
  | "DoWhileStatement" => some .doWhileStatement
  | "EmptyStatement" => some .emptyStatement
  | "ExportAllDeclaration" => some .exportAllDeclaration
  | "ExportDefaultDeclaration" => some .exportDefaultDeclaration
  | "ExportDefaultSpecifier" => some .exportDefaultSpecifier
  | "ExportNamedDeclaration" => some .exportNamedDeclaration
  | "ExportSpecifier" => some .exportSpecifier
  | "ExpressionStatement" => some (.expressionStatement (j.text? "directive") (spanOf j))
  | "ForInStatement" => some (.forInStatement (j.flag "each"))
  | "ForOfStatement" => some .forOfStatement
  | "ForStatement" => some .forStatement
  | "FunctionDeclaration" => some (.functionDeclaration (flagsOf j) (spanOf j))
  | "FunctionExpression" => some (.functionExpression (flagsOf j))
  | "Identifier" => some (.identifier (j.string "name"))
  | "IfStatement" => some .ifStatement
  | "Import" => some .importKeyword
  | "ImportDeclaration" => some .importDeclaration
  | "ImportDefaultSpecifier" => some .importDefaultSpecifier
  | "ImportNamespaceSpecifier" => some .importNamespaceSpecifier
  | "ImportSpecifier" => some .importSpecifier
  | "JSXAttribute" => some .jsxAttribute
  | "JSXClosingElement" => some .jsxClosingElement
  | "JSXElement" => some .jsxElement
  | "JSXEmptyExpression" => some .jsxEmptyExpression
  | "JSXExpressionContainer" => some .jsxExpressionContainer
  | "JSXIdentifier" => some (.jsxIdentifier (j.string "name"))
  | "JSXMemberExpression" => some .jsxMemberExpression
  | "JSXNamespacedName" => some .jsxNamespacedName
  | "JSXOpeningElement" => some (.jsxOpeningElement (j.flag "selfClosing"))
  | "JSXSpreadAttribute" => some .jsxSpreadAttribute
  | "JSXText" => some (.jsxText ((j.text? "value").getD []) ((j.text? "raw").getD []))
  | "LabeledStatement" => some .labeledStatement
  | "Literal" => some (.literal (literalOf j) (j.text? "raw"))
  | "LogicalExpression" => some (.logicalExpression (j.string "operator"))
  | "MemberExpression" => some (.memberExpression (j.flag "computed"))
  | "MetaProperty" => some .metaProperty
  | "MethodDefinition" =>
    some (.methodDefinition (j.flag "computed") (j.flag "static") (j.string "kind"))
  | "NewExpression" => some .newExpression
  | "ObjectExpression" => some .objectExpression
  | "ObjectPattern" => some .objectPattern
  | "Program" => some (.program (j.string "sourceType"))
  | "Property" =>
    some (.property (j.flag "computed") (j.flag "method") (j.flag "shorthand") (j.string "kind"))
  | "RestElement" => some .restElement
  | "ReturnStatement" => some .returnStatement
  | "SequenceExpression" => some .sequenceExpression
  | "SpreadElement" => some .spreadElement
  | "Super" => some .superKeyword
  | "SwitchCase" => some .switchCase
  | "SwitchStatement" => some .switchStatement
  | "TaggedTemplateExpression" => some .taggedTemplateExpression
  | "TemplateElement" =>
    let v := (j.get? "value").getD .null
    some (.templateElement ((v.text? "raw").getD []) ((v.text? "cooked").getD []) (j.flag "tail"))
  | "TemplateLiteral" => some .templateLiteral
  | "ThisExpression" => some .thisExpression
  | "ThrowStatement" => some .throwStatement
  | "TryStatement" => some .tryStatement
  | "UnaryExpression" => some (.unaryExpression (j.string "operator") (j.flag "prefix"))
  | "UpdateExpression" => some (.updateExpression (j.string "operator") (j.flag "prefix"))
  | "VariableDeclaration" => some (.variableDeclaration (j.string "kind"))
  | "VariableDeclarator" => some .variableDeclarator
  | "WhileStatement" => some .whileStatement
  | "WithStatement" => some .withStatement
  | "YieldExpression" => some (.yieldExpression (j.flag "delegate"))
  | _ => none

def literalMembers : LiteralValue → List (String × Json)
  | .null => [("value", .null)]
  | .bool b => [("value", .bool b)]
  | .number n => [("value", n.toJson)]
  | .text t => [("value", .text t)]
  | .regex p f => [("regex", .record [("pattern", .text p), ("flags", .text f)])]

def flagMembers (flags : List (String × Bool)) : List (String × Json) :=
  flags.filterMap fun (k, b) => if b then some (k, .bool true) else none

def functionMembers (f : FunctionFlags) : List (String × Json) :=
  flagMembers [("expression", f.expression), ("isAsync", f.isAsync), ("generator", f.generator)]

/-- The atoms of a label as record members; what is false or null is left out. -/
def members : Label → List (String × Json)
  | .arrowFunctionExpression f | .functionDeclaration f _ | .functionExpression f => functionMembers f
  | .assignmentExpression o | .binaryExpression o | .logicalExpression o => [("operator", .ofString o)]
  | .expressionStatement (some d) _ => [("directive", .text d)]
  | .forInStatement e => flagMembers [("each", e)]
  | .identifier n | .jsxIdentifier n => [("name", .ofString n)]
  | .jsxOpeningElement s => flagMembers [("selfClosing", s)]
  | .jsxText v r => [("value", .text v), ("raw", .text r)]
  | .literal v r => literalMembers v ++ (r.map fun t => ("raw", Json.text t)).toList
  | .memberExpression c => flagMembers [("computed", c)]
  | .methodDefinition c s k => flagMembers [("computed", c), ("static", s)] ++ [("kind", .ofString k)]
  | .program s => [("sourceType", .ofString s)]
  | .property c m s k =>
    flagMembers [("computed", c), ("method", m), ("shorthand", s)] ++ [("kind", .ofString k)]
  | .templateElement r c t =>
    ("value", .record [("raw", .text r), ("cooked", .text c)]) :: flagMembers [("tail", t)]
  | .unaryExpression o p | .updateExpression o p =>
    ("operator", .ofString o) :: flagMembers [("prefix", p)]
  | .variableDeclaration k => [("kind", .ofString k)]
  | .yieldExpression d => flagMembers [("delegate", d)]
  | _ => []

end Label

namespace Node

/-- Files converted subtrees under their slots, a row as a list. -/
def slotMembers (cs : List (Field × Json)) : List Slot → List (String × Json)
  | [] => []
  | .one f :: rest =>
    ((cs.find? fun c => c.1 = f).map fun c => (f.text, c.2)).toList ++ slotMembers cs rest
  | .many f :: rest =>
    (f.text, .list ((cs.filter fun c => c.1 = f).map Prod.snd)) :: slotMembers cs rest

/-- The record of a tree. -/
def toJson (n : Node) : Json :=
  n.fold fun l cs =>
    match l with
    | .hole => .null
    | l => .record (("type", .ofString l.name) :: l.members
        ++ slotMembers (cs.map fun (f, _, j) => (f, j)) l.slots)

mutual
/-- The tree of a record; a null is a hole. The fuel bounds the depth. -/
def ofJson? (fuel : Nat) (j : Json) : Option Node :=
  match fuel with
  | 0 => none
  | fuel + 1 =>
    match j with
    | .null => some (.mk .hole [])
    | j => do
      let l ← Label.ofRecord? (j.string "type") j
      return .mk l (← slots? fuel j l.slots)
def slots? (fuel : Nat) (j : Json) (slots : List Slot) : Option (List (Field × Node)) :=
  match fuel with
  | 0 => none
  | fuel + 1 =>
    match slots with
    | [] => some []
    | .one f :: rest => do
      let more ← slots? fuel j rest
      match j.get? f.text with
      | none | some .null => return more
      | some c => return (f, ← ofJson? fuel c) :: more
    | .many f :: rest => do
      let more ← slots? fuel j rest
      match j.get? f.text with
      | some (.list items) => return (← items.mapM (ofJson? fuel)).map (fun n => (f, n)) ++ more
      | _ => return more
end

end Node

end Unravel
