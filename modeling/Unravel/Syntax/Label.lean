import Unravel.Number.Basic
import Unravel.Text

/-! What stands at a node of a syntax tree: its kind with the atoms it carries, and the slots,
in order, in which its subtrees hang. -/

namespace Unravel

/-- A slot of a node. -/
inductive Field where
  | alternate | argument | arguments | attributes | block | body | callee | cases | children
  | closingElement | consequent | declaration | declarations | discriminant | elements | exported
  | expression | expressions | finalizer | handler | id | imported | init | key | label | left
  | localName | metaName | name | nsName | object | openingElement | param | params | properties
  | property | quasi | quasis | right | source | specifiers | superClass | tag | test | update
  | value
deriving DecidableEq, Repr

/-- The name a slot goes by in an interchanged tree. -/
def Field.text : Field → String
  | .alternate => "alternate" | .argument => "argument" | .arguments => "arguments"
  | .attributes => "attributes" | .block => "block" | .body => "body" | .callee => "callee"
  | .cases => "cases" | .children => "children" | .closingElement => "closingElement"
  | .consequent => "consequent" | .declaration => "declaration" | .declarations => "declarations"
  | .discriminant => "discriminant" | .elements => "elements" | .exported => "exported"
  | .expression => "expression" | .expressions => "expressions" | .finalizer => "finalizer"
  | .handler => "handler" | .id => "id" | .imported => "imported" | .init => "init" | .key => "key"
  | .label => "label" | .left => "left" | .localName => "local" | .metaName => "meta"
  | .name => "name" | .nsName => "namespace" | .object => "object"
  | .openingElement => "openingElement" | .param => "param" | .params => "params"
  | .properties => "properties" | .property => "property" | .quasi => "quasi" | .quasis => "quasis"
  | .right => "right" | .source => "source" | .specifiers => "specifiers"
  | .superClass => "superClass" | .tag => "tag" | .test => "test" | .update => "update"
  | .value => "value"

/-- The value of a literal. -/
inductive LiteralValue where
  | null
  | bool (value : Bool)
  | number (value : Number)
  | text (value : Text)
  | regex (pattern flags : Text)
deriving DecidableEq, Repr

/-- Half-open range of code points in the source. -/
structure Span where
  start : Nat
  stop : Nat
deriving DecidableEq, Repr

structure FunctionFlags where
  generator : Bool := false
  isAsync : Bool := false
  expression : Bool := false
deriving DecidableEq, Repr

/-- The kind of a node and its atoms. The two kinds of statement whose source text can be quoted
carry their span. An empty place in an array is a node of its own kind, `hole`. -/
inductive Label where
  | arrayExpression
  | arrayPattern
  | arrowFunctionExpression (flags : FunctionFlags)
  | assignmentExpression (operator : String)
  | assignmentPattern
  | awaitExpression
  | binaryExpression (operator : String)
  | blockStatement
  | breakStatement
  | callExpression
  | catchClause
  | classBody
  | classDeclaration
  | classExpression
  | conditionalExpression
  | continueStatement
  | debuggerStatement
  | doWhileStatement
  | emptyStatement
  | exportAllDeclaration
  | exportDefaultDeclaration
  | exportDefaultSpecifier
  | exportNamedDeclaration
  | exportSpecifier
  | expressionStatement (directive : Option Text) (span : Option Span)
  | forInStatement (each : Bool)
  | forOfStatement
  | forStatement
  | functionDeclaration (flags : FunctionFlags) (span : Option Span)
  | functionExpression (flags : FunctionFlags)
  | hole
  | identifier (name : String)
  | ifStatement
  | importKeyword
  | importDeclaration
  | importDefaultSpecifier
  | importNamespaceSpecifier
  | importSpecifier
  | jsxAttribute
  | jsxClosingElement
  | jsxElement
  | jsxEmptyExpression
  | jsxExpressionContainer
  | jsxIdentifier (name : String)
  | jsxMemberExpression
  | jsxNamespacedName
  | jsxOpeningElement (selfClosing : Bool)
  | jsxSpreadAttribute
  | jsxText (value raw : Text)
  | labeledStatement
  | literal (value : LiteralValue) (raw : Option Text)
  | logicalExpression (operator : String)
  | memberExpression (computed : Bool)
  | metaProperty
  | methodDefinition (computed isStatic : Bool) (kind : String)
  | newExpression
  | objectExpression
  | objectPattern
  | program (sourceType : String)
  | property (computed method shorthand : Bool) (kind : String)
  | restElement
  | returnStatement
  | sequenceExpression
  | spreadElement
  | superKeyword
  | switchCase
  | switchStatement
  | taggedTemplateExpression
  | templateElement (raw cooked : Text) (tail : Bool)
  | templateLiteral
  | thisExpression
  | throwStatement
  | tryStatement
  | unaryExpression (operator : String) (isPrefix : Bool)
  | updateExpression (operator : String) (isPrefix : Bool)
  | variableDeclaration (kind : String)
  | variableDeclarator
  | whileStatement
  | withStatement
  | yieldExpression (delegate : Bool)
deriving DecidableEq, Repr

/-- A slot that holds at most one subtree, or a row of them. -/
inductive Slot where
  | one (field : Field)
  | many (field : Field)
deriving DecidableEq, Repr

def Slot.field : Slot → Field
  | .one f => f
  | .many f => f

namespace Label

/-- The name of the kind. -/
def name : Label → String
  | arrayExpression => "ArrayExpression"
  | arrayPattern => "ArrayPattern"
  | arrowFunctionExpression _ => "ArrowFunctionExpression"
  | assignmentExpression _ => "AssignmentExpression"
  | assignmentPattern => "AssignmentPattern"
  | awaitExpression => "AwaitExpression"
  | binaryExpression _ => "BinaryExpression"
  | blockStatement => "BlockStatement"
  | breakStatement => "BreakStatement"
  | callExpression => "CallExpression"
  | catchClause => "CatchClause"
  | classBody => "ClassBody"
  | classDeclaration => "ClassDeclaration"
  | classExpression => "ClassExpression"
  | conditionalExpression => "ConditionalExpression"
  | continueStatement => "ContinueStatement"
  | debuggerStatement => "DebuggerStatement"
  | doWhileStatement => "DoWhileStatement"
  | emptyStatement => "EmptyStatement"
  | exportAllDeclaration => "ExportAllDeclaration"
  | exportDefaultDeclaration => "ExportDefaultDeclaration"
  | exportDefaultSpecifier => "ExportDefaultSpecifier"
  | exportNamedDeclaration => "ExportNamedDeclaration"
  | exportSpecifier => "ExportSpecifier"
  | expressionStatement .. => "ExpressionStatement"
  | forInStatement _ => "ForInStatement"
  | forOfStatement => "ForOfStatement"
  | forStatement => "ForStatement"
  | functionDeclaration .. => "FunctionDeclaration"
  | functionExpression _ => "FunctionExpression"
  | hole => "Hole"
  | identifier _ => "Identifier"
  | ifStatement => "IfStatement"
  | importKeyword => "Import"
  | importDeclaration => "ImportDeclaration"
  | importDefaultSpecifier => "ImportDefaultSpecifier"
  | importNamespaceSpecifier => "ImportNamespaceSpecifier"
  | importSpecifier => "ImportSpecifier"
  | jsxAttribute => "JSXAttribute"
  | jsxClosingElement => "JSXClosingElement"
  | jsxElement => "JSXElement"
  | jsxEmptyExpression => "JSXEmptyExpression"
  | jsxExpressionContainer => "JSXExpressionContainer"
  | jsxIdentifier _ => "JSXIdentifier"
  | jsxMemberExpression => "JSXMemberExpression"
  | jsxNamespacedName => "JSXNamespacedName"
  | jsxOpeningElement _ => "JSXOpeningElement"
  | jsxSpreadAttribute => "JSXSpreadAttribute"
  | jsxText .. => "JSXText"
  | labeledStatement => "LabeledStatement"
  | literal .. => "Literal"
  | logicalExpression _ => "LogicalExpression"
  | memberExpression _ => "MemberExpression"
  | metaProperty => "MetaProperty"
  | methodDefinition .. => "MethodDefinition"
  | newExpression => "NewExpression"
  | objectExpression => "ObjectExpression"
  | objectPattern => "ObjectPattern"
  | program _ => "Program"
  | property .. => "Property"
  | restElement => "RestElement"
  | returnStatement => "ReturnStatement"
  | sequenceExpression => "SequenceExpression"
  | spreadElement => "SpreadElement"
  | superKeyword => "Super"
  | switchCase => "SwitchCase"
  | switchStatement => "SwitchStatement"
  | taggedTemplateExpression => "TaggedTemplateExpression"
  | templateElement .. => "TemplateElement"
  | templateLiteral => "TemplateLiteral"
  | thisExpression => "ThisExpression"
  | throwStatement => "ThrowStatement"
  | tryStatement => "TryStatement"
  | unaryExpression .. => "UnaryExpression"
  | updateExpression .. => "UpdateExpression"
  | variableDeclaration _ => "VariableDeclaration"
  | variableDeclarator => "VariableDeclarator"
  | whileStatement => "WhileStatement"
  | withStatement => "WithStatement"
  | yieldExpression _ => "YieldExpression"

/-- The slots of a kind, in the order in which its subtrees are visited. -/
def slots : Label → List Slot
  | arrayExpression | arrayPattern => [.many .elements]
  | arrowFunctionExpression _ => [.many .params, .one .body]
  | assignmentExpression _ | assignmentPattern | binaryExpression _ | logicalExpression _ =>
    [.one .left, .one .right]
  | awaitExpression | restElement | returnStatement | spreadElement | throwStatement
  | unaryExpression .. | updateExpression .. | yieldExpression _ | jsxSpreadAttribute =>
    [.one .argument]
  | blockStatement | classBody | program _ => [.many .body]
  | breakStatement | continueStatement => [.one .label]
  | callExpression | newExpression => [.one .callee, .many .arguments]
  | catchClause => [.one .param, .one .body]
  | classDeclaration | classExpression => [.one .id, .one .superClass, .one .body]
  | conditionalExpression | ifStatement => [.one .test, .one .consequent, .one .alternate]
  | debuggerStatement | emptyStatement | hole | identifier _ | importKeyword | jsxEmptyExpression
  | jsxIdentifier _ | jsxText .. | literal .. | superKeyword | templateElement ..
  | thisExpression => []
  | doWhileStatement => [.one .body, .one .test]
  | exportAllDeclaration => [.one .source]
  | exportDefaultDeclaration => [.one .declaration]
  | exportNamedDeclaration => [.one .declaration, .many .specifiers, .one .source]
  | exportSpecifier => [.one .exported, .one .localName]
  | expressionStatement .. | jsxExpressionContainer => [.one .expression]
  | forInStatement _ | forOfStatement => [.one .left, .one .right, .one .body]
  | forStatement => [.one .init, .one .test, .one .update, .one .body]
  | functionDeclaration .. | functionExpression _ => [.one .id, .many .params, .one .body]
  | importDeclaration => [.many .specifiers, .one .source]
  | exportDefaultSpecifier | importDefaultSpecifier | importNamespaceSpecifier => [.one .localName]
  | importSpecifier => [.one .localName, .one .imported]
  | jsxAttribute => [.one .name, .one .value]
  | jsxClosingElement => [.one .name]
  | jsxElement => [.one .openingElement, .many .children, .one .closingElement]
  | jsxMemberExpression | memberExpression _ => [.one .object, .one .property]
  | jsxNamespacedName => [.one .nsName, .one .name]
  | jsxOpeningElement _ => [.one .name, .many .attributes]
  | labeledStatement => [.one .label, .one .body]
  | metaProperty => [.one .metaName, .one .property]
  | methodDefinition .. | property .. => [.one .key, .one .value]
  | objectExpression | objectPattern => [.many .properties]
  | sequenceExpression => [.many .expressions]
  | switchCase => [.one .test, .many .consequent]
  | switchStatement => [.one .discriminant, .many .cases]
  | taggedTemplateExpression => [.one .tag, .one .quasi]
  | templateLiteral => [.many .quasis, .many .expressions]
  | tryStatement => [.one .block, .one .handler, .one .finalizer]
  | variableDeclaration _ => [.many .declarations]
  | variableDeclarator => [.one .id, .one .init]
  | whileStatement => [.one .test, .one .body]
  | withStatement => [.one .object, .one .body]

/-- Whether a slot of this kind holds a row of subtrees. -/
def isRow (l : Label) (f : Field) : Bool :=
  l.slots.contains (.many f)

/-- Statements and declarations: the kinds that can stand in a statement list. -/
def isStatement : Label → Bool
  | blockStatement | breakStatement | continueStatement | debuggerStatement | doWhileStatement
  | emptyStatement | expressionStatement .. | forInStatement _ | forOfStatement | forStatement
  | ifStatement | labeledStatement | returnStatement | switchStatement | throwStatement
  | tryStatement | whileStatement | withStatement
  | classDeclaration | exportAllDeclaration | exportDefaultDeclaration | exportNamedDeclaration
  | functionDeclaration .. | importDeclaration | variableDeclaration _ => true
  | _ => false

end Label

end Unravel
