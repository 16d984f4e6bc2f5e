import Unravel.Proofs.Tree

/-! The grammar of syntax trees. A node plays a role in the slot it stands in; the table says which
kinds of node play a role, and which roles the slots of a kind take. -/

namespace Unravel

/-- What a node is taken for in its slot. -/
inductive Role where
  | program | statement | block | declaration | vars | declarator | switchCase | catchClause
  | expression | spread | hole | superKeyword | importKeyword | function | template
  | templateElement | pattern | rest | property | patternProperty | method | classBody
  | name | literal | importSpecifier | exportSpecifier
  | tagName | tagOpening | tagClosing | tagAttribute | tagValue | tagChild | tagEmpty
deriving DecidableEq, Repr

/-- Kinds that are expressions. -/
def Label.isExpression : Label → Bool
  | arrayExpression | arrowFunctionExpression _ | assignmentExpression _ | awaitExpression
  | binaryExpression _ | callExpression | classExpression | conditionalExpression
  | functionExpression _ | identifier _ | jsxElement | literal .. | logicalExpression _
  | memberExpression _ | metaProperty | newExpression | objectExpression | sequenceExpression
  | taggedTemplateExpression | templateLiteral | thisExpression | unaryExpression ..
  | updateExpression .. | yieldExpression _ => true
  | _ => false

/-- Whether a node of a kind can play a role. -/
def Role.has : Role → Label → Bool
  | program, .program _ => true
  | statement, l => l.isStatement
  | block, .blockStatement => true
  | declaration, .functionDeclaration .. => true
  | declaration, .classDeclaration => true
  | declaration, .variableDeclaration _ => true
  | vars, .variableDeclaration _ => true
  | declarator, .variableDeclarator => true
  | switchCase, .switchCase => true
  | catchClause, .catchClause => true
  | expression, l => l.isExpression
  | spread, .spreadElement => true
  | hole, .hole => true
  | superKeyword, .superKeyword => true
  | importKeyword, .importKeyword => true
  | function, .functionExpression _ => true
  | template, .templateLiteral => true
  | templateElement, .templateElement .. => true
  | pattern, .identifier _ => true
  | pattern, .memberExpression _ => true
  | pattern, .arrayPattern => true
  | pattern, .objectPattern => true
  | pattern, .assignmentPattern => true
  | rest, .restElement => true
  | property, .property .. => true
  | patternProperty, .property .. => true
  | method, .methodDefinition .. => true
  | classBody, .classBody => true
  | name, .identifier _ => true
  | literal, .literal .. => true
  | importSpecifier, .importSpecifier => true
  | importSpecifier, .importDefaultSpecifier => true
  | importSpecifier, .importNamespaceSpecifier => true
  | exportSpecifier, .exportSpecifier => true
  | exportSpecifier, .exportDefaultSpecifier => true
  | tagName, .jsxIdentifier _ => true
  | tagName, .jsxMemberExpression => true
  | tagName, .jsxNamespacedName => true
  | tagOpening, .jsxOpeningElement _ => true
  | tagClosing, .jsxClosingElement => true
  | tagAttribute, .jsxAttribute => true
  | tagAttribute, .jsxSpreadAttribute => true
  | tagValue, .literal .. => true
  | tagValue, .jsxExpressionContainer => true
  | tagValue, .jsxElement => true
  | tagChild, .jsxText .. => true
  | tagChild, .jsxExpressionContainer => true
  | tagChild, .jsxElement => true
  | tagEmpty, .jsxEmptyExpression => true
  | _, _ => false

namespace Label

/-- The slots of a kind with the roles that each takes. The value of a property is a pattern where
the property is a member of one; that is the one slot that depends on the role of its node. -/
def table (r : Role) : Label → List (Field × List Role)
  | .program _ | .blockStatement => [(.body, [.statement])]
  | .switchCase => [(.test, [.expression]), (.consequent, [.statement])]
  | .whileStatement => [(.test, [.expression]), (.body, [.statement])]
  | .doWhileStatement => [(.body, [.statement]), (.test, [.expression])]
  | .forStatement => [(.init, [.vars, .expression]), (.test, [.expression]),
      (.update, [.expression]), (.body, [.statement])]
  | .forInStatement _ | .forOfStatement =>
    [(.left, [.vars, .pattern]), (.right, [.expression]), (.body, [.statement])]
  | .labeledStatement => [(.label, [.name]), (.body, [.statement])]
  | .withStatement => [(.object, [.expression]), (.body, [.statement])]
  | .ifStatement =>
    [(.test, [.expression]), (.consequent, [.statement]), (.alternate, [.statement])]
  | .conditionalExpression =>
    [(.test, [.expression]), (.consequent, [.expression]), (.alternate, [.expression])]
  | .functionDeclaration .. | .functionExpression _ =>
    [(.id, [.name]), (.params, [.pattern, .rest]), (.body, [.block])]
  | .arrowFunctionExpression _ => [(.params, [.pattern, .rest]), (.body, [.block, .expression])]
  | .catchClause => [(.param, [.pattern]), (.body, [.block])]
  | .tryStatement => [(.block, [.block]), (.handler, [.catchClause]), (.finalizer, [.block])]
  | .switchStatement => [(.discriminant, [.expression]), (.cases, [.switchCase])]
  | .breakStatement | .continueStatement => [(.label, [.name])]
  | .metaProperty => [(.metaName, [.name]), (.property, [.name])]
  | .variableDeclaration _ => [(.declarations, [.declarator])]
  | .variableDeclarator => [(.id, [.pattern]), (.init, [.expression])]
  | .classDeclaration | .classExpression =>
    [(.id, [.name]), (.superClass, [.expression]), (.body, [.classBody])]
  | .classBody => [(.body, [.method])]
  | .methodDefinition computed .. =>
    [(.key, if computed then [.expression] else [.name, .literal]), (.value, [.function])]
  | .property computed .. =>
    [(.key, if computed then [.expression] else [.name, .literal]),
      (.value, if r = .patternProperty then [.pattern] else [.expression])]
  | .arrayExpression => [(.elements, [.expression, .spread, .hole])]
  | .arrayPattern => [(.elements, [.pattern, .rest, .hole])]
  | .objectExpression => [(.properties, [.property, .spread])]
  | .objectPattern => [(.properties, [.patternProperty, .rest])]
  | .assignmentExpression _ | .assignmentPattern => [(.left, [.pattern]), (.right, [.expression])]
  | .binaryExpression _ | .logicalExpression _ => [(.left, [.expression]), (.right, [.expression])]
  | .restElement => [(.argument, [.pattern])]
  | .awaitExpression | .returnStatement | .spreadElement | .throwStatement | .unaryExpression ..
  | .updateExpression .. | .yieldExpression _ | .jsxSpreadAttribute => [(.argument, [.expression])]
  | .sequenceExpression => [(.expressions, [.expression])]
  | .expressionStatement .. => [(.expression, [.expression])]
  | .callExpression => [(.callee, [.expression, .superKeyword, .importKeyword]),
      (.arguments, [.expression, .spread])]
  | .newExpression => [(.callee, [.expression]), (.arguments, [.expression, .spread])]
  | .memberExpression computed => [(.object, [.expression, .superKeyword]),
      (.property, if computed then [.expression] else [.name])]
  | .taggedTemplateExpression => [(.tag, [.expression]), (.quasi, [.template])]
  | .templateLiteral => [(.quasis, [.templateElement]), (.expressions, [.expression])]
  | .exportAllDeclaration => [(.source, [.literal])]
  | .exportDefaultDeclaration => [(.declaration, [.declaration, .expression])]
  | .exportNamedDeclaration =>
    [(.declaration, [.declaration]), (.specifiers, [.exportSpecifier]), (.source, [.literal])]
  | .importDeclaration => [(.specifiers, [.importSpecifier]), (.source, [.literal])]
  | .exportSpecifier => [(.exported, [.name]), (.localName, [.name])]
  | .importSpecifier => [(.localName, [.name]), (.imported, [.name])]
  | .exportDefaultSpecifier | .importDefaultSpecifier | .importNamespaceSpecifier =>
    [(.localName, [.name])]
  | .jsxAttribute => [(.name, [.tagName]), (.value, [.tagValue])]
  | .jsxClosingElement => [(.name, [.tagName])]
  | .jsxElement =>
    [(.openingElement, [.tagOpening]), (.children, [.tagChild]), (.closingElement, [.tagClosing])]
  | .jsxExpressionContainer => [(.expression, [.expression, .tagEmpty])]
  | .jsxMemberExpression => [(.object, [.tagName]), (.property, [.tagName])]
  | .jsxNamespacedName => [(.nsName, [.tagName]), (.name, [.tagName])]
  | .jsxOpeningElement _ => [(.name, [.tagName]), (.attributes, [.tagAttribute])]
  | .debuggerStatement | .emptyStatement | .hole | .identifier _ | .importKeyword
  | .jsxEmptyExpression | .jsxIdentifier _ | .jsxText .. | .literal .. | .superKeyword
  | .templateElement .. | .thisExpression => []

/-- The roles that a slot takes, none if the kind has no such slot. -/
def roles (l : Label) (r : Role) (f : Field) : List Role :=
  (((l.table r).find? fun e => e.1 = f).map Prod.snd).getD []

/-- The roles of a slot are those of its line of the table. -/
theorem exists_mem_table {l : Label} {r t : Role} {f : Field} (ht : t ∈ l.roles r f) :
    ∃ e ∈ l.table r, e.1 = f ∧ t ∈ e.2 := by
  rw [roles] at ht
  cases hfound : (l.table r).find? fun e => e.1 = f with
  | none =>
    rw [hfound] at ht
    cases ht
  | some e =>
    rw [hfound] at ht
    exact ⟨e,List.mem_of_find?_eq_some hfound,by simpa using List.find?_some hfound,ht⟩

/-- What holds of all roles in the table of a node holds of those in each slot. -/
theorem forall_roles {l : Label} {r : Role} {P : Role → Prop}
    (h : ∀ e ∈ l.table r, ∀ t ∈ e.2, P t) (f : Field) : ∀ t ∈ l.roles r f, P t := by
  intro t ht
  obtain ⟨e,he,-,ht⟩ := exists_mem_table ht
  exact h e he t ht

/-- The table has the slots of each kind, in order. -/
theorem table_slots (l : Label) (r : Role) : (l.table r).map Prod.fst = l.slots.map Slot.field := by
  cases l <;> rfl

/-- The slots for one subtree that may be empty. -/
def optional : Label → List Field
  | .breakStatement | .continueStatement => [.label]
  | .catchClause => [.param]
  | .classDeclaration | .classExpression => [.id, .superClass]
  | .functionDeclaration .. | .functionExpression _ => [.id]
  | .exportNamedDeclaration => [.declaration, .source]
  | .forStatement => [.init, .test, .update]
  | .ifStatement => [.alternate]
  | .returnStatement | .yieldExpression _ => [.argument]
  | .switchCase => [.test]
  | .tryStatement => [.handler, .finalizer]
  | .variableDeclarator => [.init]
  | .jsxAttribute => [.value]
  | .jsxElement => [.closingElement]
  | _ => []

def isOptional (l : Label) (f : Field) : Bool := l.optional.contains f

/-- Whether the slots that hold one subtree hold one, or at most one where that is allowed. -/
def filled (l : Label) (fields : List Field) : Bool :=
  l.slots.all fun
    | .one f => fields.count f = 1 || (fields.count f = 0 && l.isOptional f)
    | .many _ => true

end Label

namespace Node

mutual
/-- Whether a tree is grammatical in a role. The test decides which role a mark stands for. -/
def fits (known : Nat → Role → Bool) (r : Role) : Node → Bool
  | .marked m l cs =>
    r.has l && m.all (fun k => known k r) && l.filled (cs.map Prod.fst) && fitsAll known r l cs
def fitsAll (known : Nat → Role → Bool) (r : Role) (l : Label) : List (Field × Node) → Bool
  | [] => true
  | (f, n) :: rest => (l.roles r f).any (fun s => n.fits known s) && fitsAll known r l rest
end

/-- A program every node of which has in its slots what the grammar allows there. -/
def Grammatical (n : Node) : Prop := n.fits (fun _ _ => true) .program = true

instance (n : Node) : Decidable n.Grammatical := inferInstanceAs (Decidable (_ = true))

end Node

end Unravel
