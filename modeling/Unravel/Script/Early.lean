import Unravel.Script.Compile.Declared

/-! Rules that a script must keep before any of it runs, beyond those of its grammar: what a scope
declares, where a function may be declared, and what only some functions may mention. -/

namespace Unravel

namespace Node

/-- Whether a function declared here runs as a whole when it is called, at once. -/
def isSimpleFunctionDeclaration (n : Node) : Bool :=
  match n.label with
  | .functionDeclaration flags _ => !flags.generator && !flags.isAsync
  | _ => false

/-- Whether a tree holds a label, what the functions in it hold left out. -/
def holds (p : Label → Bool) (n : Node) : Bool :=
  n.fold fun l cs =>
    p l || match l with
      | .functionDeclaration .. | .functionExpression _ | .arrowFunctionExpression _ => false
      | _ => cs.any fun c => c.2.2

end Node

namespace Script.Early

/-- What a function is to the object or class that it is written in. -/
inductive Role where
  | none
  | method
  | derivedConstructor
  /-- The body of a function. -/
  | body
deriving DecidableEq

/-- What surrounds a place in a script. -/
structure Setting where
  strict : Bool := false
  /-- Whether members of the parent, its constructor and the target of `new` may be mentioned. -/
  hasParentMembers : Bool := false
  hasParentConstructor : Bool := false
  hasTarget : Bool := false
  mayYield : Bool := false
  mayAwait : Bool := false
  /-- Whether the class around has a parent. -/
  isDerived : Bool := false
  role : Role := .none

def isRepeated (names : List String) : Bool := names.eraseDups.length ≠ names.length

def areApart (a b : List String) : Bool := a.all fun name => !b.contains name

/-- The list of statements of a block, with what the block declares as well. -/
def blockDeclares (strict : Bool) (statements : List Node) : Bool :=
  let lexicals := statements.flatMap fun s => s.lexicalNames.map Prod.fst
  let functions := Node.declaredFunctions statements
  let (simple, others) := functions.partition fun f => f.isSimpleFunctionDeclaration && !strict
  let apart := lexicals ++ others.filterMap Node.idName?
  let shared := simple.filterMap Node.idName?
  !isRepeated apart && areApart apart shared
    && areApart (apart ++ shared) (statements.flatMap Node.varNames)

/-- The list of statements of a function or of a script. Its functions are as variables. -/
def bodyDeclares (params : List String) (statements : List Node) : Bool :=
  let lexicals := statements.flatMap fun s => s.lexicalNames.map Prod.fst
  let functions := (Node.declaredFunctions statements).filterMap Node.idName?
  !isRepeated lexicals
    && areApart lexicals (params ++ functions ++ statements.flatMap Node.varNames)

/-- A handler of errors: what it catches, and what its block declares. -/
def handlerDeclares (param : Node) (statements : List Node) : Bool :=
  let caught := param.boundNames
  let lexicals := statements.flatMap fun s => s.lexicalNames.map Prod.fst
  let functions := (Node.declaredFunctions statements).filterMap Node.idName?
  -- a variable may have the name of an error that is caught as a whole
  let vars := if param.identifierName?.isSome then [] else statements.flatMap Node.varNames
  areApart caught (lexicals ++ functions ++ vars)

/-- A loop whose head declares names for it. -/
def loopDeclares (head body : Node) : Bool :=
  let names := head.lexicalNames.map Prod.fst
  !isRepeated names && areApart names body.varNames

/-- The parameters of a function. Only those of an ordinary function that are names may repeat; where
the code around them may yield, they do not. -/
def takesParams (mayRepeat mayYield : Bool) (params : List Node) : Bool :=
  let isFree := mayRepeat && params.all fun p => p.identifierName?.isSome
  (isFree || !isRepeated (params.flatMap Node.boundNames))
    && params.all fun p => !p.holds fun l => match l with
      | .yieldExpression _ | .awaitExpression => true
      | .identifier name => mayYield && name = "yield"
      | _ => false

/-- Whether a statement may stand alone, as that of a loop. -/
def standsAlone (n : Node) : Bool := !n.unlabelled.isFunctionDeclaration

/-- Whether a statement may be a branch. -/
def isBranch (n : Node) : Bool :=
  match n.label with
  | .labeledStatement => standsAlone n
  | .functionDeclaration .. => n.isSimpleFunctionDeclaration
  | _ => true

/-- The rest of a pattern comes last, and takes no default. -/
def restIsLast (members : List Node) : Bool :=
  match members.reverse with
  | last :: before =>
    before.all (fun m => m.label ≠ .restElement)
      && (last.label ≠ .restElement || (last.part .argument).label ≠ .assignmentPattern)
  | [] => true

/-- The rest of an object is kept as a whole. -/
def restIsWhole (m : Node) : Bool :=
  m.label ≠ .restElement || match (m.part .argument).label with
    | .identifier _ | .memberExpression _ => true
    | _ => false

/-- Whether a member of an object literal gives the object its prototype. -/
def givesProto (m : Node) : Bool :=
  match m.label with
  | .property false false false "init" =>
    match (m.part .key).label with
    | .identifier name => name = "__proto__"
    | .literal (.text t) _ => t = Text.ofString "__proto__"
    | _ => false
  | _ => false

/-- Statements of a function's body. -/
def bodyStatements (n : Node) : List Node :=
  let body := n.part .body
  if body.label = .blockStatement then body.row .body else []

/-- The rules on a node by itself. -/
def isAllowed (s : Setting) (n : Node) : Bool :=
  match n.label with
  | .blockStatement => s.role = .body || blockDeclares s.strict (n.row .body)
  | .switchStatement =>
    blockDeclares s.strict ((n.row .cases).flatMap fun c => c.row .consequent)
  | .functionDeclaration flags _ | .functionExpression flags =>
    let statements := bodyStatements n
    let params := n.row .params
    let strict := s.strict || Node.startsStrict statements
    takesParams (s.role ≠ .method && s.role ≠ .derivedConstructor && !strict) flags.generator params
      && bodyDeclares (params.flatMap Node.boundNames) statements
  | .arrowFunctionExpression _ =>
    let params := n.row .params
    takesParams false s.mayYield params
      && bodyDeclares (params.flatMap Node.boundNames) (bodyStatements n)
  | .classDeclaration | .classExpression =>
    n.idName? ≠ some "eval" && n.idName? ≠ some "arguments"
  | .catchClause => handlerDeclares (n.part .param) ((n.part .body).row .body)
  | .forStatement => loopDeclares (n.part .init) (n.part .body) && standsAlone (n.part .body)
  | .forInStatement _ | .forOfStatement =>
    loopDeclares (n.part .left) (n.part .body) && standsAlone (n.part .body)
  | .whileStatement | .doWhileStatement | .withStatement => standsAlone (n.part .body)
  | .ifStatement =>
    (n.row .consequent).all isBranch && (n.row .alternate).all isBranch
  | .labeledStatement =>
    let body := n.part .body
    !body.isFunctionDeclaration || body.isSimpleFunctionDeclaration
  | .arrayPattern => restIsLast (n.row .elements)
  | .objectPattern =>
    restIsLast (n.row .properties) && (n.row .properties).all restIsWhole
  | .objectExpression => ((n.row .properties).filter givesProto).length ≤ 1
  | .callExpression => (n.part .callee).label ≠ .superKeyword || s.hasParentConstructor
  | .memberExpression _ => (n.part .object).label ≠ .superKeyword || s.hasParentMembers
  | .metaProperty => s.hasTarget
  | .yieldExpression _ => s.mayYield
  | .awaitExpression => s.mayAwait
  | _ => true

/-- What surrounds a slot of a node. -/
def within (s : Setting) (n : Node) (f : Field) : Setting :=
  match n.label with
  | .functionDeclaration flags _ | .functionExpression flags =>
    { s with
      mayYield := flags.generator
      mayAwait := flags.isAsync
      strict := s.strict || Node.startsStrict (bodyStatements n)
      hasParentMembers := s.role = .method || s.role = .derivedConstructor
      hasParentConstructor := s.role = .derivedConstructor
      hasTarget := true
      role := if f = .body && (n.part .body).label = .blockStatement then .body else .none }
  | .arrowFunctionExpression flags =>
    { s with
      mayYield := s.mayYield && f = .params
      mayAwait := flags.isAsync
      strict := s.strict || Node.startsStrict (bodyStatements n)
      role := if f = .body && (n.part .body).label = .blockStatement then .body else .none }
  | .property _ isMethod _ kind =>
    { s with role := if f = .value && (isMethod || kind ≠ "init") then .method else .none }
  | .classDeclaration | .classExpression =>
    { s with strict := true, isDerived := (n.child? .superClass).isSome, role := .none }
  | .methodDefinition _ _ kind =>
    { s with
      role :=
        if f ≠ .value then .none
        else if kind = "constructor" && s.isDerived then .derivedConstructor
        else .method }
  | _ => { s with role := .none }

mutual
/-- Whether a part of a script keeps the rules. -/
def isKept (s : Setting) : Node → Bool
  | .marked m l cs => isAllowed s (.marked m l cs) && areKept (within s (.marked m l cs)) cs
def areKept (s : Field → Setting) : List (Field × Node) → Bool
  | [] => true
  | (f, n) :: rest => isKept (s f) n && areKept s rest
end

/-- Whether the statements of a script keep the rules. -/
def keepsRules (s : Setting) (statements : List Node) : Bool :=
  let s := { s with strict := s.strict || Node.startsStrict statements }
  bodyDeclares [] statements && statements.all (isKept s)

end Script.Early

end Unravel
