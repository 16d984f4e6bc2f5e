import Unravel.Source.Parse.Class
import Unravel.Source.Parse.Markup

/-! Expressions, from primary ones up to assignments and arrow functions. -/

namespace Unravel.Source.Parse

def spread (g : Grammar) : Parse Node := do
  expect "..."
  return .mk .spreadElement [(.argument, ← inherited g.assignment)]

def arrayLiteral (g : Grammar) : Parse Node := do
  expect "["
  let elements ← collectUntil (isAt "]") do
    if ← isAt "," then
      let _ ← next
      return .mk .hole []
    else if ← isAt "..." then
      let e ← spread g
      if !(← isAt "]") then
        valueOnly
        expect ","
      return e
    else
      let e ← inherited g.assignment
      if !(← isAt "]") then expect ","
      return e
  expect "]"
  return .mk .arrayExpression (elements.map fun e => (.elements, e))

def propertyNode (kind : String) (computed method shorthand : Bool) (key value : Node) : Node :=
  .mk (.property computed method shorthand kind) [(.key, key), (.value, value)]

/-- A member with a plain key: a value, a method, or a name that is both key and value. -/
def plainProperty (g : Grammar) (t : Token) (key : Node) (computed isAsync hasProto : Bool) :
    Parse (Node × Bool) := do
  if (← isAt ":") && !isAsync then
    let isProto := !computed && isKeyNamed key "__proto__"
    if isProto && hasProto then
      remark (← get).line "Duplicate __proto__ fields are not allowed in object literals"
    let _ ← next
    let value ← inherited g.assignment
    return (propertyNode "init" computed false false key value, hasProto || isProto)
  else if ← isAt "(" then
    let value ← if isAsync then asyncMember g else memberFunction g
    beginMember t.start
    return (propertyNode "init" computed true false key value, hasProto)
  else if t.kind = .identifier then
    let name := Node.identifier t.value
    if ← isAt "=" then
      let sign ← next
      modifyAround fun a => { a with coverError := some sign }
      let init ← isolated g.assignment
      let value := Node.mk .assignmentPattern [(.left, name), (.right, init)]
      return (propertyNode "init" computed false true key value, hasProto)
    return (propertyNode "init" computed false true key name, hasProto)
  else unexpected (← next)

/-- A member of an object literal, and whether `__proto__` has been seen. -/
def objectProperty (g : Grammar) (hasProto : Bool) : Parse (Node × Bool) := do
  let t ← ahead
  let (key, computed, isAsync) : Option Node × Bool × Bool ←
    if t.kind = .identifier then do
      let _ ← next
      let computed ← isAt "["
      let following ← ahead
      let isAsync := !(← get).brokenLine && t.value = "async"
        && !(following.kind = .punctuator && [":", "(", "*", ","].contains following.value)
      if isAsync then pure (some (← propertyKey g), computed, true)
      else pure (some (.identifier t.value), computed, false)
    else if ← isAt "*" then do
      let _ ← next
      pure (none, false, false)
    else do
      let computed ← isAt "["
      pure (some (← propertyKey g), computed, false)
  let keyed := (← ahead).startsKey
  if t.isIdentifier "get" && !isAsync && keyed then
    let computed ← isAt "["
    let key ← propertyKey g
    let value ← getter g
    beginMember t.start
    return (propertyNode "get" computed false false key value, hasProto)
  else if t.isIdentifier "set" && !isAsync && keyed then
    let computed ← isAt "["
    let key ← propertyKey g
    let value ← setter g
    beginMember t.start
    return (propertyNode "set" computed false false key value, hasProto)
  else if t.isPunctuator "*" && keyed then
    let computed ← isAt "["
    let key ← propertyKey g
    let value ← generatorMember g
    beginMember t.start
    return (propertyNode "init" computed true false key value, hasProto)
  else
    match key with
    | some key => plainProperty g t key computed isAsync hasProto
    | none => unexpected (← ahead)

def objectLiteral (g : Grammar) : Parse Node := do
  expect "\x7b"
  let (members, _) ← loop (fun ((done, hasProto) : List Node × Bool) => do
    if ← isAt "\x7d" then return .done (done, hasProto)
    let (m, hasProto) ←
      if ← isAt "..." then do pure (← spread g, hasProto) else objectProperty g hasProto
    if !(← isAt "\x7d") then expectComma
    return .more (done ++ [m], hasProto)) ([], false)
  expect "\x7d"
  return .mk .objectExpression (members.map fun m => (.properties, m))

def templatePart : Parse Node := do
  let t ← next
  return .mk (.templateElement (Text.ofString t.value) t.text t.tail) []

def templateLiteral (g : Grammar) : Parse Node := do
  if !(← ahead).head then throw ⟨none, "Template literal must start with a template head"⟩
  let isTail (n : Node) : Bool := match n.label with
    | .templateElement _ _ tail => tail
    | _ => true
  let (quasis, expressions) ← loop (fun ((quasis, es) : List Node × List Node) => do
    let quasi ← templatePart
    let quasis := quasis ++ [quasi]
    if isTail quasi then return .done (quasis, es)
    let e ← expression g
    if (← ahead).kind ≠ .template then refuse "Unexpected token ILLEGAL"
    return .more (quasis, es ++ [e])) ([], [])
  return .mk .templateLiteral
    (quasis.map (fun q => (.quasis, q)) ++ expressions.map fun e => (.expressions, e))

/-- A rest parameter in a list that then must be one of parameters. -/
def groupRest (g : Grammar) : Parse Node := do
  let (p, _) ← restParameter g
  expect ")"
  if !(← isAt "=>") then expect "=>"
  return p

/-- What follows the first expression of a parenthesised list. -/
def groupItems (g : Grammar) (first : Node) : Parse Cover :=
  loop (fun (done : List Node) => do
    if (← isAtEnd) || !(← isAt ",") then return .done (.expression (sequence done))
    let _ ← next
    if ← isAt ")" then
      let _ ← next
      return .done (.parameters (done.map asPattern) false)
    else if ← isAt "..." then
      if !(← around).isBinding then unexpected (← ahead)
      let p ← groupRest g
      setBinding false
      return .done (.parameters ((done ++ [p]).map asPattern) false)
    else return .more (done ++ [← inherited g.assignment])) [first]

/-- Whether an expression could be read as a pattern, or as a part of one with its default. -/
def mayBePattern (e : Node) : Bool :=
  match e.label with
  | .arrayExpression | .objectExpression | .assignmentExpression _ => true
  | _ => false

/-- Parentheses: around an expression, or around the parameters of an arrow function. -/
def group (g : Grammar) : Parse Cover := do
  expect "("
  if ← isAt ")" then
    let _ ← next
    if !(← isAt "=>") then expect "=>"
    return .parameters [] false
  if ← isAt "..." then return .parameters [← groupRest g] false
  setBinding true
  let first ← inherited g.assignment
  let cover ←
    if ← isAt "," then do
      setTarget false
      groupItems g first
    else pure (.expression first)
  match cover with
  | .parameters .. => return cover
  | .expression e =>
    expect ")"
    let result : Cover ←
      if ← isAt "=>" then
        if e.identifierName? = some "yield" then pure (.parameters [e] false)
        else if !(← around).isBinding then unexpected (← ahead)
        else
          let items := match e.label with
            | .sequenceExpression => e.row .expressions
            | _ => [e]
          pure (.parameters (items.map asPattern) false)
      else pure (.expression e)
    setGrouped (mayBePattern e)
    setBinding false
    return result

/-- Whether `import` stands ahead with a parenthesis after it. -/
def isAtImportCall : Parse Bool := do
  if !(← isAtWord "import") then return false
  let following ← lookingAhead do
    skipBlanks
    scan
  return following.isPunctuator "("

def regexLiteral : Parse Node := do
  valueOnly
  modify fun s => { s with index := s.started.index }
  let t ← scanRegex
  let node ← literalNode (.regex t.pattern t.text) t
  modify fun s => { s with lookahead := t }
  let _ ← next
  return node

/-- A word of the language where an expression is expected. -/
def wordExpression (g : Grammar) : Parse Node := do
  let a ← around
  if !a.strict && a.allowYield && (← isAtWord "yield") then anyName
  else if !a.strict && (← isAtWord "let") then return .identifier (← next).value
  else
    valueOnly
    if ← isAtWord "function" then functionExpression g
    else if ← isAtWord "this" then
      let _ ← next
      return .mk .thisExpression []
    else if ← isAtWord "class" then classExpression g
    else if ← isAtImportCall then
      expectWord "import"
      return .mk .importKeyword []
    else unexpected (← next)

def primary (g : Grammar) : Parse Cover := do
  let t ← ahead
  match t.kind with
  | .identifier =>
    let a ← around
    if (a.isModule || a.allowAwait) && t.value = "await" then noteUnexpected t
    if ← isAtAsyncFunction then return .expression (← functionExpression g)
    return .expression (.identifier (← next).value)
  | .numeric | .string =>
    if (← around).strict && t.octal then
      note t.line "Octal literals are not allowed in strict mode."
    valueOnly
    let t ← next
    return .expression
      (← literalNode (if t.kind = .string then .text t.text else .number t.number) t)
  | .boolean =>
    valueOnly
    let t ← next
    return .expression (← literalNode (.bool (t.value = "true")) t)
  | .null =>
    valueOnly
    let t ← next
    return .expression (← literalNode .null t)
  | .template => return .expression (← templateLiteral g)
  | .punctuator =>
    match t.value with
    | "<" => return .expression (← rootElement g)
    | "(" =>
      setBinding false
      inherited (group g)
    | "[" => return .expression (← inherited (arrayLiteral g))
    | "\x7b" => return .expression (← inherited (objectLiteral g))
    | "/" | "/=" => return .expression (← regexLiteral)
    | _ => unexpected (← next)
  | .keyword => return .expression (← wordExpression g)
  | _ => unexpected (← next)

def argumentList (g : Grammar) (one : Parse Node) : Parse (List Node) := do
  expect "("
  let args ← loop (fun (done : List Node) => do
    if ← isAt ")" then return .done done
    let a ← if ← isAt "..." then spread g else isolated one
    if !(← isAt ")") then expectComma
    return .more (done ++ [a])) []
  expect ")"
  return args

def callArguments (g : Grammar) : Parse (List Node) := argumentList g g.assignment

/-- Arguments that may turn out to be the parameters of an `async` arrow function. -/
def asyncArguments (g : Grammar) : Parse (List Node) :=
  argumentList g do
    let a ← g.assignment
    modifyAround fun a => { a with coverError := none }
    return a

def newExpression (g : Grammar) : Parse Node := do
  let keyword ← anyName
  if ← isAt "." then
    let _ ← next
    if (← isAtName "target") && (← around).inFunction then
      return .mk .metaProperty [(.metaName, keyword), (.property, ← anyName)]
    else unexpected (← ahead)
  else if ← isAtWord "import" then unexpected (← ahead)
  else
    let callee ← isolated g.constructed
    let args ← if ← isAt "(" then callArguments g else pure []
    valueOnly
    return .mk .newExpression ((.callee, callee.node) :: args.map fun a => (.arguments, a))

/-- What was read may be assigned to, but is no parameter. -/
def targetOnly : Parse Unit :=
  modifyAround fun a => { a with isTarget := true, isBinding := false, isGrouped := false }

def staticMember (object : Node) : Parse Node := do
  targetOnly
  expect "."
  return .mk (.memberExpression false) [(.object, object), (.property, ← anyName)]

def computedMember (g : Grammar) (object : Node) : Parse Node := do
  targetOnly
  expect "["
  let property ← isolated (expression g)
  expect "]"
  return .mk (.memberExpression true) [(.object, object), (.property, property)]

def tagged (g : Grammar) (tag : Node) : Parse Node := do
  return .mk .taggedTemplateExpression [(.tag, tag), (.quasi, ← templateLiteral g)]

def isAtTemplate : Parse Bool := do
  let t ← ahead
  return t.kind = .template && t.head

/-- `super`, where one of the given signs must follow. -/
def superKeyword (signs : List String) : Parse Node := do
  expectWord "super"
  let t ← ahead
  if !(t.kind = .punctuator && signs.contains t.value) then unexpected t
  return .mk .superKeyword []

/-- The start of a chain of accesses. -/
def chainStart (g : Grammar) (signs : List String) : Parse Cover := do
  if (← isAtWord "super") && (← around).inFunction then
    return .expression (← superKeyword signs)
  else if ← isAtWord "new" then inherited do return .expression (← newExpression g)
  else inherited (primary g)

def constructed (g : Grammar) : Parse Cover := do
  let start ← chainStart g ["[", "."]
  loop (fun (e : Cover) => do
    if ← isAt "[" then return .more (.expression (← computedMember g e.node))
    else if ← isAt "." then return .more (.expression (← staticMember e.node))
    else if ← isAtTemplate then return .more (.expression (← tagged g e.node))
    else return .done e) start

def chainCall (g : Grammar) (callee : Node) (mayBeArrow : Bool) : Parse Cover := do
  valueOnly
  let args ← if mayBeArrow then asyncArguments g else callArguments g
  if callee.label = .importKeyword && args.length ≠ 1 then
    if args.isEmpty then object "Unexpected token" else remark (← get).line "Unexpected token"
  if mayBeArrow && (← isAt "=>") then return .parameters (args.map asPattern) true
  return .expression (.call callee args)

def chain (g : Grammar) : Parse Cover := do
  let first ← ahead
  allowingIn true do
    let start ← chainStart g ["(", ".", "["]
    loop (fun (e : Cover) => do
      if ← isAt "." then return .more (.expression (← staticMember e.node))
      else if ← isAt "(" then
        let mayBeArrow := first.isIdentifier "async" && first.line = (← ahead).line
        return .more (← chainCall g e.node mayBeArrow)
      else if ← isAt "[" then return .more (.expression (← computedMember g e.node))
      else if ← isAtTemplate then return .more (.expression (← tagged g e.node))
      else return .done e) start

def isAtStep : Parse Bool := do return (← isAt "++") || (← isAt "--")

/-- Complaints about the operand of `++` and `--`. -/
def checkStepOperand (place : String) (e : Cover) : Parse Unit := do
  let a ← around
  if a.strict && (e.node.identifierName?.map isRestricted).getD false then
    object (place ++ " increment/decrement may not have eval or arguments operand in strict mode")
  if !a.isTarget then objectToTarget e.node "Invalid left-hand side in assignment"

def stepNode (sign : String) (isBefore : Bool) (e : Node) : Cover :=
  .expression (.mk (.updateExpression sign isBefore) [(.argument, e)])

/-- A chain with `++` or `--` before or after it. -/
def stepped (g : Grammar) : Parse Cover := do
  if ← isAtStep then
    let t ← next
    let e ← inherited g.unary
    checkStepOperand "Prefix" e
    valueOnly
    return stepNode t.value true e.node
  let e ← inherited g.chain
  if !(← get).brokenLine && (← isAtStep) then
    checkStepOperand "Postfix" e
    valueOnly
    return stepNode (← next).value false e.node
  return e

def isAtUnary : Parse Bool := do
  let t ← ahead
  return (t.kind = .punctuator && ["+", "-", "~", "!"].contains t.value)
    || (t.kind = .keyword && ["delete", "void", "typeof"].contains t.value)

def unary (g : Grammar) : Parse Cover := do
  if ← isAtUnary then
    let t ← next
    let e := (← inherited g.unary).node
    if (← around).strict && t.value = "delete" && e.identifierName?.isSome then
      object "Delete of an unqualified identifier in strict mode."
    valueOnly
    return .expression (.unary t.value e)
  else if (← around).allowAwait && (← isAtName "await") then
    let _ ← next
    return .expression (.mk .awaitExpression [(.argument, (← g.unary).node)])
  else stepped g

def exponent (g : Grammar) : Parse Cover := do
  let e ← inherited g.unary
  let isUnary := match e with
    | .expression n => match n.label with
      | .unaryExpression .. => true
      | _ => false
    | _ => false
  if !isUnary && (← isAt "**") then
    let _ ← next
    valueOnly
    let right ← isolated g.exponent
    return .expression (.binary "**" e.node right.node)
  return e

/-- How tightly the token ahead binds as an infix operator. -/
def strengthAhead : Parse Nat := do
  let t ← ahead
  let allowIn := (← around).allowIn
  return match t.kind with
    | .punctuator => infixStrength t.value
    | .keyword => if t.value = "instanceof" || (allowIn && t.value = "in") then 7 else 0
    | _ => 0

/-- Operands that wait for their right neighbour, the innermost first, each with the operator
after it. -/
abbrev Pending := List (Node × String × Nat)

/-- Joins the pending operands whose operator binds at least as tightly as the next one. -/
def reduce (strength : Nat) : Pending → Node → Pending × Node
  | [], right => ([], right)
  | (left, sign, s) :: rest, right =>
    if strength ≤ s then reduce strength rest (.binary sign left right)
    else ((left, sign, s) :: rest, right)

def infixed (g : Grammar) : Parse Cover := do
  let first ← inherited g.exponent
  if (← strengthAhead) = 0 then return first
  let e ← loop (fun ((pending, right) : Pending × Node) => do
    let strength ← strengthAhead
    if strength = 0 then return .done (reduce 0 pending right).2
    let (pending, left) := reduce strength pending right
    let t ← next
    valueOnly
    let right ← isolated g.exponent
    return .more ((left, t.value, strength) :: pending, right.node)) ([], first.node)
  return .expression e

def conditional (g : Grammar) : Parse Cover := do
  let test ← inherited (infixed g)
  if ← isAt "?" then
    let _ ← next
    let yes ← allowingIn true (isolated g.assignment)
    expect ":"
    let no ← isolated g.assignment
    valueOnly
    return .expression
      (.mk .conditionalExpression [(.test, test.node), (.consequent, yes), (.alternate, no)])
  return test

def isStartOfExpression : Parse Bool := do
  let t ← ahead
  return match t.kind with
    | .punctuator =>
      ["[", "(", "\x7b", "+", "-", "!", "~", "++", "--", "/", "/=", "<"].contains t.value
    | .keyword =>
      ["class", "delete", "function", "let", "new", "super", "this", "typeof", "void",
       "yield"].contains t.value
    | _ => true

def yieldExpression (g : Grammar) : Parse Node := do
  expectWord "yield"
  if (← get).brokenLine then return .mk (.yieldExpression false) []
  allowingYield false do
    if ← isAt "*" then
      let _ ← next
      return .mk (.yieldExpression true) [(.argument, ← g.assignment)]
    else if ← isStartOfExpression then
      return .mk (.yieldExpression false) [(.argument, ← g.assignment)]
    else return .mk (.yieldExpression false) []

/-- The names that a pattern read as parameter binds, in order. -/
def parameterNames (n : Node) : List String :=
  n.fold fun l cs =>
    let names (f : Field) : List String :=
      (cs.filter fun c => c.1 = f).flatMap fun c => c.2.2
    match l with
    | .identifier name => [name]
    | .restElement => names .argument
    | .assignmentPattern => names .left
    | .arrayPattern => names .elements
    | .objectPattern => names .properties
    | .property .. => names .value
    | _ => []

/-- A default that is a bare `yield` is the name. -/
def yieldDefault (p : Node) : Parse Node := do
  match p.label, p.child? .left, p.child? .right with
  | .assignmentPattern, some left, some right =>
    match right.label with
    | .yieldExpression _ =>
      if (right.child? .argument).isSome then unexpected (← ahead)
      return .mk .assignmentPattern [(.left, left), (.right, .identifier "yield")]
    | _ => return p
  | _, _, _ => return p

/-- The parameters of an arrow function, checked. -/
def arrowParameters (nodes : List Node) (isAsync : Bool) : Parse Parameters := do
  let strict := (← around).strict
  let ps ← nodes.foldlM (fun (ps : Parameters) p => do
    let p ← yieldDefault p
    if isAsync && p.identifierName? = some "await" then unexpected (← ahead)
    let checked := (parameterNames p).foldl (fun ps name => ps.check strict name none) ps
    return { checked with
      simple := checked.simple && p.identifierName?.isSome
      nodes := checked.nodes ++ [p] }) {}
  if strict || !(← around).allowYield then
    for p in nodes do
      if let .yieldExpression _ := p.label then unexpected (← ahead)
  if ps.reason = "Strict mode function may not have duplicate parameter names" then
    failAt none ps.reason
  return ps

def arrowBody (g : Grammar) : Parse Node := do
  if ← isAt "\x7b" then allowingIn true (functionBody g) else isolated g.assignment

def arrowFunction (g : Grammar) (start : Nat) (nodes : List Node) (isAsync : Bool) :
    Parse Node := do
  let ps ← arrowParameters nodes isAsync
  if (← get).brokenLine then noteUnexpected (← ahead)
  modifyAround fun a => { a with coverError := none }
  keepingYieldAndAwait <| ownStrictness ps.simple do
    modifyAround fun a => { a with allowYield := true, allowAwait := isAsync }
    expect "=>"
    let body ← arrowBody g
    if (← around).strict then
      if let some line := ps.restricted then failAt line ps.reason
      if let some line := ps.refused then noteAt line ps.reason
    endFunction start
    let flags : FunctionFlags := { isAsync := isAsync, expression := body.label ≠ .blockStatement }
    return .mk (.arrowFunctionExpression flags)
      (ps.nodes.map (fun p => (.params, p)) ++ [(.body, body)])

/-- An assignment to what was read, which began with a token. -/
def assignTo (g : Grammar) (target : Node) (first : Token) : Parse Node := do
  let a ← around
  if !a.isTarget then objectToTarget target "Invalid left-hand side in assignment"
  if a.isGrouped && mayBePattern target then bar
  if a.strict then
    if let some name := target.identifierName? then
      if isRestricted name then
        note first.line "Assignment to eval or arguments is not allowed in strict mode"
      if isStrictReserved name then note first.line strictReservedReason
  let plain ← isAt "="
  if !plain then valueOnly
  let sign ← next
  let right ← isolated g.assignment
  modifyAround fun a => { a with coverError := none }
  return .mk (.assignmentExpression sign.value)
    [(.left, if plain then asPattern target else target), (.right, right)]

/-- What was read, or the parameter of an arrow function after a lone `async`. -/
def asyncParameter (g : Grammar) (first : Token) (e : Cover) : Parse Cover := do
  let t ← ahead
  if first.isIdentifier "async" && first.line = t.line
      && (t.kind = .identifier || t.isKeyword "yield") then
    let p ← primary g
    return .parameters [asPattern p.node] true
  return e

def assignment (g : Grammar) : Parse Node := do
  if !(← around).allowYield && (← isAtWord "yield") then yieldExpression g
  else
    let first ← ahead
    let e ← asyncParameter g first (← conditional g)
    match e with
    | .parameters ps isAsync =>
      valueOnly
      arrowFunction g first.start ps isAsync
    | .expression n =>
      let t ← ahead
      if t.isPunctuator "=>" then
        valueOnly
        if n.identifierName?.isSome then arrowFunction g first.start [n] false else return n
      else if t.kind = .punctuator && assignmentOperators.contains t.value then
        assignTo g n first
      else return n

end Unravel.Source.Parse
