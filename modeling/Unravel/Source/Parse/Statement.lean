import Unravel.Source.Parse.Expression

/-! Statements. Where a closing parenthesis is missing, the token in its place is noted and the
statement ends with an empty body. -/

namespace Unravel.Source.Parse

def block (g : Grammar) : Parse Node := do
  expect "\x7b"
  let items ← collectUntil (isAt "\x7d") g.item
  expect "\x7d"
  return .block items

def expressionNode (start : Nat) (e : Node) : Parse Node := do
  return .mk (.expressionStatement none (some (← spanFrom start))) [(.expression, e)]

def expressionStatement (g : Grammar) : Parse Node := do
  let start ← startIndex
  let e ← expression g
  endStatement
  expressionNode start e

def checkVariable (id : Node) : Parse Unit := do
  if (← around).strict && (id.identifierName?.map isRestricted).getD false then
    object "Variable name may not be eval or arguments in strict mode"

def declarator (id : Node) (init : Option Node) : Node :=
  .mk .variableDeclarator ((.id, id) :: init.toList.map fun i => (.init, i))

def declarationOf (kind : String) (ds : List Node) : Node :=
  .mk (.variableDeclaration kind) (ds.map fun d => (.declarations, d))

def initializer (g : Grammar) : Parse Node := isolated g.assignment

/-- One variable of a `var`. A pattern needs an initial value, except in the head of a loop. -/
def variableBinding (g : Grammar) (inFor : Bool) : Parse Node := do
  let (id, _) ← g.pattern .var
  checkVariable id
  if ← isAt "=" then
    let _ ← next
    return declarator id (some (← initializer g))
  if id.identifierName?.isNone && !inFor then expect "="
  return declarator id none

/-- One name of a `let` or `const`. -/
def lexicalBinding (g : Grammar) (kind : String) (inFor : Bool) : Parse Node := do
  let (id, _) ← g.pattern .lexical
  checkVariable id
  if kind = "const" then
    if (← isAtWord "in") || (← isAtName "of") then return declarator id none
    if ← isAt "=" then
      let _ ← next
      return declarator id (some (← initializer g))
    refuse "Missing initializer in const declaration"
  if (!inFor && id.identifierName?.isNone) || (← isAt "=") then
    expect "="
    return declarator id (some (← initializer g))
  return declarator id none

/-- Declarations with commas between them. -/
def separated (one : Parse Node) : Parse (List Node) := do
  let first ← one
  let rest ← collectUntil (do return !(← isAt ",")) do
    let _ ← next
    one
  return first :: rest

def lexicalDeclaration (g : Grammar) : Parse Node := do
  let kind := (← next).value
  let ds ← separated (lexicalBinding g kind false)
  endStatement
  return declarationOf kind ds

def variableStatement (g : Grammar) : Parse Node := do
  expectWord "var"
  let ds ← separated (variableBinding g false)
  endStatement
  return declarationOf "var" ds

/-- Whether the `let` ahead begins a declaration. -/
def isAtLexical : Parse Bool := do
  let t ← lookingAhead do
    skipBlanks
    scan
  return t.kind = .identifier || t.isPunctuator "[" || t.isPunctuator "\x7b" || t.isKeyword "let"
    || t.isKeyword "yield"

/-- Reads a closing parenthesis and what follows it. -/
def closing (body : Parse Node) : Parse Node := do
  if ← isAt ")" then
    expect ")"
    body
  else
    noteUnexpected (← next)
    return .empty

def ifClause (g : Grammar) : Parse Node := do
  if (← around).strict && (← isAtWord "function") then
    object "In strict mode code, functions can only be declared at top level or inside a block"
  g.statement

def ifStatement (g : Grammar) : Parse Node := do
  expectWord "if"
  expect "("
  let test ← expression g
  if ← isAt ")" then
    expect ")"
    let yes ← ifClause g
    if ← isAtWord "else" then
      let _ ← next
      return .mk .ifStatement [(.test, test), (.consequent, yes), (.alternate, ← ifClause g)]
    return .mk .ifStatement [(.test, test), (.consequent, yes)]
  noteUnexpected (← next)
  return .mk .ifStatement [(.test, test), (.consequent, .empty)]

def doStatement (g : Grammar) : Parse Node := do
  expectWord "do"
  let body ← inLoop g.statement
  expectWord "while"
  expect "("
  let test ← expression g
  if ← isAt ")" then
    expect ")"
    if ← isAt ";" then
      let _ ← next
  else noteUnexpected (← next)
  return .mk .doWhileStatement [(.body, body), (.test, test)]

def whileStatement (g : Grammar) : Parse Node := do
  expectWord "while"
  expect "("
  let test ← expression g
  let body ← closing (inLoop g.statement)
  return .mk .whileStatement [(.test, test), (.body, body)]

/-- The head of a loop: three parts, or a walk over keys or members. -/
inductive LoopHead where
  | plain (init : Option Node)
  | keys (left right : Node)
  | members (left right : Node)

def keysOf (g : Grammar) (left : Node) : Parse LoopHead := do
  let _ ← next
  return .keys left (← expression g)

def membersOf (g : Grammar) (left : Node) : Parse LoopHead := do
  let _ ← next
  return .members left (← g.assignment)

def isUninitialized (ds : List Node) : Bool :=
  match ds with
  | [d] => (d.child? .init).isNone
  | _ => false

def varHead (g : Grammar) : Parse LoopHead := do
  let _ ← next
  let ds ← allowingIn false (separated (variableBinding g true))
  let declaration := declarationOf "var" ds
  if ds.length = 1 && (← isAtWord "in") then
    let isPattern := match ds.head?.bind (·.child? .id) with
      | some id => id.label = .arrayPattern || id.label = .objectPattern
      | none => false
    if !isUninitialized ds && (isPattern || (← around).strict) then
      object "for-in loop variable declaration may not have an initializer"
    keysOf g declaration
  else if isUninitialized ds && (← isAtName "of") then membersOf g declaration
  else
    expect ";"
    return .plain (some declaration)

def lexicalHead (g : Grammar) : Parse LoopHead := do
  let kind := (← next).value
  let t ← ahead
  if !(← around).strict && t.spells "in" then keysOf g (.identifier kind)
  else
    let ds ← allowingIn false (separated (lexicalBinding g kind true))
    let declaration := declarationOf kind ds
    if isUninitialized ds && (← isAtWord "in") then keysOf g declaration
    else if isUninitialized ds && (← isAtName "of") then membersOf g declaration
    else
      endStatement
      return .plain (some declaration)

def expressionHead (g : Grammar) : Parse LoopHead := do
  setGrouped false
  let init ← allowingIn false (inherited g.assignment)
  let isTarget := (← around).isTarget
  let isBad : Bool := match init.label with
    | .assignmentExpression _ => true
    | _ => !isTarget
  let isGrouped := (← around).isGrouped && mayBePattern init
  if ← isAtWord "in" then
    if isBad then objectToTarget init "Invalid left-hand side in for-in"
    if isGrouped then bar
    keysOf g (asPattern init)
  else if ← isAtName "of" then
    if isBad then objectToTarget init "Invalid left-hand side in for-loop"
    if isGrouped then bar
    membersOf g (asPattern init)
  else
    let init ←
      if ← isAt "," then do
        let rest ← collectUntil (do return !(← isAt ",")) do
          let _ ← next
          isolated g.assignment
        pure (sequence (init :: rest))
      else pure init
    expect ";"
    return .plain (some init)

def loopHead (g : Grammar) : Parse LoopHead := do
  if ← isAt ";" then
    let _ ← next
    return .plain none
  else if ← isAtWord "var" then varHead g
  else if (← isAtWord "const") || (← isAtWord "let") then lexicalHead g
  else expressionHead g

def optionalUntil (g : Grammar) (sign : String) : Parse (Option Node) := do
  if ← isAt sign then return none else return some (← expression g)

def forStatement (g : Grammar) : Parse Node := do
  expectWord "for"
  expect "("
  let body := closing (inLoop (isolated g.statement))
  match ← loopHead g with
  | .plain init =>
    let test ← optionalUntil g ";"
    expect ";"
    let update ← optionalUntil g ")"
    let body ← body
    let part (f : Field) (n : Option Node) : List (Field × Node) := n.toList.map fun n => (f, n)
    return .mk .forStatement
      (part .init init ++ part .test test ++ part .update update ++ [(.body, body)])
  | .keys left right =>
    return .mk (.forInStatement false) [(.left, left), (.right, right), (.body, ← body)]
  | .members left right =>
    return .mk .forOfStatement [(.left, left), (.right, right), (.body, ← body)]

/-- The label a jump names, which must be one that encloses it. -/
def jumpLabel : Parse (Option Node) := do
  if (← ahead).kind = .identifier && !(← get).brokenLine then
    let id ← boundName .parameters
    let name := id.identifierName?.getD ""
    if !(← around).labels.contains name then refuse ("Undefined label '" ++ name ++ "'")
    return some id
  return none

def continueStatement : Parse Node := do
  expectWord "continue"
  let label ← jumpLabel
  endStatement
  if label.isNone && !(← around).inIteration then refuse "Illegal continue statement"
  return .mk .continueStatement (label.toList.map fun l => (.label, l))

def breakStatement : Parse Node := do
  expectWord "break"
  let label ← jumpLabel
  endStatement
  let a ← around
  if label.isNone && !a.inIteration && !a.inSwitch then refuse "Illegal break statement"
  return .mk .breakStatement (label.toList.map fun l => (.label, l))

/-- A string or template is the value of a `return` even on the next line. -/
def returnStatement (g : Grammar) : Parse Node := do
  if !(← around).inFunction then object "Illegal return statement"
  expectWord "return"
  let t ← ahead
  let hasValue :=
    (!t.isPunctuator ";" && !t.isPunctuator "\x7d" && !(← get).brokenLine && t.kind ≠ .endOfInput)
      || t.kind = .string || t.kind = .template
  let value ← if hasValue then some <$> expression g else pure none
  endStatement
  return .mk .returnStatement (value.toList.map fun v => (.argument, v))

def withStatement (g : Grammar) : Parse Node := do
  if (← around).strict then object "Strict mode code may not include a with statement"
  expectWord "with"
  expect "("
  let target ← expression g
  return .mk .withStatement [(.object, target), (.body, ← closing g.statement)]

def switchCase (g : Grammar) : Parse Node := do
  let test ←
    if ← isAtWord "default" then do
      let _ ← next
      pure none
    else do
      expectWord "case"
      pure (some (← expression g))
  expect ":"
  let body ← collectUntil
    (do return (← isAt "\x7d") || (← isAtWord "default") || (← isAtWord "case")) g.item
  return .mk .switchCase
    ((test.toList.map fun t => (.test, t)) ++ body.map fun s => (.consequent, s))

def switchStatement (g : Grammar) : Parse Node := do
  expectWord "switch"
  expect "("
  let subject ← expression g
  expect ")"
  let cases ← within (fun a => { a with inSwitch := true })
    (fun before a => { a with inSwitch := before.inSwitch }) do
    expect "\x7b"
    let (cases, _) ← loop (fun ((done, hasDefault) : List Node × Bool) => do
      if ← isAt "\x7d" then return .done (done, hasDefault)
      let c ← switchCase g
      let isDefault := (c.child? .test).isNone
      if isDefault && hasDefault then refuse "More than one default clause in switch statement"
      return .more (done ++ [c], hasDefault || isDefault)) ([], false)
    expect "\x7d"
    return cases
  return .mk .switchStatement ((.discriminant, subject) :: cases.map fun c => (.cases, c))

def labeledBody (g : Grammar) : Parse Node := do
  let t ← ahead
  if t.isKeyword "class" then
    noteUnexpected t
    classDeclaration g false
  else if t.isKeyword "function" then
    let f ← functionDeclaration g false
    let isGenerator := match f.label with
      | .functionDeclaration flags _ => flags.generator
      | _ => false
    if (← around).strict then
      note t.line
        "In strict mode code, functions can only be declared at top level or inside a block"
    else if isGenerator then
      note t.line "Generator declarations are not allowed in legacy contexts"
    return f
  else g.statement

/-- A statement that begins with a name: a labeled one, or an expression. -/
def labeledStatement (g : Grammar) : Parse Node := do
  let start ← startIndex
  let e ← expression g
  match e.identifierName?, ← isAt ":" with
  | some name, true =>
    let _ ← next
    if (← around).labels.contains name then
      refuse ("Label '" ++ name ++ "' has already been declared")
    let body ← within (fun a => { a with labels := name :: a.labels })
      (fun before a => { a with labels := before.labels }) (labeledBody g)
    return .mk .labeledStatement [(.label, e), (.body, body)]
  | _, _ =>
    endStatement
    expressionNode start e

def throwStatement (g : Grammar) : Parse Node := do
  expectWord "throw"
  if (← get).brokenLine then refuse "Illegal newline after throw"
  let value ← expression g
  endStatement
  return .mk .throwStatement [(.argument, value)]

def catchClause (g : Grammar) : Parse Node := do
  expectWord "catch"
  expect "("
  if ← isAt ")" then unexpected (← ahead)
  let (param, names) ← g.pattern .parameters
  let _ ← names.foldlM (fun (seen : List String) t => do
    if seen.contains t.value then object ("Duplicate binding " ++ t.value)
    return t.value :: seen) []
  if (← around).strict && (param.identifierName?.map isRestricted).getD false then
    object "Catch variable may not be eval or arguments in strict mode"
  expect ")"
  return .mk .catchClause [(.param, param), (.body, ← block g)]

def tryStatement (g : Grammar) : Parse Node := do
  expectWord "try"
  let body ← block g
  let handler ← if ← isAtWord "catch" then some <$> catchClause g else pure none
  let finalizer ←
    if ← isAtWord "finally" then do
      let _ ← next
      some <$> block g
    else pure none
  if handler.isNone && finalizer.isNone then refuse "Missing catch or finally after try"
  return .mk .tryStatement ([(.block, body)] ++ (handler.toList.map fun h => (.handler, h))
    ++ finalizer.toList.map fun f => (.finalizer, f))

def debuggerStatement : Parse Node := do
  expectWord "debugger"
  endStatement
  return .mk .debuggerStatement []

def wordStatement (g : Grammar) (word : String) : Parse Node := do
  -- a class is declared in a list of statements only
  if word = "class" then bar
  match word with
  | "break" => breakStatement
  | "continue" => continueStatement
  | "debugger" => debuggerStatement
  | "do" => doStatement g
  | "for" => forStatement g
  | "function" => functionDeclaration g false
  | "if" => ifStatement g
  | "return" => returnStatement g
  | "switch" => switchStatement g
  | "throw" => throwStatement g
  | "try" => tryStatement g
  | "var" => variableStatement g
  | "while" => whileStatement g
  | "with" => withStatement g
  | _ => expressionStatement g

def statement (g : Grammar) : Parse Node := do
  let t ← ahead
  match t.kind with
  | .punctuator =>
    match t.value with
    | "\x7b" => block g
    | ";" =>
      expect ";"
      return .empty
    | _ => expressionStatement g
  | .identifier =>
    if ← isAtAsyncFunction then functionDeclaration g false else labeledStatement g
  | .keyword => wordStatement g t.value
  | .boolean | .null | .numeric | .string | .template | .regex => expressionStatement g
  | _ => unexpected t

end Unravel.Source.Parse
