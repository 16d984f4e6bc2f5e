import Unravel.Source.Parse.Core

/-! Patterns: targets of declarations and assignments, and parameters. -/

namespace Unravel.Source.Parse

/-- A name that is bound here. -/
def boundName (declares : Declares) : Parse Node := do
  let t ← next
  let a ← around
  if t.isKeyword "yield" then
    if a.strict then note t.line "Use of future reserved word in strict mode"
    else if !a.allowYield then unexpected t
  else if t.kind ≠ .identifier then
    if a.strict && t.kind = .keyword && isStrictReserved t.value then
      note t.line "Use of future reserved word in strict mode"
    else if a.strict || !t.spells "let" || declares ≠ .var then unexpected t
  else if (a.isModule || a.allowAwait) && t.value = "await" then noteUnexpected t
  return .identifier (if t.kind = .string then t.text.toString else t.value)

/-- A name of any kind, reserved words included. -/
def anyName : Parse Node := do
  let t ← next
  if !t.isName then unexpected t
  return .identifier t.value

/-- A property key; one in brackets is an expression. -/
def propertyKey (g : Grammar) : Parse Node := do
  let t ← next
  match t.kind with
  | .string | .numeric =>
    if (← around).strict && t.octal then
      note t.line "Octal literals are not allowed in strict mode."
    literalNode (if t.kind = .string then .text t.text else .number t.number) t
  | .identifier | .boolean | .null | .keyword => return .identifier t.value
  | _ =>
    if t.isPunctuator "[" then
      let key ← isolated g.assignment
      expect "]"
      return key
    else unexpected t

/-- A pattern with an optional default. -/
def patternWithDefault (g : Grammar) (declares : Declares) : Parse (Node × List Token) := do
  let (p, names) ← g.pattern declares
  if ← isAt "=" then
    let _ ← next
    let right ← allowingYield true (isolated g.assignment)
    return (.mk .assignmentPattern [(.left, p), (.right, right)], names)
  return (p, names)

def rest (n : Node) : Node := .mk .restElement [(.argument, n)]

def arrayPattern (g : Grammar) (declares : Declares) : Parse (Node × List Token) := do
  expect "["
  let (elements, names) ← loop (fun ((es, names) : List Node × List Token) => do
    if ← isAt "]" then return .done (es, names)
    else if ← isAt "," then
      let _ ← next
      return .more (es ++ [.mk .hole []], names)
    else if ← isAt "..." then
      expect "..."
      let (p, more) ← g.pattern declares
      return .done (es ++ [rest p], names ++ more)
    else
      let (p, more) ← patternWithDefault g declares
      if !(← isAt "]") then expect ","
      return .more (es ++ [p], names ++ more)) ([], [])
  expect "]"
  return (.mk .arrayPattern (elements.map fun e => (.elements, e)), names)

def patternMember (computed shorthand : Bool) (key value : Node) : Node :=
  .mk (.property computed false shorthand "init") [(.key, key), (.value, value)]

def propertyPattern (g : Grammar) (declares : Declares) : Parse (Node × List Token) := do
  let t ← ahead
  if t.kind = .identifier then
    let key ← boundName .parameters
    let name := Node.identifier t.value
    if ← isAt "=" then
      let _ ← next
      let right ← g.assignment
      let value := Node.mk .assignmentPattern [(.left, name), (.right, right)]
      return (patternMember false true key value, [t])
    else if !(← isAt ":") then return (patternMember false true key name, [t])
    else
      expect ":"
      let (value, names) ← patternWithDefault g declares
      return (patternMember false false key value, names)
  else
    let computed ← isAt "["
    let key ← propertyKey g
    expect ":"
    let (value, names) ← patternWithDefault g declares
    return (patternMember computed false key value, names)

def restProperty (g : Grammar) : Parse (Node × List Token) := do
  expect "..."
  let (p, names) ← g.pattern .parameters
  if ← isAt "=" then refuse "Unexpected token ="
  if !(← isAt "\x7d") then refuse "Unexpected token"
  return (rest p, names)

def objectPattern (g : Grammar) (declares : Declares) : Parse (Node × List Token) := do
  expect "\x7b"
  let (members, names) ← loop (fun ((ms, names) : List Node × List Token) => do
    if ← isAt "\x7d" then return .done (ms, names)
    let (m, more) ← if ← isAt "..." then restProperty g else propertyPattern g declares
    if !(← isAt "\x7d") then expect ","
    return .more (ms ++ [m], names ++ more)) ([], [])
  expect "\x7d"
  return (.mk .objectPattern (members.map fun m => (.properties, m)), names)

def pattern (g : Grammar) (declares : Declares) : Parse (Node × List Token) := do
  if ← isAt "[" then arrayPattern g declares
  else if ← isAt "\x7b" then objectPattern g declares
  else
    let t ← ahead
    if t.isKeyword "let" && declares = .lexical then
      note t.line "let is disallowed as a lexically bound name"
    return (← boundName declares, [t])

/-- A rest parameter, which must be the last one. -/
def restParameter (g : Grammar) : Parse (Node × List Token) := do
  expect "..."
  let (p, names) ← g.pattern .parameters
  if ← isAt "=" then refuse "Unexpected token ="
  if !(← isAt ")") then refuse "Rest parameter must be last formal parameter"
  return (rest p, names)

/-- An expression read again as the pattern it spells. -/
def asPattern (n : Node) : Node :=
  (n.fold fun l cs =>
    let kept (f : Field) : List (Field × Node) :=
      cs.filterMap fun (g, m, _) => if g = f then some (g, m) else none
    let turned (f : Field) : List (Field × Node) :=
      cs.filterMap fun (g, _, p, _) => if g = f then some (g, p) else none
    let whole : Node := .mk l (cs.map fun (g, m, _) => (g, m))
    let target : Node :=
      match l with
      | .spreadElement => .mk .restElement (turned .argument)
      | .arrayExpression => .mk .arrayPattern (turned .elements)
      | .objectExpression => .mk .objectPattern
          (cs.map fun (g, _, _, member) => (g, member))
      | .assignmentExpression _ => .mk .assignmentPattern (turned .left ++ kept .right)
      | _ => whole
    let asMember : Node :=
      match l with
      | .property .. => .mk l (kept .key ++ turned .value)
      | _ => target
    ((target, asMember) : Node × Node)).1

end Unravel.Source.Parse
