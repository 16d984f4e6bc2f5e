import Unravel.Source.Parse.Pattern

/-! Functions: parameters and what may be wrong about them, bodies with their directives, and the
functions of object and class members. -/

namespace Unravel.Source.Parse

/-- The parameters of a function. A name that strict code refuses is kept until it is known
whether the body is strict: `refused` is only noted, `restricted` ends the parse. Each holds the
line of the name, if it has one. -/
structure Parameters where
  nodes : List Node := []
  simple : Bool := true
  seen : List String := []
  refused : Option (Option Nat) := none
  restricted : Option (Option Nat) := none
  reason : String := ""

def strictReservedReason : String := "Use of future reserved word in strict mode"

/-- Takes one more name into account. -/
def Parameters.check (ps : Parameters) (strict : Bool) (name : String) (line : Option Nat) :
    Parameters :=
  let badName := "Parameter name eval or arguments is not allowed in strict mode"
  let repeated := "Strict mode function may not have duplicate parameter names"
  let known := ps.seen.contains name
  let ps :=
    if strict then
      let ps := if isRestricted name then { ps with refused := some line, reason := badName } else ps
      if known then { ps with refused := some line, reason := repeated } else ps
    else if ps.restricted.isSome then ps
    else if isRestricted name then { ps with restricted := some line, reason := badName }
    else if isStrictReserved name then
      { ps with restricted := some line, reason := strictReservedReason }
    else if known then { ps with refused := some line, reason := repeated }
    else ps
  { ps with seen := name :: ps.seen }

/-- Ends the parse at a line, or where the parse is. -/
def failAt {α : Type} (line : Option Nat) (reason : String) : Parse α :=
  match line with
  | some n => fail n reason
  | none => refuse reason

def noteAt (line : Option Nat) (reason : String) : Parse Unit := do
  note (line.getD (← get).ended.line) reason

def parameter (g : Grammar) (ps : Parameters) : Parse Parameters := do
  let (node, names) ← if ← isAt "..." then restParameter g else patternWithDefault g .parameters
  let strict := (← around).strict
  let ps := names.foldl (fun ps t => ps.check strict t.value (some t.line)) ps
  return { ps with
    simple := ps.simple && node.identifierName?.isSome
    nodes := ps.nodes ++ [node] }

def parameters (g : Grammar) (restricted : Option (Option Nat)) : Parse Parameters := do
  expect "("
  let ps ←
    if ← isAt ")" then pure { restricted := restricted }
    else loop (fun ps => do
      if ← isAtEnd then return .done ps
      let ps ← parameter g ps
      if ← isAt ")" then return .done ps
      expect ","
      if ← isAt ")" then return .done ps
      return .more ps) { restricted := restricted }
  expect ")"
  return ps

/-- A statement that begins with a string. It is a directive, known by its raw text, if the
string is all of it and not empty. -/
def directive (g : Grammar) : Parse (Node × Option Text) := do
  let t ← ahead
  let start ← startIndex
  let e ← expression g
  let raw ← slice (t.start + 1) (t.stop - 1)
  let text := match e.label with
    | .literal .. => if raw.isEmpty then none else some raw
    | _ => none
  endStatement
  return (.mk (.expressionStatement text (some (← spanFrom start))) [(.expression, e)], text)

/-- The directives at the start of a body and the statement that ends them. -/
def directives (g : Grammar) : Parse (List Node) := do
  let (found, _) ← loop (fun ((done, octal) : List Node × Option Token) => do
    let t ← ahead
    if t.kind ≠ .string then return .done (done, octal)
    let (statement, text) ← directive g
    let done := done ++ [statement]
    match text with
    | none => return .done (done, octal)
    | some text =>
      if text = Text.ofString "use strict" then
        modifyAround fun a => { a with strict := true }
        if let some t := octal then
          note t.line "Octal literals are not allowed in strict mode."
        if !(← around).allowStrictDirective then
          note t.line "Illegal 'use strict' directive in function with non-simple parameter list"
        return .more (done, octal)
      return .more (done, if octal.isNone && t.octal then some t else octal)) ([], none)
  return found

def functionBody (g : Grammar) : Parse Node := do
  expect "\x7b"
  let first ← directives g
  let rest ← within
    (fun a => { a with labels := [], inIteration := false, inSwitch := false, inFunction := true })
    (fun before a => { a with
      labels := before.labels, inIteration := before.inIteration, inSwitch := before.inSwitch
      inFunction := before.inFunction })
    (do
      let items ← collectUntil (do return (← isAtEnd) || (← isAt "\x7d")) g.item
      expect "\x7d"
      return items)
  return .block (first ++ rest)

/-- A body whose strictness and directives are its own. -/
def ownStrictness {α : Type} (simple : Bool) (p : Parse α) : Parse α :=
  within (fun a => { a with allowStrictDirective := simple })
    (fun before a => { a with
      strict := before.strict, allowStrictDirective := before.allowStrictDirective }) p

def functionNode (flags : FunctionFlags) (params : List Node) (body : Node) : Node :=
  .mk (.functionExpression flags) (params.map (fun p => (.params, p)) ++ [(.body, body)])

/-- The body of a member function. -/
def memberBody (g : Grammar) (ps : Parameters) : Parse Node := do
  valueOnly
  ownStrictness ps.simple do
    let body ← isolated (functionBody g)
    endFunction (← startIndex)
    if (← around).strict then
      if let some line := ps.restricted then noteAt line ps.reason
      if let some line := ps.refused then noteAt line ps.reason
    return body

def memberFunction (g : Grammar) : Parse Node :=
  allowingYield true do
    let ps ← parameters g none
    return functionNode {} ps.nodes (← memberBody g ps)

def asyncMember (g : Grammar) : Parse Node :=
  within (fun a => { a with allowYield := false, allowAwait := true })
    (fun before a => { a with allowYield := before.allowYield, allowAwait := before.allowAwait }) do
    let ps ← parameters g none
    return functionNode { isAsync := true } ps.nodes (← memberBody g ps)

def getter (g : Grammar) : Parse Node := do
  modifyAround fun a => { a with allowYield := false }
  allowingYield true do
    let ps ← parameters g none
    if !ps.nodes.isEmpty then object "Getter must not have any formal parameters"
    return functionNode {} ps.nodes (← memberBody g ps)

def setter (g : Grammar) : Parse Node :=
  allowingYield true do
    let ps ← parameters g none
    match ps.nodes with
    | [p] =>
      if p.label = .restElement then
        object "Setter function argument must not be a rest parameter"
    | _ => object "Setter must have exactly one formal parameter"
    return functionNode {} ps.nodes (← memberBody g ps)

def generatorMember (g : Grammar) : Parse Node :=
  allowingYield true do
    let ps ← parameters g none
    modifyAround fun a => { a with allowYield := false }
    return functionNode { generator := true } ps.nodes (← memberBody g ps)

/-- What is wrong with the name of a function in strict code. Outside it, the line and reason are
given back, for the body may be strict. -/
def functionNameCheck (t : Token) : Parse (Option (Nat × String)) := do
  let bad := "Function name may not be eval or arguments in strict mode"
  if (← around).strict then
    if isRestricted t.value then note t.line bad
    return none
  else if isRestricted t.value then return some (t.line, bad)
  else if isStrictReserved t.value then return some (t.line, strictReservedReason)
  else return none

/-- Parameters and body of a function whose name was read. -/
def functionRest (g : Grammar) (name : Option (Nat × String)) : Parse (List Node × Node) := do
  let ps ← parameters g (name.map fun n => some n.1)
  let reason := if ps.reason.isEmpty then (name.map Prod.snd).getD "" else ps.reason
  ownStrictness ps.simple do
    let body ← functionBody g
    if (← around).strict then
      if let some line := ps.restricted then failAt line reason
      if let some line := ps.refused then noteAt line reason
    return (ps.nodes, body)

/-- The marks before the name of a function: `async`, and the star of a generator. -/
def functionMarks : Parse FunctionFlags := do
  let isAsync ← isAtName "async"
  if isAsync then let _ ← next
  expectWord "function"
  let generator := !isAsync && (← isAt "*")
  if generator then let _ ← next
  return { isAsync := isAsync, generator := generator }

def keepingYieldAndAwait {α : Type} (p : Parse α) : Parse α :=
  within id
    (fun before a => { a with allowYield := before.allowYield, allowAwait := before.allowAwait }) p

def enterFunction (flags : FunctionFlags) : Parse Unit :=
  modifyAround fun a => { a with allowAwait := flags.isAsync, allowYield := !flags.generator }

def functionParts (id : Option Node) (params : List Node) (body : Node) : List (Field × Node) :=
  (id.toList.map fun i => (.id, i)) ++ params.map (fun p => (.params, p)) ++ [(.body, body)]

def functionDeclaration (g : Grammar) (mayBeNameless : Bool) : Parse Node := do
  let start ← startIndex
  let flags ← functionMarks
  let (id, name) ←
    if mayBeNameless && (← isAt "(") then pure (none, none)
    else do
      let t ← ahead
      let id ← boundName .parameters
      pure (some id, ← functionNameCheck t)
  let (params, body) ← keepingYieldAndAwait do
    enterFunction flags
    functionRest g name
  endFunction start
  return .mk (.functionDeclaration flags (some (← spanFrom start))) (functionParts id params body)

def functionExpression (g : Grammar) : Parse Node := do
  let start ← startIndex
  let flags ← functionMarks
  keepingYieldAndAwait do
    enterFunction flags
    let (id, name) ←
      if ← isAt "(" then pure (none, none)
      else do
        let t ← ahead
        let plain := !(← around).strict && !flags.generator && (← isAtWord "yield")
        let id ← if plain then anyName else boundName .parameters
        pure (some id, ← functionNameCheck t)
    let (params, body) ← functionRest g name
    endFunction start
    return .mk (.functionExpression flags) (functionParts id params body)

/-- Whether `async` stands ahead with `function` after it on the same line. -/
def isAtAsyncFunction : Parse Bool := do
  if !(← isAtName "async") then return false
  let line := (← get).line
  let following ← lookingAhead do
    skipBlanks
    scan
  return following.line = line && following.isKeyword "function"

end Unravel.Source.Parse
