import Unravel.Script.Compile.Expression

/-! Targets of assignments and declarations, and functions. -/

namespace Unravel.Script.Compile

variable (c : Compiler)

/-- The members of a pattern for objects; the object is kept in a slot. Keys taken are noted for
the rest. -/
def objectPattern (isFirst : Bool) (members : List Node) : Compile Unit := do
  emit .requireObject
  let object ← newSlot
  emit (.set (.slot object))
  let hasRest := members.any fun m => m.label = .restElement || m.label = .spreadElement
  let mut taken : List (Sum Key Nat) := []
  for m in members do
    match m.label with
    | .property computed _ _ _ =>
      emit (.get (.slot object))
      match constantKey? (m.part .key) computed with
      | some k =>
        emit (.getMember k)
        taken := taken ++ [.inl k]
      | none =>
        c.expression (m.part .key)
        emit .toKey
        if hasRest then
          let slot ← newSlot
          emit .dup
          emit (.set (.slot slot))
          taken := taken ++ [.inr slot]
        emit .getElement
      c.bind isFirst (m.part .value)
    | .restElement | .spreadElement =>
      emit (.get (.slot object))
      emit .newArray
      for k in taken do
        match k with
        | .inl k => emit (.const k.value)
        | .inr slot => emit (.get (.slot slot))
        emit .append
      emit .objectRest
      c.bind isFirst (m.part .argument)
    | _ => throw "unexpected member of a pattern"

def arrayPattern (isFirst : Bool) (elements : List Node) : Compile Unit := do
  let items ← newSlot
  emit (.openItems items)
  emit (.tryItems items)
  deeper do
    for e in elements do
      match e.label with
      | .hole =>
        emit (.stepItem items)
        emit .pop
      | .restElement =>
        emit (.restItems items)
        c.bind isFirst (e.part .argument)
      | _ =>
        emit (.stepItem items)
        c.bind isFirst e
  emit .endTry
  emit (.closeItems items)

/-- Takes the value on the stack apart for a target. -/
def bindTarget (isFirst : Bool) (n : Node) : Compile Unit := do
  match n.label with
  | .identifier name => if isFirst then initName name else store name
  | .assignmentPattern =>
    let given ← emitOpen (.jumpIfDefinedKeep 0)
    match (n.part .left).identifierName? with
    | some name => named c (.ofString name) (n.part .right)
    | none => c.expression (n.part .right)
    close given
    c.bind isFirst (n.part .left)
  | .arrayPattern => arrayPattern c isFirst (n.row .elements)
  | .objectPattern => objectPattern c isFirst (n.row .properties)
  | .memberExpression computed =>
    if isSuper (n.part .object) then
      superKey c n computed
      let key ← newSlot
      emit (.set (.slot key))
      storeSuper key
    else
      c.expression (n.part .object)
      match constantKey? (n.part .property) computed with
      | some k =>
        emit .swap
        emit (.setMember k)
      | none =>
        c.expression (n.part .property)
        emit .rotate
        emit .rotate
        emit .setElement
    emit .pop
  | .callExpression =>
    emit .pop
    c.expression n
    emit invalidTarget
  | _ => throw "Invalid destructuring assignment target"

/-- Declares the names that a list of statements has for itself. -/
def declareLexicals (names : List (String × Bool)) : Compile Unit := do
  for (name, isConst) in names do
    let place ← makePlace name .absent
    emit (.clear place)
    bindName name { place := place, isConst := isConst, isChecked := true, isReady := false }

/-- Makes the functions that a list of statements declares, for variables in the innermost scope. -/
def makeFunctions (functions : List Node) : Compile Unit := do
  for f in functions do
    match f.idName? with
    | some name =>
      functionValue c f #[]
      match ← ownVariable? name with
      | some v => emit (.set v.place)
      | none => emit (.setGlobal (.ofString name))
    | none => pure ()

/-- A variable of the function's own that has just been given its value. -/
def declareOwn (name : String) (value : Instr) : Compile Unit := do
  let place ← makePlace name .undefined
  emit value
  emit (.set place)
  bindName name { place := place }

/-- Whether the list of parameters evaluates something. -/
def hasExpressions (n : Node) : Bool :=
  n.fold fun l cs =>
    match l with
    | .assignmentPattern => true
    | .property true _ _ _ => true
    | .functionExpression _ | .arrowFunctionExpression _ => false
    | _ => cs.any fun c => c.2.2

/-- Parameters that are plain names. The arguments are tied to them where `tied` is set. -/
def simpleParams (names : List String) (tied : Bool) : Compile (Array (Option Nat)) := do
  let mut cells := #[]
  for (name, i) in names.zipIdx do
    let isLast := !((names.drop (i + 1)).contains name)
    if isLast then
      if tied || (← isShared name) then
        let cell ← newCell
        emit (.newCell cell .undefined)
        emit (.get (.slot i))
        emit (.set (.cell cell))
        bindName name { place := .cell cell }
        cells := cells.push (some cell)
      else
        bindName name { place := .slot i }
        cells := cells.push none
    else cells := cells.push none
  return cells

/-- Parameters that are patterns, have defaults, or take the rest. -/
def otherParams (params : List Node) : Compile Unit := do
  let names := params.flatMap Node.boundNames
  declareLexicals (names.map (·, false))
  for (p, i) in params.zipIdx do
    match p.label with
    | .restElement =>
      emit (.restArguments i)
      c.bind true (p.part .argument)
    | _ =>
      emit (.get (.slot i))
      c.bind true p
  -- from here on all of them have values
  for name in names do
    match ← ownVariable? name with
    | some v => bindName name { place := v.place }
    | none => pure ()

/-- Names and functions that the statements of a body declare. -/
def declareBody (statements : List Node) (paramNames : List String) (isApart : Bool) :
    Compile Unit := do
  let functions := Node.declaredFunctions statements
  let lexicals := statements.flatMap Node.lexicalNames
  let blocked := paramNames ++ lexicals.map Prod.fst
  let hoisted := if ← isStrict then []
    else statements.flatMap fun s => blockFunctionNames s true blocked
  let names := (statements.flatMap Node.varNames ++ functions.filterMap Node.idName? ++ hoisted)
    |>.eraseDups
  for name in names do
    match ← ownVariable? name with
    | some _ => pure ()
    | none =>
      -- a variable of the body starts with the value of the parameter of its name
      let scopes := (← current).scopes
      let outside := if isApart && name ∉ functions.filterMap Node.idName? then lookUp name scopes {}
        else ({}, false)
      let place ← makePlace name .undefined
      match outside with
      | ({ bound? := some v, .. }, true) =>
        if paramNames.contains name || name = "arguments" then
          loadVariable name v
          emit (.set place)
      | _ => pure ()
      bindName name { place := place }
  declareLexicals lexicals
  makeFunctions c functions

/-- Names of a function's own that functions inside it, or code not known yet, may use. -/
def declareReceiver (kind : FunctionKind) (mentions : Mentions) : Compile Unit := do
  let wanted (name : String) : Bool := mentions.inner.contains name || mentions.hasEval
  if kind = .derivedClass then
    let place ← makePlace "this" .absent
    emit (.clear place)
    bindName "this" { place := place, isChecked := true, isReady := false }
    modifyCurrent fun f => { f with derivedThis := some place }
  else if wanted "this" then declareOwn "this" .this
  if wanted "new.target" || wanted "super" then declareOwn "new.target" .newTarget
  if wanted "super" then
    declareOwn "super" .home
    modifyCurrent fun f => { f with inner := f.inner.insert "callee()" }
    declareOwn "callee()" .callee

/-- Starts the code of a function inside the current one. -/
def enterFunction (f : FunctionState) : Compile Unit :=
  modify fun s => { s with current := f, outer := s.current :: s.outer }

/-- Ends the code of a function. -/
def leaveFunction : Compile FunctionState := do
  let s ← get
  match s.outer with
  | f :: rest => set { s with current := f, outer := rest }
  | [] => pure ()
  return s.current

/-- Whether a function has a receiver of its own. -/
def hasReceiver : FunctionKind → Bool
  | .arrow | .asyncArrow => false
  | _ => true

/-- Leaves the function with the value on the stack. -/
def returnValue : Compile Unit := do
  match (← current).derivedThis with
  | some p => emit (.derivedResult p)
  | none => pure ()
  emit .ret

/-- Compiles a function. -/
def functionCode (kind : FunctionKind) (name : Units) (n : Node) : Compile Nat := do
  let mentions := Mentions.ofFunction n
  let params := n.row .params
  let body := n.part .body
  let isBlock := body.label = .blockStatement
  let statements := if isBlock then body.row .body else []
  let strict := (← isStrict) || Node.startsStrict statements
  let positional := params.filter fun p => p.label ≠ .restElement
  let isSimple := params.all fun p => p.identifierName?.isSome
  let isApart := params.any hasExpressions
  let paramNames := params.flatMap Node.boundNames
  let spans := (← get).spans
  let span := n.mark?.bind fun k => spans[k]?
  enterFunction
    { kind := kind, strict := strict, slots := positional.length, inner := mentions.inner
      sharesAll := mentions.hasEval }
  pushScope {}
  -- the name of a function expression, which the function can see but not change
  if n.label matches .functionExpression _ then
    if let some id := n.idName? then
      if mentions.own.contains id || mentions.inner.contains id || mentions.hasEval then
        let place ← makePlace id .undefined
        emit .callee
        emit (.set place)
        bindName id { place := place, isConst := true, isSilent := true }
  if hasReceiver kind then declareReceiver kind mentions
  let isOpen := mentions.hasOwnEval && !strict
  if isOpen then pushVariables
  pushScope { isBody := !isApart }
  let lexicalNames := statements.flatMap fun s => s.lexicalNames.map Prod.fst
  let functionNames := (Node.declaredFunctions statements).filterMap Node.idName?
  let usesArguments := hasReceiver kind && !paramNames.contains "arguments"
    && (mentions.own.contains "arguments" || mentions.inner.contains "arguments" || mentions.hasEval)
    && (isApart || !(functionNames.contains "arguments" || lexicalNames.contains "arguments"))
  let tied := usesArguments && isSimple && !strict
  let cells ← if isSimple then simpleParams (params.filterMap Node.identifierName?) tied else pure #[]
  if usesArguments then declareOwn "arguments" (.argumentsObject tied (if tied then cells else #[]))
  if !isSimple then otherParams c params
  if isApart then
    if isOpen then pushVariables
    pushScope { isBody := true }
  declareBody c statements paramNames isApart
  if kind = .generator then emit .startGenerator
  if isBlock then
    for s in statements do
      c.statement [] s
    emit (.const .undefined)
  else c.expression body
  returnValue
  let f ← leaveFunction
  let length := (params.takeWhile fun p =>
    p.label ≠ .assignmentPattern && p.label ≠ .restElement).length
  let s ← get
  addCode
    { name := name, length := length, kind := kind, strict := strict, instrs := f.instrs
      slots := f.slots, params := positional.length, cells := f.cells, captures := f.captures
      script := s.script
      start := (span.map Span.start).getD 0, stop := (span.map Span.stop).getD 0 }

end Unravel.Script.Compile
