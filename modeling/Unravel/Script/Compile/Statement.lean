import Unravel.Script.Compile.Function

/-! Statements. -/

namespace Unravel.Script.Compile

variable (c : Compiler)

/-- Forgets the value of the last statement, if one is kept. -/
def resetCompletion : Compile Unit := do
  match (← current).completion with
  | some slot =>
    emit (.const .undefined)
    emit (.set (.slot slot))
  | none => pure ()

/-- Code with the names that a list of statements has for itself. -/
def inBlock (statements : List Node) (isLoose : Bool) (body : Compile Unit) : Compile Unit := do
  let lexicals := statements.flatMap Node.lexicalNames
  let functions := Node.declaredFunctions statements
  if lexicals.isEmpty && functions.isEmpty then body
  else
    pushScope { isLoose := isLoose }
    declareLexicals lexicals
    for name in (functions.filterMap Node.idName?).eraseDups do
      let place ← makePlace name .undefined
      bindName name { place := place }
    makeFunctions c functions
    body
    popScope

def block (statements : List Node) : Compile Unit :=
  inBlock c statements false do
    for s in statements do
      c.statement [] s

/-- A statement that is not one of a list; a function declared there has a block of its own. -/
def single (n : Node) : Compile Unit :=
  if n.unlabelled.isFunctionDeclaration then inBlock c [n] false (c.statement [] n)
  else c.statement [] n

def declaration (kind : String) (n : Node) : Compile Unit := do
  for d in n.row .declarations do
    let target := d.part .id
    match d.child? .init with
    | some init =>
      match target.identifierName? with
      | some name => named c (.ofString name) init
      | none => c.expression init
      c.bind (kind ≠ "var") target
    | none =>
      if kind ≠ "var" then
        emit (.const .undefined)
        c.bind true target

/-- A function declared in a block also becomes the value of the variable of its name, where the
body has one for it. -/
def blockFunction (n : Node) : Compile Unit := do
  let isPlain := match n.label with
    | .functionDeclaration flags _ => !flags.generator && !flags.isAsync
    | _ => false
  match n.idName?, (← current).scopes with
  | some name, s :: rest =>
    if isPlain && !(← isStrict) && !s.isBody then
      match s.names[name]? with
      | some v =>
        match ← bodyVariable? name with
        | some target =>
          if !target.isChecked then
            loadVariable name v
            emit (.set target.place)
        | none =>
          let isHidden := rest.any fun s => s.isBody || (s.names.contains name && !s.isCatch)
          if !isHidden && (← current).isTop then
            loadVariable name v
            storeHome name
      | none => pure ()
  | _, _ => pure ()

def ifStatement (n : Node) : Compile Unit := do
  resetCompletion
  c.expression (n.part .test)
  let no ← emitOpen (.jumpIfFalse 0)
  single c (n.part .consequent)
  match n.child? .alternate with
  | some alternate =>
    let done ← emitOpen (.jump 0)
    close no
    single c alternate
    close done
  | none => close no

/-- The target that a loop is, where no tries are open in it. -/
def loopTarget (labels : List String) : Compile Target := do
  let depth := (← current).depth
  return { labels := labels, isLoop := true, takesBreak := true, breakDepth := depth
           continueDepth := depth }

def whileStatement (labels : List String) (n : Node) : Compile Unit := do
  resetCompletion
  openTarget (← loopTarget labels)
  let start ← here
  c.expression (n.part .test)
  let done ← emitOpen (.jumpIfFalse 0)
  single c (n.part .body)
  emit (.jumpBack start)
  close done
  closeTarget start

def doStatement (labels : List String) (n : Node) : Compile Unit := do
  resetCompletion
  openTarget (← loopTarget labels)
  let start ← here
  single c (n.part .body)
  closeContinues
  let again ← here
  c.expression (n.part .test)
  let done ← emitOpen (.jumpIfFalse 0)
  emit (.jumpBack start)
  close done
  closeTarget again

/-- Gives each round of a loop variables of its own, where functions may keep them. -/
def freshRound (names : List String) : Compile Unit := do
  for name in names do
    match ← ownVariable? name with
    | some { place := .cell i, .. } => emit (.copyCell i)
    | _ => pure ()

def forStatement (labels : List String) (n : Node) : Compile Unit := do
  resetCompletion
  let init := n.child? .init
  let lexicals := (init.map Node.lexicalNames).getD []
  pushScope {}
  declareLexicals lexicals
  match init with
  | some i =>
    match i.label with
    | .variableDeclaration kind => declaration c kind i
    | _ => effect c i
  | none => pure ()
  let names := (lexicals.filter fun l => !l.2).map Prod.fst
  freshRound names
  openTarget (← loopTarget labels)
  let start ← here
  let done ← match n.child? .test with
    | some test => do
      c.expression test
      pure (some (← emitOpen (.jumpIfFalse 0)))
    | none => pure none
  single c (n.part .body)
  closeContinues
  let again ← here
  freshRound names
  match n.child? .update with
  | some u => effect c u
  | none => pure ()
  emit (.jumpBack start)
  match done with
  | some d => close d
  | none => pure ()
  closeTarget again
  popScope

/-- Binds what a round of a loop over items or keys is about, which is on the stack. -/
def bindRound (left : Node) : Compile Unit := do
  match left.label with
  | .variableDeclaration kind =>
    match left.row .declarations with
    | d :: _ =>
      if kind = "var" then c.bind false (d.part .id)
      else
        declareLexicals left.lexicalNames
        c.bind true (d.part .id)
    | [] => emit .pop
  | _ => c.bind false left

/-- The value that a loop runs over. Names that the loop declares have no value there. -/
def loopSubject (left right : Node) : Compile Unit := do
  pushScope {}
  declareLexicals left.lexicalNames
  -- a variable may be given a value before the loop
  match left.label with
  | .variableDeclaration "var" => declaration c "var" left
  | _ => pure ()
  c.expression right
  popScope

def forInStatement (labels : List String) (n : Node) : Compile Unit := do
  resetCompletion
  let keys ← newSlot
  loopSubject c (n.part .left) (n.part .right)
  emit (.openKeys keys)
  openTarget (← loopTarget labels)
  let start ← here
  let done ← emitOpen (.nextKey keys 0)
  pushScope {}
  bindRound c (n.part .left)
  single c (n.part .body)
  popScope
  emit (.jumpBack start)
  close done
  closeTarget start

def forOfStatement (labels : List String) (n : Node) : Compile Unit := do
  resetCompletion
  let items ← newSlot
  loopSubject c (n.part .left) (n.part .right)
  emit (.openItems items)
  let depth := (← current).depth
  emit (.tryItems items)
  openTarget { labels := labels, isLoop := true, takesBreak := true, breakDepth := depth
               continueDepth := depth + 1 }
  let start ← here
  deeper do
    let done ← emitOpen (.nextItem items 0)
    pushScope {}
    bindRound c (n.part .left)
    single c (n.part .body)
    popScope
    emit (.jumpBack start)
    close done
  emit .endTry
  closeTarget start

def switchStatement (labels : List String) (n : Node) : Compile Unit := do
  resetCompletion
  let cases := n.row .cases
  let value ← newSlot
  c.expression (n.part .discriminant)
  emit (.set (.slot value))
  let depth := (← current).depth
  openTarget { labels := labels, isLoop := false, takesBreak := true, breakDepth := depth
               continueDepth := depth }
  inBlock c (cases.flatMap fun k => k.row .consequent) true do
    let mut entries := #[]
    for k in cases do
      match k.child? .test with
      | some test =>
        emit (.get (.slot value))
        c.expression test
        emit (.binary .same)
        entries := entries.push (some (← emitOpen (.jumpIfTrue 0)))
      | none => entries := entries.push none
    let otherwise ← emitOpen (.jump 0)
    let mut hasDefault := false
    for (k, i) in cases.zipIdx do
      match entries.getD i none with
      | some e => close e
      | none =>
        hasDefault := true
        close otherwise
      for s in k.row .consequent do
        c.statement [] s
    if !hasDefault then close otherwise
  closeTarget 0

def catchClause (n : Node) : Compile Unit := do
  match n.child? .param with
  | some p =>
    pushScope { isCatch := p.identifierName?.isSome }
    declareLexicals (p.boundNames.map (·, false))
    c.bind true p
    c.statement [] (n.part .body)
    popScope
  | none =>
    emit .pop
    c.statement [] (n.part .body)

def tryStatement (n : Node) : Compile Unit := do
  resetCompletion
  let guarded : Compile Unit := do
    match n.child? .handler with
    | some handler =>
      let caught ← emitOpen (.tryCatch 0)
      deeper (c.statement [] (n.part .block))
      emit .endTry
      let done ← emitOpen (.jump 0)
      close caught
      resetCompletion
      catchClause c handler
      close done
    | none => c.statement [] (n.part .block)
  match n.child? .finalizer with
  | some last =>
    let caught ← emitOpen (.tryFinally 0)
    deeper guarded
    emit .beginFinally
    close caught
    match (← current).completion with
    | some value =>
      -- what the last part does is no value of the whole, unless it is left early
      let kept ← newSlot
      emit (.get (.slot value))
      emit (.set (.slot kept))
      resetCompletion
      deeper (c.statement [] last)
      emit (.get (.slot kept))
      emit (.set (.slot value))
    | none => deeper (c.statement [] last)
    emit .endFinally
  | none => guarded

def withStatement (n : Node) : Compile Unit := do
  resetCompletion
  c.expression (n.part .object)
  emit .toObject
  let cell ← newCell
  emit (.newCell cell .undefined)
  emit (.set (.cell cell))
  pushScope { object? := some { place := .cell cell } }
  single c (n.part .body)
  popScope

def labelOf (n : Node) : Option String := (n.child? .label).bind Node.identifierName?

def labeledStatement (labels : List String) (n : Node) : Compile Unit := do
  let labels := (labelOf n).toList ++ labels
  let body := n.part .body
  match body.label with
  | .whileStatement | .doWhileStatement | .forStatement | .forInStatement _ | .forOfStatement
  | .labeledStatement | .switchStatement => c.statement labels body
  | _ =>
    let depth := (← current).depth
    openTarget { labels := labels, isLoop := false, takesBreak := false, breakDepth := depth
                 continueDepth := depth }
    c.statement [] body
    closeTarget 0

def statementCode (labels : List String) (n : Node) : Compile Unit := do
  match n.label with
  | .expressionStatement .. =>
    match (← current).completion with
    | some slot =>
      c.expression (n.part .expression)
      emit (.set (.slot slot))
    | none => effect c (n.part .expression)
  | .variableDeclaration kind => declaration c kind n
  | .functionDeclaration .. => blockFunction n
  | .classDeclaration =>
    classValue c n #[]
    match n.idName? with
    | some name => initName name
    | none => emit .pop
  | .blockStatement => block c (n.row .body)
  | .ifStatement => ifStatement c n
  | .whileStatement => whileStatement c labels n
  | .doWhileStatement => doStatement c labels n
  | .forStatement => forStatement c labels n
  | .forInStatement _ => forInStatement c labels n
  | .forOfStatement => forOfStatement c labels n
  | .switchStatement => switchStatement c labels n
  | .tryStatement => tryStatement c n
  | .throwStatement =>
    c.expression (n.part .argument)
    emit .raise
  | .returnStatement =>
    match n.child? .argument with
    | some a => c.expression a
    | none => emit (.const .undefined)
    returnValue
  | .breakStatement => jumpOut true (labelOf n)
  | .continueStatement => jumpOut false (labelOf n)
  | .labeledStatement => labeledStatement c labels n
  | .withStatement => withStatement c n
  | .emptyStatement | .debuggerStatement => pure ()
  | _ => throw "unexpected statement"

end Unravel.Script.Compile
