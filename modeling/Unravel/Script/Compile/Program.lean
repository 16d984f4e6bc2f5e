import Unravel.Script.Compile.Statement

/-! Code of whole scripts, and of text that is run in place. -/

namespace Unravel.Script

/-- The rules of compilation tied together, to a depth. -/
def compiler : Nat → Compiler
  | 0 => .exhausted
  | n + 1 =>
    { expression := fun node s => Compile.expressionValue (compiler n) node s
      statement := fun labels node s => Compile.statementCode (compiler n) labels node s
      function := fun kind name node s => Compile.functionCode (compiler n) kind name node s
      bind := fun isFirst node s => Compile.bindTarget (compiler n) isFirst node s }

/-- The deepest nesting that is compiled. -/
def nestingLimit : Nat := 3000

/-- What a compilation starts from: how many codes, sites, places for templates and scripts there
are so far, the statements with their functions numbered, and where those stand in the text. -/
structure Loading where
  codes : Nat
  sites : Nat
  templateSites : Nat
  script : Nat
  statements : List Node
  spans : Array Span

/-- What compilation gives: the code to start with, that of the functions in it, and the places
where text is run. -/
structure Compiled where
  main : Code
  codes : Array Code
  sites : Array EvalSite
  templateSites : Nat
deriving Inhabited

namespace Compile

/-- Statements whose last value is kept and returned. -/
def statementsValue (c : Compiler) (statements : List Node) : Compile Unit := do
  let last ← newSlot
  modifyCurrent fun f => { f with completion := some last }
  emit (.const .undefined)
  emit (.set (.slot last))
  for s in statements do
    c.statement [] s
  emit (.get (.slot last))
  emit .ret

/-- Names of variables and functions that statements declare for the whole script. -/
def wholeNames (statements : List Node) (strict : Bool) : List String × List String :=
  let functions := (Node.declaredFunctions statements).filterMap Node.idName?
  let blocked := statements.flatMap fun s => s.lexicalNames.map Prod.fst
  let hoisted := if strict then [] else statements.flatMap fun s => blockFunctionNames s true blocked
  ((statements.flatMap Node.varNames ++ hoisted).eraseDups, functions.eraseDups)

/-- The code of a script. -/
def scriptCode (c : Compiler) (statements : List Node) (mentions : Mentions) : Compile Unit := do
  pushScope {}
  if mentions.inner.contains "this" || mentions.hasEval then declareOwn "this" .this
  let names := wholeNames statements (← isStrict)
  for (name, isConst) in statements.flatMap Node.lexicalNames do
    emit (.declareLexical (.ofString name) isConst)
  for name in names.2 do
    emit (.declareGlobal (.ofString name) true)
  for name in names.1 do
    emit (.declareGlobal (.ofString name) false)
  makeFunctions c (Node.declaredFunctions statements)
  statementsValue c statements

/-- The code of text that is run in place. Outside strict code its variables are declared for the
code around. -/
def inPlaceCode (c : Compiler) (statements : List Node) : Compile Unit := do
  if ← isStrict then
    pushScope { isBody := true }
    declareBody c statements [] false
  else
    pushScope {}
    let functions := Node.declaredFunctions statements
    for name in statements.flatMap Node.varNames ++ functions.filterMap Node.idName? do
      match ← home name with
      | .taken => throw (name ++ " has already been declared")
      | _ => pure ()
    let names := wholeNames statements false
    for name in names.2 ++ names.1 do
      declareHome name
    declareLexicals (statements.flatMap Node.lexicalNames)
    for f in functions do
      match f.idName? with
      | some name =>
        functionValue c f #[]
        storeHome name
      | none => pure ()
  statementsValue c statements

/-- Runs a compilation. -/
def finished (l : Loading) (around : List FunctionState) (f : FunctionState)
    (action : Compile Unit) : Except String Compiled :=
  let s : CompileState :=
    { current := f, outer := around, codeBase := l.codes, siteBase := l.sites
      templateCount := l.templateSites, script := l.script, spans := l.spans }
  match action.run s with
  | .ok _ s =>
    let f := s.current
    .ok
      { main :=
          { kind := f.kind, strict := f.strict, instrs := f.instrs, slots := f.slots
            cells := f.cells, captures := f.captures }
        codes := s.codes, sites := s.sites, templateSites := s.templateCount }
  | .error e _ => .error e

def mentionsOf (statements : List Node) : Mentions :=
  Mentions.visitAll (statements.map fun s => (Field.body, s)) {}

/-- Compiles a script. -/
def script (l : Loading) : Except String Compiled :=
  let mentions := mentionsOf l.statements
  finished l []
    { kind := .ordinary, strict := Node.startsStrict l.statements, inner := mentions.inner
      sharesAll := mentions.hasEval, isTop := true }
    (scriptCode (compiler nestingLimit) l.statements mentions)

/-- The function around text that is run in place. -/
def EvalSite.around (site : EvalSite) : FunctionState :=
  { kind := .ordinary, strict := site.strict, scopes := site.scopes }

/-- Compiles text that is run in place. -/
def inPlace (site : EvalSite) (l : Loading) : Except String Compiled :=
  let mentions := mentionsOf l.statements
  finished l [EvalSite.around site]
    { kind := .arrow, strict := site.strict || Node.startsStrict l.statements
      inner := mentions.inner, sharesAll := mentions.hasEval, isTop := true }
    (inPlaceCode (compiler nestingLimit) l.statements)

end Compile

end Unravel.Script
