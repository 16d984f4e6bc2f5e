import Unravel.Source.Parse.Statement

/-! Imports and exports, and whole programs. -/

namespace Unravel.Source.Parse

def moduleName : Parse Node := do
  let t ← ahead
  if t.kind ≠ .string then refuse "Unexpected token"
  let t ← next
  literalNode (.text t.text) t

/-- Complains about the token ahead, which is not `from`. -/
def missingFrom {α : Type} : Parse α := do
  let t ← ahead
  let isBlank := match t.kind with
    | .string => t.text.isEmpty
    | .numeric => t.number.isZero
    | _ => t.value.isEmpty
  refuse (if isBlank then "Unexpected token" else "Unexpected token " ++ t.shown)

def fromModule : Parse Node := do
  if !(← isAtName "from") then missingFrom
  let _ ← next
  moduleName

def importSpecifier : Parse Node := do
  let isPlain := (← ahead).kind = .identifier
  let imported ← if isPlain then boundName .parameters else anyName
  if ← isAtName "as" then
    let _ ← next
    return .mk .importSpecifier [(.localName, ← boundName .parameters), (.imported, imported)]
  if !isPlain then unexpected (← next)
  return .mk .importSpecifier [(.localName, imported), (.imported, imported)]

def namedImports : Parse (List Node) := do
  expect "\x7b"
  let specifiers ← collectUntil (isAt "\x7d") do
    let s ← importSpecifier
    if !(← isAt "\x7d") then expect ","
    return s
  expect "\x7d"
  return specifiers

def namespaceImport : Parse (List Node) := do
  expect "*"
  if !(← isAtName "as") then refuse "Unexpected token"
  let _ ← next
  return [.mk .importNamespaceSpecifier [(.localName, ← anyName)]]

def importSpecifiers : Parse (List Node) := do
  let t ← ahead
  if t.isPunctuator "\x7b" then namedImports
  else if t.isPunctuator "*" then namespaceImport
  else if t.isName && !t.isKeyword "default" then
    let first := Node.mk .importDefaultSpecifier [(.localName, ← anyName)]
    if ← isAt "," then
      let _ ← next
      if ← isAt "*" then return first :: (← namespaceImport)
      else if ← isAt "\x7b" then return first :: (← namedImports)
      else unexpected (← ahead)
    return [first]
  else unexpected (← next)

def importDeclaration : Parse Node := do
  if (← around).inFunction then refuse "Unexpected token"
  expectWord "import"
  let (specifiers, source) ←
    if (← ahead).kind = .string then do pure ([], ← moduleName)
    else do
      let specifiers ← importSpecifiers
      pure (specifiers, ← fromModule)
  endStatement
  return .mk .importDeclaration
    (specifiers.map (fun s => (.specifiers, s)) ++ [(.source, source)])

def exportSpecifier : Parse Node := do
  let name ← anyName
  if ← isAtName "as" then
    let _ ← next
    return .mk .exportSpecifier [(.exported, ← anyName), (.localName, name)]
  return .mk .exportSpecifier [(.exported, name), (.localName, name)]

def exportDefault (g : Grammar) : Parse Node := do
  let _ ← next
  let declaration ←
    if ← isAtWord "function" then functionDeclaration g true
    else if ← isAtWord "class" then classDeclaration g true
    else if ← isAtName "async" then
      if ← isAtAsyncFunction then functionDeclaration g true else g.assignment
    else do
      if ← isAtName "from" then refuse "Unexpected token from"
      let value ←
        if ← isAt "\x7b" then objectLiteral g
        else if ← isAt "[" then arrayLiteral g
        else g.assignment
      endStatement
      pure value
  return .mk .exportDefaultDeclaration [(.declaration, declaration)]

/-- Exported names between braces, and whether `default` is among them. -/
def exportSpecifiers : Parse (List Node × Bool) := do
  expect "\x7b"
  let (specifiers, hasDefault) ← loop (fun ((done, hasDefault) : List Node × Bool) => do
    if ← isAt "\x7d" then return .done (done, hasDefault)
    let hasDefault := hasDefault || (← isAtWord "default")
    let s ← exportSpecifier
    if !(← isAt "\x7d") then expect ","
    return .more (done ++ [s], hasDefault)) ([], false)
  expect "\x7d"
  return (specifiers, hasDefault)

/-- A list of names, or a name alone, or a name before a list. -/
def exportList : Parse Node := do
  let (specifiers, hasDefault) ←
    if (← ahead).kind = .identifier then do
      let first := Node.mk .exportDefaultSpecifier [(.localName, ← anyName)]
      if ← isAt "," then
        let _ ← next
        let (more, hasDefault) ← exportSpecifiers
        pure (first :: more, hasDefault)
      else pure ([first], false)
    else exportSpecifiers
  let listed := specifiers.map fun s => (Field.specifiers, s)
  if (← isAtName "from") || hasDefault then
    let source ← fromModule
    endStatement
    return .mk .exportNamedDeclaration (listed ++ [(.source, source)])
  endStatement
  return .mk .exportNamedDeclaration listed

def exportDeclaration (g : Grammar) : Parse Node := do
  if (← around).inFunction then refuse "Unexpected token"
  expectWord "export"
  let named (d : Node) : Node := .mk .exportNamedDeclaration [(.declaration, d)]
  let t ← ahead
  if t.isKeyword "default" then exportDefault g
  else if t.isPunctuator "*" then
    let _ ← next
    let source ← fromModule
    endStatement
    return .mk .exportAllDeclaration [(.source, source)]
  else if t.kind = .keyword then
    match t.value with
    | "let" | "const" => return named (← lexicalDeclaration g)
    | "var" | "class" | "function" => return named (← g.item)
    | _ => unexpected t
  else if ← isAtAsyncFunction then return named (← functionDeclaration g false)
  else exportList

/-- A member of a statement list: a statement or a declaration. -/
def item (g : Grammar) : Parse Node := do
  modifyAround fun a => { a with isTarget := true, isBinding := true }
  let t ← ahead
  let misplaced : Parse Unit := do
    if !(← around).isModule then note t.line "Unexpected token"
  if t.kind ≠ .keyword then statement g
  else
    match t.value with
    | "export" =>
      misplaced
      exportDeclaration g
    | "import" =>
      if ← isAtImportCall then expressionStatement g
      else
        misplaced
        importDeclaration
    | "const" => lexicalDeclaration g
    | "function" => functionDeclaration g false
    | "class" => classDeclaration g false
    | "let" => if ← isAtLexical then lexicalDeclaration g else statement g
    | _ => statement g

/-- The rules, to a depth. -/
def grammar : Nat → Grammar
  | 0 => .exhausted
  | n + 1 => {
    assignment := fun s => assignment (grammar n) s
    unary := fun s => unary (grammar n) s
    exponent := fun s => exponent (grammar n) s
    constructed := fun s => constructed (grammar n) s
    chain := fun s => chain (grammar n) s
    item := fun s => item (grammar n) s
    statement := fun s => statement (grammar n) s
    element := fun s => element (grammar n) s
    pattern := fun d s => pattern (grammar n) d s }

/-- A whole script or module. The first token is read before it is known which of them it is. -/
def program (isModule : Bool) : Parse Node := do
  -- Each rule reads a token before it calls one of a chain of at most a dozen that leads back to it.
  let g := grammar (12 * (← get).source.size + 24)
  let _ ← next
  modify fun s => { s with ended := ⟨s.index, s.line⟩ }
  if isModule then modifyAround fun a => { a with isModule := true, strict := true }
  let first ← directives g
  let rest ← collectUntil isAtEnd g.item
  return .mk (.program (if isModule then "module" else "script"))
    ((first ++ rest).map fun s => (.body, s))

end Parse

/-- A program with the complaints that did not end its parse, whether nothing seen there keeps it
from being run, and where its functions and classes stand, in the order in which they end. -/
structure Parsed where
  tree : Node
  noted : List ParseError
  runs : Bool
  functions : Array Span

def parseAs (isModule : Bool) (code : Text) : Except ParseError Parsed := do
  let (tree, state) ← (Parse.program isModule).run { source := code.toArray }
  return ⟨tree, state.noted, state.runs, state.functions⟩

/-- Parses a program as a script, or as a module if it is no script. -/
def parse (code : Text) : Except ParseError Parsed :=
  match parseAs false code with
  | .ok p => .ok p
  | .error e => match parseAs true code with
    | .ok p => .ok p
    | .error _ => .error e

end Unravel.Source
