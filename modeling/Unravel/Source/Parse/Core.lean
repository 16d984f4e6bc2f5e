import Unravel.Source.Lexer

/-! Moving from token to token, what is expected at a place, and the entry points through which
the rules of the grammar call each other. -/

namespace Unravel.Source.Parse

def around : Parse Surroundings := do return (← get).around

def modifyAround (f : Surroundings → Surroundings) : Parse Unit :=
  modify fun s => { s with around := f s.around }

def ahead : Parse Token := do return (← get).lookahead

/-- Takes the token ahead and reads the one after it. -/
def next : Parse Token := do
  let s ← get
  let token := s.lookahead
  set { s with ended := ⟨s.index, s.line⟩ }
  skipBlanks
  modify fun s =>
    { s with started := if s.index = s.started.index then s.started else ⟨s.index, s.line⟩ }
  let following ← scan
  modify fun s =>
    let reserved :=
      s.around.strict && following.kind = .identifier && isStrictReserved following.value
    { s with
      brokenLine := token.line ≠ following.line
      lookahead := if reserved then { following with kind := .keyword } else following }
  return token

/-- What is wrong about a token that does not fit. -/
def complaint (strict : Bool) (t : Token) : String :=
  match t.kind with
  | .endOfInput => "Unexpected end of input"
  | .identifier => "Unexpected identifier"
  | .numeric => "Unexpected number"
  | .string => "Unexpected string"
  | .template => "Unexpected quasi " ++ t.value
  | .keyword =>
    if isFutureReserved t.value then "Unexpected reserved word"
    else if strict && isStrictReserved t.value then "Use of future reserved word in strict mode"
    else "Unexpected token " ++ t.value
  | _ => "Unexpected token " ++ t.shown

def unexpected {α : Type} (t : Token) : Parse α := do
  fail t.line (complaint (← around).strict t)

def noteUnexpected (t : Token) : Parse Unit := do
  note t.line (complaint (← around).strict t)

/-- Ends the parse with a reason that concerns what was read last. -/
def refuse {α : Type} (reason : String) : Parse α := do
  fail (← get).ended.line reason

/-- Notes a reason that concerns the place of the scan. -/
def object (reason : String) : Parse Unit := do
  note (← get).line reason

/-- Objects to what is no target of an assignment. One to a call is a fault only when it is run. -/
def objectToTarget (target : Node) (reason : String) : Parse Unit := do
  if target.label = .callExpression then remark (← get).line reason else object reason

def isAt (sign : String) : Parse Bool := do return (← ahead).isPunctuator sign

def isAtWord (word : String) : Parse Bool := do return (← ahead).isKeyword word

def isAtName (name : String) : Parse Bool := do return (← ahead).isIdentifier name

def isAtEnd : Parse Bool := do return (← ahead).kind = .endOfInput

def expect (sign : String) : Parse Unit := do
  let t ← next
  if !t.isPunctuator sign then unexpected t

def expectWord (word : String) : Parse Unit := do
  let t ← next
  if !t.isKeyword word then unexpected t

/-- A comma between items; anything else in its place is noted, and a semicolon passed. -/
def expectComma : Parse Unit := do
  let t ← ahead
  if t.isPunctuator "," then
    let _ ← next
  else if t.isPunctuator ";" then
    let t ← next
    noteUnexpected t
  else note t.line ("Unexpected token " ++ t.shown)

/-- A semicolon, or a place where one may be left out. -/
def endStatement : Parse Unit := do
  if ← isAt ";" then
    let _ ← next
  else if !(← get).brokenLine then
    let t ← ahead
    if t.kind ≠ .endOfInput && !t.isPunctuator "\x7d" then unexpected t
    modify fun s => { s with ended := s.started }

/-- The source text of a token. -/
def rawOf (t : Token) : Parse Text := slice t.start t.stop

def startIndex : Parse Nat := do return (← get).started.index

/-- The span from an index to the end of what was read last. -/
def spanFrom (start : Nat) : Parse Span := do return ⟨start, (← get).ended.index⟩

/-- A function or class that began at an index has been read. -/
def endFunction (start : Nat) : Parse Unit := do
  let span ← spanFrom start
  modify fun s => { s with functions := s.functions.push span }

/-- The function read last is a member that began at an index. -/
def beginMember (start : Nat) : Parse Unit :=
  modify fun s => { s with
    functions := s.functions.modify (s.functions.size - 1) fun f => { f with start := start } }

def setTarget (b : Bool) : Parse Unit := modifyAround fun a => { a with isTarget := b }

def setGrouped (b : Bool) : Parse Unit := modifyAround fun a => { a with isGrouped := b }

def setBinding (b : Bool) : Parse Unit := modifyAround fun a => { a with isBinding := b }

/-- What was read is a value only: it can be neither assigned to nor a parameter. -/
def valueOnly : Parse Unit := modifyAround fun a => { a with isTarget := false, isBinding := false }

/-- Reads a part whose being a pattern is decided inside it. -/
def isolated {α : Type} (p : Parse α) : Parse α := do
  let before ← around
  modifyAround fun a =>
    { a with isBinding := true, isTarget := true, isGrouped := false, coverError := none }
  let r ← p
  match (← around).coverError with
  | some t => unexpected t
  | none =>
    modifyAround fun a =>
      { a with
        isBinding := before.isBinding, isTarget := before.isTarget
        isGrouped := before.isGrouped, coverError := before.coverError }
    return r

/-- Reads a part of what may become a pattern as a whole. -/
def inherited {α : Type} (p : Parse α) : Parse α := do
  let before ← around
  modifyAround fun a =>
    { a with isBinding := true, isTarget := true, isGrouped := false, coverError := none }
  let r ← p
  modifyAround fun a =>
    { a with
      isBinding := a.isBinding && before.isBinding
      isTarget := a.isTarget && before.isTarget
      isGrouped := a.isGrouped || before.isGrouped
      coverError := before.coverError <|> a.coverError }
  return r

/-- Reads a part under changed surroundings, and puts the given aspects back afterwards. -/
def within {α : Type} (change : Surroundings → Surroundings)
    (restore : Surroundings → Surroundings → Surroundings) (p : Parse α) : Parse α := do
  let before ← around
  modifyAround change
  let r ← p
  modifyAround (restore before)
  return r

def allowingIn {α : Type} (b : Bool) (p : Parse α) : Parse α :=
  within (fun a => { a with allowIn := b }) (fun before a => { a with allowIn := before.allowIn }) p

def allowingYield {α : Type} (b : Bool) (p : Parse α) : Parse α :=
  within (fun a => { a with allowYield := b })
    (fun before a => { a with allowYield := before.allowYield }) p

def inLoop {α : Type} (p : Parse α) : Parse α :=
  within (fun a => { a with inIteration := true })
    (fun before a => { a with inIteration := before.inIteration }) p

/-- An expression, or a parenthesised list that only an arrow can follow. -/
inductive Cover where
  | expression (n : Node)
  | parameters (ps : List Node) (isAsync : Bool)

/-- The expression of a cover. -/
def Cover.node : Cover → Node
  | .expression n => n
  | .parameters ps _ => .mk .sequenceExpression (ps.map fun p => (.expressions, p))

def Cover.isIdentifier : Cover → Bool
  | .expression n => n.identifierName?.isSome
  | .parameters .. => false

/-- Which names a pattern declares: those of a `var`, of another declaration, or parameters. -/
inductive Declares where
  | var
  | lexical
  | parameters
deriving DecidableEq

/-- The rules that others call. Each call through this record reads on. -/
structure Grammar where
  assignment : Parse Node
  unary : Parse Cover
  exponent : Parse Cover
  /-- What `new` applies to: accesses without calls. -/
  constructed : Parse Cover
  /-- A primary expression with the accesses and calls after it. -/
  chain : Parse Cover
  item : Parse Node
  statement : Parse Node
  element : Parse Node
  /-- A pattern, with the tokens of the names it binds. -/
  pattern : Declares → Parse (Node × List Token)

/-- Rules that read nothing. -/
def Grammar.exhausted : Grammar :=
  let stop {α : Type} : Parse α := refuse "Unexpected end of input"
  ⟨stop, stop, stop, stop, stop, stop, stop, stop, fun _ => stop⟩

/-- Repeats a step until a condition holds, and collects what it reads. -/
def collectUntil {α : Type} (stop : Parse Bool) (step : Parse α) : Parse (List α) := do
  let items ← loop (fun (done : List α) => do
    if ← stop then return .done done
    return .more ((← step) :: done)) []
  return items.reverse

def sequence (es : List Node) : Node :=
  .mk .sequenceExpression (es.map fun e => (.expressions, e))

/-- Assignments with commas between them. -/
def expression (g : Grammar) : Parse Node := do
  let first ← isolated g.assignment
  if ← isAt "," then
    let rest ← collectUntil (do return !(← isAt ",")) do
      let _ ← next
      isolated g.assignment
    return sequence (first :: rest)
  return first

def literalNode (value : LiteralValue) (t : Token) : Parse Node := do
  return .mk (.literal value (some (← rawOf t))) []

end Unravel.Source.Parse
