import Unravel.Source.Parse.Core
import Unravel.Source.Entities

/-! Markup elements among expressions. Between tags the text is scanned by its own rules. -/

namespace Unravel.Source.Parse

/-- Moves the scan back to the token ahead, which markup reads by its own rules. -/
def enterMarkup : Parse Unit :=
  modify fun s => { s with index := s.started.index, line := s.started.line }

/-- Reads the token ahead by the usual rules again. -/
def leaveMarkup : Parse Unit := do
  let _ ← next

/-- How the characters of an entity are read so far. -/
structure EntityScan where
  done : Text
  numeric : Bool := false
  hex : Bool := false
  valid : Bool := true
  terminated : Bool := false

def EntityScan.push (e : EntityScan) (c : Nat) : EntityScan :=
  let done := e.done ++ [c]
  if c = 59 then { e with done := done, terminated := true }
  else
    match done.length with
    | 2 => { e with done := done, numeric := c = 35 }
    | 3 =>
      if e.numeric then
        let hex := c = 120
        { e with done := done, hex := hex, valid := hex || Text.isAsciiDigit c, numeric := !hex }
      else { e with done := done }
    | _ =>
      { e with
        done := done
        valid := e.valid && !(e.numeric && !Text.isAsciiDigit c)
          && !(e.hex && (hexDigit? c).isNone) }

/-- The character of a numeric entity. A number too large for one ends the parse, by a message that
tells numbers of more than 31 bits apart. -/
def entityChar (value : Nat) : Parse Text :=
  if value ≤ 0x10FFFF then return [value]
  else if value < 0x80000000 then throw ⟨none, "chr() arg not in range(0x110000)"⟩
  else throw ⟨none, "Python int too large to convert to C int"⟩

/-- The text of an entity; what is none stands for itself. -/
def EntityScan.text (e : EntityScan) : Parse Text := do
  if !(e.valid && e.terminated && 2 < e.done.length) then return e.done
  let body : Text := (e.done.drop 1).dropLast
  if e.numeric && 1 < body.length then
    if Number.digitLimit + 1 < body.length then
      throw ⟨none, Number.tooManyDigits (body.length - 1)⟩
    entityChar (valueIn 10 (body.drop 1))
  else if e.hex && 2 < body.length then entityChar (valueIn 16 (body.drop 2))
  else if e.numeric || e.hex then return e.done
  else
    match entity? body.toString with
    | some c => return [c]
    | none => return e.done

/-- An entity after its ampersand. -/
def scanEntity (quote : Nat) : Parse Text := do
  let e ← loop (fun (e : EntityScan) => do
    if (← atEnd) || !e.valid || e.terminated then return .done e
    let c ← peek 0
    if c = quote then return .done e
    advance 1
    return .more (e.push c)) { done := [38] }
  e.text

def scanMarkupString : Parse Token := do
  let start := (← get).index
  let quote ← peek 0
  advance 1
  let text ← loop (fun (done : Text) => do
    if ← atEnd then return .done done
    let c ← peek 0
    advance 1
    if c = quote then return .done done
    if c = 38 then return .more ((← scanEntity quote).reverse ++ done)
    return .more (c :: done)) []
  let s ← get
  return { kind := .string, text := text.reverse, start := start, stop := s.index, line := s.line }

/-- A token inside a tag. -/
def scanMarkup : Parse Token := do
  let s ← get
  let c ← peek 0
  let sign (value : String) : Parse Token := do
    advance value.length
    return { kind := .punctuator, value := value, start := s.index, stop := s.index + value.length,
             line := s.line }
  match c with
  | 60 => sign "<"
  | 62 => sign ">"
  | 47 => sign "/"
  | 58 => sign ":"
  | 61 => sign "="
  | 123 => sign "\x7b"
  | 125 => sign "\x7d"
  | 34 | 39 => scanMarkupString
  | 46 => if (← peek 1) = 46 && (← peek 2) = 46 then sign "..." else sign "."
  | 96 => return { kind := .template, start := s.index, stop := s.index, line := s.line }
  | _ =>
    if Text.isNameStart c then
      let name ← digitsOf fun d => Text.isNamePart d || d = 45
      return { kind := .markupName, value := name.toString, start := s.index,
               stop := (← get).index, line := s.line }
    else scan

def nextMarkup : Parse Token := do
  skipBlanks
  modify fun s => { s with started := ⟨s.index, s.line⟩ }
  let t ← scanMarkup
  modify fun s => { s with ended := ⟨s.index, s.line⟩ }
  return t

def expectMarkup (sign : String) : Parse Unit := do
  let t ← nextMarkup
  if !t.isPunctuator sign then unexpected t

def isAtMarkup (sign : String) : Parse Bool := do
  let t ← lookingAhead do
    skipBlanks
    scanMarkup
  return t.isPunctuator sign

/-- Goes on with markup after an expression, whose brace is the token ahead. -/
def reenterMarkup : Parse Unit := do
  enterMarkup
  expectMarkup "\x7d"

def markupName : Parse Node := do
  let t ← nextMarkup
  if t.kind ≠ .markupName then unexpected t
  return .mk (.jsxIdentifier t.value) []

def namespaced (space : Node) : Parse Node := do
  expectMarkup ":"
  return .mk .jsxNamespacedName [(.nsName, space), (.name, ← markupName)]

def elementName : Parse Node := do
  let name ← markupName
  if ← isAtMarkup ":" then namespaced name
  else loop (fun (name : Node) => do
    if !(← isAtMarkup ".") then return .done name
    expectMarkup "."
    return .more (.mk .jsxMemberExpression [(.object, name), (.property, ← markupName)])) name

def markupExpression (g : Grammar) : Parse Node := do
  let e ← g.assignment
  reenterMarkup
  return e

def attributeValue (g : Grammar) : Parse Node := do
  if ← isAtMarkup "\x7b" then
    expectMarkup "\x7b"
    leaveMarkup
    if ← isAt "\x7d" then
      object "JSX attributes must only be assigned a non-empty expression"
    return .mk .jsxExpressionContainer [(.expression, ← markupExpression g)]
  else if ← isAtMarkup "<" then g.element
  else
    let t ← nextMarkup
    if t.kind ≠ .string then unexpected t
    literalNode (.text t.text) t

def attributeNode (g : Grammar) : Parse Node := do
  if ← isAtMarkup "\x7b" then
    expectMarkup "\x7b"
    expectMarkup "..."
    leaveMarkup
    return .mk .jsxSpreadAttribute [(.argument, ← markupExpression g)]
  let name ← markupName
  let name ← if ← isAtMarkup ":" then namespaced name else pure name
  if ← isAtMarkup "=" then
    expectMarkup "="
    return .mk .jsxAttribute [(.name, name), (.value, ← attributeValue g)]
  return .mk .jsxAttribute [(.name, name)]

/-- What follows the `<` of an opening tag. -/
def openingRest (g : Grammar) : Parse Node := do
  let name ← elementName
  let attributes ←
    collectUntil (do return (← isAtMarkup "/") || (← isAtMarkup ">")) (attributeNode g)
  let selfClosing ← isAtMarkup "/"
  if selfClosing then expectMarkup "/"
  expectMarkup ">"
  return .mk (.jsxOpeningElement selfClosing)
    ((.name, name) :: attributes.map fun a => (.attributes, a))

/-- An opening or a closing tag. -/
def tag (g : Grammar) : Parse Node := do
  expectMarkup "<"
  if ← isAtMarkup "/" then
    expectMarkup "/"
    let name ← elementName
    expectMarkup ">"
    return .mk .jsxClosingElement [(.name, name)]
  openingRest g

def container (g : Grammar) : Parse Node := do
  expectMarkup "\x7b"
  if ← isAtMarkup "\x7d" then
    expectMarkup "\x7d"
    return .mk .jsxExpressionContainer [(.expression, .mk .jsxEmptyExpression [])]
  leaveMarkup
  return .mk .jsxExpressionContainer [(.expression, ← markupExpression g)]

/-- Text up to the next brace or tag. The value of a carriage return and line feed is the former
alone. -/
def markupText : Parse (List Node) := do
  modify fun s => { s with started := ⟨s.index, s.line⟩ }
  let start := (← get).index
  let value ← loop (fun (done : Text) => do
    if ← atEnd then return .done done
    let c ← peek 0
    if c = 123 || c = 60 then return .done done
    if Text.isLineEnd c then passLineEnd c else advance 1
    return .more (c :: done)) []
  modify fun s => { s with ended := ⟨s.index, s.line⟩ }
  let raw ← slice start (← get).index
  return if raw.isEmpty then [] else [.mk (.jsxText value.reverse raw) []]

/-- Texts and braced expressions up to the next tag. -/
def markupChildren (g : Grammar) : Parse (List Node) :=
  loop (fun (done : List Node) => do
    if ← atEnd then return .done done
    let done := done ++ (← markupText)
    if (← peek 0) = 123 then return .more (done ++ [← container g])
    return .done done) []

/-- The name of a tag as messages show it. -/
def qualifiedName (name : Node) : String :=
  name.fold fun l cs =>
    let part (f : Field) : String := ((cs.find? fun c => c.1 = f).map fun c => c.2.2).getD ""
    match l with
    | .jsxIdentifier n => n
    | .jsxNamespacedName => part .nsName ++ ":" ++ part .name
    | .jsxMemberExpression => part .object ++ "." ++ part .property
    | _ => ""

/-- An element whose tag is open, with what it holds so far. -/
structure OpenElement where
  opening : Node
  children : List Node := []

def OpenElement.add (e : OpenElement) (children : List Node) : OpenElement :=
  { e with children := e.children ++ children }

def OpenElement.close (e : OpenElement) (closing : List Node) : Node :=
  .mk .jsxElement ([(.openingElement, e.opening)] ++ e.children.map (fun c => (.children, c))
    ++ closing.map fun c => (.closingElement, c))

/-- Reads on until the outermost open element is closed. Where the source ends before that, the
element holds what the innermost open one held. -/
def elementRest (g : Grammar) (opening : Node) : Parse Node :=
  loop (fun ((e, outer) : OpenElement × List OpenElement) => do
    if ← atEnd then return .done ((OpenElement.mk opening e.children).close [])
    let e := e.add (← markupChildren g)
    let t ← tag g
    match t.label with
    | .jsxOpeningElement true => return .more (e.add [(OpenElement.mk t []).close []], outer)
    | .jsxOpeningElement false => return .more ({ opening := t }, e :: outer)
    | _ =>
      let nameOf (n : Node) : String := ((n.child? .name).map qualifiedName).getD ""
      if nameOf e.opening ≠ nameOf t then
        object ("Expected corresponding JSX closing tag for " ++ nameOf e.opening)
      let closed := e.close [t]
      match outer with
      | [] => return .done closed
      | parent :: rest => return .more (parent.add [closed], rest)) ({ opening := opening }, [])

def element (g : Grammar) : Parse Node := do
  expectMarkup "<"
  let opening ← openingRest g
  match opening.label with
  | .jsxOpeningElement false => elementRest g opening
  | _ => return (OpenElement.mk opening []).close []

/-- An element where an expression is expected. -/
def rootElement (g : Grammar) : Parse Node := do
  enterMarkup
  let e ← g.element
  leaveMarkup
  return e

end Unravel.Source.Parse
