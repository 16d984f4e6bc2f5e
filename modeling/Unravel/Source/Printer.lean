import Unravel.Source.Quote
import Unravel.Syntax.Literal

/-! Printing a syntax tree as source text: four blanks of indent, a semicolon after every
statement that takes one, and parentheses where precedence asks for them. -/

namespace Unravel

/-- Why a tree cannot be printed. -/
inductive PrintError where
  | badName
  | badFlags
  | notANumber
  | hugeNumber
  | unknownOperator (role operator : String)
  | unknownKind (kind : String)
  | noDeclarators
  | emptySequence
  | unknownNode (kind : String)
  | unknownStatement (kind : String)
  | unknownExpression (kind : String)
deriving DecidableEq, Repr

def PrintError.message : PrintError → String
  | .badName => "ValueError: Identifier.name must be a valid ECMAScript IdentifierName"
  | .badFlags => "ValueError: Invalid ECMAScript regular-expression flags"
  | .notANumber => "ValueError: Number literal cannot be NaN"
  | .hugeNumber =>
    "ValueError: Number literal exceeds binary64; use Literal.bigint for exact integers"
  | .unknownOperator role operator => "ValueError: Unsupported " ++ role ++ " operator: " ++ operator
  | .unknownKind kind => "ValueError: Unsupported VariableDeclaration.kind: " ++ kind
  | .noDeclarators => "ValueError: VariableDeclaration.declarations cannot be empty"
  | .emptySequence => "ValueError: SequenceExpression.expressions cannot be empty"
  | .unknownNode kind => "ValueError: Unsupported ESTree node type: " ++ kind
  | .unknownStatement kind => "ValueError: Unsupported ESTree statement type: " ++ kind
  | .unknownExpression kind => "ValueError: Unsupported ESTree expression type: " ++ kind

namespace Source

/-- How tightly a place binds; an expression that binds less is put in parentheses. -/
abbrev Precedence := Nat

namespace Precedence

def sequence : Precedence := 0
def assignment : Precedence := 1
def conditional : Precedence := 2
def coalesce : Precedence := 3
def exponent : Precedence := 14
def unary : Precedence := 15
def postfixed : Precedence := 16
def call : Precedence := 18
def new : Precedence := 19
def tagged : Precedence := 20
def member : Precedence := 21
def primary : Precedence := 22

/-- How tightly the operators of two operands bind. -/
def ofOperator? : String → Option Precedence
  | "??" => some 3
  | "||" => some 4
  | "&&" => some 5
  | "|" => some 6
  | "^" => some 7
  | "&" => some 8
  | "==" | "!=" | "===" | "!==" => some 9
  | "<" | ">" | "<=" | ">=" | "in" | "instanceof" => some 10
  | "<<" | ">>" | ">>>" => some 11
  | "+" | "-" => some 12
  | "*" | "/" | "%" => some 13
  | "**" => some 14
  | _ => none

end Precedence

/-- What a place allows besides its precedence: a bare `in`, and a call as it is. -/
structure Place where
  allowIn : Bool := true
  allowCall : Bool := true

/-- A printed piece of source, or the reason why there is none. -/
abbrev Printed := Except PrintError String

/-- A node as a statement and as an expression. The last argument is the indent level. -/
structure Piece where
  statement : (allowIn : Bool) → Nat → Printed
  expression : Precedence → Place → Nat → Printed

abbrev Pieces := List (Field × Node × Piece)

def indent (level : Nat) : String := String.ofList (List.replicate (4 * level) ' ')

def firstChar (s : String) : Nat := ((s.toList.head?).map Char.toNat).getD 0

def lastChar (s : String) : Nat := ((s.toList.getLast?).map Char.toNat).getD 0

def hasBreak (s : String) : Bool := s.toList.any fun c => Text.isLineEnd c.toNat

def isSpace (c : Nat) : Bool := Text.isBlank c || Text.isLineEnd c

/-- Puts two pieces side by side: a blank between them unless one of them brings its own. -/
def join (left right : String) : String :=
  if left.isEmpty then right
  else if right.isEmpty then left
  else if isSpace (lastChar left) || isSpace (firstChar right) then left ++ right
  else left ++ " " ++ right

def parens (s : String) : String := "(" ++ s ++ ")"

/-- A piece of several lines goes in parentheses where no line may end. -/
def unbroken (s : String) : String := if hasBreak s then parens s else s

/-- Parentheses where an expression binds less than its place asks for. -/
def bind (own wanted : Precedence) (s : String) : String :=
  if own < wanted then parens s else s

/-- The name at an identifier. -/
def name (n : String) : Printed :=
  if Text.isName (Text.ofString n) then .ok n else .error .badName

/-- The name at the node of a slot that must hold an identifier. -/
def nameOf (n : Node) : Printed :=
  match n.label with
  | .identifier s => name s
  | l => .error (.unknownExpression l.name)

def slot? (cs : Pieces) (f : Field) : Option (Node × Piece) :=
  (cs.find? fun c => c.1 = f).map Prod.snd

def rowOf (cs : Pieces) (f : Field) : List (Node × Piece) :=
  (cs.filter fun c => c.1 = f).map Prod.snd

def expr (cs : Pieces) (f : Field) (p : Precedence) (place : Place) (level : Nat) : Printed :=
  match slot? cs f with
  | some (_, piece) => piece.expression p place level
  | none => .ok ""

def concat (ps : List Printed) : Printed :=
  ps.foldl (fun done p => do return (← done) ++ (← p)) (.ok "")

def commaSeparated (separator : String) (ps : List Printed) : Printed := do
  return String.intercalate separator (← ps.mapM id)

/-- A statement as the body of another one: a block on the same line, any other statement on a
line of its own. -/
def body (n : Node) (piece : Piece) (level : Nat) : Printed :=
  match n.label with
  | .blockStatement => do return " " ++ (← piece.statement true level)
  | .emptyStatement => .ok ";"
  | _ => do return "\n" ++ indent (level + 1) ++ (← piece.statement true (level + 1))

def bodyOf (cs : Pieces) (f : Field) (level : Nat) : Printed :=
  match slot? cs f with
  | some (n, piece) => body n piece level
  | none => .ok ""

/-- What comes between a body and a word that follows it. -/
def afterBody (n : Node) (printed : String) (level : Nat) : String :=
  if n.label = .blockStatement then printed ++ " " else printed ++ "\n" ++ indent level

/-- Statements in a block, each on a line of its own. -/
def lines (ss : List (Node × Piece)) (level : Nat) : Printed :=
  concat (ss.map fun (_, piece) => do
    return indent level ++ (← piece.statement true level) ++ "\n")

def braced (ss : List (Node × Piece)) (level : Nat) : Printed := do
  return "\x7b\n" ++ (← lines ss (level + 1)) ++ indent level ++ "\x7d"

/-- Items on lines of their own between two brackets. -/
def spread (opening closing : String) (items : List Printed) (level : Nat) : Printed := do
  let pad := indent (level + 1)
  let items ← commaSeparated (",\n" ++ pad) items
  return opening ++ "\n" ++ pad ++ items ++ "\n" ++ indent level ++ closing

def arguments (cs : Pieces) (level : Nat) : Printed := do
  let args ← commaSeparated ", "
    ((rowOf cs .arguments).map fun (_, a) => a.expression .assignment {} level)
  return parens args

def asyncWord (flags : FunctionFlags) : String := if flags.isAsync then "async " else ""

def params (cs : Pieces) (level : Nat) : Printed := do
  let ps ← commaSeparated ", "
    ((rowOf cs .params).map fun (_, p) => p.expression .assignment {} level)
  return parens ps

/-- Parameters and body of a function that is no arrow. -/
def functionRest (cs : Pieces) (level : Nat) : Printed := do
  return (← params cs level) ++ (← bodyOf cs .body level)

def arrow (flags : FunctionFlags) (cs : Pieces) (level : Nat) : Printed := do
  let head ← match rowOf cs .params with
    | [(n, p)] =>
      match n.label with
      | .identifier s => name s
      | _ => do pure (parens (← p.expression .assignment {} level))
    | _ => params cs level
  let tail ← match slot? cs .body with
    | some (n, piece) =>
      if n.label = .blockStatement then body n piece level
      else do
        let e ← piece.expression .assignment {} level
        pure (" " ++ (if firstChar e = 123 then parens e else e))
    | none => .ok ""
  return asyncWord flags ++ head ++ " =>" ++ tail

/-- A function's head word, with the star of a generator. -/
def functionWord (flags : FunctionFlags) : String :=
  asyncWord flags ++ (if flags.generator then "function* " else "function ")

def functionText (flags : FunctionFlags) (cs : Pieces) (level : Nat) : Printed := do
  let id ← match slot? cs .id with
    | some (n, _) => nameOf n
    | none => .ok ""
  return functionWord flags ++ id ++ (← functionRest cs level)

def classText (cs : Pieces) (level : Nat) : Printed := do
  let head ← match slot? cs .id with
    | some (n, _) => do pure (join "class" (← nameOf n))
    | none => .ok "class"
  let head ← match slot? cs .superClass with
    | some (_, s) => do pure (join head (join "extends" (← s.expression .unary {} level)))
    | none => .ok head
  let members ← match slot? cs .body with
    | some (_, b) => b.statement true level
    | none => .ok ""
  return head ++ " " ++ members

def key (computed : Bool) (cs : Pieces) (level : Nat) : Printed := do
  let k ← expr cs .key .assignment {} level
  return if computed then "[" ++ k ++ "]" else k

/-- Words before the name of a method. -/
def methodWords (cs : Pieces) : String :=
  match slot? cs .value with
  | some (n, _) =>
    match n.label with
    | .functionExpression flags => asyncWord flags ++ (if flags.generator then "*" else "")
    | _ => ""
  | none => ""

/-- The value of a method, without the word `function`. -/
def methodRest (cs : Pieces) (level : Nat) : Printed :=
  match slot? cs .value with
  | some (_, piece) => piece.statement false level
  | none => .ok ""

def isAccessor (kind : String) : Bool := kind = "get" || kind = "set"

def method (kind : String) (computed : Bool) (cs : Pieces) (level : Nat) : Printed := do
  let head := if isAccessor kind then kind ++ " " else methodWords cs
  return head ++ (← key computed cs level) ++ (← methodRest cs level)

def property (computed isMethod shorthand : Bool) (kind : String) (cs : Pieces) (level : Nat) :
    Printed :=
  if isAccessor kind then method kind computed cs level
  else if shorthand then
    match slot? cs .value with
    | some (n, v) =>
      if n.label = .assignmentPattern then v.expression .sequence {} level else key computed cs level
    | none => key computed cs level
  else if isMethod then method kind computed cs level
  else do return (← key computed cs level) ++ ": " ++ (← expr cs .value .assignment {} level)

def printedAssignments : List String :=
  ["=", "+=", "-=", "*=", "/=", "%=", "**=", "<<=", ">>=", ">>>=", "&=", "|=", "^=", "&&=", "||=", "??="]

def assignment (operator : String) (cs : Pieces) (p : Precedence) (place : Place) (level : Nat) :
    Printed := do
  if !printedAssignments.contains operator then .error (.unknownOperator "assignment" operator)
  let place := if .assignment < p then { place with allowIn := true } else place
  let l ← expr cs .left .call place level
  let r ← expr cs .right .assignment place level
  return bind .assignment p (l ++ " " ++ operator ++ " " ++ r)

def conditional (cs : Pieces) (p : Precedence) (place : Place) (level : Nat) : Printed := do
  let place := if .conditional < p then { place with allowIn := true } else place
  let t ← expr cs .test .coalesce place level
  let c ← expr cs .consequent .assignment place level
  let a ← expr cs .alternate .assignment place level
  return bind .conditional p (t ++ " ? " ++ c ++ " : " ++ a)

def binary (operator : String) (cs : Pieces) (p : Precedence) (place : Place) (level : Nat) :
    Printed := do
  let own ← match Precedence.ofOperator? operator with
    | some own => .ok own
    | none => .error (.unknownOperator "binary" operator)
  let place := if own < p then { place with allowIn := true } else place
  let l ← expr cs .left (if operator = "**" then .postfixed else own) place level
  let r ← expr cs .right (if operator = "**" then own else own + 1) place level
  let text := join (join l operator) r
  return if operator = "in" && !place.allowIn then parens text else bind own p text

def unary (operator : String) (cs : Pieces) (p : Precedence) (level : Nat) : Printed := do
  if !(["-", "+", "!", "~", "typeof", "void", "delete"].contains operator) then
    .error (.unknownOperator "unary" operator)
  let a ← expr cs .argument .unary {} level
  let touching :=
    (lastChar operator = 43 || lastChar operator = 45) && lastChar operator = firstChar a
  let text :=
    if 2 < operator.length then join operator a
    else if touching then operator ++ " " ++ a
    else operator ++ a
  return bind .unary p text

def update (operator : String) (before : Bool) (cs : Pieces) (p : Precedence) (level : Nat) :
    Printed := do
  if !(["++", "--"].contains operator) then .error (.unknownOperator "update" operator)
  if before then return bind .unary p (operator ++ (← expr cs .argument .unary {} level))
  else return bind .postfixed p (unbroken (← expr cs .argument .postfixed {} level) ++ operator)

/-- Whether a point after a number would be read as part of it. -/
def takesPoint (n : Node) (printed : String) : Bool :=
  match n.label with
  | .literal (.number _) _ =>
    Text.isAsciiDigit (lastChar printed)
      && !(printed.toList.any fun c => c = '.' || c = 'e' || c = 'E' || c = 'x' || c = 'X')
      && !(2 ≤ printed.length && firstChar printed = 48)
  | _ => false

def member (computed : Bool) (cs : Pieces) (p : Precedence) (place : Place) (level : Nat) :
    Printed := do
  let inner : Place := { allowCall := place.allowCall }
  match slot? cs .object, slot? cs .property with
  | some (on, o), some (kn, k) =>
    let object ← o.expression .call inner level
    if computed then
      return bind .member p (object ++ "[" ++ (← k.expression .sequence inner level) ++ "]")
    else
      let gap := if takesPoint on object then " " else ""
      return bind .member p (object ++ gap ++ "." ++ (← nameOf kn))
  | _, _ => .ok ""

def call (cs : Pieces) (p : Precedence) (place : Place) (level : Nat) : Printed := do
  let callee ← expr cs .callee .call {} level
  let text := callee ++ (← arguments cs level)
  return if place.allowCall then bind .call p text else parens text

def new (cs : Pieces) (p : Precedence) (level : Nat) : Printed := do
  let callee ← expr cs .callee .new { allowCall := false } level
  return bind .new p (join "new" callee ++ (← arguments cs level))

/-- Array elements: on lines of their own if there are several, unless the array is a pattern. -/
def array (isPattern : Bool) (cs : Pieces) (level : Nat) : Printed := do
  let items := rowOf cs .elements
  let hollow := match items.getLast? with
    | some (n, _) => n.isHole
    | none => false
  let several := !isPattern && 1 < items.length
  let inner := level + 1
  let printed := items.map fun (n, e) =>
    if n.isHole then .ok "" else e.expression .assignment {} inner
  if items.isEmpty then return "[]"
  else if several then
    let text ← commaSeparated (",\n" ++ indent inner) printed
    return "[\n" ++ indent inner ++ text ++ (if hollow then "," else "") ++ "\n" ++ indent level ++ "]"
  else
    let text ← commaSeparated ", " printed
    return "[" ++ text ++ (if hollow then "," else "") ++ "]"

def object (cs : Pieces) (level : Nat) : Printed := do
  match rowOf cs .properties with
  | [] => return "\x7b\x7d"
  | [(_, p)] =>
    let text ← p.expression .sequence {} (level + 1)
    if hasBreak text then spread "\x7b" "\x7d" [.ok text] level
    else return "\x7b " ++ text ++ " \x7d"
  | ps => spread "\x7b" "\x7d" (ps.map fun (_, p) => p.expression .sequence {} (level + 1)) level

/-- Whether the members of an object pattern go on lines of their own. -/
def patternSpreads (ps : List (Node × Piece)) : Bool :=
  match ps with
  | [(n, _)] =>
    match n.label, n.child? .value with
    | .property .., some v => v.identifierName?.isNone
    | _, _ => false
  | ps => ps.any fun (n, _) =>
    match n.label with
    | .property _ _ shorthand _ => !shorthand
    | _ => false

def objectPattern (cs : Pieces) (level : Nat) : Printed := do
  let ps := rowOf cs .properties
  let printed := ps.map fun (_, p) => p.expression .sequence {} (level + 1)
  if ps.isEmpty then return "\x7b\x7d"
  else if patternSpreads ps then spread "\x7b" "\x7d" printed level
  else return "\x7b" ++ (← commaSeparated ", " printed) ++ "\x7d"

def doubleText : Double → Printed
  | .nan => .error .notANumber
  | .infinite negative => .ok (if negative then "-1e400" else "1e400")
  | d => .ok (if d.isZero && d.isNegative then "-0" else Number.doubleText d)

/-- An integer that is a double is written in digits, another one as the double nearest to it. -/
def numberText : Number → Printed
  | .int n =>
    let d := Double.ofInt n
    if !d.isFinite then .error .hugeNumber
    else if d.toInt? = some n then .ok (Number.intText n)
    else doubleText d
  | .double d => doubleText d

/-- The body of a regular expression: a slash outside a class and the ends of lines are escaped. -/
def regexText (escaped inClass : Bool) : Text → Text
  | [] => []
  | c :: rest =>
    let text :=
      if c = 10 || c = 13 || c = 0x2028 || c = 0x2029 then
        (if escaped then [] else [92]) ++ Text.ofString (match c with
          | 10 => "n"
          | 13 => "r"
          | 0x2028 => "u2028"
          | _ => "u2029")
      else if c = 47 && !escaped && !inClass then [92, 47]
      else [c]
    let inClass := if escaped then inClass else if inClass then c ≠ 93 else c = 91
    text ++ regexText (!escaped && c = 92) inClass rest

/-- Flags are different letters of a known set, and not both of those that choose how characters
are read. -/
def areRegexFlags (flags : Text) : Bool :=
  flags.all (Text.ofString "dgimsuvy").contains && flags.eraseDups.length = flags.length
    && !(flags.contains 117 && flags.contains 118)

def regexLiteral (pattern flags : Text) : Printed :=
  if !areRegexFlags flags then .error .badFlags
  else
    let body := if pattern.isEmpty then Text.ofString "(?:)" else regexText false false pattern
    .ok ("/" ++ body.toString ++ "/" ++ flags.toString)

/-- A literal; a negative number binds like a sign before a number. -/
def literal (v : LiteralValue) (p : Precedence) : Printed :=
  match v with
  | .null => .ok "null"
  | .bool b => .ok (if b then "true" else "false")
  | .number n => do
    let text ← numberText n
    return if firstChar text = 45 then bind .unary p text else text
  | .text t => .ok (singleQuoted t).toString
  | .regex pattern flags => regexLiteral pattern flags

/-- Raw pieces of a template with the expressions between them. -/
def template (cs : Pieces) (level : Nat) : Printed := do
  let raws := (rowOf cs .quasis).map fun (n, _) =>
    match n.label with
    | .templateElement raw _ _ => raw.toString
    | _ => ""
  let es ← ((rowOf cs .expressions).map fun (_, e) => e.expression .sequence {} level).mapM id
  let rec weave : List String → List String → String
    | [], _ => ""
    | r :: rs, e :: es => r ++ "$\x7b " ++ e ++ " \x7d" ++ weave rs es
    | r :: rs, [] => r ++ weave rs []
  return "\x60" ++ weave raws es ++ "\x60"

def attributeText (t : Text) : String :=
  let spelled (c : Char) : String :=
    match c with
    | '&' => "&amp;"
    | '<' => "&lt;"
    | '>' => "&gt;"
    | '"' => "&quot;"
    | '\'' => "&#x27;"
    | '\n' => "&#xA;"
    | '\r' => "&#xD;"
    | '\t' => "&#x9;"
    | c => c.toString
  "\"" ++ String.join (t.toString.toList.map spelled) ++ "\""

/-- Whether a text goes on like an entity after its ampersand. -/
def isEntityRest (t : Text) : Bool :=
  let isRun (test : Nat → Bool) (t : Text) : Bool :=
    let run := t.takeWhile test
    !run.isEmpty && (t.drop run.length).head? = some 59
  match t with
  | 35 :: 120 :: rest | 35 :: 88 :: rest =>
    isRun (fun c => Text.isAsciiDigit c || (97 ≤ c && c ≤ 102) || (65 ≤ c && c ≤ 70)) rest
  | 35 :: rest => isRun Text.isAsciiDigit rest
  | c :: rest =>
    Text.isAsciiLetter c && isRun (fun c => Text.isAsciiLetter c || Text.isAsciiDigit c) (c :: rest)
  | [] => false

/-- The text between tags that reads as a given value. -/
def markupText : Text → Text
  | [] => []
  | c :: rest =>
    (match c with
      | 38 => if isEntityRest rest then Text.ofString "&amp;" else [38]
      | 60 => Text.ofString "&lt;"
      | 123 => Text.ofString "&#x7B;"
      | 13 => Text.ofString "&#xD;"
      | c => [c]) ++ markupText rest

def markup (l : Label) (cs : Pieces) (level : Nat) : Printed :=
  let part (f : Field) : Printed := expr cs f .sequence {} level
  match l with
  | .jsxIdentifier s => .ok s
  | .jsxMemberExpression => do return (← part .object) ++ "." ++ (← part .property)
  | .jsxNamespacedName => do return (← part .nsName) ++ ":" ++ (← part .name)
  | .jsxText value _ => .ok (markupText value).toString
  | .jsxEmptyExpression => .ok ""
  | .jsxExpressionContainer => do return "\x7b" ++ (← part .expression) ++ "\x7d"
  | .jsxSpreadAttribute => do
    return "\x7b..." ++ (← expr cs .argument .assignment {} level) ++ "\x7d"
  | .jsxAttribute => do
    let n ← part .name
    match slot? cs .value with
    | none => return n
    | some (v, piece) =>
      match v.stringValue? with
      | some t => return n ++ "=" ++ attributeText t
      | none => return n ++ "=" ++ (← piece.expression .sequence {} level)
  | .jsxOpeningElement selfClosing => do
    let attributes ← concat ((rowOf cs .attributes).map fun (_, a) => do
      return " " ++ (← a.expression .sequence {} level))
    return "<" ++ (← part .name) ++ attributes ++ (if selfClosing then " />" else ">")
  | .jsxClosingElement => do return "</" ++ (← part .name) ++ ">"
  | _ => do
    let children ← concat ((rowOf cs .children).map fun (_, c) => c.expression .sequence {} level)
    return (← part .openingElement) ++ children ++ (← part .closingElement)

def specifier (l : Label) (cs : Pieces) : Printed := do
  let nameIn (f : Field) : Printed := match slot? cs f with
    | some (n, _) => nameOf n
    | none => .ok ""
  match l with
  | .importDefaultSpecifier => nameIn .localName
  | .importNamespaceSpecifier => return "* as " ++ (← nameIn .localName)
  | .importSpecifier =>
    let imported ← nameIn .imported
    let own ← nameIn .localName
    return if imported = own then imported else imported ++ " as " ++ own
  | _ =>
    let own ← nameIn .localName
    let exported ← nameIn .exported
    return if own = exported then own else own ++ " as " ++ exported

def declarations (kind : String) (allowIn : Bool) (cs : Pieces) (level : Nat) : Printed := do
  if !(["var", "let", "const"].contains kind) then .error (.unknownKind kind)
  match rowOf cs .declarations with
  | [] => .error .noDeclarators
  | [(_, d)] => return kind ++ " " ++ (← d.statement allowIn level)
  | ds =>
    return kind ++ " " ++ (← commaSeparated ", " (ds.map fun (_, d) => d.statement allowIn (level + 1)))

/-- The expression printed by a node of a given label. A declaration in this position is the head
of a loop. -/
def expression (l : Label) (cs : Pieces) (p : Precedence) (place : Place) (level : Nat) : Printed :=
  match l with
  | .sequenceExpression => do
    let place := if .sequence < p then { place with allowIn := true } else place
    match rowOf cs .expressions with
    | [] => .error .emptySequence
    | es =>
      let text ← commaSeparated ", " (es.map fun (_, e) => e.expression .assignment place level)
      return bind .sequence p text
  | .assignmentExpression op => assignment op cs p place level
  | .assignmentPattern => assignment "=" cs p place level
  | .arrowFunctionExpression flags => do return bind .conditional p (← arrow flags cs level)
  | .conditionalExpression => conditional cs p place level
  | .logicalExpression op | .binaryExpression op => binary op cs p place level
  | .callExpression => call cs p place level
  | .newExpression => new cs p level
  | .memberExpression computed => member computed cs p place level
  | .metaProperty => do
    match slot? cs .metaName, slot? cs .property with
    | some (m, _), some (k, _) => return bind .member p ((← nameOf m) ++ "." ++ (← nameOf k))
    | _, _ => .ok ""
  | .unaryExpression op _ => unary op cs p level
  | .updateExpression op before => update op before cs p level
  | .yieldExpression delegate => do
    let word := if delegate then "yield*" else "yield"
    return bind .assignment p (join word (unbroken (← expr cs .argument .assignment {} level)))
  | .awaitExpression => do
    return bind .unary p (join "await" (← expr cs .argument .unary {} level))
  | .functionExpression flags => functionText flags cs level
  | .classExpression => classText cs level
  | .methodDefinition computed isStatic kind => do
    return (if isStatic then "static " else "") ++ (← method kind computed cs level)
  | .property computed isMethod shorthand kind => property computed isMethod shorthand kind cs level
  | .arrayExpression => array false cs level
  | .arrayPattern => array true cs level
  | .objectExpression => object cs level
  | .objectPattern => objectPattern cs level
  | .restElement | .spreadElement => do return "..." ++ (← expr cs .argument .assignment {} level)
  | .identifier s => name s
  | .thisExpression => .ok "this"
  | .superKeyword => .ok "super"
  | .literal v _ => literal v p
  | .templateLiteral => template cs level
  | .templateElement raw _ _ => .ok raw.toString
  | .taggedTemplateExpression => do
    let tag ← expr cs .tag .call { allowCall := place.allowCall } level
    return bind .tagged p (tag ++ (← expr cs .quasi .primary {} level))
  | .importDefaultSpecifier | .importNamespaceSpecifier | .importSpecifier | .exportSpecifier =>
    specifier l cs
  | .jsxIdentifier _ | .jsxMemberExpression | .jsxNamespacedName | .jsxText .. | .jsxAttribute
  | .jsxEmptyExpression | .jsxExpressionContainer | .jsxSpreadAttribute | .jsxOpeningElement _
  | .jsxClosingElement | .jsxElement => markup l cs level
  | .variableDeclaration kind => declarations kind place.allowIn cs level
  | l => .error (.unknownExpression l.name)

/-- The string that makes code strict when it stands first. -/
def strictMark : String := "'use strict'"

/-- The same string as a statement that must not do so. -/
def plainStrictMark : String := "'use\\x20strict'"

/-- Whether a text starts with a word and then a character that passes a test or is a blank. -/
def startsWord (word : String) (test : Char → Bool) (s : String) : Bool :=
  s.startsWith word &&
    match (s.toList.drop word.length).head? with
    | some c => isSpace c.toNat || test c
    | none => false

def startsFunction : String → Bool := startsWord "function" fun c => c = '(' || c = '*'

/-- Whether a text at the start of a statement would be taken for something else. -/
def isMistakable (s : String) : Bool :=
  firstChar s = 123 || startsWord "class" (fun c => c = '\x7b') s || startsFunction s
    || (startsWord "async" (fun _ => false) s && startsFunction (s.drop 5).trimAsciiStart.toString)

/-- Whether the leftmost part of an expression, parentheses aside, is a function, a class, an object
or an element of `let`. -/
def opensMistakably (n : Node) : Bool :=
  n.fold fun l cs =>
    let part (f : Field) : Bool := ((cs.find? fun c => c.1 = f).map fun c => c.2.2).getD false
    match l with
    | .functionExpression _ | .classExpression | .objectExpression | .objectPattern => true
    | .memberExpression computed =>
      let object := (cs.find? fun c => c.1 = .object).bind fun c => c.2.1.identifierName?
      (computed && object = some "let") || part .object
    | .callExpression => part .callee
    | .assignmentExpression _ | .binaryExpression _ | .logicalExpression _ => part .left
    | .conditionalExpression => part .test
    | .sequenceExpression => part .expressions
    | .taggedTemplateExpression => part .tag
    | .updateExpression _ before => !before && part .argument
    | _ => false

/-- Whether an expression that is a whole statement goes in parentheses. -/
def needsParens (n : Option Node) (s : String) : Bool :=
  isMistakable s || n.any opensMistakably

/-- Whether an `else` after a statement would be taken by an `if` at its end. -/
def capturesElse : Node → Bool
  | .marked _ .ifStatement cs => captures cs true
  | .marked _ l cs =>
    match l with
    | .whileStatement | .forStatement | .forInStatement _ | .forOfStatement | .withStatement
    | .labeledStatement => captures cs false
    | _ => false
where
  /-- Looks at the last branch; an `if` without `else` captures. -/
  captures : List (Field × Node) → Bool → Bool
    | [], found => found
    | (.alternate, n) :: _, _ => capturesElse n
    | (.body, n) :: _, _ => capturesElse n
    | _ :: rest, found => captures rest found

def ifText (cs : Pieces) (level : Nat) : Printed := do
  let head := "if (" ++ (← expr cs .test .sequence {} (level + 1)) ++ ")"
  match slot? cs .consequent, slot? cs .alternate with
  | some (c, cp), some (a, ap) =>
    let first ←
      if capturesElse c then do
        pure (head ++ " " ++ (← braced [(c, cp)] level) ++ " ")
      else do pure (afterBody c (head ++ (← body c cp level)) level)
    if a.label = .ifStatement then return first ++ "else " ++ (← ap.statement true level)
    else return first ++ join "else" (← body a ap level)
  | some (c, cp), none => return head ++ (← body c cp level)
  | none, _ => return head

def forText (cs : Pieces) (level : Nat) : Printed := do
  let inner := level + 1
  let start ← match slot? cs .init with
    | some (n, piece) =>
      match n.label with
      | .variableDeclaration _ => piece.statement false inner
      | _ => do pure ((← piece.expression .sequence { allowIn := false } inner) ++ ";")
    | none => .ok ";"
  let test ← match slot? cs .test with
    | some (_, piece) => do pure (" " ++ (← piece.expression .sequence {} inner) ++ ";")
    | none => .ok ";"
  let step ← match slot? cs .update with
    | some (_, piece) => do pure (" " ++ (← piece.expression .sequence {} inner))
    | none => .ok ""
  return "for (" ++ start ++ test ++ step ++ ")" ++ (← bodyOf cs .body level)

def forEach (word : String) (cs : Pieces) (level : Nat) : Printed := do
  let left ← match slot? cs .left with
    | some (n, piece) =>
      match n.label with
      | .variableDeclaration _ => piece.expression .sequence { allowIn := false } (level + 2)
      | .identifier s =>
        -- Before `of` these two words would be read with what follows.
        if word = "of" && (s = "async" || s = "let") then .ok (parens s)
        else piece.expression .call {} (level + 1)
      | _ => piece.expression .call {} (level + 1)
    | none => .ok ""
  let right ← expr cs .right .assignment {} (level + 1)
  return "for (" ++ join (join left word) right ++ ")" ++ (← bodyOf cs .body level)

def switchCase (cs : Pieces) (level : Nat) : Printed := do
  let inner := level + 1
  let head ← match slot? cs .test with
    | some (_, t) => do pure (join "case" (← t.expression .sequence {} inner) ++ ":")
    | none => .ok "default:"
  let ss := rowOf cs .consequent
  let isBlock : Bool := match ss with
    | (n, _) :: _ => n.label == .blockStatement
    | [] => false
  let first ← match ss with
    | (n, piece) :: _ => if isBlock then body n piece inner else .ok ""
    | [] => .ok ""
  let tail ← (if isBlock then ss.drop 1 else ss).mapM fun (_, s) => do
    return "\n" ++ indent inner ++ (← s.statement true inner)
  return head ++ first ++ String.join tail

def tryText (cs : Pieces) (level : Nat) : Printed := do
  let part (word : String) (f : Field) : Printed :=
    match slot? cs f with
    | some (n, piece) => do return word ++ (← body n piece level)
    | none => .ok ""
  let block ← part "try" .block
  let handler ← match slot? cs .handler with
    | some (_, h) => do pure (" " ++ (← h.statement true level))
    | none => .ok ""
  let finalizer ← part " finally" .finalizer
  return block ++ handler ++ finalizer

def importText (cs : Pieces) (level : Nat) : Printed := do
  let source ← expr cs .source .sequence {} level
  let specifiers := rowOf cs .specifiers
  let one (s : Node × Piece) (level : Nat) : Printed := s.2.expression .sequence {} level
  let named (ss : List (Node × Piece)) : Printed :=
    match ss with
    | [] => .ok ""
    | [s] =>
      if s.1.label = .importNamespaceSpecifier then one s level
      else do return "\x7b " ++ (← one s level) ++ " \x7d"
    | ss => spread "\x7b" "\x7d" (ss.map fun s => one s (level + 1)) level
  match specifiers with
  | [] => return "import " ++ source ++ ";"
  | s :: rest =>
    if s.1.label = .importDefaultSpecifier then
      let others ← named rest
      return "import " ++ (← one s level) ++ (if rest.isEmpty then "" else ", " ++ others)
        ++ " from " ++ source ++ ";"
    else return "import " ++ (← named specifiers) ++ " from " ++ source ++ ";"

def exportNamed (cs : Pieces) (level : Nat) : Printed := do
  match slot? cs .declaration with
  | some (_, d) => return "export " ++ (← d.statement true level)
  | none =>
    let list ← match rowOf cs .specifiers with
      | [] => .ok "\x7b \x7d"
      | ss => spread "\x7b" "\x7d" (ss.map fun (_, s) => s.expression .sequence {} (level + 1)) level
    let source ← match slot? cs .source with
      | some (_, s) => do pure (" from " ++ (← s.expression .sequence {} level))
      | none => .ok ""
    return "export " ++ list ++ source ++ ";"

/-- An argument after a word; one of several lines goes in parentheses. -/
def afterWord (word : String) (cs : Pieces) (level : Nat) : Printed := do
  match slot? cs .argument with
  | some (_, a) =>
    let text ← a.expression .sequence {} level
    return word ++ " " ++ unbroken text ++ ";"
  | none => return word ++ ";"

def jump (word : String) (cs : Pieces) : Printed := do
  match slot? cs .label with
  | some (n, _) => return word ++ " " ++ (← nameOf n) ++ ";"
  | none => return word ++ ";"

/-- The statement printed by a node of a given label. A function expression in this position is
the rest of a method. -/
def statement (l : Label) (cs : Pieces) (allowIn : Bool) (level : Nat) : Printed :=
  match l with
  | .program _ => do
    let ss ← (rowOf cs .body).mapM fun (_, s) => do return indent level ++ (← s.statement true level)
    return String.intercalate "\n" ss
  | .blockStatement => braced (rowOf cs .body) level
  | .classBody => do
    let ms ← (rowOf cs .body).mapM fun (_, m) => do
      return indent (level + 1) ++ (← m.expression .sequence {} (level + 1)) ++ "\n"
    return "\x7b\n" ++ String.join ms ++ indent level ++ "\x7d"
  | .breakStatement => jump "break" cs
  | .continueStatement => jump "continue" cs
  | .classDeclaration => classText cs level
  | .functionDeclaration flags _ => functionText flags cs level
  | .functionExpression _ => functionRest cs level
  | .debuggerStatement => .ok "debugger;"
  | .emptyStatement => .ok ";"
  | .doWhileStatement => do
    match slot? cs .body with
    | some (n, piece) =>
      let b ← body n piece level
      let test ← expr cs .test .sequence {} level
      return afterBody n (join "do" b) level ++ "while (" ++ test ++ ");"
    | none => .ok ""
  | .catchClause => do
    let head ← match slot? cs .param with
      | some (_, p) => do pure ("catch (" ++ (← p.expression .sequence {} (level + 1)) ++ ")")
      | none => .ok "catch"
    return head ++ (← bodyOf cs .body level)
  | .exportDefaultDeclaration => do
    match slot? cs .declaration with
    | some (n, d) =>
      if n.isStatement then return "export default " ++ (← d.statement true level)
      else return "export default " ++ (← d.expression .assignment {} level) ++ ";"
    | none => .ok ""
  | .exportNamedDeclaration => exportNamed cs level
  | .exportAllDeclaration => do
    return "export * from " ++ (← expr cs .source .sequence {} level) ++ ";"
  | .importDeclaration => importText cs level
  | .expressionStatement directive _ => do
    let e ← expr cs .expression .sequence {} level
    return (if needsParens ((slot? cs .expression).map Prod.fst) e then parens e
      else if e = strictMark && directive ≠ some (Text.ofString "use strict") then plainStrictMark
      else e) ++ ";"
  | .variableDeclaration kind => do return (← declarations kind allowIn cs level) ++ ";"
  | .variableDeclarator => do
    let place : Place := { allowIn := allowIn }
    let target ← expr cs .id .assignment place level
    match slot? cs .init with
    | some (_, i) => return target ++ " = " ++ (← i.expression .assignment place level)
    | none => return target
  | .throwStatement => afterWord "throw" cs level
  | .returnStatement => afterWord "return" cs level
  | .tryStatement => tryText cs level
  | .switchStatement => do
    let d ← expr cs .discriminant .sequence {} (level + 1)
    let cases ← lines (rowOf cs .cases) level
    return "switch (" ++ d ++ ") \x7b\n" ++ cases ++ indent level ++ "\x7d"
  | .switchCase => switchCase cs level
  | .ifStatement => ifText cs level
  | .forStatement => forText cs level
  | .forInStatement _ => forEach "in" cs level
  | .forOfStatement => forEach "of" cs level
  | .labeledStatement => do
    match slot? cs .label with
    | some (n, _) => return (← nameOf n) ++ ":" ++ (← bodyOf cs .body level)
    | none => .ok ""
  | .whileStatement => do
    return "while (" ++ (← expr cs .test .sequence {} (level + 1)) ++ ")" ++ (← bodyOf cs .body level)
  | .withStatement => do
    return "with (" ++ (← expr cs .object .sequence {} (level + 1)) ++ ")" ++ (← bodyOf cs .body level)
  | l => .error (.unknownStatement l.name)

def step (l : Label) (cs : Pieces) : Piece := ⟨statement l cs, expression l cs⟩

/-- Kinds that are printed as statements. -/
def printsAsStatement (l : Label) : Bool :=
  l.isStatement ||
    match l with
    | .program _ | .classBody | .catchClause | .switchCase | .variableDeclarator => true
    | _ => false

end Source

/-- The source text of a tree. -/
def Node.print (n : Node) : Except PrintError String :=
  let piece := n.fold Source.step
  if Source.printsAsStatement n.label then piece.statement true 0
  else if n.label = .importKeyword || n.label = .hole then .error (.unknownNode n.label.name)
  else piece.expression .sequence {} 0

end Unravel
