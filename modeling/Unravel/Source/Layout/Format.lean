import Unravel.Source.Layout.Frame

/-! How each kind of lexeme is laid out. -/

namespace Unravel.Source.Layout.Format

/-- Words after which a line break would end the statement. -/
def unbreakable : List String := ["async", "break", "continue", "return", "throw", "yield"]

def specialWords : List String :=
  ["case", "return", "do", "if", "throw", "else", "await", "break", "continue", "async"]

def declarationWords : List String := ["var", "let", "const"]

/-- Keeps a line break of the source, or forces one. -/
def keepBreak (l : Piece) (force : Bool) : Format Unit := do
  if ← atLineStart then return
  if 0 < l.newlines || force then newLine false true

/-- Line breaks of the source before a piece; more than one makes blank lines, up to a limit. -/
def blankLines (l : Piece) (keepStatements : Bool) : Format Unit := do
  if 1 < l.newlines then
    newLine false keepStatements
    newLine true keepStatements

def trimStart (l : String) : String :=
  String.ofList (l.toList.dropWhile fun c => isAnyBlank c.toNat)

/-- Whether the lines of a block comment all start with a star. -/
def isStarred (lines : List String) : Bool :=
  lines.all fun l => (trimStart l).toList.head? = some '*'

def isBlankLine (l : String) : Bool := (trimStart l).isEmpty

/-- The lines of a block comment after the first. -/
def commentLines (l : Piece) (keepStatements : Bool) (lines : List String) : Format Unit := do
  let starred := isStarred lines
  let margin := l.blanks.length
  let aligned := lines.all fun line => line.startsWith l.blanks || isBlankLine line
  if starred then modifyFrame fun f => { f with alignment := 1 }
  for line in lines do
    if starred then putText (trimStart line)
    else if aligned && margin < line.length then putText (line.drop margin).toString
    else
      modifyPage fun p => { p with current := p.current.setIndent none 0 }
      modifyPage fun p => p.add line
    newLine false keepStatements
  modifyFrame fun f => { f with alignment := 0 }

def blockComment (l : Piece) (keepStatements : Bool) : Format Unit := do
  if (← get).page.raw then
    put l
    if l.directives.asks "preserve" "end" then modifyPage fun p => { p with raw := false }
  else if !l.directives.isEmpty then
    newLine false keepStatements
    put l
    if l.directives.asks "preserve" "start" then modifyPage fun p => { p with raw := true }
    newLine false true
  else if !l.text.toList.contains '\n' && l.newlines = 0 then
    setSpace true
    put l
    setSpace true
  else
    let lines := l.text.splitOn "\n"
    newLine false keepStatements
    putText (lines.head?.getD "")
    newLine false keepStatements
    if 1 < lines.length then commentLines l keepStatements lines.tail

def lineComment (l : Piece) (keepStatements : Bool) : Format Unit := do
  if 0 < l.newlines then newLine false keepStatements else modifyPage Page.trim
  setSpace true
  put l
  newLine false keepStatements

/-- A piece that fits nowhere; one that is a line by itself ends the line. -/
def unknown (l : Piece) (keepStatements : Bool) : Format Unit := do
  put l
  if l.text.endsWith "\n" then newLine false keepStatements

/-- Lays out the comments before a lexeme and its blank lines. -/
def lead (l : Lexeme) (keepStatements : Bool) : Format Unit := do
  for c in l.comments do
    blankLines c keepStatements
    match c.kind with
    | .blockComment => blockComment c keepStatements
    | .comment => lineComment c keepStatements
    | _ => unknown c keepStatements
  blankLines l.toPiece keepStatements

/-- Whether the value of an object member starts here. -/
def atMemberValue : Format Bool := do
  let f ← frame
  return (← parent).mode = .object && f.mode = .statement
    && ((f.last.text = ":" && f.ternaries = 0) || f.last.isReservedIn ["get", "set"])

/-- Whether a statement starts at a lexeme. -/
def startsStatement (l : Lexeme) : Format Bool := do
  let s ← get
  let f := s.frame
  let outer := (← parent).mode
  let isStep := l.text = "--" || l.text = "++"
  return (f.last.isReservedIn declarationWords && l.kind = .word)
    || f.last.isReserved "do"
    || (!(outer = .object && f.mode = .statement) && f.last.isReservedIn unbreakable
        && l.newlines = 0)
    || (f.last.isReserved "else" && !(l.isReserved "if" && l.comments.isEmpty))
    || (f.last.kind = .endExpr && (s.left.mode = .forHead || s.left.mode = .conditional))
    || (f.last.kind = .word && f.mode = .block && !f.inCase && !isStep && s.lastLast ≠ "function"
        && l.kind ≠ .word && l.kind ≠ .reserved)
    || (f.mode = .object
        && ((f.last.text = ":" && f.ternaries = 0) || f.last.isReservedIn ["get", "set"]))

/-- Enters a statement if one starts here, and tells whether it did. -/
def startStatement (l : Lexeme) : Format Bool := do
  if !(← startsStatement l) then return false
  enter .statement
  indent
  lead l true
  if !(← atMemberValue) then keepBreak l.toPiece (l.isReservedIn ["do", "for", "if", "while"])
  return true

def isStarAfter (f : Frame) (lastLast : String) : Bool :=
  f.last.text = "*" && (lastLast = "function" || lastLast = "yield"
    || (f.mode = .object && (lastLast = "\x7b" || lastLast = ",")))

/-- The spacing before an opening parenthesis, and the construct it opens. -/
def parenthesis (l : Lexeme) : Format Mode := do
  let s ← get
  let f := s.frame
  let mode : Mode ←
    match f.last.kind with
    | .reserved => do
      if f.last.text = "for" then
        setSpace true
        pure Mode.forHead
      else if ["if", "while", "switch"].contains f.last.text then
        setSpace true
        pure .conditional
      else
        if ["await", "async"].contains f.lastWord then setSpace true
        else if f.last.text = "import" && l.blanks = "" then setSpace false
        else if lineStarters.contains f.last.text || f.last.text = "catch" then setSpace true
        pure .expression
    | .equals | .operator => do
      if !(← atMemberValue) then keepBreak l.toPiece false
      pure .expression
    | .word => do
      setSpace false
      pure .expression
    | _ => do
      keepBreak l.toPiece false
      pure .expression
  if (f.last.kind = .reserved && (f.lastWord = "function" || f.lastWord = "typeof"))
      || isStarAfter f s.lastLast then
    setSpace false
  return mode

/-- The spacing before an opening bracket of an array. -/
def arrayBracket : Format Unit := do
  let s ← get
  let f := s.frame
  if f.mode = .array && (f.last.text = "["
      || (f.last.text = "," && (s.lastLast = "]" || s.lastLast = "\x7d"))) then
    newLine false false
  if !(match (← last).kind with
      | .startExpr | .endExpr | .word | .operator | .dot => true
      | _ => false) then
    setSpace true

def startExpr (l : Lexeme) : Format Unit := do
  if !(← startStatement l) then lead l false
  let f ← frame
  if l.text = "[" && (f.last.kind = .word || f.last.text = ")") then
    if f.last.isReservedIn lineStarters then setSpace true
    put l.toPiece
    enter .expression
    indent
  else
    let mode ←
      if l.text = "[" then do
        arrayBracket
        pure Mode.array
      else parenthesis l
    let b ← last
    if b.text = ";" || b.kind = .startBlock then newLine false false
    else if b.kind = .endExpr || b.kind = .startExpr || b.kind = .endBlock || b.kind = .comma
        || b.text = "." then
      keepBreak l.toPiece (0 < l.newlines)
    put l.toPiece
    enter mode
    indent

def endExpr (l : Lexeme) : Format Unit := do
  leaveStatements
  lead l false
  let f ← frame
  if f.multiline then keepBreak l.toPiece (l.text = "]" && f.mode = .array)
  deindent
  put l.toPiece
  leave
  removeRedundantIndent (← get).left
  if (← frame).doWhile && (← get).left.mode = .conditional then
    modify fun s => { s with left := { s.left with mode := .expression } }
    modifyFrame fun f => { f with doBlock := false, doWhile := false }

/-- Whether the brace ahead opens an object literal, judged by the next two lexemes. -/
def looksLikeObject (first second : Lexeme) : Bool :=
  ((second.text = ":" || second.text = ",")
      && (first.kind = .string || first.kind = .word || first.kind = .reserved))
    || (["get", "set", "..."].contains first.text
      && (second.kind = .word || second.kind = .reserved))

/-- The construct that a brace opens. -/
def braceMode : Format Mode := do
  let s ← get
  let f := s.frame
  match s.upcoming with
  | first :: second :: _ =>
    if looksLikeObject first second then
      if (s.lastLast = "class" || s.lastLast = "interface")
          && !(second.text = ":" || second.text = ",") then
        return .block
      return .object
  | _ => pure ()
  if f.last.kind = .operator && f.last.text = "=>" then return .block
  match f.last.kind with
  | .equals | .startExpr | .comma | .operator => return .object
  | _ =>
    return if f.last.isReservedIn ["return", "throw", "import", "default"] then .object else .block

def startBlock (l : Lexeme) : Format Unit := do
  lead l false
  let f ← frame
  if f.lastWord = "switch" && f.last.kind = .endExpr then
    enter .block
    modifyFrame fun f => { f with inSwitch := true }
  else if f.caseBody then enter .block
  else enter (← braceMode)
  let next ← following
  let isEmpty := next.comments.isEmpty && next.text = "\x7d"
  let f ← frame
  let inArray := (← get).left.mode = .array && (f.last.kind = .startExpr || f.last.kind = .comma)
  if inArray then
    if f.last.kind = .comma then setSpace true
  else if f.last.kind ≠ .operator && f.last.kind ≠ .startExpr then
    if f.last.kind = .startBlock || f.last.kind = .semicolon then newLine false false
    else setSpace true
  put l.toPiece
  indent
  if !isEmpty then newLine false false

def endBlock (l : Lexeme) : Format Unit := do
  lead l false
  leaveStatements
  if (← last).kind ≠ .startBlock then newLine false false
  leave
  put l.toPiece

/-- What is put before a word. -/
inductive Gap where
  | none
  | space
  | line
deriving DecidableEq

def gapBefore (l : Lexeme) : Format Gap := do
  let s ← get
  let f := s.frame
  let gap : Gap ←
    match f.last.kind with
    | .endBlock => do
      if !l.isReservedIn ["else", "catch", "finally", "from"] then pure Gap.line
      else do
        setSpace true
        pure .space
    | .semicolon =>
      pure (if f.mode = .block then .line else if f.mode.isExpression then .space else .none)
    | .string => pure .line
    | .reserved | .word => pure .space
    | .startBlock => pure .line
    | .endExpr => do
      setSpace true
      pure .line
    | _ => pure (if isStarAfter f s.lastLast then .space else .none)
  if l.isReservedIn lineStarters && f.last.text ≠ ")" then
    return if f.last.text = "else" || f.last.text = "export" then .space else .line
  return gap

/-- Starts a line before a word, unless what stands before it wants the word beside it. -/
def lineBefore (l : Lexeme) : Format Unit := do
  let b ← last
  if b.isReservedIn specialWords then setSpace true
  else if b.text = "declare" && l.isReservedIn declarationWords then setSpace true
  else if b.kind ≠ .endExpr then
    if (b.kind ≠ .startExpr || !l.isReservedIn declarationWords) && b.text ≠ ":" then
      if l.isReserved "if" && b.isReserved "else" && l.comments.isEmpty then setSpace true
      else newLine false false
  else if l.isReservedIn lineStarters && b.text ≠ ")" then newLine false false

/-- A word that goes on with the statement of a block that was just closed. -/
def continuation : Format Unit := do
  let b ← last
  if !(b.kind = .endBlock && (← get).left.mode = .block) then newLine false false
  else
    modifyPage Page.trim
    if (← get).page.current.items.head? ≠ some "\x7d" then newLine false false
    setSpace true

def functionWord (l : Lexeme) : Format Unit := do
  let b ← last
  let opensLine := (← atLineStart)
    && !(["(", "[", "\x7b", ":", "=", ","].contains b.text || b.kind = .operator)
  if ["\x7d", ";"].contains b.text || opensLine then
    if !(← get).page.afterBlankLine && l.comments.isEmpty then
      newLine false false
      newLine true false
  let f ← frame
  let b := f.last
  if b.kind = .reserved || b.kind = .word then
    if b.isReservedIn ["get", "set", "new", "export"] || b.isReservedIn unbreakable then
      setSpace true
    else if b.isReserved "default" && (← get).lastLast = "export" then setSpace true
    else if b.text = "declare" then setSpace true
    else newLine false false
  else if b.kind = .operator || b.text = "=" then setSpace true
  else if !(!f.multiline && (f.mode.isExpression || f.mode = .array)) then newLine false false
  put l.toPiece
  modifyFrame fun f => { f with lastWord := l.text }

/-- The kind a word has at its place. -/
def kindHere (l : Lexeme) : Format Kind := do
  if l.kind ≠ .reserved then return l.kind
  let f ← frame
  let next ← following
  if ["set", "get"].contains l.text && f.mode ≠ .object then return .word
  else if l.text = "import" && ["(", "."].contains next.text then return .word
  else if ["as", "from"].contains l.text && !f.importBlock then return .word
  else if f.mode = .object && next.text = ":" then return .word
  else return l.kind

/-- The constructs that a word opens or closes. -/
def noteWord (l : Lexeme) : Format Unit := do
  if l.kind = .reserved then
    match l.text with
    | "do" => modifyFrame fun f => { f with doBlock := true }
    | "if" => modifyFrame fun f => { f with ifBlock := true }
    | "import" => modifyFrame fun f => { f with importBlock := true }
    | "from" => modifyFrame fun f => { f with importBlock := false }
    | _ => pure ()

def plainWord (l : Lexeme) : Format Unit := do
  let gap ← gapBefore l
  let f ← frame
  if l.isReservedIn ["else", "catch", "finally"] then continuation
  else if gap = .line then lineBefore l
  else if f.multiline && f.mode = .array && f.last.text = "," && (← get).lastLast = "\x7d" then
    newLine false false
  else if gap = .space then setSpace true
  let prior := (← get).prior
  if prior.kind = .word || prior.kind = .reserved then setSpace true
  put l.toPiece
  modifyFrame fun f => { f with lastWord := l.text }
  noteWord l

def caseWord (l : Lexeme) : Format Unit := do
  newLine false false
  let f ← frame
  if !f.caseBlock && f.caseBody then deindent
  modifyFrame fun f => { f with caseBody := false }
  put l.toPiece
  modifyFrame fun f => { f with inCase := true }

/-- Comments and line breaks before a word. -/
def leadWord (l : Lexeme) : Format Unit := do
  let f ← frame
  let b := f.last
  if ← startStatement l then
    if (← last).isReservedIn declarationWords && l.kind = .word then
      modifyFrame fun f => { f with declaration := true }
  else if 0 < l.newlines && !f.mode.isExpression
      && (b.kind ≠ .operator || b.text = "--" || b.text = "++") && b.kind ≠ .equals then
    lead l false
    newLine false false
  else lead l false

def handleWord (l : Lexeme) : Format Unit := do
  leadWord l
  let f ← frame
  if f.doBlock && !f.doWhile then
    if l.isReserved "while" then
      setSpace true
      put l.toPiece
      setSpace true
      modifyFrame fun f => { f with doWhile := true }
      return
    newLine false false
    modifyFrame fun f => { f with doBlock := false }
  let f ← frame
  if f.ifBlock then
    if !f.elseBlock && l.isReserved "else" then modifyFrame fun f => { f with elseBlock := true }
    else
      leaveStatements
      modifyFrame fun f => { f with ifBlock := false }
  let f ← frame
  if f.inSwitch && l.isReservedIn ["case", "default"] then caseWord l
  else
    match f.last.kind with
    | .comma | .startExpr | .equals | .operator =>
      let isSigned := ["+", "-"].contains f.last.text && (← get).lastLast = ":"
        && (← parent).mode = .object
      if !(← atMemberValue) && !isSigned then keepBreak l.toPiece false
    | _ => pure ()
    if l.isReserved "function" then functionWord l else plainWord l

def semicolon (l : Lexeme) : Format Unit := do
  if ← startStatement l then setSpace false else lead l false
  leaveEnded
  modifyFrame fun f => { f with importBlock := false }
  put l.toPiece

def string (l : Lexeme) : Format Unit := do
  let f ← frame
  let prior := (← get).prior
  let isTemplate := l.text.startsWith "\x60"
  if isTemplate && l.newlines = 0 && l.blanks = "" && (prior.text = ")" || f.last.kind = .word) then
    put l.toPiece
  else if ← startStatement l then
    setSpace true
    put l.toPiece
  else
    lead l false
    let f ← frame
    match f.last.kind with
    | .reserved | .word => setSpace true
    | .comma | .startExpr | .equals | .operator => if !(← atMemberValue) then keepBreak l.toPiece false
    | _ =>
      if isTemplate && f.last.kind = .endExpr && (prior.text = "]" || prior.text = ")")
          && l.newlines = 0 then
        setSpace true
      else newLine false false
    put l.toPiece

def equals (l : Lexeme) : Format Unit := do
  if !(← startStatement l) then lead l false
  modifyFrame fun f => if f.declaration then { f with assigned := true } else f
  setSpace true
  put l.toPiece
  setSpace true

def comma (l : Lexeme) : Format Unit := do
  lead l true
  put l.toPiece
  setSpace true
  let f ← frame
  let outer ← parent
  if f.declaration then
    let breaks := f.assigned && !outer.mode.isExpression
    modifyFrame fun f => { f with assigned := false }
    if breaks then newLine false true
  else if f.mode = .object || (f.mode = .statement && outer.mode = .object) then
    if f.mode = .statement then leave
    newLine false false

/-- The star of a generator. -/
def isGeneratorStar (l b : Lexeme) : Bool :=
  l.text = "*" && (b.isReservedIn ["function", "yield"]
    || b.kind = .startBlock || b.kind = .comma || b.kind = .endBlock || b.kind = .semicolon)

/-- A plus or minus before its operand. -/
def isSign (l b : Lexeme) : Bool :=
  ["+", "-"].contains l.text
    && (b.kind = .startBlock || b.kind = .startExpr || b.kind = .equals || b.kind = .operator
      || lineStarters.contains b.text || b.text = ",")

/-- The colon after a case. -/
def caseColon (l : Lexeme) : Format Unit := do
  put l.toPiece
  modifyFrame fun f => { f with inCase := false, caseBody := true }
  if (← following).kind ≠ .startBlock then
    indent
    newLine false false
    modifyFrame fun f => { f with caseBlock := false }
  else
    setSpace true
    modifyFrame fun f => { f with caseBlock := true }

/-- An operator with one operand: the spaces before and after it. -/
def unaryOperator (l : Lexeme) : Format (Bool × Bool) := do
  let b ← last
  if b.kind = .comma || b.kind = .startExpr then keepBreak l.toPiece false
  if 0 < l.newlines && ["--", "++", "~"].contains l.text then
    let isNeeded := b.isReservedIn specialWords
    let left := (← get).left
    if isNeeded && (left.ifBlock || left.elseBlock) then leave
    newLine isNeeded true
  let f ← frame
  let b := f.last
  let steps := ["--", "-", "++", "+"]
  let before := (b.text = ";" && f.mode.isExpression)
  let (before, after) :=
    match b.kind with
    | .reserved => (true, false)
    | .endExpr => (!(b.text = "]" && ["--", "++"].contains l.text), false)
    | .operator =>
      (steps.contains l.text && steps.contains b.text,
        ["-", "+"].contains l.text && ["--", "++"].contains b.text)
    | _ => (before, false)
  if (f.mode = .block || f.mode = .statement) && (b.text = "\x7b" || b.text = ";") then
    newLine false false
  return (before, after)

/-- The spaces before and after an operator that keeps no line break of its own. -/
def operatorSpaces (l : Lexeme) (isStar isSigned : Bool) : Format (Bool × Bool) := do
  if isStar then
    keepBreak l.toPiece false
    let next ← following
    return (false, next.kind = .word || next.kind = .reserved)
  else if l.text = "..." then
    keepBreak l.toPiece false
    return ((← last).kind = .startBlock, false)
  else if ["--", "++", "!", "~"].contains l.text || isSigned then unaryOperator l
  else return (true, true)

def operator (l : Lexeme) : Format Unit := do
  let b ← last
  let isStar := isGeneratorStar l b
  let isSigned := isSign l b
  if !(← startStatement l) then lead l (!isStar)
  let f ← frame
  if (l.text = "*" && f.last.kind = .dot) || l.text = "::" then put l.toPiece
  else if ["-", "+"].contains l.text && (← atMemberValue) then put l.toPiece
  else
    if f.last.kind = .operator then keepBreak l.toPiece false
    let f ← frame
    if l.text = ":" && f.inCase then caseColon l
    else
      let inTernary := l.text = ":" && f.ternaries ≠ 0
      if l.text = ":" then modifyFrame fun f => { f with ternaries := f.ternaries - 1 }
      else if l.text = "?" then modifyFrame fun f => { f with ternaries := f.ternaries + 1 }
      let isColon := l.text = ":"
      if !isSigned && !isStar && positionable.contains l.text then
        setSpace (!isColon || inTernary)
        put l.toPiece
        if !isColon || inTernary then keepBreak l.toPiece false
        setSpace true
      else
        let (before, after) ← operatorSpaces l isStar isSigned
        if before then setSpace true
        put l.toPiece
        setSpace after

def dot (l : Lexeme) : Format Unit := do
  if !(← startStatement l) then lead l true
  let b ← last
  if !b.text.isEmpty && b.text.toList.all Char.isDigit then setSpace true
  if b.isReservedIn specialWords then setSpace false else keepBreak l.toPiece false
  put l.toPiece

def endOfText (l : Lexeme) : Format Unit := do
  leaveStatements
  lead l false

def handle (l : Lexeme) : Format Unit :=
  match l.kind with
  | .startExpr => startExpr l
  | .endExpr => endExpr l
  | .startBlock => startBlock l
  | .endBlock => endBlock l
  | .word | .reserved => handleWord l
  | .semicolon => semicolon l
  | .string => string l
  | .equals => equals l
  | .operator => operator l
  | .comma => comma l
  | .dot => dot l
  | .eof => endOfText l
  | _ => unknown l.toPiece false

/-- Lays out lexemes in order. -/
def run : List Lexeme → Format Unit
  | [] => return
  | l :: rest => do
    modify fun s => { s with upcoming := rest }
    let l := { l with kind := ← kindHere l }
    handle l
    modify fun s => { s with
      lastLast := s.frame.last.text
      frame := { s.frame with last := l }
      prior := l }
    run rest

end Unravel.Source.Layout.Format
