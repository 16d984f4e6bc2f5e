import Unravel.Source.Layout.Lexeme
import Unravel.Source.Layout.Page

/-! The constructs around the place of the formatter, and the moves between them. -/

namespace Unravel.Source.Layout

inductive Mode where
  | block
  | statement
  | object
  | array
  | forHead
  | conditional
  | expression
deriving DecidableEq, Repr

def Mode.isExpression : Mode → Bool
  | .expression | .forHead | .conditional => true
  | _ => false

/-- A construct that is being laid out. -/
structure Frame where
  mode : Mode
  last : Lexeme := default
  lastWord : String := ""
  declaration : Bool := false
  assigned : Bool := false
  multiline : Bool := false
  ifBlock : Bool := false
  elseBlock : Bool := false
  doBlock : Bool := false
  doWhile : Bool := false
  importBlock : Bool := false
  inCase : Bool := false
  inSwitch : Bool := false
  caseBody : Bool := false
  caseBlock : Bool := false
  level : Nat := 0
  alignment : Nat := 0
  lineLevel : Nat := 0
  startLine : Nat := 0
  ternaries : Nat := 0

/-- The state of the formatter. `left` is the construct that was left or entered from last. -/
structure State where
  page : Page := {}
  frame : Frame := { mode := .block, startLine := 1 }
  outer : List Frame := []
  left : Frame := { mode := .block }
  /-- The text before the last one. -/
  lastLast : String := ""
  prior : Lexeme := { kind := .start, text := "" }
  upcoming : List Lexeme := []

abbrev Format := StateM State

namespace Format

def frame : Format Frame := do return (← get).frame

def last : Format Lexeme := do return (← get).frame.last

def modifyFrame (f : Frame → Frame) : Format Unit :=
  modify fun s => { s with frame := f s.frame }

def modifyPage (f : Page → Page) : Format Unit :=
  modify fun s => { s with page := f s.page }

/-- The construct around the current one. -/
def parent : Format Frame := do return (← get).outer.head?.getD { mode := .block }

/-- The lexeme after the current one. -/
def following : Format Lexeme := do return (← get).upcoming.head?.getD { kind := .eof, text := "" }

def setSpace (b : Bool) : Format Unit := modifyPage fun p => { p with space := b }

def atLineStart : Format Bool := do return (← get).page.atLineStart

/-- Gives the page the indentation of the current construct. -/
def applyIndent : Format Unit :=
  modify fun s => { s with page := (s.page.setIndent s.frame.level s.frame.alignment).1 }

def indent : Format Unit := do
  modifyFrame fun f => { f with level := f.level + 1 }
  applyIndent

/-- Takes back a level, but not one of the construct around. -/
def deindent : Format Unit := do
  let outer := (← get).outer
  modifyFrame fun f =>
    let base := (outer.head?.map (·.level)).getD 0
    if 0 < f.level && base < f.level then { f with level := f.level - 1 } else f
  applyIndent

def enter (mode : Mode) : Format Unit := do
  modify fun s =>
    let base := s.frame
    let level :=
      if !s.page.atLineStart && base.level < base.lineLevel then base.lineLevel else base.level
    { s with
      outer := base :: s.outer
      left := base
      frame := {
        mode := mode, last := base.last, lastWord := base.lastWord, level := level
        startLine := s.page.lineCount } }
  applyIndent

/-- Lines inside a construct that turned out to fit on one line lose a level. -/
def removeRedundantIndent (f : Frame) : Format Unit := do
  if f.multiline || f.mode = .forHead || f.mode = .conditional then return
  modifyPage fun p => p.removeIndent f.startLine

def leave : Format Unit := do
  match (← get).outer with
  | f :: outer =>
    modify fun s => { s with frame := f, outer := outer, left := s.frame }
    let gone := (← get).left
    if gone.mode = .statement then removeRedundantIndent gone
  | [] => pure ()
  applyIndent

/-- Leaves constructs while a condition holds. -/
def leaveWhile (test : Frame → Bool) : Format Unit := do
  let rec go : Nat → Format Unit
    | 0 => return
    | n + 1 => do
      if test (← frame) then
        leave
        go n
  go ((← get).outer.length + 1)

def leaveStatements : Format Unit := leaveWhile fun f => f.mode = .statement

/-- Leaves the statements that end before the next lexeme. -/
def leaveEnded : Format Unit := do
  let isElse := (← following).isReserved "else"
  leaveWhile fun f => f.mode = .statement && !(f.ifBlock && isElse) && !f.doBlock

def newLine (force keepStatements : Bool) : Format Unit := do
  if !keepStatements then
    let l ← last
    let text := l.text
    if text ≠ ";" && text ≠ "," && text ≠ "="
        && (l.kind ≠ .operator || text = "--" || text = "++") then
      leaveEnded
  let (page, added) := (← get).page.newLine force
  modify fun s => { s with page := page }
  if added then modifyFrame fun f => { f with multiline := true }

def indentLine : Format Unit := do
  if ← atLineStart then
    let s ← get
    let (page, indented) := s.page.setIndent s.frame.level s.frame.alignment
    set { s with page := page }
    if indented then modifyFrame fun f => { f with lineLevel := f.level }

def putText (text : String) : Format Unit := do
  indentLine
  modifyPage fun p => p.add text

/-- Puts a piece on the page, with what stands before it in the source where that is kept. -/
def put (l : Piece) : Format Unit := do
  if (← get).page.raw then modifyPage fun p => p.addRaw l.newlines l.blanks l.text
  else putText l.text

end Format

end Unravel.Source.Layout
