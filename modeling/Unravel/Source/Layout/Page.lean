/-! Lines as they are being laid out. A line that holds nothing yet can still change its
indentation. -/

namespace Unravel.Source.Layout

/-- Columns of one level of indentation. -/
def indentSize : Nat := 2

/-- A line: its level, none for one that starts at the margin, further columns, and its texts with
the last one first. -/
structure Line where
  level : Option Nat := none
  alignment : Nat := 0
  items : List String := []

namespace Line

def isEmpty (l : Line) : Bool := l.items.isEmpty

def setIndent (l : Line) (level : Option Nat) (alignment : Nat) : Line :=
  if l.isEmpty then { l with level := level, alignment := alignment } else l

def removeIndent (l : Line) : Line := { l with level := l.level.map (· - 1) }

def trim (l : Line) : Line := { l with items := l.items.dropWhile (· = " ") }

/-- The text of a line whose margin is given. -/
def text (margin : String) (l : Line) : String :=
  if l.isEmpty then ""
  else
    let lead := match l.level with
      | some n => margin ++ String.ofList (List.replicate (n * indentSize + l.alignment) ' ')
      | none => String.ofList (List.replicate l.alignment ' ')
    lead ++ String.join l.items.reverse

end Line

/-- Lines before the current one, the last of them first, and the current one. `space` asks for a
space before the next text. -/
structure Page where
  above : List Line := []
  current : Line := { level := some 0 }
  nextLevel : Nat := 0
  nextAlignment : Nat := 0
  space : Bool := false
  /-- Set while pieces are kept as they stand in the source. -/
  raw : Bool := false

namespace Page

def lineCount (p : Page) : Nat := p.above.length + 1

def atLineStart (p : Page) : Bool := p.current.isEmpty

def isEmpty (p : Page) : Bool := p.above.isEmpty && p.current.isEmpty

def afterBlankLine (p : Page) : Bool :=
  p.isEmpty || (p.current.isEmpty && ((p.above.head?.map Line.isEmpty).getD true))

def openLine (p : Page) : Page :=
  { p with
    above := p.current :: p.above
    current := { level := some p.nextLevel, alignment := p.nextAlignment } }

/-- Starts a line, unless one was just started and a second is not forced. Nothing starts a line
at the top of the page, nor between pieces that are kept as they stand. -/
def newLine (p : Page) (force : Bool) : Page × Bool :=
  if p.isEmpty || (!force && p.atLineStart) then (p, false)
  else (if p.raw then p else p.openLine, true)

/-- Sets the indentation of the next line, and of the current one if it is empty. The first line is
not indented. -/
def setIndent (p : Page) (level alignment : Nat) : Page × Bool :=
  let p := { p with nextLevel := level, nextAlignment := alignment }
  if p.above.isEmpty then ({ p with current := p.current.setIndent (some 0) 0 }, false)
  else ({ p with current := p.current.setIndent (some level) alignment }, true)

def add (p : Page) (text : String) : Page :=
  let items :=
    if p.space && !p.atLineStart then text :: " " :: p.current.items else text :: p.current.items
  { p with current := { p.current with items := items }, space := false }

/-- Adds a text with the line breaks and blanks that stood before it in the source. -/
def addRaw (p : Page) (newlines : Nat) (blanks text : String) : Page :=
  let p := (List.replicate newlines ()).foldl (fun p _ => p.openLine) p
  let line := p.current.setIndent none 0
  { p with current := { line with items := text :: blanks :: line.items }, space := false }

/-- Takes one level from all lines from an index on. -/
def removeIndent (p : Page) (index : Nat) : Page :=
  let count := p.above.length
  { p with
    above := p.above.mapIdx fun i l => if index ≤ count - 1 - i then l.removeIndent else l
    current := if index ≤ count then p.current.removeIndent else p.current }

def trimLines : List Line → Line → List Line × Line
  | [], l => ([], l.trim)
  | m :: above, l => if l.trim.isEmpty then trimLines above m else (m :: above, l.trim)

/-- Removes blanks at the end, and lines that are empty then. -/
def trim (p : Page) : Page :=
  let (above, current) := trimLines p.above p.current
  { p with above := above, current := current }

/-- All lines. -/
def text (margin : String) (p : Page) : String :=
  let p := p.trim
  let current := match p.current.items with
    | last :: items =>
      let kept := String.ofList (last.toList.reverse.dropWhile (· = '\n')).reverse
      { p.current with items := kept :: items }
    | [] => p.current
  String.intercalate "\n" ((current :: p.above).reverse.map (Line.text margin))

end Page

end Unravel.Source.Layout
