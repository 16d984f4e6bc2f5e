import Unravel.Source.Token
import Unravel.Syntax.Node

/-! The state of a parse and the steps all parts of the grammar share. Some errors end the parse,
others are noted and the parse goes on. -/

namespace Unravel

/-- An error in the source: what is wrong, and on which line if one is to blame. -/
structure ParseError where
  line : Option Nat
  reason : String
deriving DecidableEq, Repr

def ParseError.message (e : ParseError) : String :=
  match e.line with
  | some n => "Line " ++ Nat.repr n ++ ": " ++ e.reason
  | none => e.reason

namespace Source

/-- What surrounds the place of the parse. -/
structure Surroundings where
  isModule : Bool := false
  strict : Bool := false
  allowIn : Bool := true
  allowStrictDirective : Bool := true
  allowYield : Bool := true
  allowAwait : Bool := false
  inFunction : Bool := false
  inIteration : Bool := false
  inSwitch : Bool := false
  labels : List String := []
  /-- Whether what was just read may be assigned to, and may be a parameter. -/
  isTarget : Bool := false
  isBinding : Bool := false
  /-- Whether what was just read has parentheses around it, or around a part that could be a part
  of a pattern. -/
  isGrouped : Bool := false
  /-- The `=` of an object literal member that only a pattern may have. -/
  coverError : Option Token := none

/-- A place in the source. -/
structure Marker where
  index : Nat := 0
  line : Nat := 1

structure ParseState where
  source : Array Nat
  index : Nat := 0
  line : Nat := 1
  /-- Open braces, `true` for one that a template opened. -/
  braces : List Bool := []
  lookahead : Token := default
  brokenLine : Bool := false
  started : Marker := {}
  ended : Marker := {}
  around : Surroundings := {}
  noted : List ParseError := []
  /-- Whether the source may be run as it stands, as far as has been read. What is noted is not
  always a fault of a script that runs, nor is each such fault noted. -/
  runs : Bool := true
  /-- Where functions and classes stand, in the order in which they end. -/
  functions : Array Span := #[]

abbrev Parse := StateT ParseState (Except ParseError)

namespace Parse

def fail {α : Type} (line : Nat) (reason : String) : Parse α :=
  throw ⟨some line, reason⟩

/-- Notes what is no fault of a script that runs, or a fault that is found out elsewhere. -/
def remark (line : Nat) (reason : String) : Parse Unit :=
  modify fun s => { s with noted := s.noted ++ [⟨some line, reason⟩] }

/-- What was read keeps the source from being run. -/
def bar : Parse Unit := modify fun s => { s with runs := false }

def note (line : Nat) (reason : String) : Parse Unit := do
  remark line reason
  bar

/-- A step of a loop: go on with a value, or end with one. -/
inductive Step (α β : Type) where
  | more (a : α)
  | done (b : β)

def loopFrom {α β : Type} (step : α → Parse (Step α β)) : Nat → α → Parse β
  | 0, _ => throw ⟨none, "Unexpected end of input"⟩
  | fuel + 1, a => do
    match ← step a with
    | .more a => loopFrom step fuel a
    | .done b => return b

/-- Repeats a step that reads something each time, so not more often than the source is long. -/
def loop {α β : Type} (step : α → Parse (Step α β)) (a : α) : Parse β := do
  loopFrom step ((← get).source.size + 2) a

/-- The character at an offset from the place of the scan; 0 past the end. -/
def peek (offset : Nat) : Parse Nat := do
  let s ← get
  return (s.source[s.index + offset]?).getD 0

def atEnd : Parse Bool := do
  let s ← get
  return s.source.size ≤ s.index

def advance (n : Nat) : Parse Unit :=
  modify fun s => { s with index := s.index + n }

def slice (start stop : Nat) : Parse Text := do
  return ((← get).source.extract start stop).toList

/-- Scans ahead without moving. The braces met on the way count as open and closed, and count
again when they are read. -/
def lookingAhead {α : Type} (p : Parse α) : Parse α := do
  let s ← get
  let a ← p
  modify fun t => { t with index := s.index, line := s.line }
  return a

end Parse

end Source

end Unravel
