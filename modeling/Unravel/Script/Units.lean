import Unravel.Text.NameChars

/-! The strings of running scripts: sequences of UTF-16 code units. -/

namespace Unravel.Script

/-- A string in code units. Positions and lengths count units. -/
abbrev Units := Array UInt16

namespace Units

def isHighSurrogate (c : UInt16) : Bool := 0xD800 ≤ c && c < 0xDC00

def isLowSurrogate (c : UInt16) : Bool := 0xDC00 ≤ c && c < 0xE000

/-- Adds a code point at the end. -/
def pushPoint (u : Units) (c : Nat) : Units :=
  if c < 0x10000 then u.push c.toUInt16
  else (u.push (0xD800 + (c - 0x10000) / 0x400).toUInt16).push
    (0xDC00 + (c - 0x10000) % 0x400).toUInt16

def ofText (t : Text) : Units := t.foldl pushPoint #[]

def ofString (s : String) : Units := s.foldl (fun u c => u.pushPoint c.toNat) #[]

def unit (c : UInt16) : Units := #[c]

/-- The unit at a position; 0 past the end. -/
def at0 (u : Units) (i : Nat) : UInt16 := u.getD i 0

/-- The code point that starts at a position, and how many units it takes. -/
def pointAt (u : Units) (i : Nat) : Nat × Nat :=
  let c := u.at0 i
  let d := u.at0 (i + 1)
  if isHighSurrogate c && i + 1 < u.size && isLowSurrogate d then
    (0x10000 + (c.toNat - 0xD800) * 0x400 + (d.toNat - 0xDC00), 2)
  else (c.toNat, 1)

/-- The code points before a position in front of those after it. -/
def textBefore (u : Units) : Nat → Text → Text
  | 0, rest => rest
  | 1, rest => (u.at0 0).toNat :: rest
  | i + 2, rest =>
    let c := u.at0 i
    let d := u.at0 (i + 1)
    if isHighSurrogate c && isLowSurrogate d then
      textBefore u i ((0x10000 + (c.toNat - 0xD800) * 0x400 + (d.toNat - 0xDC00)) :: rest)
    else textBefore u (i + 1) (d.toNat :: rest)

/-- The code points of a string, each surrogate pair joined. -/
def toText (u : Units) : Text := textBefore u u.size []

/-- The string for messages. -/
def shown (u : Units) : String := Text.toString u.toText

def matchesFrom (u w : Units) (i : Nat) : Nat → Bool
  | 0 => true
  | n + 1 => u.at0 (i + n) == w.at0 n && matchesFrom u w i n

/-- Whether one string stands in another at a position. -/
def holdsAt (u w : Units) (i : Nat) : Bool := i + w.size ≤ u.size && matchesFrom u w i w.size

/-- The first position, from a start on and with so many to try, at which a string holds another. -/
def findFrom (u w : Units) : Nat → Nat → Option Nat
  | 0, _ => none
  | n + 1, i => if u.holdsAt w i then some i else findFrom u w n (i + 1)

/-- The first position from a start at which a string holds another. -/
def indexOf (u w : Units) (start : Nat) : Option Nat :=
  if start + w.size ≤ u.size then findFrom u w (u.size - w.size - start + 1) start else none

/-- The last position up to a given one at which a string holds another. -/
def lastIndexOf (u w : Units) : Nat → Option Nat
  | 0 => if u.holdsAt w 0 then some 0 else none
  | n + 1 => if u.holdsAt w (n + 1) then some (n + 1) else lastIndexOf u w n

def ltFrom (u w : Units) : Nat → Nat → Bool
  | 0, _ => u.size < w.size
  | n + 1, i =>
    let c := u.at0 i
    let d := w.at0 i
    if c == d then ltFrom u w n (i + 1) else c < d

/-- Order by code units, the shorter of two first where one starts the other. -/
def lt (u w : Units) : Bool := ltFrom u w (min u.size w.size) 0

/-- Blanks around the text of a number, and what trimming takes away. -/
def isBlank (c : UInt16) : Bool :=
  (c == 32 || (9 ≤ c && c ≤ 13)) ||
    (0xA0 ≤ c && c != 0x180E && (Text.isBlank c.toNat || Text.isLineEnd c.toNat))

def blanksFrom (u : Units) : Nat → Nat → Nat
  | 0, i => i
  | n + 1, i => if isBlank (u.at0 i) then blanksFrom u n (i + 1) else i

def endBefore (u : Units) : Nat → Nat
  | 0 => 0
  | n + 1 => if isBlank (u.at0 n) then endBefore u n else n + 1

def trimStart (u : Units) : Units := u.extract (blanksFrom u u.size 0) u.size

def trimEnd (u : Units) : Units := u.extract 0 (endBefore u u.size)

def trim (u : Units) : Units := u.trimEnd.trimStart

def isDigit (c : UInt16) : Bool := 48 ≤ c && c ≤ 57

/-- The digits of a number in base ten. -/
def ofNat (n : Nat) : Units := ofString (Nat.repr n)

/-- A string so many times over. -/
def repeated (u : Units) : Nat → Units → Units
  | 0, done => done
  | n + 1, done => repeated u n (done ++ u)

def joinFrom (sep : Units) : List Units → Units → Units
  | [], done => done
  | u :: rest, done => joinFrom sep rest (done ++ sep ++ u)

/-- Strings with a separator between neighbours. -/
def join (sep : Units) : List Units → Units
  | [] => #[]
  | u :: rest => joinFrom sep rest u

/-- The greatest array index. -/
def maxIndex : Nat := 4294967294

/-- The array index that a string spells, in the one way an index is written. -/
def index? (u : Units) : Option Nat :=
  if u.size = 0 || 10 < u.size then none
  else if u.at0 0 == 48 then (if u.size = 1 then some 0 else none)
  else if u.all isDigit then
    let n := u.foldl (fun n c => n * 10 + (c.toNat - 48)) 0
    if n ≤ maxIndex then some n else none
  else none

end Units

end Unravel.Script
