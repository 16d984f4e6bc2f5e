import Unravel.Script.Units
import Unravel.Text.LetterCase

/-! Regular expressions as a script writes them, read into terms. Outside unicode mode the
characters of a pattern are code units and stray braces and brackets stand for themselves. -/

namespace Unravel.Script.Regex

/-- What a member of a set of characters admits. -/
inductive Item where
  | range (low high : Nat)
  | digit (negated : Bool)
  | space (negated : Bool)
  | word (negated : Bool)
  /-- A property of characters by its name. -/
  | named (name : String) (negated : Bool)
deriving Repr, Inhabited

/-- Flags that change how a term matches. -/
structure Modes where
  ignoreCase : Bool := false
  multiline : Bool := false
  dotAll : Bool := false
  unicode : Bool := false
deriving Repr, Inhabited

inductive Term where
  | empty
  | char (modes : Modes) (c : Nat)
  | any (modes : Modes)
  | set (modes : Modes) (negated : Bool) (items : List Item)
  | lineStart (modes : Modes)
  | lineEnd (modes : Modes)
  | boundary (modes : Modes) (negated : Bool)
  | capture (group : Nat) (body : Term)
  | reference (modes : Modes) (groups : List Nat)
  | look (ahead negated : Bool) (body : Term)
  | row (first rest : Term)
  | choice (first rest : Term)
  /-- A body so many times; the groups in it are those from one number up to another. -/
  | times (body : Term) (least : Nat) (most : Option Nat) (greedy : Bool) (firstGroup lastGroup : Nat)
deriving Repr, Inhabited

/-- The flags of an expression. -/
structure Flags where
  hasIndices : Bool := false
  globally : Bool := false
  ignoreCase : Bool := false
  multiline : Bool := false
  dotAll : Bool := false
  unicode : Bool := false
  unicodeSets : Bool := false
  sticky : Bool := false
deriving Repr, Inhabited

namespace Flags

/-- The flags with one more of them set; none if it is unknown or set already. -/
def add? (f : Flags) (c : UInt16) : Option Flags :=
  match c.toNat with
  | 100 => if f.hasIndices then none else some { f with hasIndices := true }
  | 103 => if f.globally then none else some { f with globally := true }
  | 105 => if f.ignoreCase then none else some { f with ignoreCase := true }
  | 109 => if f.multiline then none else some { f with multiline := true }
  | 115 => if f.dotAll then none else some { f with dotAll := true }
  | 117 => if f.unicode || f.unicodeSets then none else some { f with unicode := true }
  | 118 => if f.unicode || f.unicodeSets then none else some { f with unicodeSets := true }
  | 121 => if f.sticky then none else some { f with sticky := true }
  | _ => none

def ofUnits? (u : Units) : Option Flags :=
  u.foldl (fun f c => f.bind (·.add? c)) (some {})

/-- The flags in their standard order. -/
def text (f : Flags) : String :=
  (if f.hasIndices then "d" else "") ++ (if f.globally then "g" else "")
    ++ (if f.ignoreCase then "i" else "") ++ (if f.multiline then "m" else "")
    ++ (if f.dotAll then "s" else "") ++ (if f.unicode then "u" else "")
    ++ (if f.unicodeSets then "v" else "") ++ (if f.sticky then "y" else "")

def isUnicode (f : Flags) : Bool := f.unicode || f.unicodeSets

def modes (f : Flags) : Modes :=
  { ignoreCase := f.ignoreCase, multiline := f.multiline, dotAll := f.dotAll
    unicode := f.isUnicode }

end Flags

/-- A pattern that has been read: its term, how many groups it captures and their names. -/
structure Pattern where
  term : Term
  groups : Nat
  names : List (Units × Nat)
deriving Repr, Inhabited

/-! Reading -/

structure ReadState where
  /-- The characters of the pattern. -/
  source : Array Nat
  place : Nat := 0
  modes : Modes
  /-- How many groups the whole pattern captures, and whether one has a name. -/
  total : Nat
  hasNames : Bool
  groups : Nat := 0
  names : List (Units × Nat) := []
  /-- References to names, for a check at the end. -/
  wanted : List Units := []
deriving Inhabited

/-- A reader; it fails on what is no expression. -/
abbrev Read := EStateM Unit ReadState

namespace Read

def fail {α : Type} : Read α := throw ()

def peekAt (n : Nat) : Read (Option Nat) := do
  let s ← get
  return s.source[s.place + n]?

def peek : Read (Option Nat) := peekAt 0

def skip (n : Nat) : Read Unit := modify fun s => { s with place := s.place + n }

/-- Takes a character if it is the next one. -/
def accept (c : Nat) : Read Bool := do
  if (← peek) = some c then
    skip 1
    return true
  else return false

def expect (c : Nat) : Read Unit := do
  if !(← accept c) then fail

def isUnicode : Read Bool := do return (← get).modes.unicode

def hexValue? (c : Nat) : Option Nat :=
  if 48 ≤ c && c ≤ 57 then some (c - 48)
  else if 97 ≤ c && c ≤ 102 then some (c - 87)
  else if 65 ≤ c && c ≤ 70 then some (c - 55)
  else none

/-- The value of so many hexadecimal digits ahead, if they are there. -/
def hexAhead? (offset : Nat) : Nat → Nat → Read (Option Nat)
  | 0, value => return some value
  | n + 1, value => do
    match (← peekAt offset).bind hexValue? with
    | some d => hexAhead? (offset + 1) n (value * 16 + d)
    | none => return none

/-- Decimal digits ahead and their value. -/
def digitsAhead (offset : Nat) : Nat → Nat → Nat → Read (Nat × Nat)
  | 0, value, count => return (value, count)
  | n + 1, value, count => do
    match ← peekAt (offset + count) with
    | some c =>
      if 48 ≤ c && c ≤ 57 then digitsAhead offset n (value * 10 + (c - 48)) (count + 1)
      else return (value, count)
    | none => return (value, count)

def digits (offset : Nat) : Read (Nat × Nat) := do
  let s ← get
  digitsAhead offset (s.source.size - s.place) 0 0

/-- The braces of a repeat ahead: least, most, and how many characters they take. -/
def bracesAhead? : Read (Option (Nat × Option Nat × Nat)) := do
  if (← peek) ≠ some 123 then return none
  let (least, count) ← digits 1
  if count = 0 then return none
  match ← peekAt (1 + count) with
  | some 125 => return some (least, some least, count + 2)
  | some 44 =>
    if (← peekAt (2 + count)) = some 125 then return some (least, none, count + 3)
    let (most, more) ← digits (2 + count)
    if more = 0 then return none
    if (← peekAt (2 + count + more)) = some 125 then
      return some (least, some most, count + more + 3)
    else return none
  | _ => return none

/-- A repeat after a term: least, most and whether it takes as much as it can. -/
def quantifier? : Read (Option (Nat × Option Nat × Bool)) := do
  let found : Option (Nat × Option Nat) ← match ← peek with
    | some 42 => do skip 1; pure (some (0, none))
    | some 43 => do skip 1; pure (some (1, none))
    | some 63 => do skip 1; pure (some (0, some 1))
    | some 123 =>
      match ← bracesAhead? with
      | some (least, most, count) => do
        if most.any (· < least) then fail
        skip count
        pure (some (least, most))
      | none => do
        if ← isUnicode then fail
        pure none
    | _ => pure none
  match found with
  | none => return none
  | some (least, most) => return some (least, most, !(← accept 63))

def isSyntaxChar (c : Nat) : Bool :=
  [94, 36, 92, 46, 42, 43, 63, 40, 41, 91, 93, 123, 125, 124].contains c

def isNameStart (c : Nat) : Bool := c = 36 || c = 95 || Text.isLateNameStart c

def isNamePart (c : Nat) : Bool := c = 36 || c = 0x200C || c = 0x200D || Text.isLateNamePart c

/-- The code point of a `u` escape, after the `u`. -/
def unicodeEscape? (wide : Bool) : Read (Option Nat) := do
  if wide && (← peek) = some 123 then
    let rec close (n : Nat) (value : Nat) (count : Nat) : Read (Option Nat) := do
      match n with
      | 0 => return none
      | n + 1 =>
        match ← peekAt (1 + count) with
        | some 125 =>
          if count = 0 then return none
          skip (count + 2)
          return some value
        | some c =>
          match hexValue? c with
          | some d =>
            let value := value * 16 + d
            if 0x10FFFF < value then return none else close n value (count + 1)
          | none => return none
        | none => return none
    close ((← get).source.size) 0 0
  else
    match ← hexAhead? 0 4 0 with
    | none => return none
    | some c =>
      skip 4
      if wide && 0xD800 ≤ c && c < 0xDC00 && (← peek) = some 92 && (← peekAt 1) = some 117 then
        match ← hexAhead? 2 4 0 with
        | some d =>
          if 0xDC00 ≤ d && d < 0xE000 then
            skip 6
            return some (0x10000 + (c - 0xD800) * 0x400 + (d - 0xDC00))
          else return some c
        | none => return some c
      else return some c

/-- One character of a group's name. -/
def nameChar : Read Nat := do
  match ← peek with
  | some 92 =>
    skip 1
    expect 117
    match ← unicodeEscape? true with
    | some c => return c
    | none => fail
  | some c =>
    skip 1
    if 0xD800 ≤ c && c < 0xDC00 then
      match ← peek with
      | some d =>
        if 0xDC00 ≤ d && d < 0xE000 then
          skip 1
          return 0x10000 + (c - 0xD800) * 0x400 + (d - 0xDC00)
        else return c
      | none => return c
    else return c
  | none => fail

/-- The name of a group up to its closing angle. -/
def groupName : Read Units := do
  let rec more (n : Nat) (done : Units) : Read Units := do
    match n with
    | 0 => fail
    | n + 1 =>
      if ← accept 62 then
        if done.isEmpty then fail else return done
      else
        let c ← nameChar
        if !(if done.isEmpty then isNameStart c else isNamePart c) then fail
        more n (done.pushPoint c)
  more ((← get).source.size + 1) #[]

/-- Up to three octal digits whose value fits a byte. -/
def legacyOctal : Read Nat := do
  let digit (v : Nat) : Read (Option Nat) := do
    match ← peek with
    | some c =>
      if 48 ≤ c && c ≤ 55 && v * 8 + (c - 48) < 256 then
        skip 1
        return some (v * 8 + (c - 48))
      else return none
    | none => return none
  match ← digit 0 with
  | none => return 0
  | some v =>
    match ← digit v with
    | none => return v
    | some v => return (← digit v).getD v

/-- An escape that stands for one character, after the backslash. -/
def charEscape (inSet : Bool) : Read Nat := do
  let unicode ← isUnicode
  match ← peek with
  | none => fail
  | some c =>
    match c with
    | 102 => do skip 1; return 12
    | 110 => do skip 1; return 10
    | 114 => do skip 1; return 13
    | 116 => do skip 1; return 9
    | 118 => do skip 1; return 11
    | 99 =>
      match ← peekAt 1 with
      | some l =>
        let isLetter := (65 ≤ l && l ≤ 90) || (97 ≤ l && l ≤ 122)
        let isLoose := inSet && !unicode && ((48 ≤ l && l ≤ 57) || l = 95)
        if isLetter || isLoose then
          skip 2
          return l % 32
        else if unicode then fail
        else return 92
      | none => if unicode then fail else return 92
    | 48 =>
      let next ← peekAt 1
      if next.any fun d => 48 ≤ d && d ≤ 57 then
        if unicode then fail else legacyOctal
      else
        skip 1
        return 0
    | 120 =>
      skip 1
      match ← hexAhead? 0 2 0 with
      | some v =>
        skip 2
        return v
      | none => if unicode then fail else return 120
    | 117 =>
      skip 1
      match ← unicodeEscape? unicode with
      | some v => return v
      | none => if unicode then fail else return 117
    | c =>
      if 49 ≤ c && c ≤ 55 && !unicode then legacyOctal
      else if unicode then
        if isSyntaxChar c || c = 47 || (inSet && c = 45) then
          skip 1
          return c
        else fail
      else if c = 107 && (← get).hasNames then fail
      else
        skip 1
        return c

/-- A class of characters named by an escape, after the backslash. -/
def classEscape? : Read (Option Item) := do
  match ← peek with
  | some 100 => do skip 1; return some (.digit false)
  | some 68 => do skip 1; return some (.digit true)
  | some 115 => do skip 1; return some (.space false)
  | some 83 => do skip 1; return some (.space true)
  | some 119 => do skip 1; return some (.word false)
  | some 87 => do skip 1; return some (.word true)
  | some c =>
    if (c = 112 || c = 80) && (← isUnicode) then
      skip 1
      expect 123
      let rec name (n : Nat) (done : List Char) : Read String := do
        match n with
        | 0 => fail
        | n + 1 =>
          match ← peek with
          | some 125 =>
            skip 1
            return String.ofList done.reverse
          | some c =>
            skip 1
            name n (Char.ofNat c :: done)
          | none => fail
      let text ← name ((← get).source.size + 1) []
      if text.isEmpty then fail
      return some (.named text (c = 80))
    else return none
  | none => return none

/-- A member of a set: one character, or a class. -/
def setAtom : Read (Sum Nat Item) := do
  match ← peek with
  | none => fail
  | some 92 =>
    skip 1
    match ← classEscape? with
    | some item => return .inr item
    | none =>
      match ← peek with
      | some 98 => do skip 1; return .inl 8
      | some 66 =>
        if ← isUnicode then fail
        skip 1
        return .inl 66
      | _ => return .inl (← charEscape true)
  | some c =>
    skip 1
    return .inl c

/-- The members of a set up to its closing bracket. -/
def setItems : Read (List Item) := do
  let single : Sum Nat Item → Item
    | .inl c => .range c c
    | .inr item => item
  let rec more (n : Nat) (done : List Item) : Read (List Item) := do
    match n with
    | 0 => fail
    | n + 1 =>
      if ← accept 93 then return done.reverse
      let a ← setAtom
      if (← peek) = some 45 && (← peekAt 1) ≠ some 93 then
        skip 1
        if (← peek).isNone then fail
        let b ← setAtom
        match a, b with
        | .inl low, .inl high =>
          if high < low then fail
          more n (.range low high :: done)
        | _, _ =>
          if ← isUnicode then fail
          more n (single b :: .range 45 45 :: single a :: done)
      else more n (single a :: done)
  more ((← get).source.size + 1) []

/-- Reads an escape outside a set, after the backslash. -/
def escape : Read Term := do
  let s ← get
  match ← classEscape? with
  | some item => return .set s.modes false [item]
  | none =>
    match ← peek with
    | none => fail
    | some 98 => do skip 1; return .boundary s.modes false
    | some 66 => do skip 1; return .boundary s.modes true
    | some 107 =>
      if s.modes.unicode || s.hasNames then
        skip 1
        expect 60
        let name ← groupName
        modify fun s => { s with wanted := name :: s.wanted }
        -- the groups of that name are filled in when all are known
        return .reference s.modes [s.total + s.wanted.length + 1]
      else
        skip 1
        return .char s.modes 107
    | some c =>
      if 49 ≤ c && c ≤ 57 then
        let (value, count) ← digits 0
        if value ≤ s.total then
          skip count
          return .reference s.modes [value]
        else if s.modes.unicode then fail
        else if 56 ≤ c then
          skip 1
          return .char s.modes c
        else return .char s.modes (← legacyOctal)
      else return .char s.modes (← charEscape false)

/-- The modes set and cleared by a group, up to its colon. -/
def modifiers : Read Modes := do
  let start := (← get).modes
  let rec more (n : Nat) (set cleared : List Nat) (minus : Bool) : Read Modes := do
    match n with
    | 0 => fail
    | n + 1 =>
      match ← peek with
      | some 58 =>
        skip 1
        if set.isEmpty && cleared.isEmpty then fail
        let pick (c : Nat) (old : Bool) : Bool :=
          if set.contains c then true else if cleared.contains c then false else old
        return { start with
          ignoreCase := pick 105 start.ignoreCase
          multiline := pick 109 start.multiline
          dotAll := pick 115 start.dotAll }
      | some 45 =>
        if minus then fail
        skip 1
        more n set cleared true
      | some c =>
        if !([105, 109, 115].contains c) || set.contains c || cleared.contains c then fail
        skip 1
        if minus then more n set (c :: cleared) minus else more n (c :: set) cleared minus
      | none => fail
  more 9 [] [] false

/-- A term and whether it may be repeated. -/
abbrev Atom := Term × Bool

/-- The inside of a group, after the opening parenthesis. -/
def group (disjunction : Read Term) : Read Atom := do
  let closed (p : Read Term) : Read Term := do
    let t ← p
    expect 41
    return t
  let captured (name : Option Units) : Read Atom := do
    let index := (← get).groups + 1
    modify fun s => { s with
      groups := index
      names := match name with
        | some n => (n, index) :: s.names
        | none => s.names }
    return (.capture index (← closed disjunction), true)
  if (← peek) ≠ some 63 then captured none
  else
    match ← peekAt 1 with
    | some 58 => do skip 2; return (← closed disjunction, true)
    | some 61 => do
      skip 2
      return (.look true false (← closed disjunction), !(← isUnicode))
    | some 33 => do
      skip 2
      return (.look true true (← closed disjunction), !(← isUnicode))
    | some 60 =>
      match ← peekAt 2 with
      | some 61 => do skip 3; return (.look false false (← closed disjunction), false)
      | some 33 => do skip 3; return (.look false true (← closed disjunction), false)
      | _ => do
        skip 2
        captured (some (← groupName))
    | _ =>
      skip 1
      let outside := (← get).modes
      let inside ← modifiers
      modify fun s => { s with modes := inside }
      let t ← closed disjunction
      modify fun s => { s with modes := outside }
      return (t, true)

/-- One term without its repeat. -/
def atom (disjunction : Read Term) (c : Nat) : Read Atom := do
  let s ← get
  match c with
  | 94 => do skip 1; return (.lineStart s.modes, false)
  | 36 => do skip 1; return (.lineEnd s.modes, false)
  | 40 => do skip 1; group disjunction
  | 46 => do skip 1; return (.any s.modes, true)
  | 91 =>
    skip 1
    let negated ← accept 94
    return (.set s.modes negated (← setItems), true)
  | 92 =>
    skip 1
    match ← escape with
    | .boundary m n => return (.boundary m n, false)
    | t => return (t, true)
  | 42 | 43 | 63 => fail
  | 123 =>
    if s.modes.unicode || (← bracesAhead?).isSome then fail
    skip 1
    return (.char s.modes 123, true)
  | 125 | 93 =>
    if s.modes.unicode then fail
    skip 1
    return (.char s.modes c, true)
  | c => do skip 1; return (.char s.modes c, true)

/-- Terms in a row, joined to the right. -/
def rowOf : List Term → Term
  | [] => .empty
  | [t] => t
  | t :: rest => .row t (rowOf rest)

/-- A row of terms up to the end of an alternative. -/
def alternative (disjunction : Read Term) : Read Term := do
  let rec more (n : Nat) (done : List Term) : Read (List Term) := do
    match n with
    | 0 => fail
    | n + 1 =>
      match ← peek with
      | none | some 124 | some 41 => return done.reverse
      | some c =>
        let before := (← get).groups
        let (t, repeats) ← atom disjunction c
        let after := (← get).groups
        if repeats then
          match ← quantifier? with
          | some (least, most, greedy) =>
            more n (.times t least most greedy (before + 1) after :: done)
          | none => more n (t :: done)
        else
          -- what may not be repeated is not followed by a repeat
          match ← peek with
          | some 42 | some 43 | some 63 => fail
          | some 123 =>
            if (← isUnicode) || (← bracesAhead?).isSome then fail
            more n (t :: done)
          | _ => more n (t :: done)
  return rowOf (← more ((← get).source.size + 1) [])

/-- Alternatives, nested to a depth. -/
def disjunction : Nat → Read Term
  | 0 => fail
  | depth + 1 => do
    let rec more (n : Nat) (first : Term) : Read Term := do
      match n with
      | 0 => fail
      | n + 1 =>
        if ← accept 124 then
          let t ← alternative (disjunction depth)
          return .choice first (← more n t)
        else return first
    more ((← get).source.size + 1) (← alternative (disjunction depth))

end Read

/-- Counts the groups that capture, and tells whether one has a name; sets and escapes are
skipped. -/
def countGroups : List Nat → Bool → Nat × Bool
  | [], _ => (0, false)
  | 92 :: _ :: rest, inSet => countGroups rest inSet
  | 91 :: rest, false => countGroups rest true
  | 93 :: rest, true => countGroups rest false
  | 40 :: 63 :: 60 :: c :: rest, false =>
    if c = 61 || c = 33 then countGroups rest false
    else
      let (n, _) := countGroups (c :: rest) false
      (n + 1, true)
  | 40 :: 63 :: rest, false => countGroups rest false
  | 40 :: rest, false =>
    let (n, named) := countGroups rest false
    (n + 1, named)
  | _ :: rest, inSet => countGroups rest inSet

/-- Fills in the groups that references by name stand for; names were met in this order. -/
def Term.resolve (total : Nat) (wanted : Array (List Nat)) : Term → Term
  | .capture g body => .capture g (body.resolve total wanted)
  | .look a n body => .look a n (body.resolve total wanted)
  | .row a b => .row (a.resolve total wanted) (b.resolve total wanted)
  | .choice a b => .choice (a.resolve total wanted) (b.resolve total wanted)
  | .times body l m g a b => .times (body.resolve total wanted) l m g a b
  | .reference m [n] =>
    if total < n then .reference m (wanted.getD (n - total - 1) []) else .reference m [n]
  | t => t

/-- Whether two groups of one name can take part in the same match. -/
def Term.clashes (names : List (Units × Nat)) : Term → Bool
  | t => (go t).2
where
  nameOf (g : Nat) : List Units := (names.filter fun e => e.2 = g).map Prod.fst
  go : Term → List Units × Bool
  | .capture g body =>
    let (inner, bad) := go body
    let own := nameOf g
    (own ++ inner, bad || own.any inner.contains)
  | .look _ _ body => go body
  | .row a b =>
    let (x, p) := go a
    let (y, q) := go b
    (x ++ y, p || q || x.any y.contains)
  | .choice a b =>
    let (x, p) := go a
    let (y, q) := go b
    (x ++ y, p || q)
  | .times body _ _ _ _ _ => go body
  | _ => ([], false)

/-- The characters that the pattern consists of. -/
def charsOf (unicode : Bool) (u : Units) : Array Nat :=
  if unicode then u.toText.toArray else u.map UInt16.toNat

/-- Reads a pattern. -/
def Pattern.ofUnits? (u : Units) (flags : Flags) : Option Pattern :=
  let source := charsOf flags.isUnicode u
  let (total, hasNames) := countGroups source.toList false
  let start : ReadState :=
    { source := source, modes := flags.modes, total := total, hasNames := hasNames }
  match (Read.disjunction (source.size + 1)).run start with
  | .error _ _ => none
  | .ok term s =>
    if s.place < source.size then none
    else
      let wanted := s.wanted.reverse.map fun n =>
        ((s.names.filter fun e => e.1 == n).map Prod.snd).reverse
      if wanted.any List.isEmpty || term.clashes s.names then none
      else some ⟨term.resolve total wanted.toArray, s.groups, s.names.reverse⟩

end Unravel.Script.Regex
