import Unravel.Text.NameChars

/-! Which regular expressions are well formed. Beside the usual forms there are named groups
`(?P<n>…)` and references to them, conditional and atomic groups, comments and flags inside a
pattern, and repeats that do not give back; what looks behind has one width. -/

namespace Unravel.Source.RegexForm

/-- How many characters a part of a pattern takes: at least, and at most if that is bounded. -/
structure Width where
  least : Nat
  most : Option Nat

namespace Width

def none : Width := ⟨0, some 0⟩

def one : Width := ⟨1, some 1⟩

/-- The width of two parts in a row. -/
def join (a b : Width) : Width :=
  ⟨a.least + b.least, do return (← a.most) + (← b.most)⟩

/-- The width of one part or another. -/
def either (a b : Width) : Width :=
  ⟨min a.least b.least, do return max (← a.most) (← b.most)⟩

/-- The width of a repeated part; a part that takes nothing takes nothing however often. -/
def times (w : Width) (least : Nat) (most : Option Nat) : Width :=
  ⟨w.least * least,
    match w.most, most with
    | some m, some n => some (m * n)
    | some 0, .none => some 0
    | .none, some 0 => some 0
    | _, _ => .none⟩

/-- The greatest width that can be looked behind. -/
def farthestBehind : Nat := 4294967295

def isFixed (w : Width) : Bool :=
  w.least ≤ farthestBehind && w.most = some w.least

end Width

/-- A character of a pattern, or one with the backslash before it. -/
inductive Mark where
  | plain (c : Nat)
  | escaped (c : Nat)
deriving DecidableEq, Inhabited

/-- The marks of a pattern; none if it ends in a backslash. -/
def marksOf : Text → Option (List Mark)
  | [] => some []
  | [92] => none
  | 92 :: c :: rest => do return .escaped c :: (← marksOf rest)
  | c :: rest => do return .plain c :: (← marksOf rest)

/-- The flags that a pattern sets for itself. -/
structure Flags where
  letters : List Nat := []

def Flags.has (f : Flags) (letter : Char) : Bool := f.letters.contains letter.toNat

/-- How far a pattern is read, and the groups in it. -/
structure Reading where
  rest : List Mark
  /-- The width of each group, the first at the end; none while a group is open. -/
  groups : List (Option Width) := []
  names : List (Text × Nat) := []
  /-- Inside what looks behind, how many groups there were before it. -/
  behind : Option Nat := none
  flags : Flags := {}
  /-- The groups that conditions ask about. -/
  asked : List Nat := []
  repeats : Bool := false

abbrev Read := StateT Reading Option

def refuse {α : Type} : Read α := failure

def next? : Read (Option Mark) := do return (← get).rest.head?

def take? : Read (Option Mark) := do
  let s ← get
  set { s with rest := s.rest.tail }
  return s.rest.head?

/-- Takes a mark that must be there. -/
def take : Read Mark := do
  match ← take? with
  | some m => return m
  | none => refuse

/-- Passes a character if it comes next. -/
def passes (c : Char) : Read Bool := do
  if (← next?) = some (.plain c.toNat) then
    let _ ← take
    return true
  return false

def expect (c : Char) : Read Unit := do
  if !(← passes c) then refuse

def plainPart (test : Nat → Bool) : List Mark → Text × List Mark
  | .plain c :: rest =>
    if test c then
      let (t, after) := plainPart test rest
      (c :: t, after)
    else ([], .plain c :: rest)
  | rest => ([], rest)

/-- The longest run of some characters. -/
def takeWhile (test : Nat → Bool) : Read Text := do
  let s ← get
  let (t, after) := plainPart test s.rest
  set { s with rest := after }
  return t

/-- A run of some characters, and not more of them than a number. -/
def takeUpTo (limit : Nat) (test : Nat → Bool) : Read Text := do
  let s ← get
  let t := (plainPart test s.rest).1.take limit
  set { s with rest := s.rest.drop t.length }
  return t

/-- The text up to a character, which is passed; there must be some. -/
def takeUntil (stop : Char) : Read Text := do
  let s ← get
  let before := s.rest.takeWhile fun m => m ≠ .plain stop.toNat
  let after := s.rest.drop before.length
  if before.isEmpty || after.isEmpty then refuse
  set { s with rest := after.tail }
  return before.flatMap fun
    | .plain c => [c]
    | .escaped c => [92, c]

def isOctal (c : Nat) : Bool := 48 ≤ c && c ≤ 55

def isHex (c : Nat) : Bool :=
  Text.isAsciiDigit c || (97 ≤ c && c ≤ 102) || (65 ≤ c && c ≤ 70)

def isLetter (c : Nat) : Bool := (65 ≤ c && c ≤ 90) || (97 ≤ c && c ≤ 122)

def valueIn (base : Nat) (ds : Text) : Nat :=
  ds.foldl (fun n c => n * base + (if c ≤ 57 then c - 48 else (c ||| 32) - 87)) 0

/-- Digits after an escape's letter, exactly as many as it takes. -/
def hexValue (count : Nat) : Read Nat := do
  let ds ← takeUpTo count isHex
  if ds.length ≠ count then refuse
  return valueIn 16 ds

def isSpace (c : Nat) : Bool := c = 32 || (9 ≤ c && c ≤ 13)

def isOneOf (c : Nat) (letters : String) : Bool := letters.toList.any fun l => l.toNat = c

/-- The character an escape stands for in the same way everywhere. -/
def commonEscape (c : Nat) : Read Nat := do
  match Char.ofNat c with
  | 'x' => hexValue 2
  | 'u' => hexValue 4
  | 'U' =>
    let v ← hexValue 8
    if 0x10FFFF < v then refuse
    return v
  | 'a' => return 7
  | 'b' => return 8
  | 'f' => return 12
  | 'n' => return 10
  | 'r' => return 13
  | 't' => return 9
  | 'v' => return 11
  | _ => if isLetter c then refuse else return c

/-- A member of a class; none for an escape that stands for many characters. -/
def classEscape (c : Nat) : Read (Option Nat) := do
  if isOneOf c "dDsSwW" then return none
  if isOctal c then
    let v := valueIn 8 (c :: (← takeUpTo 2 isOctal))
    if 255 < v then refuse
    return some v
  if Text.isAsciiDigit c then refuse
  return some (← commonEscape c)

def classMember : Mark → Read (Option Nat)
  | .plain c => return some c
  | .escaped c => classEscape c

/-- The members of a class after its bracket. The first one may be a closing bracket. -/
def classRest : Nat → Bool → Read Unit
  | 0, _ => refuse
  | fuel + 1, isFirst => do
    let m ← take
    if m = .plain 93 && !isFirst then return
    let low ← classMember m
    if ← passes '-' then
      let m ← take
      if m = .plain 93 then return
      match low, ← classMember m with
      | some lo, some hi => if hi < lo then refuse
      | _, _ => refuse
    classRest fuel false

/-- What a part of a sequence is, as far as a repeat after it asks. -/
inductive Shape where
  | anchor
  | repeated
  | other
deriving DecidableEq

structure Part where
  shape : Shape := .other
  width : Width := .none

/-- The parts of a sequence: the width of all but the last, and the last. -/
structure Parts where
  before : Width := .none
  last : Option Part := none

def Parts.width (p : Parts) : Width :=
  match p.last with
  | some l => p.before.join l.width
  | none => p.before

def Parts.add (p : Parts) (part : Part) : Parts := ⟨p.width, some part⟩

/-- The width of a group that is referred to; it must be closed, and stand before what looks
behind. -/
def closedGroup (number : Nat) : Read Width := do
  let s ← get
  match s.groups.reverse[number - 1]? with
  | some (some w) =>
    match s.behind with
    | some n => if n < number then refuse
    | none => pure ()
    return w
  | _ => refuse

/-- An escape outside a class. -/
def escape (c : Nat) : Read Part := do
  let single : Part := { width := .one }
  if isOneOf c "AbBZ" then return { shape := .anchor }
  if isOneOf c "dDsSwW" then return single
  if c = 48 then
    let _ ← takeUpTo 2 isOctal
    return single
  if Text.isAsciiDigit c then
    let ds := c :: (← takeUpTo 1 Text.isAsciiDigit)
    if ds.length = 2 && ds.all isOctal then
      let third ← takeUpTo 1 isOctal
      if !third.isEmpty then
        if 255 < valueIn 8 (ds ++ third) then refuse
        return single
    return { width := ← closedGroup (valueIn 10 ds) }
  let _ ← commonEscape c
  return single

/-- Repeats are counted below this number. -/
def repeatLimit : Nat := 4294967295

def repeatCount (ds : Text) : Read (Option Nat) := do
  if ds.isEmpty then return none
  let n := valueIn 10 ds
  if repeatLimit ≤ n then refuse
  return some n

/-- The bounds between braces; none, and nothing is passed, if they are no bounds. -/
def bounds? : Read (Option (Nat × Option Nat)) := do
  let start ← get
  if (← next?) = some (.plain 125) then return none
  let low ← takeWhile Text.isAsciiDigit
  let high ← if ← passes ',' then takeWhile Text.isAsciiDigit else pure low
  if !(← passes '\x7d') then
    set start
    return none
  let least := (← repeatCount low).getD 0
  let most ← repeatCount high
  if most.any (· < least) then refuse
  return some (least, most)

/-- Repeats the last part. -/
def repeated (parts : Parts) (least : Nat) (most : Option Nat) : Read Parts := do
  match parts.last with
  | none => refuse
  | some part =>
    if part.shape ≠ .other then refuse
    if !(← passes '?') then
      let _ ← passes '+'
    modify fun s => { s with repeats := true }
    return { parts with last := some ⟨.repeated, part.width.times least most⟩ }

def isGroupName (name : Text) : Bool :=
  let allowed (test : Nat → Bool) (c : Nat) : Bool := c ≠ 36 && test c
  match name with
  | [] => false
  | c :: rest => allowed Text.isNameStart c && rest.all (allowed Text.isNamePart)

def isFlag (c : Nat) : Bool := isOneOf c "iLmsxatu"

/-- The kind of a group, read off the marks after its parenthesis. -/
inductive Group where
  | capturing (name : Option Text)
  | plain
  | setting (add drop : Flags)
  | ahead
  | behind
  | condition
  | global
  | reference (number : Nat)
  | comment

/-- Flags up to the mark that ends them. -/
def flagsFrom : Nat → List Nat → Mark → Read (List Nat × Nat)
  | 0, _, _ => refuse
  | fuel + 1, done, m => do
    match m with
    | .escaped _ => refuse
    | .plain c =>
      if c = 41 || c = 45 || c = 58 then return (done, c)
      if !isFlag c then refuse
      flagsFrom fuel (c :: done) (← take)

/-- The flags of a group. Some letters exclude each other, and some cannot be set for a part. -/
def flagGroup (m : Mark) : Read Group := do
  let fuel := (← get).rest.length + 1
  let (letters, stop) ← flagsFrom fuel [] m
  let add : Flags := ⟨letters⟩
  if add.has 'L' || (add.has 'a' && add.has 'u') then refuse
  if stop = 41 then
    modify fun s => { s with flags := ⟨letters ++ s.flags.letters⟩ }
    return .global
  if add.has 't' then refuse
  if stop = 58 then return .setting add {}
  let (letters, stop) ← flagsFrom fuel [] (← take)
  let drop : Flags := ⟨letters⟩
  if letters.isEmpty || stop ≠ 58 then refuse
  if drop.has 'a' || drop.has 'u' || drop.has 'L' || drop.has 't' then refuse
  if letters.any add.letters.contains then refuse
  return .setting add drop

def passComment : Read Unit := do
  let s ← get
  let after := s.rest.dropWhile fun m => m ≠ .plain 41
  if after.isEmpty then refuse
  set { s with rest := after.tail }

def groupNamed (name : Text) : Read Nat := do
  match (← get).names.find? fun n => n.1 = name with
  | some (_, number) => return number
  | none => refuse

def groupKind : Read Group := do
  if !(← passes '?') then return .capturing none
  match ← take with
  | .escaped _ => refuse
  | .plain c =>
    match Char.ofNat c with
    | 'P' =>
      if ← passes '<' then
        let name ← takeUntil '>'
        if !isGroupName name then refuse
        return .capturing (some name)
      expect '='
      let name ← takeUntil ')'
      if !isGroupName name then refuse
      return .reference (← groupNamed name)
    | ':' | '>' => return .plain
    | '#' =>
      passComment
      return .comment
    | '=' | '!' => return .ahead
    | '<' =>
      if !((← passes '=') || (← passes '!')) then refuse
      return .behind
    | '(' => return .condition
    | _ => if isFlag c || c = 45 then flagGroup (.plain c) else refuse

/-- The group that a condition asks about, by name or by number. -/
def conditionGroup : Read Unit := do
  let name ← takeUntil ')'
  let number ←
    if isGroupName name then groupNamed name
    else do
      let digits := ((name.dropWhile isSpace).reverse.dropWhile isSpace).reverse
      let digits := if digits.head? = some 43 then digits.tail else digits
      if digits.isEmpty || !digits.all Text.isAsciiDigit then refuse
      let number := valueIn 10 digits
      if number = 0 then refuse
      modify fun s => { s with asked := number :: s.asked }
      pure number
  if (← get).behind.isSome then
    let _ ← closedGroup number

def openGroup (name : Option Text) : Read Nat := do
  let s ← get
  let number := s.groups.length + 1
  match name with
  | none => set { s with groups := none :: s.groups }
  | some n =>
    if s.names.any fun m => m.1 = n then refuse
    set { s with groups := none :: s.groups, names := (n, number) :: s.names }
  return number

def closeGroup (number : Nat) (w : Width) : Read Unit :=
  modify fun s => { s with groups := s.groups.set (s.groups.length - number) (some w) }

/-- How blanks are read, and whether flags for the whole pattern may come here. -/
structure Setting where
  spaced : Bool := false
  isStart : Bool := false
  isOutermost : Bool := false

/-- Outside all groups, blanks are read as the flags of the whole pattern say. -/
def Setting.current (setting : Setting) : Read Setting := do
  let s ← get
  return if setting.isOutermost then { setting with spaced := s.flags.has 'x' } else setting

def passLine : Read Unit :=
  modify fun s => { s with rest := (s.rest.dropWhile fun m => m ≠ .plain 10).tail }

mutual

/-- Parts in a row, up to a bar, a closing parenthesis or the end. -/
def sequence : Nat → Setting → Parts → Read Parts
  | 0, _, _ => refuse
  | fuel + 1, setting, parts => do
    match ← next? with
    | none | some (.plain 124) | some (.plain 41) => return parts
    | some m =>
      let _ ← take
      match m with
      | .escaped c => sequence fuel setting (parts.add (← escape c))
      | .plain c =>
        let single := parts.add { width := .one }
        if setting.spaced && isSpace c then sequence fuel setting parts
        else if setting.spaced && c = 35 then
          passLine
          sequence fuel setting parts
        else
          match Char.ofNat c with
          | '[' =>
            let _ ← passes '^'
            classRest (← get).rest.length true
            sequence fuel setting single
          | '?' => sequence fuel setting (← repeated parts 0 (some 1))
          | '*' => sequence fuel setting (← repeated parts 0 none)
          | '+' => sequence fuel setting (← repeated parts 1 none)
          | '\x7b' =>
            match ← bounds? with
            | some (least, most) => sequence fuel setting (← repeated parts least most)
            | none => sequence fuel setting single
          | '^' | '$' => sequence fuel setting (parts.add { shape := .anchor })
          | '(' => do
            match ← group fuel { setting with isStart := setting.isStart && parts.last.isNone } with
            | some part => sequence fuel setting (parts.add part)
            | none => sequence fuel (← setting.current) parts
          | _ => sequence fuel setting single

/-- A group after its parenthesis; none if it stands for nothing in the sequence. -/
def group : Nat → Setting → Read (Option Part)
  | 0, _ => refuse
  | fuel + 1, setting => do
    let inner : Setting := { spaced := setting.spaced }
    match ← groupKind with
    | .comment => return none
    | .global => if setting.isStart then return none else refuse
    | .reference number => return some { width := ← closedGroup number }
    | .capturing name =>
      let number ← openGroup name
      let w ← alternatives fuel inner
      expect ')'
      closeGroup number w
      return some { width := w }
    | .plain =>
      let w ← alternatives fuel inner
      expect ')'
      return some { width := w }
    | .setting add drop =>
      let w ← alternatives fuel { spaced := (setting.spaced || add.has 'x') && !drop.has 'x' }
      expect ')'
      return some { width := w }
    | .ahead =>
      let _ ← alternatives fuel inner
      expect ')'
      return some {}
    | .behind =>
      let outer := (← get).behind
      modify fun s => { s with behind := outer <|> some s.groups.length }
      let w ← alternatives fuel inner
      modify fun s => { s with behind := outer }
      expect ')'
      if !w.isFixed then refuse
      return some {}
    | .condition =>
      conditionGroup
      let yes := (← sequence fuel inner {}).width
      let no ← if ← passes '|' then do pure (← sequence fuel inner {}).width else pure Width.none
      expect ')'
      return some { width := yes.either no }

/-- Sequences with bars between them. -/
def alternatives : Nat → Setting → Read Width
  | 0, _ => refuse
  | fuel + 1, setting => do
    let w := (← sequence fuel setting {}).width
    if ← passes '|' then
      return w.either (← alternatives fuel { (← setting.current) with isStart := false })
    return w

end

/-- A whole pattern. -/
def pattern : Read Unit := do
  let fuel := 3 * (← get).rest.length + 3
  let _ ← alternatives fuel { isStart := true, isOutermost := true }
  let s ← get
  if !s.rest.isEmpty || s.asked.any (s.groups.length < ·) then refuse
  if s.flags.has 'a' && s.flags.has 'u' then refuse
  if s.flags.has 't' && s.repeats then refuse

end RegexForm

/-- Whether a regular expression is well formed. -/
def isWellFormedRegex (pattern : Text) : Bool :=
  match RegexForm.marksOf pattern with
  | some marks => (RegexForm.pattern.run { rest := marks }).isSome
  | none => false

end Unravel.Source
