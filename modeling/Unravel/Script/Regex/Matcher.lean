import Unravel.Script.Regex.Term

/-! Matching. A term becomes a list of operations, and these run on a string with a list of the
choices that are still open, so that the last of them can be taken back. -/

namespace Unravel.Script.Regex

/-- An operation. Those on characters go forward, or backward inside what looks behind. -/
inductive Op where
  | char (modes : Modes) (back : Bool) (c : Nat)
  | any (modes : Modes) (back : Bool)
  | set (modes : Modes) (back negated : Bool) (items : List Item)
  | lineStart (modes : Modes)
  | lineEnd (modes : Modes)
  | boundary (modes : Modes) (negated : Bool)
  | reference (modes : Modes) (back : Bool) (groups : List Nat)
  /-- Goes on at the first place, and at the second if that fails. -/
  | split (first second : Nat)
  | jump (target : Nat)
  /-- Notes the place in the string. -/
  | save (slot : Nat)
  /-- Forgets what the groups between two numbers captured. -/
  | forget (first last : Nat)
  | setCount (slot : Nat)
  /-- At the head of a counted loop: goes into the body, past it, or either. -/
  | loop (slot least : Nat) (most : Option Nat) (greedy : Bool) (body past : Nat)
  /-- After a body: counts it, and fails if it was free and took nothing. -/
  | count (slot place least : Nat) (head : Nat)
  /-- Starts to look around; where that is negated, failing goes on at the place given. -/
  | look (negated : Bool) (past : Nat)
  | looked (negated : Bool)
  | fail
  | done
deriving Inhabited

/-- A compiled expression. The first operation fails, the second is where a match starts. The slots
hold two places for every group, then what loops need; a place is one more than the position, 0
where there is none. -/
structure Program where
  ops : Array Op := #[]
  slots : Nat := 0
  groups : Nat := 0
  names : List (Units × Nat) := []
deriving Inhabited

/-! Compiling -/

/-- Operations for a term, from a place on; `slots` are those in use. -/
def Term.ops (back : Bool) (start slots : Nat) : Term → Array Op × Nat
  | .empty => (#[], slots)
  | .char m c => (#[.char m back c], slots)
  | .any m => (#[.any m back], slots)
  | .set m n items => (#[.set m back n items], slots)
  | .lineStart m => (#[.lineStart m], slots)
  | .lineEnd m => (#[.lineEnd m], slots)
  | .boundary m n => (#[.boundary m n], slots)
  | .reference m gs => (#[.reference m back gs], slots)
  | .capture g body =>
    let (inner, slots) := body.ops back (start + 1) slots
    let (first, last) := if back then (2 * g + 1, 2 * g) else (2 * g, 2 * g + 1)
    (#[.save first] ++ inner ++ #[.save last], slots)
  | .look ahead negated body =>
    let (inner, slots) := body.ops (!ahead) (start + 1) slots
    (#[.look negated (start + inner.size + 2)] ++ inner ++ #[.looked negated], slots)
  | .row a b =>
    if back then
      let (second, slots) := b.ops back start slots
      let (first, slots) := a.ops back (start + second.size) slots
      (second ++ first, slots)
    else
      let (first, slots) := a.ops back start slots
      let (second, slots) := b.ops back (start + first.size) slots
      (first ++ second, slots)
  | .choice a b =>
    let (first, slots) := a.ops back (start + 1) slots
    let (second, slots) := b.ops back (start + first.size + 2) slots
    (#[.split (start + 1) (start + first.size + 2)] ++ first
      ++ #[.jump (start + first.size + second.size + 2)] ++ second, slots)
  | .times body least most greedy g h =>
    let counter := slots
    let place := slots + 1
    let (inner, slots) := body.ops back (start + 4) (slots + 2)
    let past := start + 5 + inner.size
    (#[.setCount counter, .loop counter least most greedy (start + 2) past, .save place,
        .forget g h] ++ inner ++ #[.count counter place least (start + 1)], slots)

def Program.ofPattern (p : Pattern) : Program :=
  let (inner, slots) := p.term.ops false 2 (2 * (p.groups + 1))
  { ops := #[.fail, .save 0] ++ inner ++ #[.save 1, .done], slots := slots, groups := p.groups
    names := p.names }

/-! Characters -/

def isWord (c : Nat) : Bool :=
  (48 ≤ c && c ≤ 57) || (65 ≤ c && c ≤ 90) || (97 ≤ c && c ≤ 122) || c = 95

def isLineEnd (c : Nat) : Bool := c = 10 || c = 13 || c = 0x2028 || c = 0x2029

def isSpace (c : Nat) : Bool := c < 0x10000 && Units.isBlank c.toUInt16

/-- The form in which characters are compared when their case does not count. -/
def canonical (m : Modes) (c : Nat) : Nat :=
  if !m.ignoreCase then c
  else if m.unicode then
    if c < 128 then (if 65 ≤ c && c ≤ 90 then c + 32 else c)
    -- the dotless letter has no other form
    else if c = 0x131 then c
    else
      let upper := match Text.upperForm c with
        | [u] => u
        | _ => c
      match Text.lowerForm [] upper [] with
      | [l] => l
      | _ => upper
  else if c < 128 then (if 97 ≤ c && c ≤ 122 then c - 32 else c)
  else
    match Text.upperForm c with
    | [u] => if u < 128 || 0xFFFF < u then c else u
    | _ => c

/-- Characters that might differ from a given one by case only. -/
def relatives (c : Nat) : List Nat :=
  let lower := Text.lowerForm [] c []
  let upper := Text.upperForm c
  let lowerUpper := upper.flatMap fun u => Text.lowerForm [] u []
  let others := match upper with
    | [0x3A3] => [0x3C2, 0x3C3]
    | [0x4B] => [0x212A]
    | [0x53] => [0x17F]
    | [0xC5] => [0x212B]
    | [0x3A9] => [0x2126]
    | [0x39C] => [0xB5, 0x3BC]
    | [0x398] => [0x3D1, 0x3F4]
    | _ => []
  c :: (lower ++ upper ++ lowerUpper ++ others)

/-- Properties of characters that have a name. -/
def hasProperty (name : String) (c : Nat) : Bool :=
  match name with
  | "Any" => true
  | "ASCII" => c < 128
  | "ASCII_Hex_Digit" | "AHex" => (Read.hexValue? c).isSome
  | "White_Space" | "space" => isSpace c && c ≠ 0xFEFF || c = 0x85
  | "ID_Start" | "IDS" => Text.isLateNameStart c && c ≠ 36 && c ≠ 95
  | "ID_Continue" | "IDC" => Text.isLateNamePart c && c ≠ 36
  | "L" | "Letter" | "General_Category=L" | "gc=L" | "General_Category=Letter" | "Alphabetic"
  | "Alpha" => Text.isLateNameStart c && c ≠ 36 && c ≠ 95
  | "Lu" | "Uppercase_Letter" | "gc=Lu" | "General_Category=Lu" | "Uppercase" | "Upper" =>
    Text.lowerForm [] c [] != [c]
  | "Ll" | "Lowercase_Letter" | "gc=Ll" | "General_Category=Ll" | "Lowercase" | "Lower" =>
    Text.inRuns Text.lowerRuns c
  | "N" | "Number" | "Nd" | "Decimal_Number" | "gc=Nd" | "General_Category=Nd" =>
    48 ≤ c && c ≤ 57
  | _ => false

def Item.admits (m : Modes) (c : Nat) : Item → Bool
  | .range low high => low ≤ c && c ≤ high
  | .digit negated => (48 ≤ c && c ≤ 57) != negated
  | .space negated => isSpace c != negated
  | .word negated =>
    (isWord c || (m.unicode && m.ignoreCase && (c = 0x17F || c = 0x212A))) != negated
  | .named name negated => hasProperty name c != negated

/-- Whether a set admits a character, in some case if case does not count. -/
def admits (m : Modes) (items : List Item) (c : Nat) : Bool :=
  if items.any (Item.admits m c) then true
  else if !m.ignoreCase then false
  else
    let wanted := canonical m c
    (relatives c).any fun d => d ≠ c && canonical m d = wanted && items.any (Item.admits m d)

/-! Running -/

/-- A choice that is open: where to go on, with what. -/
inductive Choices where
  | none
  | more (pc place : Nat) (slots : Array Nat) (marks : List (Nat × Choices)) (rest : Choices)
deriving Inhabited

structure MatchState where
  pc : Nat
  place : Nat
  slots : Array Nat
  choices : Choices := .none
  /-- For everything that is being looked around: where that began and what was open then. -/
  marks : List (Nat × Choices) := []

/-- How a match ended. -/
inductive Outcome where
  | matched (slots : Array Nat)
  | failed
  | exhausted

/-- The character at a place in the direction of reading, and the place after it. -/
def charAt? (m : Modes) (u : Units) (back : Bool) (place : Nat) : Option (Nat × Nat) :=
  if back then
    if place = 0 then .none
    else
      let c := u.at0 (place - 1)
      if m.unicode && 2 ≤ place && Units.isLowSurrogate c
          && Units.isHighSurrogate (u.at0 (place - 2)) then
        some ((u.pointAt (place - 2)).1, place - 2)
      else some (c.toNat, place - 1)
  else if place < u.size then
    if m.unicode then
      let (c, n) := u.pointAt place
      some (c, place + n)
    else some ((u.at0 place).toNat, place + 1)
  else .none

/-- Takes back the last open choice. -/
def MatchState.backtrack (s : MatchState) : Option MatchState :=
  match s.choices with
  | .none => none
  | .more pc place slots marks rest => some ⟨pc, place, slots, rest, marks⟩

def MatchState.next (s : MatchState) : MatchState := { s with pc := s.pc + 1 }

def MatchState.set (s : MatchState) (slot value : Nat) : MatchState :=
  { s with slots := s.slots.setIfInBounds slot value }

/-- Whether the text captured from one place to another stands at a place. -/
def sameText (m : Modes) (u : Units) (start stop place : Nat) : Bool :=
  (List.range (stop - start)).all fun i =>
    let c := (u.at0 (start + i)).toNat
    let d := (u.at0 (place + i)).toNat
    c = d || canonical m c = canonical m d

/-- One operation on the state; `none` where it fails. -/
def Op.step (u : Units) (op : Op) (s : MatchState) : Option MatchState :=
  match op with
  | .char m back c =>
    match charAt? m u back s.place with
    | some (d, after) =>
      if c = d || (m.ignoreCase && canonical m c = canonical m d) then
        some { s with pc := s.pc + 1, place := after }
      else none
    | none => none
  | .any m back =>
    match charAt? m u back s.place with
    | some (d, after) =>
      if m.dotAll || !isLineEnd d then some { s with pc := s.pc + 1, place := after } else none
    | none => none
  | .set m back negated items =>
    match charAt? m u back s.place with
    | some (d, after) =>
      if admits m items d != negated then some { s with pc := s.pc + 1, place := after } else none
    | none => none
  | .lineStart m =>
    if s.place = 0 || (m.multiline && isLineEnd (u.at0 (s.place - 1)).toNat) then some s.next
    else none
  | .lineEnd m =>
    if s.place = u.size || (m.multiline && isLineEnd (u.at0 s.place).toNat) then some s.next
    else none
  | .boundary m negated =>
    let word (i : Nat) : Bool := Item.admits m (u.at0 i).toNat (.word false)
    let before := 0 < s.place && word (s.place - 1)
    let after := s.place < u.size && word s.place
    if (before != after) != negated then some s.next else none
  | .reference m back groups =>
    let taken := groups.find? fun g => s.slots.getD (2 * g) 0 ≠ 0 && s.slots.getD (2 * g + 1) 0 ≠ 0
    match taken with
    | none => some s.next
    | some g =>
      let start := s.slots.getD (2 * g) 0 - 1
      let stop := s.slots.getD (2 * g + 1) 0 - 1
      let n := stop - start
      if back then
        if n ≤ s.place && sameText m u start stop (s.place - n) then
          some { s with pc := s.pc + 1, place := s.place - n }
        else none
      else if s.place + n ≤ u.size && sameText m u start stop s.place then
        some { s with pc := s.pc + 1, place := s.place + n }
      else none
  | .split first second =>
    some { s with pc := first, choices := .more second s.place s.slots s.marks s.choices }
  | .jump target => some { s with pc := target }
  | .save slot => some (s.next.set slot (s.place + 1))
  | .forget first last =>
    if last < first then some s.next
    else
      let clean (a : Array Nat) (i : Nat) : Array Nat := a.setIfInBounds (2 * first + i) 0
      let slots := (List.range (2 * (last + 1 - first))).foldl clean s.slots
      some { s with pc := s.pc + 1, slots := slots }
  | .setCount slot => some (s.next.set slot 0)
  | .loop slot least most greedy body past =>
    let n := s.slots.getD slot 0
    if n < least then some { s with pc := body }
    else if most.any (· ≤ n) then some { s with pc := past }
    else
      let (first, second) := if greedy then (body, past) else (past, body)
      some { s with pc := first, choices := .more second s.place s.slots s.marks s.choices }
  | .count slot place least head =>
    let n := s.slots.getD slot 0
    if least ≤ n && s.slots.getD place 0 = s.place + 1 then none
    else
      let t := s.set slot (n + 1)
      some { t with pc := head }
  | .look negated past =>
    let choices := if negated then .more past s.place s.slots s.marks s.choices else s.choices
    let marks := (s.place, s.choices) :: s.marks
    some { s with pc := s.pc + 1, choices := choices, marks := marks }
  | .looked negated =>
    match s.marks with
    | [] => none
    | (place, choices) :: marks =>
      -- the choice that would have gone on after a negated look is dropped with the others
      if negated then some { s with pc := 0, choices := choices, marks := marks }
      else some { s with pc := s.pc + 1, place := place, choices := choices, marks := marks }
  | .fail | .done => none

/-- Runs the operations for at most so many steps. -/
def Program.runFrom (p : Program) (u : Units) : Nat → MatchState → Outcome
  | 0, _ => .exhausted
  | n + 1, s =>
    match p.ops.getD s.pc .done with
    | .done => .matched s.slots
    | op =>
      match op.step u s with
      | some t => p.runFrom u n t
      | none =>
        match s.backtrack with
        | some t => p.runFrom u n t
        | none => .failed

/-- The most steps of one match. -/
def stepLimit : Nat := 20000000

/-- Matches at a position. -/
def Program.matchAt (p : Program) (u : Units) (place : Nat) : Outcome :=
  p.runFrom u stepLimit ⟨1, place, Array.replicate p.slots 0, .none, []⟩

end Unravel.Script.Regex
