import Unravel.Source.Parse
import Unravel.Source.RegexForm

/-! Scanning: blanks and comments, names, signs, numbers, strings, templates and regular
expressions. -/

namespace Unravel.Source.Parse

/-- Ends the scan at a character that fits nowhere. -/
def illegal {α : Type} (reason : String) : Parse α := do
  fail (← get).line reason

def illegalToken {α : Type} : Parse α := illegal "Unexpected token ILLEGAL"

def noteIllegal (reason : String) : Parse Unit := do
  note (← get).line reason

/-- Passes the end of a line that starts here; a carriage return takes a line feed with it. -/
def passLineEnd (c : Nat) : Parse Unit := do
  advance 1
  if c = 13 && (← peek 0) = 10 then advance 1
  modify fun s => { s with line := s.line + 1 }

def skipToLineEnd : Parse Unit :=
  loop (fun _ => do
    if ← atEnd then return .done ()
    let c ← peek 0
    if Text.isLineEnd c then
      passLineEnd c
      return .done ()
    advance 1
    return .more ()) ()

def skipBlockComment : Parse Unit :=
  loop (fun _ => do
    if ← atEnd then
      noteIllegal "Unexpected token ILLEGAL"
      return .done ()
    let c ← peek 0
    if Text.isLineEnd c then
      passLineEnd c
      return .more ()
    if c = 42 && (← peek 1) = 47 then
      advance 2
      return .done ()
    advance 1
    return .more ()) ()

/-- Passes blanks and comments. `-->` opens a comment at the start of a line only, and `<!--`
only outside modules. -/
def skipBlanks : Parse Unit := do
  loop (fun (lineStart : Bool) => do
    if ← atEnd then return .done ()
    let c ← peek 0
    if Text.isBlank c then
      advance 1
      return .more lineStart
    if Text.isLineEnd c then
      passLineEnd c
      return .more true
    let d ← peek 1
    if c = 47 && d = 47 then
      advance 2
      skipToLineEnd
      return .more true
    if c = 47 && d = 42 then
      advance 2
      skipBlockComment
      return .more lineStart
    let e ← peek 2
    if lineStart && c = 45 && d = 45 && e = 62 then
      advance 3
      skipToLineEnd
      return .more lineStart
    if c = 60 && !(← get).around.isModule && d = 33 && e = 45 && (← peek 3) = 45 then
      advance 4
      skipToLineEnd
      return .more lineStart
    return .done ()) ((← get).index = 0)

def hexDigit? (c : Nat) : Option Nat :=
  if 48 ≤ c && c ≤ 57 then some (c - 48)
  else if 97 ≤ c && c ≤ 102 then some (c - 87)
  else if 65 ≤ c && c ≤ 70 then some (c - 55)
  else none

def isOctalDigit (c : Nat) : Bool := 48 ≤ c && c ≤ 55

/-- A fixed number of hexadecimal digits; none, past the digits there are, if one is missing. -/
def hexEscape? : Nat → Nat → Parse (Option Nat)
  | 0, value => return some value
  | n + 1, value => do
    if ← atEnd then return none
    match hexDigit? (← peek 0) with
    | some d =>
      advance 1
      hexEscape? n (value * 16 + d)
    | none => return none

/-- The digits of a braced escape and the brace that closes it. -/
def bracedEscape : Parse Nat := do
  if (← peek 0) = 125 then illegalToken
  loop (fun value => do
    if ← atEnd then illegalToken
    let c ← peek 0
    advance 1
    match hexDigit? c with
    | some d => return .more (value * 16 + d)
    | none =>
      if 0x10FFFF < value || c ≠ 125 then illegalToken
      return .done value) 0

def isNameStart (c : Nat) : Bool := c = 92 || Text.isNameStart c

def isNamePart (c : Nat) : Bool := c = 92 || Text.isNamePart c

/-- One character of a name, which may be escaped. -/
def nameChar (allowed : Nat → Bool) : Parse Nat := do
  let c ← peek 0
  advance 1
  if c ≠ 92 then return c
  if (← peek 0) ≠ 117 then illegalToken
  advance 1
  if (← peek 0) = 123 then
    advance 1
    bracedEscape
  else
    match ← hexEscape? 4 0 with
    | some v => if v = 92 || !allowed v then illegalToken else return v
    | none => illegalToken

def nameText : Parse Text := do
  let first ← nameChar isNameStart
  let rest ← loop (fun done => do
    if ← atEnd then return .done done
    if isNamePart (← peek 0) then return .more ((← nameChar isNamePart) :: done)
    else return .done done) []
  return first :: rest.reverse

def wordKind (w : String) : TokenKind :=
  if w.length = 1 then .identifier
  else if keywords.contains w then .keyword
  else if w = "null" then .null
  else if w = "true" || w = "false" then .boolean
  else .identifier

def scanName : Parse Token := do
  let start := (← get).index
  let text ← nameText
  let s ← get
  let w := text.toString
  let kind := wordKind w
  if kind ≠ .identifier && start + text.length ≠ s.index then
    noteIllegal "Keyword must not contain escaped characters"
  return { kind := kind, value := w, start := start, stop := s.index, line := s.line }

/-- Signs by length, the longest first. -/
def longSigns : List (List String) :=
  [[">>>="], ["===", "!==", ">>>", "<<=", ">>=", "**=", "..."],
   ["&&", "||", "==", "!=", "+=", "-=", "*=", "/=", "++", "--", "<<", ">>", "&=", "|=", "^=", "%=",
    "<=", ">=", "=>", "**"],
   ["(", ")", "\x7b", "\x7d", ".", ";", ",", "[", "]", ":", "?", "~", "<", ">", "=", "!", "+", "-", "*",
    "%", "&", "|", "^", "/"]]

/-- The longest sign that a text starts with. -/
def signAt (ahead : Text) : Option String :=
  longSigns.flatten.find? fun sign => (Text.ofString sign).isPrefixOf ahead

def scanSign : Parse Token := do
  let s ← get
  match signAt (← slice s.index (s.index + 4)) with
  | none => illegalToken
  | some sign =>
    let braces := match sign with
      | "\x7b" => false :: s.braces
      | "\x7d" => s.braces.drop 1
      | _ => s.braces
    let stop := s.index + sign.length
    set { s with index := stop, braces := braces }
    return { kind := .punctuator, value := sign, start := s.index, stop := stop, line := s.line }

def digitsOf (test : Nat → Bool) : Parse Text := do
  let ds ← loop (fun done => do
    if ← atEnd then return .done done
    let c ← peek 0
    if test c then
      advance 1
      return .more (c :: done)
    else return .done done) []
  return ds.reverse

def valueIn (base : Nat) (ds : Text) : Nat :=
  ds.foldl (fun n c => n * base + (hexDigit? c).getD 0) 0

def numberToken (start : Nat) (n : Number) (octal : Bool) : Parse Token := do
  let s ← get
  return { kind := .numeric, number := n, octal := octal, start := start, stop := s.index, line := s.line }

/-- Digits of another base after their mark; what follows must not run on. -/
def scanBased (start base : Nat) (test : Nat → Bool) (octal : Bool) : Parse Token := do
  let ds ← digitsOf test
  if ds.isEmpty then illegalToken
  if !(← atEnd) then
    let c ← peek 0
    if isNameStart c || (base ≠ 16 && Text.isAsciiDigit c) then illegalToken
  numberToken start (.int (valueIn base ds)) octal

/-- Whether the digits from here on are octal up to their end. -/
def isImplicitOctal : Parse Bool :=
  lookingAhead do
    let ds ← digitsOf isOctalDigit
    let c ← peek 0
    return !ds.isEmpty && c ≠ 56 && c ≠ 57

def scanDecimal (start : Nat) : Parse Token := do
  let whole ← digitsOf Text.isAsciiDigit
  let fraction ←
    if (← peek 0) = 46 then
      advance 1
      digitsOf Text.isAsciiDigit
    else pure []
  let c ← peek 0
  let exponent : Int ←
    if c = 101 || c = 69 then
      advance 1
      let sign ← peek 0
      if sign = 43 || sign = 45 then advance 1
      let ds ← digitsOf Text.isAsciiDigit
      if ds.isEmpty then illegalToken
      let v : Int := valueIn 10 ds
      pure (if sign = 45 then -v else v)
    else pure 0
  if isNameStart (← peek 0) then illegalToken
  let d := Double.ofDecimal false (valueIn 10 (whole ++ fraction)) (exponent - fraction.length)
  numberToken start (Number.normalize (.double d)) false

def scanNumber : Parse Token := do
  let start := (← get).index
  let c ← peek 0
  let d ← peek 1
  if c = 48 && (d = 120 || d = 88) then
    advance 2
    scanBased start 16 (fun c => (hexDigit? c).isSome) false
  else if c = 48 && (d = 98 || d = 66) then
    advance 2
    scanBased start 2 (fun c => c = 48 || c = 49) false
  else if c = 48 && (d = 111 || d = 79) then
    advance 2
    scanBased start 8 isOctalDigit false
  else if c = 48 && isOctalDigit d then
    if ← isImplicitOctal then scanBased start 8 isOctalDigit true
    else scanDecimal start
  else scanDecimal start

/-- Up to three octal digits after a backslash, the first already read; three only below 256. -/
def octalEscape (first : Nat) : Parse (Nat × Bool) := do
  let code := first - 48
  let c ← peek 0
  if isOctalDigit c then
    advance 1
    let code := code * 8 + (c - 48)
    let d ← peek 0
    if first ≤ 51 && isOctalDigit d then
      advance 1
      return (code * 8 + (d - 48), true)
    return (code, true)
  return (code, first ≠ 48)

/-- The escapes of one letter. -/
def letterEscape? : Nat → Option Nat
  | 110 => some 10
  | 114 => some 13
  | 116 => some 9
  | 98 => some 8
  | 102 => some 12
  | 118 => some 11
  | _ => none

/-- The characters an escape after a backslash stands for, and whether it was octal. -/
def stringEscape : Parse (Text × Bool) := do
  let stop ← atEnd
  let c ← peek 0
  if !stop && Text.isLineEnd c then
    passLineEnd c
    return ([], false)
  advance 1
  if stop then return ([], false)
  match letterEscape? c with
  | some v => return ([v], false)
  | none =>
    if c = 117 then
      if (← peek 0) = 123 then
        advance 1
        return ([← bracedEscape], false)
      match ← hexEscape? 4 0 with
      | some v => return ([v], false)
      | none => illegalToken
    else if c = 120 then
      match ← hexEscape? 2 0 with
      | some v => return ([v], false)
      | none => illegal "Invalid hexadecimal escape sequence"
    else if c = 56 || c = 57 then
      if (← get).around.strict then noteIllegal "Unexpected token ILLEGAL"
      else remark (← get).line "Unexpected token ILLEGAL"
      return ([c], false)
    else if isOctalDigit c then
      let (code, octal) ← octalEscape c
      return ([code], octal)
    else return ([c], false)

def scanString : Parse Token := do
  let start := (← get).index
  let quote ← peek 0
  advance 1
  let unterminated : Parse (Step (Text × Bool) (Text × Bool)) := illegalToken
  let (text, octal) ← loop (fun ((done, octal) : Text × Bool) => do
    if ← atEnd then unterminated
    else
      let c ← peek 0
      if c = quote then
        advance 1
        return .done (done, octal)
      else if c = 92 then
        advance 1
        let (t, o) ← stringEscape
        return .more (t.reverse ++ done, octal || o)
      else if Text.isLineEnd c then unterminated
      else
        advance 1
        return .more (c :: done, octal)) ([], false)
  let s ← get
  return { kind := .string, text := text.reverse, octal := octal, start := start, stop := s.index,
           line := s.line }

/-- The characters an escape in a template stands for. -/
def templateEscape : Parse Text := do
  let c ← peek 0
  if Text.isLineEnd c then
    passLineEnd c
    return []
  advance 1
  match letterEscape? c with
  | some v => return [v]
  | none =>
    if c = 117 then
      if (← peek 0) = 123 then
        advance 1
        return [← bracedEscape]
      let back := (← get).index
      match ← hexEscape? 4 0 with
      | some v => return [v]
      | none =>
        modify fun s => { s with index := back }
        return [c]
    else if c = 120 then
      match ← hexEscape? 2 0 with
      | some v => return [v]
      | none => illegal "Invalid hexadecimal escape sequence"
    else if c = 48 then
      if Text.isAsciiDigit (← peek 0) then
        illegal "Octal literals are not allowed in template strings."
      return [0]
    else if isOctalDigit c then illegal "Octal literals are not allowed in template strings."
    else return [c]

def scanTemplate : Parse Token := do
  let start := (← get).index
  let head := (← peek 0) = 96
  advance 1
  let (cooked, tail) ← loop (fun (done : Text) => do
    if ← atEnd then illegalToken
    let c ← peek 0
    if c = 96 then
      advance 1
      return .done (done, true)
    else if c = 36 && (← peek 1) = 123 then
      advance 2
      return .done (done, false)
    else if c = 92 then
      advance 1
      return .more ((← templateEscape).reverse ++ done)
    else if Text.isLineEnd c then
      passLineEnd c
      return .more (10 :: done)
    else
      advance 1
      return .more (c :: done)) []
  let s ← get
  let braces := if head then s.braces else s.braces.drop 1
  set { s with braces := if tail then braces else true :: braces }
  let raw ← slice (start + 1) (s.index - (if tail then 1 else 2))
  return { kind := .template, value := raw.toString, text := cooked.reverse, head := head, tail := tail,
           start := start, stop := s.index, line := s.line }

/-- The body of a regular expression after its first slash, up to the slash that ends it. -/
def regexBody : Parse Text := do
  let missing : Parse (Step (Text × Bool) Text) := illegal "Invalid regular expression: missing /"
  let body ← loop (fun ((done, inClass) : Text × Bool) => do
    if ← atEnd then missing
    else
      let c ← peek 0
      if Text.isLineEnd c then missing
      else if c = 92 then
        let d ← peek 1
        if Text.isLineEnd d then missing
        else
          advance 2
          return .more (d :: c :: done, inClass)
      else if inClass then
        advance 1
        return .more (c :: done, c ≠ 93)
      else if c = 47 then
        advance 1
        return .done done
      else
        advance 1
        return .more (c :: done, c = 91)) ([], false)
  return body.reverse

/-- The letters after a regular expression. An escaped one is noted as an error and counts as what
it stands for. -/
def regexFlags : Parse Text := do
  let flags ← loop (fun (done : Text) => do
    if ← atEnd then return .done done
    let c ← peek 0
    if !isNamePart c then return .done done
    advance 1
    if c ≠ 92 || (← atEnd) then return .more (c :: done)
    if (← peek 0) ≠ 117 then
      noteIllegal "Unexpected token ILLEGAL"
      return .more done
    advance 1
    let back := (← get).index
    let flag ← hexEscape? 4 0
    if flag.isNone then modify fun s => { s with index := back }
    noteIllegal "Unexpected token ILLEGAL"
    return .more (flag.getD 117 :: done)) []
  return flags.reverse

/-- The digits between the braces of an escape, and what follows it. -/
def bracedDigits (t : Text) : Option (Text × Text) :=
  let digits := t.takeWhile fun c => (hexDigit? c).isSome
  match t.drop digits.length with
  | 125 :: rest => if digits.isEmpty then none else some (digits, rest)
  | _ => none

/-- Four digits of an escape, and what follows it. -/
def fourDigits (t : Text) : Option (Text × Text) :=
  let digits := t.take 4
  if digits.length = 4 && digits.all fun c => (hexDigit? c).isSome then some (digits, t.drop 4)
  else none

/-- What a regular expression's escapes of code points stand for, one beyond the first plane for a
stand-in; and how many are no code points. -/
def withoutCodePoints : Nat → Text → Text × Nat
  | fuel + 1, 92 :: 117 :: rest =>
    let escape := match rest with
      | 123 :: after => bracedDigits after
      | _ => fourDigits rest
    match escape with
    | none =>
      let (t, wrong) := withoutCodePoints fuel (117 :: rest)
      (92 :: t, wrong)
    | some (digits, after) =>
      let v := valueIn 16 digits
      let (t, wrong) := withoutCodePoints fuel after
      ((if v ≤ 0xFFFF then v else 0xFFFF) :: t, if 0x10FFFF < v then wrong + 1 else wrong)
  | fuel + 1, c :: rest =>
    let (t, wrong) := withoutCodePoints fuel rest
    (c :: t, wrong)
  | _, t => (t, 0)

/-- Puts a stand-in for each pair of surrogates. -/
def withoutPairs : Text → Text
  | c :: d :: rest =>
    if 0xD800 ≤ c && c ≤ 0xDBFF && 0xDC00 ≤ d && d ≤ 0xDFFF then 0xFFFF :: withoutPairs rest
    else c :: withoutPairs (d :: rest)
  | t => t

/-- Notes what is wrong about a regular expression, which stands nevertheless. -/
def checkRegex (pattern : Text) : Parse Unit := do
  let (pattern, wrong) := withoutCodePoints pattern.length pattern
  for _ in [0:wrong] do
    remark (← get).line "Invalid regular expression"
  if !isWellFormedRegex (withoutPairs pattern) then
    remark (← get).line "Invalid regular expression"

def scanRegex : Parse Token := do
  skipBlanks
  let start := (← get).index
  advance 1
  let pattern ← regexBody
  let flags ← regexFlags
  checkRegex pattern
  let s ← get
  return { kind := .regex, pattern := pattern, text := flags, start := start, stop := s.index,
           line := s.line }

/-- The token that starts here. -/
def scan : Parse Token := do
  let s ← get
  if s.source.size ≤ s.index then
    return { kind := .endOfInput, start := s.index, stop := s.index, line := s.line }
  let c ← peek 0
  if isNameStart c then scanName
  else if c = 39 || c = 34 then scanString
  else if Text.isAsciiDigit c then scanNumber
  else if c = 46 && Text.isAsciiDigit (← peek 1) then scanNumber
  else if c = 96 || (c = 125 && s.braces.head? = some true) then scanTemplate
  else scanSign

end Unravel.Source.Parse
