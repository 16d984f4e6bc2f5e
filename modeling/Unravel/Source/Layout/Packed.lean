import Unravel.Source.Layout.Lexeme
import Unravel.Text.Bytes

/-! Sources packed for transport, which are opened before they are laid out: percent escapes in
place of blanks, a table of strings at the front that the rest refers to by number, a payload in
reversed base 64, and a payload whose words are numbers of places in a list. -/

namespace Unravel.Source.Layout.Packed

/-- Whether a text holds another. -/
def holds (part : Text) : Text → Bool
  | [] => part.isEmpty
  | c :: rest => part.isPrefixOf (c :: rest) || holds part rest

/-! Percent escapes -/

/-- A text without a space, but with escapes of spaces or with many percent signs. -/
def isEscaped (t : Text) : Bool :=
  !t.contains 32 && (holds (Text.ofString "%20") t || 3 < t.count 37)

def unescape (t : Text) : Text :=
  Text.unescapePercent (t.map fun c => if c = 43 then 32 else c)

/-! Tables of strings -/

def isNameDigit (c : Nat) : Bool := Text.isAsciiDigit c || (97 ≤ c && c ≤ 102)

/-- The name of a table declared here and what follows its opening bracket. -/
def tableStart? (t : Text) : Option (Text × Text) :=
  let lead := Text.ofString "var _0x"
  let (digits, rest) := spanOf isNameDigit (t.drop lead.length)
  let skipSpace (u : Text) : Text := if u.head? = some 32 then u.drop 1 else u
  if !lead.isPrefixOf t || digits.isEmpty then none
  else match skipSpace rest with
    | 61 :: rest => match skipSpace rest with
      | 91 :: rest => some (Text.ofString "_0x" ++ digits, rest)
      | _ => none
    | _ => none

/-- The text up to the end of a table, which is on the same line, and what follows. -/
def tableBody? : Text → Option (Text × Text)
  | [] => none
  | 93 :: 59 :: rest => some ([], rest)
  | c :: rest =>
    if c = 10 then none else (tableBody? rest).map fun (body, after) => (c :: body, after)

/-- The first table in a text: its name, its body, and how long its declaration is. -/
def firstTable? : Text → Option (Text × Text × Nat)
  | [] => none
  | c :: rest =>
    let here := do
      let (name, inner) ← tableStart? (c :: rest)
      let (body, after) ← tableBody? inner
      return (name, body, rest.length + 1 - after.length)
    here <|> firstTable? rest

/-- The texts between double quotes. A character after a backslash ends none. -/
def quotedParts : Nat → Option Text → Text → List Text
  | 0, _, _ => []
  | _ + 1, none, [] => []
  | _ + 1, some w, [] => [w.reverse]
  | fuel + 1, none, c :: rest => quotedParts fuel (if c = 34 then some [] else none) rest
  | fuel + 1, some w, 34 :: rest => w.reverse :: quotedParts fuel none rest
  | fuel + 1, some w, 92 :: c :: rest => quotedParts fuel (some (c :: 92 :: w)) rest
  | fuel + 1, some w, c :: rest => quotedParts fuel (some (c :: w)) rest

/-- Replaces every occurrence of a text. -/
def replaceAll (old new : Text) : Nat → Text → Text
  | 0, t => t
  | _ + 1, [] => []
  | fuel + 1, c :: rest =>
    if old.isPrefixOf (c :: rest) then new ++ replaceAll old new fuel ((c :: rest).drop old.length)
    else c :: replaceAll old new fuel rest

/-- Drops a table and puts its strings where the rest refers to them. -/
def inlineTable (t : Text) : Text :=
  match firstTable? t with
  | none => t
  | some (name, body, length) =>
    (quotedParts (body.length + 1) none body).zipIdx.foldl (fun t (value, i) =>
      let use := name ++ [91] ++ Text.ofString (Nat.repr i) ++ [93]
      replaceAll use ([34] ++ value ++ [34]) (t.length + 1) t) (t.drop length)

/-! Finding parts of a text -/

/-- The first place from here on where a test on the rest holds: what precedes it, after what is
given in reverse, and the result. -/
def searchFrom {α : Type} (test : Text → Option α) (before : Text) : Text → Option (Text × α)
  | [] => (test []).map fun a => (before.reverse, a)
  | c :: rest =>
    match test (c :: rest) with
    | some a => some (before.reverse, a)
    | none => searchFrom test (c :: before) rest

/-- The first place where a test on the rest of a text holds. -/
def search {α : Type} (test : Text → Option α) (t : Text) : Option (Text × α) :=
  searchFrom test [] t

/-- The last place where a test on the rest holds, if one comes after what was found so far. -/
def searchLastFrom {α : Type} (test : Text → Option α) (found : Option (Nat × α)) (index : Nat) :
    Text → Option (Nat × α)
  | [] => ((test []).map fun a => (index, a)) <|> found
  | c :: rest =>
    searchLastFrom test (((test (c :: rest)).map fun a => (index, a)) <|> found) (index + 1) rest

/-- The last place where a test on the rest of a text holds: what precedes it, and the result. -/
def searchLast {α : Type} (test : Text → Option α) (t : Text) : Option (Text × α) :=
  (searchLastFrom test none 0 t).map fun (i, a) => (t.take i, a)

/-- What follows a text at the front. -/
def after? (part : String) (t : Text) : Option Text :=
  let part := Text.ofString part
  if part.isPrefixOf t then some (t.drop part.length) else none

def skipSpaces (t : Text) : Text := t.dropWhile (· = 32)

/-- A run of characters at the front, and what follows it; there must be some. -/
def run? (test : Nat → Bool) (t : Text) : Option (Text × Text) :=
  let (run, rest) := spanOf test t
  if run.isEmpty then none else some (run, rest)

def isWordChar (c : Nat) : Bool := Text.isAsciiLetter c || Text.isAsciiDigit c || c = 95

/-! Payloads in reversed base 64 -/

/-- The alphabet and the names of methods that a decoder of this kind starts with. -/
def decoderMark : Text :=
  let spelled (w : String) : String :=
    "\"" ++ String.join (w.toList.map fun c =>
      "\\x" ++ String.ofList ((Nat.toDigits 16 c.toNat).map Char.toUpper)) ++ "\""
  let words := ["ABCDEFGHIJKLMNOPQRSTUVWXYZabcdefghijklmnopqrstuvwxyz0123456789+/=", "", "charAt",
    "indexOf", "fromCharCode", "length"]
  Text.ofString ("[" ++ String.intercalate "," (words.map spelled) ++ "]")

/-- What is put above a source that was packed in this way. -/
def warning : Text :=
  Text.ofString ("//\n// Unpacker warning: be careful when using myobfuscate.com for your projects:\n"
    ++ "// scripts obfuscated by the free online version call back home.\n//\n\n")

/-- The name in a call `eval(f(g(name)));`. -/
def evaluatedName? (t : Text) : Option Text := do
  let (_, name) ← search (fun t => do
    let rest ← after? "eval(" t
    let (_, rest) ← run? isWordChar rest
    let rest ← after? "(" rest
    let (_, rest) ← run? isWordChar rest
    let rest ← after? "(" rest
    let (name, rest) ← run? isWordChar rest
    let _ ← after? ")));" rest
    return name) t
  return name

/-- The text of the variable of a name, up to the last quote and semicolon on its line. -/
def assignedText? (name : Text) (t : Text) : Option Text := do
  let (_, value) ← search (fun t => do
    let rest ← after? "var " t
    let rest := skipSpaces rest
    if !name.isPrefixOf rest then none
    let rest ← after? "=" (skipSpaces (rest.drop name.length))
    let rest ← after? "'" (skipSpaces rest)
    let (value, _) ← searchLast (after? "';") (rest.takeWhile (· ≠ 10))
    return value) t
  return value

def digit64? (c : Nat) : Option Nat :=
  if 65 ≤ c && c ≤ 90 then some (c - 65)
  else if 97 ≤ c && c ≤ 122 then some (c - 71)
  else if Text.isAsciiDigit c then some (c + 4)
  else if c = 43 then some 62
  else if c = 47 then some 63
  else none

/-- Digits up to the padding that ends them, other characters passed over; none if the last group
is not filled up. The group so far holds at most three digits. -/
def digits64? (group pads : Nat) : Text → Option (List Nat)
  | [] => if group = 0 then some [] else none
  | 61 :: rest =>
    if 2 ≤ group && 4 ≤ group + pads + 1 then some [] else digits64? group (pads + 1) rest
  | c :: rest =>
    match digit64? c with
    | some d => (digits64? ((group + 1) % 4) 0 rest).map (d :: ·)
    | none => digits64? group pads rest

def bytes64 : List Nat → List Nat
  | a :: b :: c :: d :: rest =>
    [a * 4 + b / 16, b % 16 * 16 + c / 4, c % 4 * 64 + d] ++ bytes64 rest
  | [a, b, c] => [a * 4 + b / 16, b % 16 * 16 + c / 4]
  | [a, b] => [a * 4 + b / 16]
  | _ => []

/-- How opening a packed source can fail: its form is not the expected one and it stays as it is,
or what it holds makes no sense and it cannot be laid out at all. -/
inductive Failure where
  | unopened
  | broken
deriving DecidableEq

def decodedPayload (t : Text) : Except Failure Text := do
  let some name := evaluatedName? t | .error .unopened
  let some reversed := assignedText? name t | .error .unopened
  let some digits := digits64? 0 0 reversed.reverse | .error .broken
  let bytes := bytes64 digits
  let payload := Text.ofBytes bytes
  if Text.bytes payload ≠ bytes then .error .broken
  return Text.unescapePercent payload

/-- The script in a payload that writes it into a page; any other payload leaves the source. -/
def openDecoder (t : Text) : Except Failure Text := do
  let payload ← decodedPayload t
  let script := do
    let inner ← after? "var _escape='<script>" payload
    let (script, _) ← searchLast (after? "</script>'") inner
    return script
  return warning ++ script.getD t

/-! Payloads of numbered words -/

/-- The head of a function that opens such a payload. -/
def numberedHead? (t : Text) : Option Unit := do
  let rest ← after? "eval" t
  let rest ← after? "(" (skipSpaces rest)
  let rest ← after? "function" (skipSpaces rest)
  let rest ← after? "(" (skipSpaces rest)
  let _ ← ["p", "a", "c", "k", "e"].foldlM (fun rest name => do
    let rest ← after? name (skipSpaces rest)
    after? "," (skipSpaces rest)) rest

/-- What is around a numbered payload: the text before it, and the text after the sign that ends
it. -/
def surroundings? (t : Text) : Option (Text × Text) := do
  let (before, _) ← search numberedHead? t
  let rest := t.drop before.length
  let found := match search (after? "')))") rest with
    | some found => some found
    | none => search (after? "\x7d))") rest
  return (before, (found.map Prod.snd).getD [])

structure Numbered where
  payload : Text
  radix : Nat
  count : Nat
  words : List Text

def decimal? (t : Text) : Option (Nat × Text) := do
  let (ds, rest) ← run? Text.isAsciiDigit t
  return (ds.foldl (fun n c => n * 10 + (c - 48)) 0, rest)

/-- What follows the list of words, where that is asked for. -/
def numberedTail? (t : Text) : Option Unit := do
  let rest ← after? "," t
  let (_, rest) ← decimal? (skipSpaces rest)
  let rest ← after? "," rest
  let _ ← search (after? "))") rest

/-- The arguments after the payload. -/
def numberedArguments? (wantsTail : Bool) (payload t : Text) : Option Numbered := do
  let rest ← after? "'," t
  let rest := skipSpaces rest
  let (radix, rest) ← match after? "[]" rest with
    | some rest => some (62, rest)
    | none => decimal? rest
  let rest ← after? "," rest
  let (count, rest) ← decimal? (skipSpaces rest)
  let rest ← after? "," rest
  let rest ← after? "'" (skipSpaces rest)
  let (words, _) ← searchLast (fun t => do
    let rest ← after? "'.split('|')" t
    if wantsTail then numberedTail? rest) rest
  return ⟨payload, radix, count, Text.splitAt 124 words⟩

/-- The longest payload that the arguments follow. -/
def numberedPayload? (wantsTail : Bool) (t : Text) : Option Numbered := do
  let (_, inner) ← search (fun t => do
    let inner ← after? "\x7d('" t
    let (payload, rest) ← searchLast (fun t => do
      let _ ← numberedArguments? wantsTail [] t
      return t) inner
    numberedArguments? wantsTail payload rest) t
  return inner

def digitIn? (radix c : Nat) : Option Nat := do
  let v ←
    if Text.isAsciiDigit c then some (c - 48)
    else if 97 ≤ c && c ≤ 122 then some (c - 87)
    else if 65 ≤ c && c ≤ 90 then some (if radix ≤ 36 then c - 55 else c - 29)
    else none
  if v < radix then some v else none

/-- A number of up to 36 digits as programs write it: a mark of its base may precede it, and single
bars may divide it. -/
def smallRadixValue? (radix : Nat) (word : Text) : Option Nat :=
  let marked := match radix, word with
    | 16, 48 :: m :: rest => if m = 120 || m = 88 then some rest else none
    | 8, 48 :: m :: rest => if m = 111 || m = 79 then some rest else none
    | 2, 48 :: m :: rest => if m = 98 || m = 66 then some rest else none
    | _, _ => none
  let digits := match marked with
    | some (95 :: rest) => rest
    | some rest => rest
    | none => word
  let groups := Text.splitAt 95 digits
  if groups.any List.isEmpty then none
  else (groups.flatten.mapM (digitIn? radix)).map fun ds => ds.foldl (fun n d => n * radix + d) 0

/-- The number that a word stands for. -/
def wordValue? (radix : Nat) (word : Text) : Option Nat :=
  if radix ≤ 36 then smallRadixValue? radix word
  else if radix = 95 then
    some (word.foldl (fun n c => n * 95 + (c - 32)) 0)
  else (word.mapM (digitIn? radix)).map fun ds => ds.foldl (fun n d => n * radix + d) 0

/-- Puts the words of a list in the place of their numbers; an empty one leaves the number. -/
def withWords (radix : Nat) (words : Array Text) : Nat → Text → Except Failure Text
  | 0, t => return t
  | _ + 1, [] => return []
  | fuel + 1, c :: rest =>
    if isWordChar c then do
      let (more, after) := spanOf isWordChar rest
      let some word := (wordValue? radix (c :: more)).bind fun v => words[v]? | .error .broken
      return (if word.isEmpty then c :: more else word) ++ (← withWords radix words fuel after)
    else do return c :: (← withWords radix words fuel rest)

/-- A table of strings in an opened payload: its name, its strings and how long it is. -/
def innerTable? (t : Text) : Option (Text × List Text × Nat) := do
  let (_, found) ← search (fun t => do
    let rest ← after? "var" t
    let rest := skipSpaces rest
    if rest.head? ≠ some 95 then none
    let (name, rest) ← run? (fun c => isWordChar c || (127 < c && Text.isNamePart c)) rest
    if name.length < 2 then none
    let inner ← after? "=[\"" rest
    let (body, rest) ← search (after? "\"];") inner
    return (name, body, t.length - rest.length)) t
  let (name, body, length) := found
  let rec cut : Nat → Text → Text → List Text
    | 0, done, t => [done.reverse ++ t]
    | _ + 1, done, [] => [done.reverse]
    | fuel + 1, done, c :: rest =>
      match after? "\",\"" (c :: rest) with
      | some rest => done.reverse :: cut fuel [] rest
      | none => cut fuel (c :: done) rest
  return (name, cut (body.length + 1) [] body, length)

/-- Opens a payload of numbered words. A table of strings in it is put in the place of what refers
to it, and then what surrounds the payload is lost. -/
def openNumbered (around : Text × Text) (t : Text) : Except Failure Text := do
  let some n := numberedPayload? true t <|> numberedPayload? false t | .error .unopened
  if n.count ≠ n.words.length then .error .unopened
  if !((2 ≤ n.radix && n.radix ≤ 62) || n.radix = 95) then .error .unopened
  let payload := replaceAll [92, 92] [92] (n.payload.length + 1) n.payload
  let payload := replaceAll [92, 39] [39] (payload.length + 1) payload
  let source ← withWords n.radix n.words.toArray (payload.length + 1) payload
  match innerTable? source with
  | none => return around.1 ++ source ++ around.2
  | some (name, strings, length) =>
    let source := strings.zipIdx.foldl (fun t (value, i) =>
      let use := name ++ [91] ++ Text.ofString (Nat.repr i) ++ [93]
      replaceAll use ([34] ++ value ++ [34]) (t.length + 1) t) source
    return source.drop length

/-! All kinds together -/

/-- Opens a source in every way that it shows marks of. -/
def openAll (t : Text) : Except Failure Text := do
  let plain := if isEscaped t then unescape t else t
  let plain := if (tableStart? t).isSome then inlineTable plain else plain
  let plain ← if holds decoderMark t && holds decoderMark plain then openDecoder plain else pure plain
  match surroundings? t with
  | some around => openNumbered around plain
  | none => return plain

/-- The source that a packed source stands for; any other is itself. None if it cannot be laid
out. -/
def opened? (t : Text) : Option Text :=
  match openAll t with
  | .ok plain => some plain
  | .error .unopened => some t
  | .error .broken => none

end Unravel.Source.Layout.Packed
