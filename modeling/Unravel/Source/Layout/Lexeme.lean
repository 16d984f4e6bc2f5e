import Unravel.Source.Layout.WordChars

/-! Source text in loose pieces, as the formatter sees it: each piece knows the line breaks before
it and the comments it follows. Nothing is checked, so every text has pieces. -/

namespace Unravel.Source.Layout

inductive Kind where
  | startExpr
  | endExpr
  | startBlock
  | endBlock
  | word
  | reserved
  | semicolon
  | string
  | equals
  | operator
  | comma
  | blockComment
  | comment
  | dot
  | unknown
  | start
  | eof
deriving DecidableEq, Repr

/-- What a comment asks of the formatter, by name; of two wishes of one name the later counts. -/
abbrev Directives := List (String × String)

def Directives.asks (ds : Directives) (name value : String) : Bool :=
  ds.reverse.lookup name = some value

/-- A piece of text with the line breaks before it and the blanks after the last of them. -/
structure Piece where
  kind : Kind
  text : String
  newlines : Nat := 0
  blanks : String := ""
  directives : Directives := []
deriving Repr

/-- A piece with the comments before it, among which are pieces that fit nowhere. -/
structure Lexeme extends Piece where
  comments : List Piece := []
deriving Repr

instance : Inhabited Lexeme := ⟨{ kind := .startBlock, text := "" }⟩

def Piece.isReserved (p : Piece) (word : String) : Bool := p.kind = .reserved && p.text = word

def Piece.isReservedIn (p : Piece) (words : List String) : Bool :=
  p.kind = .reserved && words.contains p.text

/-- Words that start a statement. -/
def lineStarters : List String :=
  ["continue", "try", "throw", "return", "var", "let", "const", "if", "switch", "case", "default",
   "for", "while", "break", "function", "import", "export"]

def reservedWords : List String :=
  lineStarters ++ ["do", "in", "of", "else", "get", "set", "new", "catch", "finally", "typeof",
    "yield", "async", "await", "from", "as", "class", "extends"]

/-- Operators after which a line break of the source is kept. -/
def positionable : List String :=
  [">>>", "===", "!==", "&&=", "??=", "||=", "<<", "&&", ">=", "**", "!=", "==", "<=", ">>", "||",
   "??", "|>", "<", "/", "-", "+", ">", ":", "&", "%", "?", "^", "|", "*"]

/-- Signs, each before those it starts with. -/
def signs : List String :=
  [">>>=", "...", ">>=", "<<=", "===", ">>>", "!==", "**=", "&&=", "||=", "??=", "=>", "^=", "::",
   "/=", "<<", "<=", "==", "&&", "-=", ">=", ">>", "!=", "--", "+=", "**", "||", "??", "++", "%=",
   "&=", "*=", "|=", "|>", "=", "!", "?", ">", "<", ":", "/", "^", "-", "+", "*", "&", "%", "~", "|"]

def isNewline (c : Nat) : Bool := c = 10 || c = 13 || c = 0x2028 || c = 0x2029

/-- Blanks between pieces. -/
def isSpace (c : Nat) : Bool :=
  c = 9 || c = 32 || c = 0xA0 || c = 0x1680 || c = 0x180E || (0x2000 ≤ c && c ≤ 0x200A)
    || c = 0x202F || c = 0x205F || c = 0x3000 || c = 0xFEFF

/-- One line feed for each line break of whatever kind. -/
def plainBreaks : Text → Text
  | [] => []
  | 13 :: 10 :: rest => 10 :: plainBreaks rest
  | c :: rest => (if isNewline c then 10 else c) :: plainBreaks rest

/-- Line breaks in a run of blanks, and what follows the last of them. -/
def countBreaks : Text → Nat × Text
  | [] => (0, [])
  | 13 :: 10 :: rest => let (n, t) := countBreaks rest; (n + 1, t)
  | c :: rest =>
    let (n, t) := countBreaks rest
    if isNewline c then (n + 1, t) else if n = 0 then (0, c :: t) else (n, t)

/-- Splits a text after its longest start of a kind. -/
def spanOf (test : Nat → Bool) (t : Text) : Text × Text := (t.takeWhile test, t.dropWhile test)

/-! Words and numbers -/

def isHexDigit (c : Nat) : Bool :=
  Text.isAsciiDigit c || (97 ≤ c && c ≤ 102) || (65 ≤ c && c ≤ 70)

/-- An escaped character of a word. -/
def escapedChar? (t : Text) : Option (Text × Text) :=
  match t with
  | 92 :: 117 :: 123 :: rest =>
    let (ds, after) := spanOf isHexDigit rest
    match ds, after with
    | _ :: _, 125 :: after => some ([92, 117, 123] ++ ds ++ [125], after)
    | _, _ => none
  | 92 :: 117 :: a :: b :: c :: d :: rest =>
    if [a, b, c, d].all isHexDigit then some ([92, 117, a, b, c, d], rest) else none
  | _ => none

def wordChar? (test : Nat → Bool) (t : Text) : Option (Text × Text) :=
  match t with
  | [] => none
  | c :: rest => if test c then some ([c], rest) else escapedChar? t

/-- Characters of a word for as long as there are some. -/
def wordRest : Nat → Text → Text × Text
  | 0, t => ([], t)
  | fuel + 1, t =>
    match wordChar? isWordPart t with
    | some (c, rest) => let (w, after) := wordRest fuel rest; (c ++ w, after)
    | none => ([], t)

def word? (t : Text) : Option (Text × Text) := do
  let (c, rest) ← wordChar? isWordStart t
  let (w, after) := wordRest rest.length rest
  return (c ++ w, after)

def digitOrMark (c : Nat) : Bool := isDigit c || c = 95

/-- A number in a base other than ten, after its mark. -/
def basedNumber (lead : Text) (test : Nat → Bool) (t : Text) : Text × Text :=
  let (ds, rest) := spanOf (fun c => test c || c = 95) t
  match rest with
  | 110 :: rest => (lead ++ ds ++ [110], rest)
  | _ => (lead ++ ds, rest)

/-- The power of ten after a number. -/
def powerOfTen (t : Text) : Text × Text :=
  match t with
  | e :: rest =>
    if e = 101 || e = 69 then
      let (sign, rest) := match rest with
        | s :: rest' => if s = 43 || s = 45 then ([s], rest') else ([], rest)
        | [] => ([], [])
      let (ds, after) := spanOf digitOrMark rest
      if ds.isEmpty then ([], t) else ([e] ++ sign ++ ds, after)
    else ([], t)
  | [] => ([], [])

def number? (t : Text) : Option (Text × Text) :=
  let finish (lead rest : Text) : Option (Text × Text) :=
    let (p, after) := powerOfTen rest
    some (lead ++ p, after)
  match t with
  | c :: rest =>
    let mark := rest.head?.getD 0
    if c = 48 && (mark = 120 || mark = 88) then
      some (basedNumber [c, mark] isHexDigit (rest.drop 1))
    else if c = 48 && (mark = 111 || mark = 79) then
      some (basedNumber [c, mark] (fun d => 48 ≤ d && d ≤ 55) (rest.drop 1))
    else if c = 48 && (mark = 98 || mark = 66) then
      some (basedNumber [c, mark] (fun d => d = 48 || d = 49) (rest.drop 1))
    else if isDigit c then
      let (ds, after) := spanOf digitOrMark rest
      match after with
      | 110 :: after => some (c :: ds ++ [110], after)
      | 46 :: after =>
        let (fraction, after) := spanOf digitOrMark after
        finish (c :: ds ++ [46] ++ fraction) after
      | after => finish (c :: ds) after
    else if c = 46 && isDigit mark then
      let (ds, after) := spanOf digitOrMark rest
      finish (c :: ds) after
    else none
  | [] => none

/-! Strings, templates, regular expressions and comments -/

/-- What a string or a part of a template ends with. -/
inductive Closer where
  | quote (c : Nat)
  | template
  | substitution

/-- The text up to its closer. A template may hold substitutions, and they templates. -/
def stringBody : Nat → Closer → Text → Text × Text
  | 0, _, t => ([], t)
  | fuel + 1, closer, t =>
    let goOn (lead rest : Text) : Text × Text :=
      let (body, after) := stringBody fuel closer rest
      (lead ++ body, after)
    let nested (lead : Text) (inner : Closer) (rest : Text) : Text × Text :=
      let (body, after) := stringBody fuel inner rest
      goOn (lead ++ body ++ after.take 1) (after.drop 1)
    match t with
    | [] => ([], [])
    | 92 :: 13 :: 10 :: rest => goOn [92, 13, 10] rest
    | 92 :: c :: rest => goOn [92, c] rest
    | c :: rest =>
      match closer with
      | .quote q => if c = q || isNewline c then ([], t) else goOn [c] rest
      | .template =>
        if c = 96 then ([], t)
        else if c = 36 && rest.head? = some 123 then nested [36, 123] .substitution (rest.drop 1)
        else goOn [c] rest
      | .substitution =>
        if c = 125 then ([], t)
        else if c = 96 then nested [96] .template rest
        else goOn [c] rest

def string? (t : Text) : Option (Text × Text) :=
  match t with
  | c :: rest =>
    if c = 96 || c = 39 || c = 34 then
      let closer := if c = 96 then Closer.template else .quote c
      let (body, after) := stringBody (rest.length + 1) closer rest
      match after with
      | d :: after' => if d = c then some (c :: body ++ [c], after') else some (c :: body, after)
      | [] => some (c :: body, [])
    else none
  | [] => none

/-- The body of a regular expression up to its slash or the end of the line. -/
def regexBody (escaped inClass : Bool) : Text → Text × Text
  | [] => ([], [])
  | c :: rest =>
    if isNewline c || (c = 47 && !escaped && !inClass) then ([], c :: rest)
    else
      let (body, after) :=
        if escaped then regexBody false inClass rest
        else regexBody (c = 92) (if c = 91 then true else if c = 93 then false else inClass) rest
      (c :: body, after)

def regex (t : Text) : Text × Text :=
  let (body, after) := regexBody false false (t.drop 1)
  match after with
  | 47 :: after =>
    match word? after with
    | some (flags, after) => ([47] ++ body ++ [47] ++ flags, after)
    | none => ([47] ++ body ++ [47], after)
  | after => ([47] ++ body, after)

def blockCommentBody : Text → Text × Text
  | [] => ([], [])
  | 42 :: 47 :: rest => ([42, 47], rest)
  | c :: rest => let (body, after) := blockCommentBody rest; (c :: body, after)

/-- The name and the value of a wish such as `preserve:start`. -/
def directive? (t : Text) : Option (String × String) :=
  let isWord (w : Text) : Bool := !w.isEmpty && w.all fun c => c = 95 || isDigit c || Text.isNamePart c
  match Text.splitAt 58 t with
  | [name, value] => if isWord name && isWord value then some (name.toString, value.toString) else none
  | _ => none

/-- The wishes in a block comment; none at all if it holds anything else. -/
def directivesOf (comment : Text) : Directives :=
  match Text.splitAt 32 comment with
  | opening :: name :: wishes =>
    if opening = [47, 42] && name = Text.ofString "beautify" && wishes.getLast? = some [42, 47] then
      (wishes.dropLast.mapM directive?).getD []
    else []
  | _ => []

/-- The wishes in the first of the comments that a text starts with. -/
def directivesIn (t : Text) : Directives :=
  directivesOf ([47, 42] ++ (blockCommentBody (t.drop 2)).1)

/-- Whether a comment ends a stretch that is left as it is; its length if so. -/
def ignoreEnd? (t : Text) : Option Nat :=
  let expected : List (Option Nat) :=
    [some 47, some 42, none] ++ (Text.ofString "beautify").map some ++ [none]
      ++ (Text.ofString "ignore:end").map some ++ [none, some 42, some 47]
  let fits := (expected.zip t).all fun (e, c) => match e with
    | some d => c = d
    | none => isAnyBlank c
  if fits && expected.length ≤ t.length then some expected.length else none

/-- The text up to the end of a stretch that is left as it is. -/
def ignored : Text → Text × Text
  | [] => ([], [])
  | c :: rest =>
    match ignoreEnd? (c :: rest) with
    | some n => ((c :: rest).take n, (c :: rest).drop n)
    | none => let (body, after) := ignored rest; (c :: body, after)

def commentPiece? (t : Text) : Option (Kind × Text × Text) :=
  match t with
  | 47 :: 42 :: rest =>
    let (body, after) := blockCommentBody rest
    let text := [47, 42] ++ body
    if (directivesOf text).asks "ignore" "start" then
      let (more, after) := ignored after
      some (.blockComment, text ++ more, after)
    else some (.blockComment, text, after)
  | 47 :: 47 :: rest =>
    let (body, after) := spanOf (fun c => !isNewline c) rest
    some (.comment, [47, 47] ++ body, after)
  | _ => none

/-! Markup, which is kept as it stands -/

def isTagNameChar (c : Nat) : Bool :=
  (97 ≤ c && c ≤ 122) || (65 ≤ c && c ≤ 90) || Text.isAsciiDigit c || c = 45 || c = 58 || c = 95
    || c = 46

/-- Braces around something without a closing one. -/
def braced? (t : Text) : Option (Text × Text) :=
  match t with
  | 123 :: c :: rest =>
    if c = 125 then none
    else
      let (inner, after) := spanOf (· ≠ 125) rest
      match after with
      | 125 :: after => some ([123, c] ++ inner ++ [125], after)
      | _ => none
  | _ => none

/-- What follows the brace of an attribute value: characters and braced groups up to its end. -/
def braceValueRest : Nat → Bool → Text → Option (Text × Text)
  | 0, _, _ => none
  | fuel + 1, filled, t =>
    match t with
    | [] => none
    | c :: rest =>
      if c = 125 then if filled then some ([125], rest) else none
      else if c = 123 then do
        let (group, after) ← braced? t
        let (more, after) ← braceValueRest fuel true after
        return (group ++ more, after)
      else do
        let (more, after) ← braceValueRest fuel true rest
        return (c :: more, after)

def attributeValue? (t : Text) : Option (Text × Text) :=
  match t with
  | 123 :: rest => do
    let (v, after) ← braceValueRest (rest.length + 1) false rest
    return (123 :: v, after)
  | c :: rest =>
    if c = 39 || c = 34 then
      let (inner, after) := spanOf (· ≠ c) rest
      match after with
      | _ :: after => some (c :: inner ++ [c], after)
      | [] => none
    else none
  | [] => none

/-- The end of a tag: whether it closes itself, the text and the rest. -/
def tagEnd? (t : Text) : Option (Bool × Text × Text) :=
  let (s, rest) := spanOf isAnyBlank t
  match rest with
  | 47 :: rest =>
    let (s', rest) := spanOf isAnyBlank rest
    match rest with
    | 62 :: rest => some (true, s ++ [47] ++ s' ++ [62], rest)
    | _ => none
  | 62 :: rest => some (false, s ++ [62], rest)
  | _ => none

/-- Attributes and the end of a tag. -/
def tagRest : Nat → Text → Option (Bool × Text × Text)
  | 0, t => tagEnd? t
  | fuel + 1, t =>
    let goOn (lead rest : Text) : Option (Bool × Text × Text) :=
      (tagRest fuel rest).map fun (single, more, after) => (single, lead ++ more, after)
    let (s, rest) := spanOf isAnyBlank t
    let (name, afterName) := spanOf isTagNameChar rest
    let named := !s.isEmpty && !name.isEmpty
    let (e, afterBlank) := spanOf isAnyBlank afterName
    let viaBrace := (braced? rest).bind fun (b, after) => goOn (s ++ b) after
    let viaName := if named then goOn (s ++ name) afterName else none
    let viaValue :=
      if named && afterBlank.head? = some 61 then
        let (f, rest) := spanOf isAnyBlank (afterBlank.drop 1)
        (attributeValue? rest).bind fun (v, after) => goOn (s ++ name ++ e ++ [61] ++ f ++ v) after
      else none
    viaBrace <|> viaName <|> viaValue <|> tagEnd? t

/-- A tag: whether it is a closing one, its name, whether it closes itself, its text. -/
structure Tag where
  isEnd : Bool
  name : Text
  single : Bool
  text : Text

def cdataStart : Text := Text.ofString "![CDATA["

def tagName (t : Text) : Text × Text :=
  let (name, rest) := spanOf isTagNameChar t
  if !name.isEmpty then (name, rest)
  else match braced? t with
    | some found => found
    | none =>
      if cdataStart.isPrefixOf t then
        let (inner, rest) := spanOf (· ≠ 93) (t.drop 8)
        match rest with
        | 93 :: 93 :: rest => (cdataStart ++ inner ++ [93, 93], rest)
        | _ => ([], t)
      else ([], t)

def tagAfter? (lead : Text) (isEnd : Bool) (t : Text) : Option (Tag × Text) :=
  let (name, rest) := tagName t
  (tagRest (rest.length + 1) rest).map fun (single, more, after) =>
    (⟨isEnd, name, single, lead ++ name ++ more⟩, after)

/-- The next tag with all that stands before it. -/
def nextTag? : Text → Option (Tag × Text)
  | [] => none
  | c :: rest =>
    let here :=
      if c = 60 then
        (if rest.head? = some 47 then tagAfter? [60, 47] true (rest.drop 1) else none)
          <|> tagAfter? [60] false rest
      else none
    match here with
    | some found => some found
    | none => (nextTag? rest).map fun (tag, after) => ({ tag with text := c :: tag.text }, after)

/-- A braced name without the blanks inside its braces. -/
def trimBraced (name : Text) : Text :=
  match name with
  | 123 :: rest =>
    match rest.reverse with
    | 125 :: inner =>
      123 :: ((inner.dropWhile isAnyBlank).reverse.dropWhile isAnyBlank) ++ [125]
    | _ => name
  | _ => name

/-- Tags up to the one that closes the first. Markup that is never closed goes to the end. -/
def markupRest (root : Text) : Nat → Nat → Text → Text × Text
  | 0, _, t => (t, [])
  | fuel + 1, depth, t =>
    match nextTag? t with
    | none => (t, [])
    | some (tag, after) =>
      let single := tag.single || cdataStart.isPrefixOf tag.name
      let counts := !single && (tag.name = root || (root.head? = some 123 && !tag.name.isEmpty))
      let depth := if !counts then depth else if tag.isEnd then depth - 1 else depth + 1
      if depth = 0 then (tag.text, after)
      else
        let (more, after) := markupRest root fuel depth after
        (tag.text ++ more, after)

def markup? (t : Text) : Option (Text × Text) :=
  match nextTag? t with
  | some (tag, _) =>
    if tag.isEnd then none else some (markupRest (trimBraced tag.name) (t.length + 1) 0 t)
  | none => none

/-! Pieces -/

/-- What is known when a piece is read: the piece before it, and of a closing parenthesis the piece
before the one that opened it. -/
structure Before where
  kind : Kind := .start
  text : String := ""
  opener : Option (Kind × String) := none
  /-- Set after an opening sign that hides a script from readers of markup. -/
  inHidden : Bool := false

/-- Whether a slash or an angle bracket starts a regular expression or markup. -/
def Before.allowsLiteral (b : Before) : Bool :=
  match b.kind with
  | .reserved => ["return", "case", "throw", "else", "do", "typeof", "yield"].contains b.text
  | .endExpr =>
    b.text = ")" && match b.opener with
      | some (.reserved, w) => ["if", "while", "for"].contains w
      | _ => false
  | .comment | .startExpr | .startBlock | .start | .endBlock | .operator | .equals | .eof
  | .semicolon | .comma => true
  | _ => false

def wordKind (b : Before) (w : String) : Kind :=
  let isMember := b.kind = .dot || (b.kind = .reserved && (b.text = "set" || b.text = "get"))
  if !isMember && reservedWords.contains w then
    if (w = "in" || w = "of") && (b.kind = .word || b.kind = .string) then .operator else .reserved
  else .word

def single? (c : Nat) (following : Option Nat) : Option (Kind × String) :=
  match c with
  | 40 => some (.startExpr, "(")
  | 91 => some (.startExpr, "[")
  | 41 => some (.endExpr, ")")
  | 93 => some (.endExpr, "]")
  | 123 => some (.startBlock, "\x7b")
  | 125 => some (.endBlock, "\x7d")
  | 59 => some (.semicolon, ";")
  | 44 => some (.comma, ",")
  | 46 => match following with
    | some d => if isDigit d || d = 46 then none else some (.dot, ".")
    | none => none
  | _ => none

def sign? (t : Text) : Option (Kind × String) :=
  match t with
  | 63 :: 46 :: rest =>
    if (rest.head?.map isDigit).getD false then some (.operator, "?")
    else some (.dot, "?.")
  | _ =>
    (signs.find? fun s => (Text.ofString s).isPrefixOf t).map fun s =>
      (if s = "=" then .equals else .operator, s)

/-- The rest of a line with the line break that ends it. -/
def lineRest : Text → Text × Text
  | [] => ([], [])
  | 13 :: 10 :: rest => ([13, 10], rest)
  | c :: rest =>
    if isNewline c then ([c], rest) else let (line, after) := lineRest rest; (c :: line, after)

/-- A line that starts with a mark for another program. -/
def foreignLine? (b : Before) (t : Text) : Option (Text × Text) :=
  let starts (s : String) : Bool := (Text.ofString s).isPrefixOf t
  if (b.kind = .start && starts "#!") || starts "#include" then
    let (line, rest) := lineRest t
    some ((line.reverse.dropWhile isAnyBlank).reverse ++ [10], rest)
  else none

/-- What follows the sign and the digit of a numbered value, up to the sign that declares it or
refers to it. -/
def sharpRest : Text → Text × Text
  | [] => ([], [])
  | c :: rest =>
    if c = 35 || c = 61 then ([c], rest) else let (more, after) := sharpRest rest; (c :: more, after)

/-- A numbered value, with an empty list or record that it names. -/
def sharp? (t : Text) : Option (Text × Text) :=
  match t with
  | 35 :: c :: rest =>
    if !Text.isAsciiDigit c then none
    else
      let (more, after) := sharpRest rest
      let text := [35, c] ++ more
      match more.getLast?, after with
      | some 35, after => some (text, after)
      | _, 91 :: 93 :: after => some (text ++ [91, 93], after)
      | _, 123 :: 125 :: after => some (text ++ [123, 125], after)
      | _, after => some (text, after)
  | _ => none

def hidingStart : Text := Text.ofString "<!--"

def hidingEnd : Text := Text.ofString "-->"

/-- A sign that hides a script from readers of markup, at the front or after one. -/
def hidingSign? (b : Before) (t : Text) : Option (Text × Text) :=
  if b.kind = .start && hidingStart.isPrefixOf t then some (spanOf (fun c => !isNewline c) t)
  else if b.inHidden && hidingEnd.isPrefixOf t then some (hidingEnd, t.drop 3)
  else none

/-- The piece that starts here, which is not blank. -/
def pieceAt (b : Before) (t : Text) : Kind × Text × Text :=
  match t with
  | [] => (.eof, [], [])
  | c :: rest =>
    match foreignLine? b t with
    | some (line, rest) => (.unknown, line, rest)
    | none =>
    match hidingSign? b t with
    | some (sign, rest) => (.comment, sign, rest)
    | none =>
    match sharp? t with
    | some (s, rest) => (.word, s, rest)
    | none =>
    match string? t with
    | some (s, rest) => (.string, plainBreaks s, rest)
    | none =>
    if [35, 123].isPrefixOf t then (.startBlock, [35, 123], rest.drop 1)
    else
    match word? t with
    | some (w, rest) => (wordKind b w.toString, w, rest)
    | none =>
    match number? t with
    | some (n, rest) => (.word, n, rest)
    | none =>
    match single? c rest.head? with
    | some (k, s) => (k, Text.ofString s, rest)
    | none =>
    match commentPiece? t with
    | some (k, s, rest) => (k, plainBreaks s, rest)
    | none =>
    if c = 47 && b.allowsLiteral then
      let (r, rest) := regex t
      (.string, r, rest)
    else
      match if c = 60 && b.allowsLiteral then markup? t else none with
      | some (m, rest) => (.string, plainBreaks m, rest)
      | none =>
        match sign? t with
        | some (k, s) => (k, Text.ofString s, t.drop s.length)
        | none => (.unknown, [c], rest)

/-- An open bracket: its sign, and the piece before it. -/
abbrev Opened := String × Kind × String

def closes (opened closing : String) : Bool :=
  (opened = "(" && closing = ")") || (opened = "[" && closing = "]")
    || (opened = "\x7b" && closing = "\x7d")

/-- The pieces of a text, the end of the text last. -/
def pieces : Nat → Before → List Opened → List Piece → Text → List Lexeme
  | 0, _, _, _, _ => []
  | fuel + 1, b, opened, comments, t =>
    let (blank, rest) := spanOf (fun c => isSpace c || isNewline c) t
    let (newlines, blanks) := countBreaks blank
    let (kind, text, after) := pieceAt b rest
    let directives := if kind = .blockComment then directivesIn text else []
    let piece : Piece := ⟨kind, text.toString, newlines, blanks.toString, directives⟩
    match kind with
    | .comment | .blockComment | .unknown =>
      let inHidden := hidingStart.isPrefixOf text || (b.inHidden && text ≠ hidingEnd)
      pieces fuel { b with inHidden } opened (comments ++ [piece]) after
    | .eof => [{ piece with comments := comments }]
    | _ =>
      let lexeme : Lexeme := { piece with comments := comments }
      let (opener, opened) : Option (Kind × String) × List Opened :=
        match kind, opened with
        | .startExpr, _ | .startBlock, _ => (none, (piece.text, b.kind, b.text) :: opened)
        | .endExpr, (sign, k, s) :: outer | .endBlock, (sign, k, s) :: outer =>
          if closes sign piece.text then (some (k, s), outer) else (none, opened)
        | _, _ => (none, opened)
      lexeme :: pieces fuel ⟨kind, piece.text, opener, b.inHidden⟩ opened [] after

def lexemes (t : Text) : List Lexeme := pieces (t.length + 2) {} [] [] t

end Unravel.Source.Layout
