import Unravel.Deobfuscation
import Unravel.Text.LetterCase

/-! The command line: which words are options, what they ask for, and what a run prints. -/

namespace Unravel.CommandLine

/-- What an option asks for. -/
inductive Flag where
  | help
  | json
  | verbose
  | off (s : Setting)
deriving DecidableEq, Repr

/-- The long option that switches a stage off. -/
def offName (s : Setting) : Text :=
  Text.ofString "--no-" ++ (Text.ofString s.name).map fun c => if c = 95 then 45 else c

/-- All spellings of the options. -/
def spellings : List (Text × Flag) :=
  [(Text.ofString "-h", .help), (Text.ofString "--help", .help)]
    ++ (Setting.all.map fun s => (offName s, .off s))
    ++ [(Text.ofString "--json", .json), (Text.ofString "-v", .verbose),
        (Text.ofString "--verbose", .verbose)]

def flagOf? (word : Text) : Option Flag := spellings.lookup word

/-- How a word of the command line is read. A wrong word fails when its turn comes, an ambiguous
one before anything is done. -/
inductive Word where
  | flags (fs : List Flag)
  | positional (t : Text)
  | unknown
  | wrong
  | ambiguous
deriving DecidableEq, Repr

/-- A dash and a decimal number, before at most one line feed. -/
def isNegativeNumber (word : Text) : Bool :=
  match word with
  | 45 :: rest =>
    let body := if rest.getLast? = some 10 then rest.dropLast else rest
    let whole := body.takeWhile Text.isDecimal
    match body.drop whole.length with
    | [] => !whole.isEmpty
    | 46 :: more => !more.isEmpty && more.all Text.isDecimal
    | _ => false
  | _ => false

/-- Short options written together behind one dash. -/
def bundled? (letters : Text) : Option (List Flag) := letters.mapM fun c => flagOf? [45, c]

def isLong (word : Text) : Bool := (Text.ofString "--").isPrefixOf word

/-- An option with something attached to it. No option takes a value, but more short options may
follow a short one. -/
def readAttached (name : Text) (f : Flag) (attached : Text) : Word :=
  if isLong name || attached.isEmpty then .wrong
  else match bundled? attached with
    | some fs => .flags (f :: fs)
    | none => .wrong

/-- The options that a word may stand for, with what it attaches to each. A long option may be cut
short. -/
def candidates (word : Text) : List (Text × Flag × Option Text) :=
  let stem := word.takeWhile (· ≠ 61)
  if isLong word then
    let value := if stem.length < word.length then some (word.drop (stem.length + 1)) else none
    (spellings.filter fun (name, _) => stem.isPrefixOf name).map fun (name, f) => (name, f, value)
  else
    (spellings.filter fun (name, _) => name = word.take 2).map fun (name, f) =>
      (name, f, some (word.drop 2))

/-- A word that starts with a dash and is no option as it stands. -/
def readPartial (word : Text) : Word :=
  let stem := word.takeWhile (· ≠ 61)
  match (if stem.length < word.length then flagOf? stem else none) with
  | some f => readAttached stem f (word.drop (stem.length + 1))
  | none =>
    match candidates word with
    | [(_, f, none)] => .flags [f]
    | [(name, f, some attached)] => readAttached name f attached
    | _ :: _ => .ambiguous
    | [] =>
      if isNegativeNumber word || word.contains 32 then .positional word else .unknown

def readWord (word : Text) : Word :=
  match word with
  | 45 :: _ :: _ =>
    match flagOf? word with
    | some f => .flags [f]
    | none => readPartial word
  | _ => .positional word

/-- The words of a command line. After two dashes every word is positional. -/
def readWords : List Text → List Word
  | [] => []
  | w :: rest =>
    if w = [45, 45] then rest.map .positional else readWord w :: readWords rest

/-- The arguments of a run. -/
structure Arguments where
  input : Text
  output : Text
  options : Options := {}
  json : Bool := false

/-- What a command line asks for. -/
inductive Request where
  | help
  | misuse
  | run (a : Arguments)

/-- The flags up to the first that asks for help; none if a word before it is wrong. -/
def flagsOf : List Word → Option (List Flag)
  | [] => some []
  | .wrong :: _ => none
  | .flags fs :: rest =>
    if fs.contains .help then some [.help] else (flagsOf rest).map (fs ++ ·)
  | _ :: rest => flagsOf rest

def positionals (words : List Word) : List Text :=
  words.filterMap fun w => match w with
    | .positional t => some t
    | _ => none

/-- Reads a command line: two positional words, and options anywhere between. -/
def read (argv : List Text) : Request :=
  let words := readWords argv
  if words.contains .ambiguous then .misuse
  else match flagsOf words with
  | none => .misuse
  | some fs =>
    if fs.contains .help then .help
    else if words.contains .unknown then .misuse
    else match positionals words with
      | [input, output] =>
        let options := Setting.all.foldl (fun (o : Options) s =>
          if fs.contains (.off s) then o.set s false else o) {}
        .run { input, output, options, json := fs.contains .json }
      | _ => .misuse

/-- The time a run took, in milliseconds, as the two forms of output show it. -/
structure Elapsed where
  brief : Text
  full : Text

/-- The lines that sum up a run. -/
def summary (r : Report) (output : Text) (elapsed : Elapsed) : List Text :=
  r.transforms.map (Text.ofString "  + " ++ ·)
    ++ r.errors.map (Text.ofString "  ! " ++ ·)
    ++ [Text.ofString "Deobfuscation completed"
          ++ Text.ofString (if r.errors.isEmpty then " in " else " with warnings in ")
          ++ elapsed.brief ++ Text.ofString " ms",
        Text.ofString "Deobfuscated code written to " ++ output]

/-- The whole report as indented JSON. -/
def document (r : Report) (elapsed : Elapsed) : Text :=
  let style := Json.Style.indented 2
  let shown (name : String) (value : Text) : Text :=
    (Text.ofString name).quotedAscii ++ [58, 32] ++ value
  let listed (ts : List Text) : Text := Json.render style 1 (.list (ts.map Json.text))
  Json.bracket style 0 123 125 [
    shown "code" r.code.quotedAscii, shown "timeMs" elapsed.full,
    shown "transformsApplied" (listed r.transforms), shown "errors" (listed r.errors)]

/-- What is printed after a run. -/
def Arguments.printed (a : Arguments) (r : Report) (elapsed : Elapsed) : Text :=
  let lines := if a.json then [document r elapsed] else summary r a.output elapsed
  lines.flatMap (· ++ [10])

/-- What is printed when there is no input. -/
def missingInput (a : Arguments) : Text :=
  Text.ofString "Error: Input file not found at " ++ a.input ++ [10]

/-- The report of a run on the text of the input. -/
def Arguments.report (a : Arguments) (stages : Stages) (source : Text) : Report :=
  deobfuscate stages a.options source.plainLines

/-- The outcome of a command line: its status, what it prints, and the file it writes. -/
structure Outcome where
  status : Nat
  printed : Text := []
  written : Option (Text × Text) := none

/-- Runs a command line on files that are given by a function. -/
def run (stages : Stages) (files : Text → Option Text) (elapsed : Elapsed) (argv : List Text) :
    Outcome :=
  match read argv with
  | .help => { status := 0 }
  | .misuse => { status := 2 }
  | .run a =>
    match files a.input with
    | none => { status := 1, printed := missingInput a }
    | some source =>
      let r := a.report stages source
      { status := 0, printed := a.printed r elapsed, written := some (a.output, r.code) }

end Unravel.CommandLine
