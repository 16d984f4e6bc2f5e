import Unravel.Options
import Unravel.Script.Engine

/-! The other direction: source text is obfuscated by a bundle that a script engine runs. This
module turns settings into the bundle's configuration and reports what the bundle made. -/

namespace Unravel.Obfuscator

/-- Settings of the obfuscator. -/
structure Settings where
  stringArrayEncoding : String := "base64"
  stringArrayRotation : Bool := true
  stringArrayShuffle : Bool := true
  controlFlowFlattening : Bool := false
  controlFlowFlatteningThreshold : Number := .double (Double.ofDecimal false 75 (-2))
  deadCodeInjection : Bool := false
  deadCodeInjectionThreshold : Number := .double (Double.ofDecimal false 4 (-1))
  identifierNamesGenerator : String := "hexadecimal"
  unicodeEscapeSequence : Bool := false
  disableConsoleOutput : Bool := false
  selfDefending : Bool := false
  compact : Bool := true
  numbersToExpressions : Bool := false

def encodings : List String := ["none", "base64", "rc4"]

def nameGenerators : List String := ["hexadecimal", "mangled"]

/-- Setting names, in the order in which their values are checked. -/
def names : List String :=
  ["string_array_encoding", "string_array_rotation", "string_array_shuffle",
   "control_flow_flattening", "control_flow_flattening_threshold", "dead_code_injection",
   "dead_code_injection_threshold", "identifier_names_generator", "unicode_escape_sequence",
   "disable_console_output", "self_defending", "compact", "numbers_to_expressions"]

def nameOf? (key : Text) : Option String :=
  if key = Text.ofString "variableRenaming" then some "identifier_names_generator"
  else keyNamed names key

/-- Values by setting name. -/
abbrev Values := List (Text × Json)

/-- Files values under setting names; the first unknown key is an error. -/
def file (done : Values) : List (Text × Json) → Except ConfigurationError Values
  | [] => .ok done
  | (key, value) :: rest =>
    match nameOf? key with
    | none => .error (.unknownOption key)
    | some name => file (Json.put (Text.ofString name) value done) rest

/-- A value that must be one of some words. -/
def choice (values : Values) (name : String) (choices : List String) (default : String) :
    Except ConfigurationError String :=
  match Json.lookup (Text.ofString name) values with
  | none => .ok default
  | some (.text t) =>
    match choices.find? fun c => Text.ofString c = t with
    | some c => .ok c
    | none => .error (.notAmong name choices)
  | some _ => .error (.notAmong name choices)

def flag (values : Values) (name : String) (default : Bool) : Except ConfigurationError Bool :=
  match Json.lookup (Text.ofString name) values with
  | none => .ok default
  | some (.bool b) => .ok b
  | some _ => .error (.mustBeBoolean name)

/-- Whether a number lies between 0 and 1, both included. -/
def isFraction : Number → Bool
  | .int n => 0 ≤ n && n ≤ 1
  | .double d => (d.isZero || Double.lt .zero d) && !Double.lt (.ofNat 1) d

def fraction (values : Values) (name : String) (default : Number) :
    Except ConfigurationError Number :=
  match Json.lookup (Text.ofString name) values with
  | none => .ok default
  | some (.number n) => if isFraction n then .ok n else .error (.mustBeFraction name)
  | some _ => .error (.mustBeFraction name)

/-- Reads settings. Words are checked before flags and thresholds. -/
def Settings.ofMembers (members : List (Text × Json)) : Except ConfigurationError Settings := do
  let values ← file [] members
  let d : Settings := {}
  let encoding ← choice values "string_array_encoding" encodings d.stringArrayEncoding
  let generator ←
    choice values "identifier_names_generator" nameGenerators d.identifierNamesGenerator
  return {
    stringArrayEncoding := encoding
    identifierNamesGenerator := generator
    stringArrayRotation := ← flag values "string_array_rotation" d.stringArrayRotation
    stringArrayShuffle := ← flag values "string_array_shuffle" d.stringArrayShuffle
    controlFlowFlattening := ← flag values "control_flow_flattening" d.controlFlowFlattening
    controlFlowFlatteningThreshold := ←
      fraction values "control_flow_flattening_threshold" d.controlFlowFlatteningThreshold
    deadCodeInjection := ← flag values "dead_code_injection" d.deadCodeInjection
    deadCodeInjectionThreshold := ←
      fraction values "dead_code_injection_threshold" d.deadCodeInjectionThreshold
    unicodeEscapeSequence := ← flag values "unicode_escape_sequence" d.unicodeEscapeSequence
    disableConsoleOutput := ← flag values "disable_console_output" d.disableConsoleOutput
    selfDefending := ← flag values "self_defending" d.selfDefending
    compact := ← flag values "compact" d.compact
    numbersToExpressions := ← flag values "numbers_to_expressions" d.numbersToExpressions }

/-- The configuration the bundle takes. -/
def Settings.config (s : Settings) : Json :=
  .record [
    ("compact", .bool s.compact),
    ("controlFlowFlattening", .bool s.controlFlowFlattening),
    ("controlFlowFlatteningThreshold",
      if s.controlFlowFlattening then .number s.controlFlowFlatteningThreshold else .ofNat 0),
    ("deadCodeInjection", .bool s.deadCodeInjection),
    ("deadCodeInjectionThreshold", .number s.deadCodeInjectionThreshold),
    ("identifierNamesGenerator", .ofString s.identifierNamesGenerator),
    ("numbersToExpressions", .bool s.numbersToExpressions),
    ("selfDefending", .bool s.selfDefending),
    ("stringArray", .bool true),
    ("stringArrayEncoding",
      .list (if s.stringArrayEncoding = "none" then [] else [.ofString s.stringArrayEncoding])),
    ("stringArrayRotate", .bool s.stringArrayRotation),
    ("stringArrayShuffle", .bool s.stringArrayShuffle),
    ("unicodeEscapeSequence", .bool s.unicodeEscapeSequence),
    ("disableConsoleOutput", .bool s.disableConsoleOutput),
    ("target", .ofString "browser")]

/-- Time limit of the bundle, in milliseconds. -/
def timeout : Nat := 30000

/-- Names a browser bundle expects. -/
def globalShims : Text := Text.ofString "var window = globalThis; var self = globalThis;"

/-- The call that obfuscates a source. -/
def callScript (source : Text) (s : Settings) : Text :=
  Text.ofString "JavaScriptObfuscator.obfuscate(" ++ source.quotedAscii ++ [44, 32]
    ++ Json.render .compact 0 s.config ++ Text.ofString ").getObfuscatedCode()"

/-- What the bundle made: code, or none and the reason. -/
structure Result where
  code : Text
  error : Option Text := none
  sessions : List Session := []

def Result.failed (message : Text) (sessions : List Session) : Result :=
  ⟨[], some (if message.isEmpty then Text.ofString "Obfuscation failed" else message), sessions⟩

/-- Runs scripts in order; a script that fails ends the run. -/
def runScripts (engine : Engine) : List Text → engine.State →
    List Text × Except Text ScriptValue
  | [], _ => ([], .ok .other)
  | [script], s => ([script], (engine.eval script s).1)
  | script :: rest, s =>
    match engine.eval script s with
    | (.error e, _) => ([script], .error e)
    | (.ok _, s) =>
      let (scripts, outcome) := runScripts engine rest s
      (script :: scripts, outcome)

/-- Obfuscates a source with a bundle, whose lines may end in any way; a failure is part of the
result. -/
def obfuscate (engine : Engine) (bundle : Option Text) (source : Text) (s : Settings) : Result :=
  match bundle with
  | none => .failed (Text.ofString
      "javascript-obfuscator bundle not configured; set JSRECOVER_OBFUSCATOR_BUNDLE") []
  | some bundle =>
    let scripts := [globalShims, bundle.plainLines, callScript source s]
    let (scripts, outcome) := runScripts engine scripts (engine.opened engine.start)
    let sessions := [⟨timeout, scripts, true⟩]
    match outcome with
    | .ok (.text code) => ⟨code, none, sessions⟩
    | .ok .other => .failed (Text.ofString "obfuscator returned no code") sessions
    | .error e => .failed e sessions

def Result.toJson (r : Result) : Json :=
  .record (("code", .text r.code) :: (r.error.map fun e => ("error", Json.text e)).toList)

end Unravel.Obfuscator
