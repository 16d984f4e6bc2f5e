import Unravel.Json
import Unravel.Text.LetterCase

/-! Settings of a run, as clients send them. -/

namespace Unravel

/-- What is wrong with settings or with a request. -/
inductive ConfigurationError where
  | unknownOption (key : Text)
  | notBoolean (key : Text) (got : String)
  | mustBeBoolean (name : String)
  | mustBeFraction (name : String)
  | notAmong (name : String) (choices : List String)
  | noObject
  | codeNotText
  | optionsNoObject
deriving DecidableEq, Repr

def ConfigurationError.message : ConfigurationError → Text
  | .unknownOption key => Text.ofString "Unknown option: " ++ key
  | .notBoolean key got =>
    Text.ofString "Option " ++ key ++ Text.ofString (" must be a boolean, got " ++ got)
  | .mustBeBoolean name => Text.ofString (name ++ " must be a boolean")
  | .mustBeFraction name => Text.ofString (name ++ " must be a number between 0 and 1")
  | .notAmong name choices =>
    Text.ofString (name ++ " must be one of " ++ String.intercalate ", " choices)
  | .noObject => Text.ofString "Expected a JSON object"
  | .codeNotText => Text.ofString "code must be a string"
  | .optionsNoObject => Text.ofString "options must be an object"

/-- The type of a value as error messages name it. -/
def Json.typeName : Json → String
  | .null => "NoneType"
  | .bool _ => "bool"
  | .number (.int _) => "int"
  | .number (.double _) => "float"
  | .text _ => "str"
  | .list _ => "list"
  | .object _ => "dict"

/-- A name with underscores as one word, each part but the first capitalised. -/
def camelCase (name : Text) : Text :=
  match Text.splitAt 95 name with
  | [] => []
  | head :: rest => head ++ rest.flatMap Text.capitalize

/-- The name among known ones that a key spells, with underscores or as one word. -/
def keyNamed (names : List String) (key : Text) : Option String :=
  names.find? fun n => key = Text.ofString n || key = camelCase (Text.ofString n)

/-- The stages that can be switched off. -/
inductive Setting where
  | unpackStringArrays
  | resolveArrayRotation
  | replaceProxyFunctions
  | simplifyExpressions
  | removeDeadCode
  | undoControlFlowFlattening
  | decodeHexUnicode
  | simplifyObjectAccess
  | renameVariables
  | beautifyOutput
deriving DecidableEq, Repr

namespace Setting

def all : List Setting :=
  [unpackStringArrays, resolveArrayRotation, replaceProxyFunctions, simplifyExpressions,
   removeDeadCode, undoControlFlowFlattening, decodeHexUnicode, simplifyObjectAccess,
   renameVariables, beautifyOutput]

def name : Setting → String
  | unpackStringArrays => "unpack_string_arrays"
  | resolveArrayRotation => "resolve_array_rotation"
  | replaceProxyFunctions => "replace_proxy_functions"
  | simplifyExpressions => "simplify_expressions"
  | removeDeadCode => "remove_dead_code"
  | undoControlFlowFlattening => "undo_control_flow_flattening"
  | decodeHexUnicode => "decode_hex_unicode"
  | simplifyObjectAccess => "simplify_object_access"
  | renameVariables => "rename_variables"
  | beautifyOutput => "beautify_output"

/-- The setting that a key names. -/
def ofKey? (key : Text) : Option Setting :=
  all.find? fun s => key = Text.ofString s.name || key = camelCase (Text.ofString s.name)

end Setting

/-- The settings of a run: every stage is on unless it is listed. -/
structure Options where
  off : List Setting := []

namespace Options

def isOn (o : Options) (s : Setting) : Bool := !o.off.contains s

def set (o : Options) (s : Setting) (on : Bool) : Options :=
  if on then ⟨o.off.filter (· ≠ s)⟩ else ⟨s :: o.off⟩

/-- Reads settings in order; a later value of a setting replaces an earlier one. -/
def ofMembers (o : Options) : List (Text × Json) → Except ConfigurationError Options
  | [] => .ok o
  | (key, value) :: rest =>
    match Setting.ofKey? key, value with
    | none, _ => .error (.unknownOption key)
    | some s, .bool b => ofMembers (o.set s b) rest
    | some _, v => .error (.notBoolean key v.typeName)

def toJson (o : Options) : Json :=
  .record (Setting.all.map fun s => (s.name, .bool (o.isOn s)))

end Options

end Unravel
