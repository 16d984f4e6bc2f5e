import Unravel.Passes
import Unravel.Scope.Rename
import Unravel.Simplify.Access
import Unravel.Simplify.DeadCode
import Unravel.Simplify.Escapes
import Unravel.Simplify.Expression
import Unravel.Simplify.Flattening
import Unravel.Simplify.Proxy
import Unravel.Source.Layout
import Unravel.Strings.Inlining

/-! Recovery of readable code: hidden strings are resolved, simplification passes run, generated
names replaced and the result laid out. A stage that fails is reported, and the code from before
it is kept. -/

namespace Unravel

/-- The recovered code, what was done and what went wrong. -/
structure Report where
  code : Text
  transforms : List Text := []
  errors : List Text := []
  sessions : List Session := []

namespace Report

/-- Adds a message about work done; one that is there already is not repeated. -/
def record (r : Report) (message : Text) : Report :=
  if r.transforms.contains message then r else { r with transforms := r.transforms ++ [message] }

def fail (r : Report) (what : String) (e : Text) : Report :=
  { r with errors := r.errors ++ [Text.ofString (what ++ " error: ") ++ e] }

end Report

/-- A simplification that never fails. -/
def Matcher.ofPass (setting : Setting) (label : String) (report : Nat → String)
    (pass : Node → Node × Nat) : Matcher Unit :=
  { setting, label, report, run := fun tree => return .ok (pass tree) }

/-- A simplification that fails on trees in which a number is too long to be written. -/
def Matcher.ofWriter (setting : Setting) (label : String) (report : Nat → String)
    (isTooLong : Node → Bool) (pass : Node → Node × Nat) : Matcher Unit :=
  { setting, label, report
    run := fun tree =>
      if isTooLong tree then return .error (Text.ofString Number.overlongMessage)
      else return .ok (pass tree) }

def counted (before after : String) (n : Nat) : String := before ++ Nat.repr n ++ after

/-- The simplifications of a pass, in order. -/
def matchers : List (Matcher Unit) :=
  [.ofWriter .simplifyExpressions "Expression simplification"
     (counted "Simplified " " expressions") Simplify.hasOverlongSpelling Simplify.expressions,
   .ofPass .replaceProxyFunctions "Proxy replacement"
     (counted "Replaced " " proxy function calls") Simplify.proxyCalls,
   .ofPass .removeDeadCode "Dead code removal"
     (counted "Removed " " dead code branches") Simplify.deadCode,
   .ofWriter .undoControlFlowFlattening "Control flow unflattening"
     (counted "Unflattened " " control flow blocks") Simplify.hasOverlongLabel Simplify.flattening,
   .ofPass .simplifyObjectAccess "Object access simplification"
     (counted "Simplified " " object accesses") Simplify.access,
   .ofPass .decodeHexUnicode "Hex/unicode decoding"
     (counted "Decoded " " hex/unicode escapes") Simplify.escapes]

/-- The tree of a source. -/
def parsed (code : Text) : Except Text Node :=
  match Source.parse code with
  | .ok p => .ok p.tree
  | .error e => .error (Text.ofString e.message)

def tools : Tools Unit :=
  { parse := fun code => return parsed code, print := fun tree => return tree.printed }

/-- The first two stages. A failure of the passes as a whole ends the run. -/
structure Stages where
  strings : Bool → Text → Except Text Strings.Inlined
  passes : Options → Text → Except Text Passes.Result

/-- Stages that run scripts on an engine and the given simplifications in their passes. -/
def Stages.of (engine : Engine) (matchers : List (Matcher Unit)) : Stages :=
  { strings := Strings.inline engine
    passes := fun o code => .ok (((Passes.run tools matchers o code).run ()).1.result matchers) }

namespace Report

def resolveStrings (stages : Stages) (o : Options) (r : Report) : Report :=
  match stages.strings (o.isOn .resolveArrayRotation) r.code with
  | .error e => r.fail "String resolution" e
  | .ok s =>
    let r := { r with sessions := s.sessions }
    if s.replacements = 0 then r
    else
      let r := { r with code := s.code }.record
        (Text.ofString (counted "Resolved " " encoded strings" s.replacements))
      if s.removed = 0 then r
      else r.record (Text.ofString (counted "Removed " " decoder infrastructure nodes" s.removed))

/-- Takes the outcome of the passes over. -/
def passed (r : Report) (p : Passes.Result) : Report :=
  p.transforms.foldl Report.record { r with code := p.code, errors := r.errors ++ p.errors }

def rename (r : Report) : Report :=
  match parsed r.code with
  | .error e => r.fail "Variable rename" e
  | .ok tree =>
    match renameGenerated tree with
    | (_, 0) => r
    | (tree, n) =>
      match tree.printed with
      | .error e => r.fail "Variable rename" e
      | .ok code => { r with code := code }.record
          (Text.ofString (counted "Renamed " " variables" n))

/-- Lays the code out; code that cannot be read, printed or laid out stays as it is. -/
def beautify (r : Report) : Report :=
  match ((parsed r.code).bind Node.printed).toOption.bind Source.beautify? with
  | none => r
  | some code => { r with code := code }.record (Text.ofString "Beautified output")

def toJson (r : Report) : Json :=
  .record [("code", .text r.code), ("transformsApplied", .list (r.transforms.map Json.text)),
    ("errors", .list (r.errors.map Json.text))]

end Report

/-- Recovers readable code from a source. -/
def deobfuscate (stages : Stages) (o : Options) (source : Text) : Report :=
  let r : Report := { code := source }
  let r := if o.isOn .unpackStringArrays then r.resolveStrings stages o else r
  match stages.passes o r.code with
  | .error e => r.fail "Fatal" e
  | .ok p =>
    let r := r.passed p
    let r := if o.isOn .renameVariables then r.rename else r
    if o.isOn .beautifyOutput then r.beautify else r

end Unravel
