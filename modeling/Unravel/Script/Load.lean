import Unravel.Script.Compile.Program
import Unravel.Script.Early
import Unravel.Script.Machine
import Unravel.Source.Parse.Program

/-! From the text of a script to a function of the machine. -/

namespace Unravel.Script

mutual
/-- Numbers the functions and classes of a tree in the order in which they end, from a number on;
gives the next number as well. -/
def numbered : Node → Nat → Node × Nat
  | .marked m l cs, k =>
    let (cs, k) := numberedAll cs k
    match l with
    | .functionDeclaration .. | .functionExpression _ | .arrowFunctionExpression _
    | .classDeclaration | .classExpression => (.marked (some k) l cs, k + 1)
    | _ => (.marked m l cs, k)
def numberedAll : List (Field × Node) → Nat → List (Field × Node) × Nat
  | [], k => ([], k)
  | (f, n) :: rest, k =>
    let (n, k) := numbered n k
    let (rest, k) := numberedAll rest k
    ((f, n) :: rest, k)
end

/-- The statements of a script with its functions numbered, and where these stand in its text, if
it is a text that may be run. -/
def statementsOf? (setting : Early.Setting) (script : Text) : Option (List Node × Array Span) :=
  if script.any Text.isSurrogate then none
  else
    match Source.parseAs false script with
    | .ok parsed =>
      if parsed.runs && Early.keepsRules setting (parsed.tree.row .body) then
        if parsed.functions.isEmpty then some (parsed.tree.row .body, #[])
        else some ((numbered parsed.tree 0).1.row .body, parsed.functions)
      else none
    | .error _ => none

namespace Run

def malformed {α : Type} : Run α := raise .form "Invalid or unexpected token"

/-- Compiles a text and adds it to the machine. -/
def load (setting : Early.Setting) (text : Text) (compile : Loading → Except String Compiled) :
    Run Code := do
  match statementsOf? setting text with
  | none => malformed
  | some (statements, spans) =>
    let m ← get
    match compile
      { codes := m.codes.size, sites := m.sites.size, templateSites := m.templateSites
        script := m.scripts.size, statements := statements, spans := spans } with
    | .ok compiled =>
      modify fun m => { m with
        codes := m.codes ++ compiled.codes
        sites := m.sites ++ compiled.sites
        templateSites := compiled.templateSites
        -- only functions ask for their text
        scripts := if spans.isEmpty then m.scripts else m.scripts.push text.toArray }
      return compiled.main
    | .error e => raise .form e

/-- The code of a script. -/
def loadText (text : Text) : Run Code := load {} text Compile.script

def loadScript (text : Units) : Run Code := loadText text.toText

/-- The code of text that is run in place. The functions around it are not known, so it may mention
what only some of them may. -/
def loadInPlace (site : EvalSite) (text : Units) : Run Code :=
  load
    { strict := site.strict, hasParentMembers := true, hasParentConstructor := true
      hasTarget := true }
    text.toText (Compile.inPlace site)

/-- The text of a function with given parameters and body. -/
def functionText (kind : FunctionKind) (params body : Units) : Units :=
  let start := match kind with
    | .generator => "(function* anonymous("
    | .asynchronous => "(async function anonymous("
    | _ => "(function anonymous("
  Units.ofString start ++ params ++ .ofString "\n) \x7b\n" ++ body ++ .ofString "\n\x7d)"

end Run

end Unravel.Script
