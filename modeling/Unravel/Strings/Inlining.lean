import Unravel.Source.Parse.Program
import Unravel.Source.Printer
import Unravel.Strings.Resolver

/-! Resolution of hidden strings on source text. -/

namespace Unravel

/-- The printed form of a tree. -/
def Node.printed (n : Node) : Except Text Text :=
  match n.print with
  | .ok s => .ok (Text.ofString s)
  | .error e => .error (Text.ofString e.message)

namespace Strings

/-- Source after resolution, with how much was done. -/
structure Inlined where
  code : Text
  replacements : Nat := 0
  removed : Nat := 0
  sessions : List Session := []

/-- What the resolution of a source works with. An overlong integer is not written. -/
def Setup.ofSource (engine : Engine) (code : Text) : Setup Text :=
  { code := code, print := Node.printed, engine := engine
    refuses := fun n => if n.isOverlong then some (Text.ofString Number.overlongMessage) else none }

/-- Inlines the strings behind the decoders of a source. Source that cannot be parsed, or not
printed afterwards, is left as it is. -/
def inline (engine : Engine) (rotate : Bool) (code : Text) : Except Text Inlined :=
  match Source.parse code with
  | .error _ => .ok { code := code }
  | .ok parsed => do
    let r ← resolve (Setup.ofSource engine code) rotate parsed.tree
    if r.replacements = 0 && r.removed = 0 then return { code := code, sessions := r.sessions }
    match r.tree.printed with
    | .error _ => return { code := code, sessions := r.sessions }
    | .ok printed => return ⟨printed, r.replacements, r.removed, r.sessions⟩

end Strings

end Unravel
