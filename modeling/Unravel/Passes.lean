import Unravel.Options
import Unravel.Syntax.Node

/-! The pass loop. A pass parses the code, runs every simplification on the tree and prints it
again; passes are repeated while they change something. A simplification that fails is dropped,
and the pass in which it failed leaves no trace. -/

namespace Unravel

/-- A simplification: the setting that switches it, how errors name it, how its work is reported,
and what it does to a tree. It may fail, and may answer differently each time. -/
structure Matcher (σ : Type) where
  setting : Setting
  label : String
  report : Nat → String
  run : Node → StateM σ (Except Text (Node × Nat))

/-- How code is read and written in a pass. -/
structure Tools (σ : Type) where
  parse : Text → StateM σ (Except Text Node)
  print : Node → StateM σ (Except Text Text)

namespace Passes

/-- The most passes that are made. -/
def limit : Nat := 10

/-- Work done by setting. -/
abbrev Counts := List (Setting × Nat)

def Counts.of (counts : Counts) (s : Setting) : Nat :=
  (counts.filter fun c => c.1 = s).foldl (fun total c => total + c.2) 0

/-- What the passes have come to: the code, the work behind it, the simplifications still in use
and what went wrong. -/
structure Progress (σ : Type) where
  code : Text
  matchers : List (Matcher σ)
  counts : Counts := []
  errors : List Text := []

variable {σ : Type}

def Progress.fail (p : Progress σ) (what : String) (pass : Nat) (e : Text) : Progress σ :=
  { p with errors := p.errors ++
      [Text.ofString (what ++ " error (pass " ++ Nat.repr pass ++ "): ") ++ e] }

/-- The outcome of a pass on a tree. -/
inductive Outcome (σ : Type) where
  | done (tree : Node) (counts : Counts)
  | failed (matcher : Matcher σ) (others : List (Matcher σ)) (e : Text)

/-- Runs simplifications in order until one fails. -/
def runAll (before : List (Matcher σ)) : List (Matcher σ) → Node → Counts → StateM σ (Outcome σ)
  | [], tree, counts => return .done tree counts
  | m :: rest, tree, counts => do
    match ← m.run tree with
    | .error e => return .failed m (before ++ rest) e
    | .ok (tree, n) => runAll (before ++ [m]) rest tree (counts ++ [(m.setting, n)])

/-- Makes up to a number of passes, the first of which has the given number. -/
def loop (tools : Tools σ) : Nat → Nat → Progress σ → StateM σ (Progress σ)
  | 0, _, p => return p
  | left + 1, pass, p => do
    match ← tools.parse p.code with
    | .error e => return p.fail "Parse" pass e
    | .ok tree =>
      match ← runAll [] p.matchers tree [] with
      | .failed m others e =>
        let p := { p.fail m.label pass e with matchers := others }
        if others.isEmpty then return p else loop tools left (pass + 1) p
      | .done tree counts =>
        if counts.all fun c => c.2 = 0 then return p
        match ← tools.print tree with
        | .error e => return p.fail "Generation" pass e
        | .ok code =>
          let p := { p with counts := p.counts ++ counts }
          if code = p.code then return p
          else loop tools left (pass + 1) { p with code := code }

/-- Runs the passes with the simplifications that are switched on. -/
def run (tools : Tools σ) (matchers : List (Matcher σ)) (o : Options) (code : Text) :
    StateM σ (Progress σ) :=
  match matchers.filter fun m => o.isOn m.setting with
  | [] => return { code := code, matchers := [] }
  | active => loop tools limit 1 { code := code, matchers := active }

/-- What came of the passes: the code, and in words what was done and what went wrong. -/
structure Result where
  code : Text
  transforms : List Text
  errors : List Text

/-- The outcome in words. The work is reported in the order of all the simplifications. -/
def Progress.result (p : Progress σ) (matchers : List (Matcher σ)) : Result :=
  { code := p.code
    errors := p.errors
    transforms := matchers.filterMap fun m =>
      match p.counts.of m.setting with
      | 0 => none
      | n => some (Text.ofString (m.report n)) }

end Passes

end Unravel
