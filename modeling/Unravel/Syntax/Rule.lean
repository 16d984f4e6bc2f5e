import Unravel.Syntax.Node

/-! Changing a tree bottom-up by a local rule. A rule may put a node, a run of statements or
nothing in the place of a node; the slot it stands in decides how that fits. -/

namespace Unravel

/-- What a rule puts in the place of a node. -/
inductive Replacement where
  | node (n : Node)
  | statements (ns : List Node)
  | nothing

/-- Where a node stands: the label above it, its slot, and the members before it in its row. -/
structure Context where
  parent : Option Label
  field : Field
  earlier : List Node

/-- The outcome of visiting a node: the node itself after the visit, what takes its place if it
does not stay, and how many changes were counted. -/
structure Visit where
  kept : Node
  replaced : Option Replacement
  count : Nat

namespace Visit

def keep (n : Node) : Visit := ⟨n, none, 0⟩

/-- The node itself is changed. -/
def change (n : Node) : Visit := ⟨n, none, 1⟩

/-- Another thing takes the place of the node. -/
def replace (n : Node) (r : Replacement) : Visit := ⟨n, some r, 1⟩

/-- What stands in the node's place after the visit. -/
def result (v : Visit) : Replacement := v.replaced.getD (.node v.kept)

end Visit

/-- A local rule: `early` may settle a node before its subtrees are visited, `finish` decides
about it afterwards. -/
structure Rule where
  early : Node → Option Visit := fun _ => none
  finish : Context → Node → Visit

namespace Rule

/-- Fits a replacement into a slot. A row takes any number of nodes. A single slot takes a run of
statements as a block, and where a statement vanished an empty one stays, unless the slot is an
`else` branch, which may be absent. -/
def place (l : Label) (f : Field) (old : Node) (r : Replacement) : List (Field × Node) :=
  match r with
  | .node n => [(f, n)]
  | .statements ns =>
    if l.isRow f then ns.map fun n => (f, n) else [(f, .block ns)]
  | .nothing =>
    if l.isRow f then []
    else if old.isStatement && f != .alternate then [(f, .empty)]
    else []

mutual
/-- Visits a tree in which every node stands at one place. -/
def visit (r : Rule) (ctx : Context) : Node → Visit
  | .marked m l cs =>
    match r.early (.marked m l cs) with
    | some v => v
    | none =>
      let (done, k) := r.visitAll l [] cs
      let v := r.finish ctx (.marked m l done)
      { v with count := k + v.count }
/-- Visits subtrees in order; `before` holds those already visited, as they were. -/
def visitAll (r : Rule) (l : Label) (before : List (Field × Node)) :
    List (Field × Node) → List (Field × Node) × Nat
  | [] => ([], 0)
  | (f, n) :: rest =>
    let earlier := (before.filter fun c => c.1 = f).map Prod.snd
    let v := r.visit ⟨some l, f, earlier⟩ n
    let here := if n.isHole then [(f, n)] else place l f n v.result
    let k := if n.isHole then 0 else v.count
    let (more, m) := r.visitAll l (before ++ [(f, n)]) rest
    (here ++ more, k + m)
end

/-- The place of a whole tree. -/
def top : Context := ⟨none, .body, []⟩

/-- Applies a rule to a whole tree in which every node stands at one place. The root stays in its
place, whatever the rule makes of it. -/
def runOnce (r : Rule) (tree : Node) : Node × Nat :=
  let v := r.visit top tree
  (v.kept, v.count)

end Rule

end Unravel
