import Unravel.Syntax.Rule

/-! Trees in which a statement stands at several places. The places hold one node, known by its
mark: what a visit makes of it at one place shows at the others, and a later visit meets it as the
earlier one left it. Everything inside a marked node is marked. -/

namespace Unravel

namespace Node

/-- The node with another label and other subtrees, under the same mark. -/
def update (n : Node) (l : Label) (cs : List (Field × Node)) : Node := .marked n.mark? l cs

mutual
/-- The marks of a tree, place by place. -/
def marks : Node → List Nat
  | .marked m _ cs => m.toList ++ marksAll cs
def marksAll : List (Field × Node) → List Nat
  | [] => []
  | (_, n) :: rest => n.marks ++ marksAll rest
end

/-- Whether some node may stand at several places. -/
def hasMarks (n : Node) : Bool := !n.marks.isEmpty

/-- The least number above all marks of a tree. -/
def nextMark (n : Node) : Nat := n.marks.foldl (fun k m => max k (m + 1)) 0

mutual
/-- Marks every node that has no mark yet by a number of its own, from `next` on. -/
def number (next : Nat) : Node → Node × Nat
  | .marked m l cs =>
    let (cs, k) := numberAll (if m.isNone then next + 1 else next) cs
    (.marked (some (m.getD next)) l cs, k)
def numberAll (next : Nat) : List (Field × Node) → List (Field × Node) × Nat
  | [] => ([], next)
  | (f, n) :: rest =>
    let (n, k) := n.number next
    let (rest, k) := numberAll k rest
    ((f, n) :: rest, k)
end

/-- How many places each mark has. -/
def places (n : Node) : Array Nat :=
  n.marks.foldl (fun counts m => counts.modify m (· + 1)) (Array.replicate n.nextMark 0)

mutual
/-- Takes away marks that do not satisfy a test. -/
def unmark (test : Nat → Bool) : Node → Node
  | .marked m l cs => .marked (m.filter test) l (unmarkAll test cs)
def unmarkAll (test : Nat → Bool) : List (Field × Node) → List (Field × Node)
  | [] => []
  | (f, n) :: rest => (f, n.unmark test) :: unmarkAll test rest
end

/-- Keeps only the marks that stand at several places. -/
def dropSingleMarks (n : Node) : Node :=
  let counts := n.places
  n.unmark fun m => counts.getD m 0 > 1

end Node

/-- The marked nodes as they are now, and so the next free mark. -/
structure Repeats where
  current : Array (Option Node)

namespace Repeats

def ofTree (n : Node) : Repeats := ⟨Array.replicate n.nextMark none⟩

/-- A node as the last visit to it left it. -/
def latest (s : Repeats) (n : Node) : Node :=
  match n.mark? with
  | none => n
  | some m => (s.current.getD m none).getD n

/-- Marks what is new among the subtrees of a marked node. -/
def claim (s : Repeats) (n : Node) (cs : List (Field × Node)) :
    List (Field × Node) × Repeats :=
  if n.mark?.isNone then (cs, s)
  else
    let size := s.current.size
    let (cs, next) := Node.numberAll size cs
    (cs, ⟨s.current ++ Array.replicate (next - size) none⟩)

/-- Notes what a visit made of a node. -/
def note (s : Repeats) (n : Node) : Node × Repeats :=
  match n.mark? with
  | none => (n, s)
  | some m =>
    let (cs, s) := s.claim n n.subtrees
    let n := n.update n.label cs
    (n, ⟨s.current.set! m (some n)⟩)

mutual
/-- Brings every place of a marked node up to date. The fuel bounds the nesting. -/
def refresh (s : Repeats) : Nat → Node → Node
  | 0, n => n
  | fuel + 1, n =>
    let n := s.latest n
    n.update n.label (s.refreshAll fuel n.subtrees)
def refreshAll (s : Repeats) (fuel : Nat) (cs : List (Field × Node)) : List (Field × Node) :=
  cs.map fun (f, n) => (f, s.refresh fuel n)
end

end Repeats

namespace Rule

/-- The members before a node in its row: those before its first place there. -/
def membersBefore (before : List (Field × Node)) (f : Field) (n : Node) : List Node :=
  ((before.filter fun c => c.1 = f).map Prod.snd).takeWhile fun b =>
    n.mark?.isNone || b.mark? != n.mark?

mutual
/-- Visits a tree whose nodes may stand at several places. The fuel bounds the nesting. -/
def visitRepeated (r : Rule) : Nat → Context → Node → StateM Repeats Visit
  | 0, _, n => return .keep n
  | fuel + 1, ctx, n => do
    let n := (← get).latest n
    let v ← match r.early n with
      | some v => pure v
      | none => do
        let (done, k) ← r.visitAllRepeated fuel n.label [] n.subtrees
        let done ← modifyGet fun s => s.claim n done
        let v := r.finish ctx (n.update n.label done)
        pure { v with count := k + v.count }
    let kept ← modifyGet fun s => s.note v.kept
    return { v with kept := kept }
/-- Visits subtrees in order; `before` holds those already visited, as they were. -/
def visitAllRepeated (r : Rule) (fuel : Nat) (l : Label) (before : List (Field × Node)) :
    List (Field × Node) → StateM Repeats (List (Field × Node) × Nat)
  | [] => return ([], 0)
  | (f, n) :: rest => do
    let (here, k) ←
      if n.isHole then pure ([(f, n)], 0)
      else do
        let v ← r.visitRepeated fuel ⟨some l, f, membersBefore before f n⟩ n
        pure (place l f n v.result, v.count)
    let (more, m) ← r.visitAllRepeated fuel l (before ++ [(f, n)]) rest
    return (here ++ more, k + m)
end

/-- Applies a rule to a whole tree whose nodes may stand at several places. A visit may put a
block around each statement, so a place lies at most twice as deep as there are nodes. -/
def runRepeated (r : Rule) (tree : Node) : Node × Nat :=
  let fuel := 2 * tree.size + 2
  let (v, s) := (r.visitRepeated fuel top tree).run (.ofTree tree)
  (s.refresh fuel v.kept, v.count)

/-- Applies a rule to a whole tree. -/
def run (r : Rule) (tree : Node) : Node × Nat :=
  if tree.hasMarks then r.runRepeated tree else r.runOnce tree

end Rule

end Unravel
