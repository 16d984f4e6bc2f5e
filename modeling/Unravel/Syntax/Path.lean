import Unravel.Syntax.Node

/-! Positions in a tree: the subtree indices on the way down from the root. -/

namespace Unravel

/-- A position: which subtree to take at each node from the root down. -/
abbrev Path := List Nat

namespace Path

/-- Whether a position lies strictly below another. -/
def isBelow (p above : Path) : Bool :=
  above.isPrefixOf p && above.length < p.length

end Path

namespace Node

/-- The subtree at a position. -/
def at? (n : Node) : Path → Option Node
  | [] => some n
  | i :: rest => (n.subtrees[i]?).bind fun c => c.2.at? rest

/-- The index of the first subtree in a slot. -/
def index? (n : Node) (f : Field) : Option Nat :=
  n.subtrees.findIdx? fun c => c.1 = f

mutual
/-- All positions with the labels there, in visiting order. -/
def positions (p : Path) : Node → List (Path × Label)
  | .marked _ l cs => (p, l) :: positionsAll p 0 cs
def positionsAll (p : Path) (i : Nat) : List (Field × Node) → List (Path × Label)
  | [] => []
  | (_, n) :: rest => n.positions (p ++ [i]) ++ positionsAll p (i + 1) rest
end

mutual
/-- The positions of marked nodes with their marks, in visiting order. -/
def markedPlaces (p : Path) : Node → List (Path × Nat)
  | .marked m _ cs => (m.toList.map fun k => (p, k)) ++ markedPlacesAll p 0 cs
def markedPlacesAll (p : Path) (i : Nat) : List (Field × Node) → List (Path × Nat)
  | [] => []
  | (_, n) :: rest => n.markedPlaces (p ++ [i]) ++ markedPlacesAll p (i + 1) rest
end

mutual
/-- Changes labels by position. -/
def relabel (f : Path → Label → Label) (p : Path) : Node → Node
  | .marked m l cs => .marked m (f p l) (relabelAll f p 0 cs)
def relabelAll (f : Path → Label → Label) (p : Path) (i : Nat) :
    List (Field × Node) → List (Field × Node)
  | [] => []
  | (fd, n) :: rest => (fd, n.relabel f (p ++ [i])) :: relabelAll f p (i + 1) rest
end

end Node

end Unravel
