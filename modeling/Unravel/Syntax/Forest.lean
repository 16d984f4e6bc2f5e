import Unravel.Syntax.Path

/-! A tree from which nodes are detached one by one. A node is named by its position in the whole
tree throughout. Two things change: the rows of the tree, which members leave, and the links from nodes
to their parents, which a walk over the tree sets and which are cleared one by one. -/

namespace Unravel

/-- Why a node could not be detached. -/
inductive RemovalError where
  | noParent (kind : String)
  | notHeld (kind parent : String)
deriving DecidableEq, Repr

def RemovalError.message : RemovalError → String
  | .noParent kind => kind ++ " node has no parent"
  | .notHeld kind parent => kind ++ " node is not held by its " ++ parent ++ " parent"

/-- The parents of the nodes of a tree as they were set, a node's own and those of its members. -/
inductive Links where
  | mk (parent : Option Path) (members : List Links)

namespace Links

def parent : Links → Option Path
  | .mk p _ => p

def members : Links → List Links
  | .mk _ ks => ks

/-- No parent was set. -/
def unset : Links := .mk none []

/-- The parent that the node at a position has. -/
def parentAt? (k : Links) : Path → Option Path
  | [] => k.parent
  | i :: rest => (k.members[i]?).bind fun c => c.parentAt? rest

/-- Clears the parent of the node at a position. -/
def clear (k : Links) : Path → Links
  | [] => .mk none k.members
  | i :: rest => .mk k.parent (k.members.modify i fun c => c.clear rest)

mutual
/-- Visits a node: each member that it still holds is given the node for its parent, and is visited in
turn. On what is gone nothing is set. -/
def visit (gone : List Path) (p : Path) (k : Links) : Node → Links
  | .marked _ _ cs => .mk k.parent (visitAll gone p 0 k.members cs)
def visitAll (gone : List Path) (p : Path) (i : Nat) (ks : List Links) :
    List (Field × Node) → List Links
  | [] => []
  | (_, n) :: rest =>
    let k := ks.headD unset
    let k := if gone.contains (p ++ [i]) then k else visit gone (p ++ [i]) (.mk (some p) k.members) n
    k :: visitAll gone p (i + 1) ks.tail rest
end

end Links

/-- A tree, the members that have left their rows, and the links from nodes to parents. -/
structure Forest where
  tree : Node
  detached : List Path := []
  links : Links := .unset

namespace Node

mutual
/-- The tree without the nodes at some positions, and with other nodes at others. -/
def edit (gone : List Path) (put : Path → Option Node) (p : Path) : Node → Node
  | .marked m l cs =>
    match put p with
    | some n => n
    | none => .marked m l (editAll gone put p 0 cs)
def editAll (gone : List Path) (put : Path → Option Node) (p : Path) (i : Nat) :
    List (Field × Node) → List (Field × Node)
  | [] => []
  | (f, n) :: rest =>
    let more := editAll gone put p (i + 1) rest
    if gone.contains (p ++ [i]) then more else (f, n.edit gone put (p ++ [i])) :: more
end

end Node

namespace Forest

def label (f : Forest) (p : Path) : Label :=
  ((f.tree.at? p).map Node.label).getD .hole

/-- Gives every node that can be reached from the root its parent. -/
def link (f : Forest) : Forest := { f with links := f.links.visit f.detached [] f.tree }

/-- The parent that a node has by its link. -/
def parent? (f : Forest) (p : Path) : Option Path := f.links.parentAt? p

/-- What the node at a position holds now, slot by slot: each member with its position. -/
def held (f : Forest) (p : Path) : List (Field × Path) :=
  ((f.tree.at? p).map fun n =>
    (n.subtrees.zipIdx.filter fun c => !f.detached.contains (p ++ [c.2])).map fun c =>
      (c.1.1, p ++ [c.2])).getD []

/-- The slot of a row in which the node at one position holds the node at another. -/
def rowOf? (f : Forest) (parent p : Path) : Option Field :=
  ((f.held parent).find? fun m => (f.label parent).isRow m.1 && m.2 = p).map Prod.fst

/-- Takes a node out of the row of its parent that holds it, and clears its link. -/
def detach (f : Forest) (p : Path) : Except RemovalError Forest :=
  match f.parent? p with
  | none => .error (.noParent (f.label p).name)
  | some parent =>
    match f.rowOf? parent p with
    | some _ => .ok { f with detached := p :: f.detached, links := f.links.clear p }
    | none => .error (.notHeld (f.label p).name (f.label parent).name)

/-- The chain of parents, nearest first. The fuel is the depth of the position. -/
def ancestorsFrom (f : Forest) : Nat → Path → List Path
  | 0, _ => []
  | fuel + 1, p =>
    match f.parent? p with
    | none => []
    | some q => q :: f.ancestorsFrom fuel q

def ancestors (f : Forest) (p : Path) : List Path := f.ancestorsFrom p.length p

/-- Whether one of the given nodes is a proper ancestor. -/
def isInside (f : Forest) (p : Path) (among : List Path) : Bool :=
  (f.ancestors p).any among.contains

/-- Whether the chain of parents leads to the root. -/
def isAttached (f : Forest) (p : Path) : Bool :=
  p.isEmpty || (f.ancestors p).contains []

/-- The node at a position as it is now, without what was detached from it. -/
def node? (f : Forest) (p : Path) : Option Node :=
  (f.tree.at? p).map fun n => n.edit f.detached (fun _ => none) p

/-- The whole tree as it is now. -/
def current (f : Forest) : Node := f.tree.edit f.detached (fun _ => none) []

/-- The members before a node in the row that holds it. -/
def precedingSiblings (f : Forest) (p : Path) : List Node :=
  match f.parent? p with
  | none => []
  | some parent =>
    match f.rowOf? parent p with
    | some field =>
      let row := (f.held parent).filter fun m => m.1 = field
      (row.takeWhile fun m => m.2 ≠ p).filterMap fun m => f.node? m.2
    | none => []

end Forest

end Unravel
