import Unravel.Proofs.Tree
import Unravel.Scope.Analysis

/-! The walk of a node as a plan: what each kind of node does with its subtrees, one after the
other, and whether it opens a scope. Facts about walks are proved piece by piece. -/

namespace Unravel

/-- The walk of a tree. -/
def Node.walk (n : Node) : Walk := n.fold Walk.step

/-- What a walk does with a subtree of the node it is at. -/
inductive Piece where
  | declare (field : Field) (reach : Reach) (kind : BindingKind)
  | visit (test : Field → Bool)
  | body
  | tag
  | declarator (reach : Reach)
  | specifier

namespace Piece

/-- Declares what the subtree of `n` in a slot binds. -/
def member (slot : Field) (reach : Reach) (n : Node) (q : Path) : List Event :=
  match n.index? slot, n.child? slot with
  | some j, some target => (target.boundIdentifiers (q ++ [j])).map (.declare reach .var)
  | _, _ => []

/-- A use of the component that a tag name starts with. -/
def component (n : Node) (q : Path) : List Event :=
  match Walk.tagBase? n q with
  | some o => if Walk.tag.startsLower o.name then [] else [.refer o]
  | none => []

/-- The events of a piece at one subtree. -/
def eventsAt (f : Field) (n : Node) (q : Path) : Piece → List Event
  | .declare g reach kind =>
    if f = g then (n.boundIdentifiers q).map (.declare reach kind) else []
  | .visit test => if test f then n.walk.visit q else []
  | .body =>
    if f = .body then
      if n.label = .blockStatement then n.walk.inside q else n.walk.visit q
    else []
  | .tag => if f = .name then component n q else []
  | .declarator reach => member .id reach n q
  | .specifier => if f = .specifiers then member .localName .root n q else []

/-- The events of a piece at all subtrees. -/
def across (cs : List (Field × Node)) (p : Path) (piece : Piece) : List Event :=
  cs.zipIdx.flatMap fun c => piece.eventsAt c.1.1 c.1.2 (p ++ [c.2])

end Piece

/-- What the walk of a node consists of: a use of its own name, pieces outside any scope of its
own, and the scope it opens. -/
structure Plan where
  name : Option String := none
  outer : List Piece := []
  scope : Option (Bool × List Piece) := none

namespace Plan

def everything : Piece := .visit fun _ => true

def slot (f : Field) : Piece := .visit (· = f)

def pieces (plan : Plan) : List Piece := plan.outer ++ (plan.scope.map Prod.snd).getD []

def events (plan : Plan) (l : Label) (cs : List (Field × Node)) (p : Path) : List Event :=
  (plan.name.map fun name => .refer ⟨name,p,false⟩).toList
    ++ plan.outer.flatMap (Piece.across cs p)
    ++ (plan.scope.map fun s => .scope p l s.1 (s.2.flatMap (Piece.across cs p))).toList

end Plan

open Plan in
def Label.plan : Label → Plan
  | .program _ => { scope := some (true, [slot .body]) }
  | .functionDeclaration .. =>
    { outer := [.declare .id .here .function]
      scope := some (true, [.declare .params .here .param, slot .params, .body]) }
  | .functionExpression _ =>
    { scope := some (true,
        [.declare .id .here .var, .declare .params .here .param, slot .params, .body]) }
  | .arrowFunctionExpression _ =>
    { scope := some (true, [.declare .params .here .param, slot .params, .body]) }
  | .blockStatement | .forStatement | .forInStatement _ | .forOfStatement | .switchStatement =>
    { scope := some (false, [everything]) }
  | .catchClause => { scope := some (false, [.declare .param .here .var, slot .param, .body]) }
  | .variableDeclaration kind =>
    { outer := [.declarator (if kind = "var" then .function else .here), everything] }
  | .classDeclaration =>
    { outer := [.declare .id .here .var, slot .superClass, slot .body] }
  | .classExpression =>
    { scope := some (false, [.declare .id .here .var, slot .superClass, slot .body]) }
  | .importDeclaration => { outer := [.specifier] }
  | .identifier name => { name := name }
  | .memberExpression computed =>
    { outer := slot .object :: if computed then [slot .property] else [] }
  | .property computed .. | .methodDefinition computed .. =>
    { outer := (if computed then [slot .key] else []) ++ [slot .value] }
  | .labeledStatement => { outer := [slot .body] }
  | .breakStatement | .continueStatement | .metaProperty => {}
  | .exportSpecifier => { outer := [slot .localName] }
  | .jsxOpeningElement _ => { outer := [.tag, slot .attributes] }
  | .jsxClosingElement => { outer := [.tag] }
  | _ => { outer := [everything] }

namespace Walk
variable (cs : List (Field × Node)) (p : Path)

/-- The subtrees as a step sees them. -/
private abbrev entries : Entries := cs.map fun c => (c.1, c.2, c.2.walk)

private theorem zipIdx_entries {α : Type} (F : (Field × Node × Walk) × Nat → List α) :
    (entries cs).zipIdx.flatMap F =
      cs.zipIdx.flatMap fun c => F ((c.1.1, c.1.2, c.1.2.walk), c.2) := by
  simp only [entries, List.zipIdx_map, List.flatMap_map]
  rfl

private theorem through_eq (test : Field → Bool) :
    through (entries cs) test p = Piece.across cs p (.visit test) := by
  rw [through, zipIdx_entries]
  rfl

private theorem slot_eq (f : Field) : slot (entries cs) f p = Piece.across cs p (Plan.slot f) := by
  rw [slot, through_eq]
  rfl

private theorem declares_eq (f : Field) (reach : Reach) (kind : BindingKind) :
    declares (entries cs) f reach kind p = Piece.across cs p (.declare f reach kind) := by
  rw [declares, zipIdx_entries]
  rfl

private theorem body_eq : body (entries cs) p = Piece.across cs p .body := by
  rw [body, zipIdx_entries]
  rfl

private theorem tag_eq : tag (entries cs) p = Piece.across cs p .tag := by
  rw [tag, zipIdx_entries]
  rfl

private theorem declarators_eq (kind : String) :
    declarators kind (entries cs) p =
      Piece.across cs p (.declarator (if kind = "var" then .function else .here))
        ++ Piece.across cs p Plan.everything := by
  rw [declarators, through_eq, zipIdx_entries]
  simp only [Piece.across, Piece.eventsAt, Piece.member, List.append_assoc, List.singleton_append]
  rfl

private theorem imports_eq : imports (entries cs) p = Piece.across cs p .specifier := by
  rw [imports, zipIdx_entries]
  refine List.flatMap_congr fun c _ => ?_
  have hpath (j : Nat) : p ++ [c.2, j] = (p ++ [c.2]) ++ [j] := by simp
  simp only [hpath]
  rfl

theorem visit_step (l : Label) :
    (step l (entries cs)).visit p = l.plan.events l cs p := by
  cases l <;>
    simp [step, Label.plan, Plan.events, through_eq, slot_eq, declares_eq, body_eq, tag_eq,
      declarators_eq, imports_eq, function, keyed, Plan.everything] <;>
    split <;> simp

end Walk

namespace Node
variable (m : Option Nat) (l : Label) (cs : List (Field × Node)) (p : Path)

theorem walk_visit : (marked m l cs).walk.visit p = l.plan.events l cs p := by
  rw [walk, fold_marked]
  exact Walk.visit_step cs p l

theorem walk_inside : (marked m l cs).walk.inside p = Plan.everything.across cs p := by
  rw [walk, fold_marked]
  exact Walk.through_eq cs p fun _ => true

end Node

end Unravel
