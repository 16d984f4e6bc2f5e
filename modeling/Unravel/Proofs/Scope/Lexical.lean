import Unravel.Proofs.Scope.Sites

/-! Lexical scoping, told by the tree alone: which scopes are around a place, what is declared in
each of them, and where names are used. The walk of a tree tells the same. -/

namespace Unravel

/-- Scopes around a place, innermost first: where each stands, and whether it is a function's. -/
abbrev Enclosing := List (Path × Bool)

namespace Label

/-- Whether a node opens a scope, and whether that is a function scope. -/
def opens : Label → Option Bool
  | .program _ | .functionDeclaration .. | .functionExpression _ | .arrowFunctionExpression _ =>
    some true
  | .blockStatement | .forStatement | .forInStatement _ | .forOfStatement | .switchStatement
  | .catchClause | .classExpression => some false
  | _ => none

/-- Whether names in a slot are uses of names. Declared names of functions, classes and imports are
none, and neither are labels, names of members and keys that are not computed. -/
def walks : Label → Field → Bool
  | .program _, f | .labeledStatement, f => f = .body
  | .functionDeclaration .., f | .functionExpression _, f | .arrowFunctionExpression _, f =>
    f = .params || f = .body
  | .catchClause, f => f = .param || f = .body
  | .classDeclaration, f | .classExpression, f => f = .superClass || f = .body
  | .memberExpression computed, f => f = .object || (computed && f = .property)
  | .property computed .., f | .methodDefinition computed .., f =>
    (computed && f = .key) || f = .value
  | .exportSpecifier, f => f = .localName
  | .jsxOpeningElement _, f => f = .attributes
  | .importDeclaration, _ | .breakStatement, _ | .continueStatement, _ | .metaProperty, _
  | .jsxClosingElement, _ | .identifier _, _ => false
  | _, _ => true

/-- Functions and handlers: a block that is their body opens no scope of its own. -/
def hasBody : Label → Bool
  | .functionDeclaration .. | .functionExpression _ | .arrowFunctionExpression _ | .catchClause =>
    true
  | _ => false

def isBody (l : Label) (f : Field) (c : Node) : Bool :=
  l.hasBody && f = .body && c.label = .blockStatement

/-- The scope that a node at a place opens. -/
def opened (l : Label) (isBody : Bool) (p : Path) : Enclosing :=
  if isBody then [] else (l.opens.map fun f => (p, f)).toList

end Label

namespace Node

/-- The scopes around a place below a node at `p`, if the place holds uses of names. -/
def enclosing? (isBody : Bool) (n : Node) (p : Path) : Path → Option Enclosing
  | [] => some []
  | i :: q => do
    let c ← n.subtrees[i]?
    if n.label.walks c.1 then
      let inner ← c.2.enclosing? (n.label.isBody c.1 c.2) (p ++ [i]) q
      return inner ++ n.label.opened isBody p
    else none

/-- What the subtrees in a slot bind. -/
def binds (n : Node) (f : Field) (p : Path) : List Occurrence :=
  n.subtrees.zipIdx.flatMap fun c =>
    if c.1.1 = f then c.1.2.boundIdentifiers (p ++ [c.2]) else []

/-- What one slot of each subtree binds. -/
def memberBinds (n : Node) (test : Field → Bool) (f : Field) (p : Path) : List Occurrence :=
  n.subtrees.zipIdx.flatMap fun c =>
    if test c.1.1 then
      match c.1.2.index? f, c.1.2.child? f with
      | some j, some target => target.boundIdentifiers (p ++ [c.2] ++ [j])
      | _, _ => []
    else []

/-- What a node declares in the scopes around it, and how far out. -/
def outward (n : Node) (p : Path) : List (Reach × BindingKind × Occurrence) :=
  match n.label with
  | .functionDeclaration .. => (n.binds .id p).map fun o => (.here, .function, o)
  | .classDeclaration => (n.binds .id p).map fun o => (.here, .var, o)
  | .variableDeclaration kind =>
    (n.memberBinds (fun _ => true) .id p).map fun o =>
      (if kind = "var" then .function else .here, .var, o)
  | .importDeclaration =>
    (n.memberBinds (· = .specifiers) .localName p).map fun o => (.root, .var, o)
  | _ => []

/-- What a node declares in the scope that it opens. -/
def inward (n : Node) (p : Path) : List (BindingKind × Occurrence) :=
  match n.label with
  | .functionDeclaration .. | .arrowFunctionExpression _ =>
    (n.binds .params p).map fun o => (.param, o)
  | .functionExpression _ =>
    ((n.binds .id p).map fun o => (.var, o)) ++ (n.binds .params p).map fun o => (.param, o)
  | .catchClause => (n.binds .param p).map fun o => (.var, o)
  | .classExpression => (n.binds .id p).map fun o => (.var, o)
  | _ => []

/-- The names that a node itself uses: an identifier its own, an element that of its component. -/
def uses (n : Node) (p : Path) : List Occurrence :=
  match n.label with
  | .identifier name => [⟨name,p,false⟩]
  | .jsxOpeningElement _ | .jsxClosingElement =>
    n.subtrees.zipIdx.flatMap fun c =>
      if c.1.1 = .name then
        ((Walk.tagBase? c.1.2 (p ++ [c.2])).filter fun o => !Walk.tag.startsLower o.name).toList
      else []
  | _ => []

end Node

/-- The scope that a declaration lands in. -/
def Reach.scope? : Reach → Enclosing → Option Path
  | .here, around => around.head?.map Prod.fst
  | .function, around => (around.find? Prod.snd).map Prod.fst
  | .root, around => around.getLast?.map Prod.fst

namespace Node
variable (n : Node)

/-- A subtree of a program in which names are used, and the scopes around it. -/
def Visits (q : Path) (c : Node) (around : Enclosing) : Prop :=
  n.at? q = some c ∧ n.enclosing? false [] q = some around

/-- An identifier is declared in the scope at a place. -/
def DeclaredIn (s : Path) (kind : BindingKind) (o : Occurrence) : Prop :=
  ∃ q c around, n.Visits q c around ∧
    ((∃ reach, (reach, kind, o) ∈ c.outward q ∧ reach.scope? around = some s) ∨
      (kind, o) ∈ c.inward q ∧ q = s)

def Declares (s : Path) (name : String) : Prop := ∃ kind o, n.DeclaredIn s kind o ∧ o.name = name

/-- A name is used, and not declared by the same identifier. -/
def RefersAt (around : Enclosing) (o : Occurrence) : Prop :=
  (∃ q c, n.Visits q c around ∧ o ∈ c.uses q) ∧ ∀ s kind d, n.DeclaredIn s kind d → d.path ≠ o.path

/-- Of the scopes around a place, the innermost one that declares a name. -/
def Innermost (around : Enclosing) (name : String) (s : Path) : Prop :=
  ∃ inner f outer, around = inner ++ (s, f) :: outer ∧ n.Declares s name ∧
    ∀ t ∈ inner, ¬n.Declares t.1 name

end Node

/-! ### Events in their scopes -/

namespace Event

/-- A scope that events open, with the events in it. -/
abbrev Opened := Path × Bool × List Event

mutual
/-- All declarations and uses of an event, with the scopes around each, innermost first. -/
def parts : Event → List (List Opened × Event)
  | .declare reach kind o => [([], .declare reach kind o)]
  | .refer o => [([], .refer o)]
  | .scope p _ isFunction events =>
    (partsAll events).map fun x => (x.1 ++ [(p, isFunction, events)], x.2)
def partsAll : List Event → List (List Opened × Event)
  | [] => []
  | e :: rest => parts e ++ partsAll rest
end

theorem partsAll_eq (es : List Event) : partsAll es = es.flatMap parts := by
  induction es with
  | nil => rfl
  | cons e es ih => rw [partsAll, ih, List.flatMap_cons]

def enclosing (around : List Opened) : Enclosing := around.map fun s => (s.1, s.2.1)

/-- The declarations and uses of events, each with the places of the scopes around it. -/
def placed (es : List Event) : List (Enclosing × Event) :=
  (partsAll es).map fun x => (enclosing x.1, x.2)

theorem placed_flatMap {α : Type} (xs : List α) (F : α → List Event) :
    placed (xs.flatMap F) = xs.flatMap fun x => placed (F x) := by
  simp only [placed, partsAll_eq, List.flatMap_assoc, List.map_flatMap]

theorem placed_append (es ds : List Event) : placed (es ++ ds) = placed es ++ placed ds := by
  simp [placed, partsAll_eq]

theorem placed_scope (p : Path) (l : Label) (f : Bool) (es : List Event) :
    placed [.scope p l f es] = (placed es).map fun x => (x.1 ++ [(p, f)], x.2) := by
  simp [placed, partsAll, parts, enclosing]

theorem placed_leaves {α : Type} (xs : List α) (F : α → Event)
    (h : ∀ x, parts (F x) = [([], F x)]) : placed (xs.map F) = xs.map fun x => ([], F x) := by
  rw [placed, partsAll_eq, List.flatMap_map, List.map_flatMap, List.map_eq_flatMap]
  refine List.flatMap_congr fun x _ => ?_
  rw [h]
  rfl

end Event

/-! ### The walk of a node -/

/-- The walk of a node, or of a block as the body of a function or handler. -/
def Node.walkAs (isBody : Bool) (n : Node) (q : Path) : List Event :=
  if isBody then n.walk.inside q else n.walk.visit q

namespace Piece

/-- Whether a piece walks the subtree in a slot. -/
def follows (f : Field) : Piece → Bool
  | .visit test => test f
  | .body => f = .body
  | _ => false

def isBody : Piece → Bool
  | .body => true
  | _ => false

/-- The declarations and uses of a piece at a subtree that it does not walk. -/
def leaves (f : Field) (n : Node) (q : Path) : Piece → List Event
  | .declare g reach kind =>
    if f = g then (n.boundIdentifiers q).map (.declare reach kind) else []
  | .tag => if f = .name then component n q else []
  | .declarator reach => member .id reach n q
  | .specifier => if f = .specifiers then member .localName .root n q else []
  | .visit _ | .body => []

theorem eventsAt_eq (piece : Piece) (f : Field) (n : Node) (q : Path) :
    piece.eventsAt f n q =
      piece.leaves f n q ++
        if piece.follows f then n.walkAs (piece.isBody && n.label = .blockStatement) q else [] := by
  cases piece <;> simp [eventsAt, leaves, follows, isBody, Node.walkAs]

end Piece

namespace Label

theorem opens_eq (l : Label) : l.opens = l.plan.scope.map Prod.fst := by
  cases l <;> rfl

/-- The slots in which names are used are those that some piece walks. -/
theorem walks_iff (l : Label) (f : Field) (b : Bool) :
    (l.walks f = true ∧ b = (l.hasBody && f = .body)) ↔
      ∃ piece ∈ l.plan.pieces, piece.follows f = true ∧ piece.isBody = b := by
  cases l <;>
    simp [walks, hasBody, plan, Plan.pieces, Plan.slot, Plan.everything, Piece.follows, Piece.isBody] <;>
    grind

/-- A node that opens a scope walks its subtrees in it. -/
theorem follows_outer {l : Label} (h : l.opens ≠ none) {piece : Piece} (hp : piece ∈ l.plan.outer)
    (f : Field) : piece.follows f = false := by
  cases l <;> simp [opens] at h <;> simp [plan] at hp
  rw [hp]
  rfl

end Label

namespace Node

section Leaves
variable (n : Node) (p : Path)

/-- The declarations and uses of a piece in all subtrees, without what it walks. -/
private def leaves (piece : Piece) : List Event :=
  n.subtrees.zipIdx.flatMap fun c => piece.leaves c.1.1 c.1.2 (p ++ [c.2])

private theorem leaves_declare (f : Field) (reach : Reach) (kind : BindingKind) :
    n.leaves p (.declare f reach kind) = (n.binds f p).map (.declare reach kind) := by
  simp only [leaves, Piece.leaves, binds, List.map_flatMap, apply_ite (List.map _), List.map_nil]

private theorem leaves_visit (test : Field → Bool) : n.leaves p (.visit test) = [] := by
  simp [leaves, Piece.leaves]

private theorem leaves_body : n.leaves p .body = [] := by
  simp [leaves, Piece.leaves]

private theorem leaves_tag :
    n.leaves p .tag = (n.subtrees.zipIdx.flatMap fun c =>
      if c.1.1 = .name then
        ((Walk.tagBase? c.1.2 (p ++ [c.2])).filter fun o => !Walk.tag.startsLower o.name).toList
      else []).map .refer := by
  simp only [leaves, Piece.leaves, List.map_flatMap]
  refine List.flatMap_congr fun c _ => ?_
  split
  · rw [Piece.component]
    cases ho : Walk.tagBase? c.1.2 (p ++ [c.2]) with
    | none => rfl
    | some o => cases hs : Walk.tag.startsLower o.name <;> simp [Option.filter, hs]
  · rfl

private theorem leaves_member (test : Field → Bool) (f : Field) (reach : Reach) :
    (n.subtrees.zipIdx.flatMap fun c =>
      if test c.1.1 then Piece.member f reach c.1.2 (p ++ [c.2]) else []) =
      (n.memberBinds test f p).map (.declare reach .var) := by
  simp only [memberBinds, List.map_flatMap]
  refine List.flatMap_congr fun c _ => ?_
  split
  · rw [Piece.member]
    cases c.1.2.index? f with
    | none => rfl
    | some j => cases c.1.2.child? f <;> rfl
  · rfl

private theorem leaves_declarator (reach : Reach) :
    n.leaves p (.declarator reach) =
      (n.memberBinds (fun _ => true) .id p).map (.declare reach .var) := by
  rw [← leaves_member]
  rfl

private theorem leaves_specifier :
    n.leaves p .specifier =
      (n.memberBinds (· = .specifiers) .localName p).map (.declare .root .var) := by
  rw [← leaves_member]
  simp [leaves, Piece.leaves]

private theorem outer_leaves :
    (n.label.plan.name.map fun name => Event.refer ⟨name,p,false⟩).toList
        ++ n.label.plan.outer.flatMap (n.leaves p) =
      (n.uses p).map .refer ++ (n.outward p).map fun d => .declare d.1 d.2.1 d.2.2 := by
  unfold uses outward
  cases n.label <;>
    simp [Label.plan, Plan.slot, Plan.everything, leaves_visit, leaves_tag, leaves_declare,
      leaves_declarator, leaves_specifier, Function.comp_def]

private theorem inner_leaves :
    ((n.label.plan.scope.map Prod.snd).getD []).flatMap (n.leaves p) =
      (n.inward p).map fun d => .declare .here d.1 d.2 := by
  unfold inward
  cases n.label <;>
    simp [Label.plan, Plan.slot, Plan.everything, leaves_visit, leaves_body, leaves_declare,
      Function.comp_def]

private theorem mem_placed_pieces (pieces : List Piece) {x : Enclosing × Event} :
    x ∈ Event.placed (pieces.flatMap (Piece.across n.subtrees p)) ↔
      x ∈ Event.placed (pieces.flatMap (n.leaves p)) ∨
        ∃ piece ∈ pieces, ∃ c ∈ n.subtrees.zipIdx, piece.follows c.1.1 = true ∧
          x ∈ Event.placed
            (c.1.2.walkAs (piece.isBody && c.1.2.label = .blockStatement) (p ++ [c.2])) := by
  simp only [Event.placed_flatMap, Piece.across, leaves, Piece.eventsAt_eq, Event.placed_append,
    List.mem_flatMap, List.mem_append]
  constructor
  · rintro ⟨piece,hp,c,hc,hx | hx⟩
    · exact .inl ⟨piece,hp,c,hc,hx⟩
    · split at hx
      · rename_i hf
        exact .inr ⟨piece,hp,c,hc,hf,hx⟩
      · cases hx
  · rintro (⟨piece,hp,c,hc,hx⟩ | ⟨piece,hp,c,hc,hf,hx⟩)
    · exact ⟨piece,hp,c,hc,.inl hx⟩
    · exact ⟨piece,hp,c,hc,.inr (by rwa [if_pos hf])⟩

/-- The walked subtrees are those in slots in which names are used. -/
private theorem exists_follows {x : Enclosing × Event} :
    (∃ piece ∈ n.label.plan.pieces, ∃ c ∈ n.subtrees.zipIdx, piece.follows c.1.1 = true ∧
      x ∈ Event.placed (c.1.2.walkAs (piece.isBody && c.1.2.label = .blockStatement) (p ++ [c.2]))) ↔
    ∃ c ∈ n.subtrees.zipIdx, n.label.walks c.1.1 = true ∧
      x ∈ Event.placed (c.1.2.walkAs (n.label.isBody c.1.1 c.1.2) (p ++ [c.2])) := by
  constructor
  · rintro ⟨piece,hp,c,hc,hf,hx⟩
    obtain ⟨hw,hb⟩ := (Label.walks_iff n.label c.1.1 piece.isBody).mpr ⟨piece,hp,hf,rfl⟩
    exact ⟨c,hc,hw,by rwa [Label.isBody, ← hb]⟩
  · rintro ⟨c,hc,hw,hx⟩
    obtain ⟨piece,hp,hf,hb⟩ := (Label.walks_iff n.label c.1.1 _).mp ⟨hw,rfl⟩
    exact ⟨piece,hp,c,hc,hf,by rwa [hb]⟩

/-- A node that opens a scope walks no subtree outside of it. -/
private theorem not_follows_outer {x : Enclosing × Event} (h : n.label.opens ≠ none) :
    ¬∃ piece ∈ n.label.plan.outer, ∃ c ∈ n.subtrees.zipIdx, piece.follows c.1.1 = true ∧
      x ∈ Event.placed (c.1.2.walkAs (piece.isBody && c.1.2.label = .blockStatement) (p ++ [c.2])) := by
  rintro ⟨piece,hp,c,-,hf,-⟩
  rw [Label.follows_outer h hp] at hf
  cases hf

/-- The declarations and uses of a node itself, with the scopes around each. -/
def own (around : Enclosing) : List (Enclosing × Event) :=
  ((n.uses p).map fun o => (around, .refer o))
    ++ ((n.outward p).map fun d => (around, .declare d.1 d.2.1 d.2.2))
    ++ (n.inward p).map fun d => (n.label.opened false p ++ around, .declare .here d.1 d.2)

/-- The walk of a node tells its own declarations and uses, and those of the subtrees in which names
are used. -/
theorem mem_placed_visit {x : Enclosing × Event} :
    x ∈ Event.placed (n.walk.visit p) ↔
      x ∈ n.own p [] ∨ ∃ c ∈ n.subtrees.zipIdx, n.label.walks c.1.1 = true ∧
        ∃ y ∈ Event.placed (c.1.2.walkAs (n.label.isBody c.1.1 c.1.2) (p ++ [c.2])),
          (y.1 ++ n.label.opened false p, y.2) = x := by
  have hvisit : n.walk.visit p = n.label.plan.events n.label n.subtrees p := by
    obtain ⟨m,l,cs⟩ := n
    exact walk_visit m l cs p
  have houter := congrArg Event.placed (n.outer_leaves p)
  have hinner := congrArg Event.placed (n.inner_leaves p)
  rw [Event.placed_append, Event.placed_append, Event.placed_leaves _ .refer fun _ => rfl,
    Event.placed_leaves (n.outward p) _ fun _ => rfl] at houter
  rw [Event.placed_leaves (n.inward p) _ fun _ => rfl] at hinner
  rw [hvisit, Plan.events, Event.placed_append, Event.placed_append, List.mem_append,
    List.mem_append, mem_placed_pieces, ← or_assoc, ← List.mem_append, houter]
  cases hs : n.label.plan.scope with
  | none =>
    have hopened : n.label.opened false p = [] := by
      simp [Label.opened, Label.opens_eq, hs]
    have hpieces : n.label.plan.pieces = n.label.plan.outer := by simp [Plan.pieces, hs]
    have hinward : n.inward p = [] := by simpa [hs, Event.placed, Event.partsAll] using hinner.symm
    have hnone : x ∉ Event.placed (Option.map (fun s : Bool × List Piece => Event.scope p n.label s.1
      (s.2.flatMap (Piece.across n.subtrees p))) none).toList := List.not_mem_nil
    rw [or_iff_left hnone, ← hpieces, exists_follows, own, hinward, hopened, List.map_nil,
      List.append_nil]
    simp
  | some s =>
    have hopens : n.label.opens = some s.1 := by rw [Label.opens_eq, hs, Option.map_some]
    have hopened : n.label.opened false p = [(p, s.1)] := by simp [Label.opened, hopens]
    have hfollows {y : Enclosing × Event} := not_follows_outer (n := n) (p := p) (x := y) (by simp [hopens])
    have hinside (y : Enclosing × Event) :
        y ∈ Event.placed (s.2.flatMap (Piece.across n.subtrees p)) ↔
          y ∈ ((n.inward p).map fun d => ([], .declare .here d.1 d.2)) ∨
            ∃ c ∈ n.subtrees.zipIdx, n.label.walks c.1.1 = true ∧
              y ∈ Event.placed (c.1.2.walkAs (n.label.isBody c.1.1 c.1.2) (p ++ [c.2])) := by
      rw [← exists_follows, mem_placed_pieces, ← hinner, Plan.pieces, hs]
      simp only [Option.map_some, Option.getD_some, List.mem_append, or_and_right, exists_or,
        hfollows, false_or]
    rw [or_iff_left hfollows, own, hopened]
    simp only [Option.map_some, Option.toList_some, Event.placed_scope, List.mem_map, hinside,
      List.mem_append, List.append_nil]
    constructor
    · rintro (h | ⟨y,⟨d,hd,rfl⟩ | ⟨c,hc,hw,hy⟩,rfl⟩)
      · exact .inl (.inl h)
      · exact .inl (.inr ⟨d,hd,rfl⟩)
      · exact .inr ⟨c,hc,hw,y,hy,rfl⟩
    · rintro ((h | ⟨d,hd,rfl⟩) | ⟨c,hc,hw,y,hy,rfl⟩)
      · exact .inl h
      · exact .inr ⟨_,.inl ⟨d,hd,rfl⟩,rfl⟩
      · exact .inr ⟨y,.inr ⟨c,hc,hw,hy⟩,rfl⟩

/-- As the body of a function or handler a block opens no scope. -/
theorem mem_placed_step {isBody : Bool} (hb : isBody = true → n.label = .blockStatement)
    {x : Enclosing × Event} :
    x ∈ Event.placed (n.walkAs isBody p) ↔
      x ∈ n.own p [] ∨ ∃ c ∈ n.subtrees.zipIdx, n.label.walks c.1.1 = true ∧
        ∃ y ∈ Event.placed (c.1.2.walkAs (n.label.isBody c.1.1 c.1.2) (p ++ [c.2])),
          (y.1 ++ n.label.opened isBody p, y.2) = x := by
  cases isBody with
  | false => exact n.mem_placed_visit p
  | true =>
    obtain ⟨m,l,cs⟩ := n
    obtain rfl : l = .blockStatement := hb rfl
    rw [walkAs, if_pos rfl, walk_inside, Piece.across, Event.placed_flatMap, List.mem_flatMap]
    simp [Plan.everything, Piece.eventsAt, label, subtrees, Label.walks, Label.isBody, Label.hasBody,
      Label.opened, walkAs, own, uses, outward, inward]

end Leaves

theorem enclosing?_cons {isBody : Bool} {n : Node} {p q : Path} {i : Nat} {around : Enclosing} :
    n.enclosing? isBody p (i :: q) = some around ↔
      ∃ c inner, n.subtrees[i]? = some c ∧ n.label.walks c.1 = true ∧
        c.2.enclosing? (n.label.isBody c.1 c.2) (p ++ [i]) q = some inner ∧
          inner ++ n.label.opened isBody p = around := by
  simp only [enclosing?, Option.bind_eq_bind, Option.bind_eq_some_iff, Option.ite_none_right_eq_some,
    Option.pure_def, Option.some.injEq]
  constructor
  · rintro ⟨c,hc,hw,inner,hinner,rfl⟩
    exact ⟨c,inner,hc,hw,hinner,rfl⟩
  · rintro ⟨c,inner,hc,hw,hinner,rfl⟩
    exact ⟨c,hc,hw,inner,hinner,rfl⟩

private theorem own_append {n : Node} {p : Path} {around outer : Enclosing} {y : Enclosing × Event} :
    y ∈ n.own p around → (y.1 ++ outer, y.2) ∈ n.own p (around ++ outer) := by
  simp only [own, List.mem_append, List.mem_map]
  rintro ((⟨o,ho,rfl⟩ | ⟨d,hd,rfl⟩) | ⟨d,hd,rfl⟩)
  · exact .inl (.inl ⟨o,ho,rfl⟩)
  · exact .inl (.inr ⟨d,hd,rfl⟩)
  · exact .inr ⟨d,hd,by rw [List.append_assoc]⟩

private theorem exists_of_own_append {n : Node} {p : Path} {around outer : Enclosing}
    {x : Enclosing × Event} (h : x ∈ n.own p (around ++ outer)) :
    ∃ y ∈ n.own p around, (y.1 ++ outer, y.2) = x := by
  simp only [own, List.mem_append, List.mem_map] at h ⊢
  rcases h with (⟨o,ho,rfl⟩ | ⟨d,hd,rfl⟩) | ⟨d,hd,rfl⟩
  · exact ⟨_,.inl (.inl ⟨o,ho,rfl⟩),rfl⟩
  · exact ⟨_,.inl (.inr ⟨d,hd,rfl⟩),rfl⟩
  · exact ⟨_,.inr ⟨d,hd,rfl⟩,by rw [List.append_assoc]⟩

/-- The walk of a tree tells the declarations and uses of its nodes, each in the scopes around it. -/
theorem mem_placed_walkAs {isBody : Bool} {n : Node} {p : Path}
    (hb : isBody = true → n.label = .blockStatement) {x : Enclosing × Event} :
    x ∈ Event.placed (n.walkAs isBody p) ↔
      ∃ q c around, n.at? q = some c ∧ n.enclosing? isBody p q = some around ∧
        x ∈ c.own (p ++ q) around := by
  induction n using inductionOn generalizing isBody p x with
  | marked m l cs ih =>
    have hchild (c : (Field × Node) × Nat) (hc : c ∈ cs.zipIdx) (y : Enclosing × Event) :
        y ∈ Event.placed (c.1.2.walkAs (l.isBody c.1.1 c.1.2) (p ++ [c.2])) ↔ _ :=
      ih c.1 (List.fst_mem_of_mem_zipIdx hc) (by simp [Label.isBody])
    rw [mem_placed_step _ _ hb]
    constructor
    · rintro (h | ⟨c,hc,hw,y,hy,rfl⟩)
      · exact ⟨[],_,[],rfl,rfl,by rwa [List.append_nil]⟩
      · obtain ⟨q,d,around,hd,haround,hown⟩ := (hchild c hc y).mp hy
        have hi : cs[c.2]? = some c.1 := List.mem_zipIdx_iff_getElem?.mp hc
        refine ⟨c.2 :: q,d,_,by rw [at?_cons, hi]; exact hd,
          enclosing?_cons.mpr ⟨c.1,around,hi,hw,haround,rfl⟩,?_⟩
        rw [List.append_assoc] at hown
        exact own_append hown
    · rintro ⟨_ | ⟨i,q⟩,d,around,hd,haround,hown⟩
      · obtain rfl := Option.some.inj hd
        obtain rfl := Option.some.inj haround
        exact .inl (by rwa [List.append_nil] at hown)
      · obtain ⟨c,inner,hi,hw,hinner,rfl⟩ := enclosing?_cons.mp haround
        change cs[i]? = some c at hi
        have hc : (c, i) ∈ cs.zipIdx := List.mem_zipIdx_iff_getElem?.mpr hi
        rw [at?_cons, hi] at hd
        obtain ⟨y,hy,rfl⟩ := exists_of_own_append hown
        refine .inr ⟨(c,i),hc,hw,y,(hchild _ hc y).mpr ⟨q,d,inner,hd,hinner,?_⟩,rfl⟩
        rwa [List.append_assoc]

end Node

end Unravel
