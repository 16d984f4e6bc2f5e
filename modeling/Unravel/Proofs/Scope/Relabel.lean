import Unravel.Proofs.Scope.Sites

/-! Trees whose identifiers are named anew by position. The walk of such a tree is the walk of the
tree before with the same names put into its events. -/

namespace Unravel

/-- New names by position. A position without one keeps its name. -/
abbrev Naming := Path → Option String

namespace Naming
variable (ν : Naming)

def label (p : Path) : Label → Label
  | .identifier name => .identifier ((ν p).getD name)
  | .jsxIdentifier name => .jsxIdentifier ((ν p).getD name)
  | l => l

def occurrence (o : Occurrence) : Occurrence := { o with name := (ν o.path).getD o.name }

@[simp]
theorem occurrence_path (o : Occurrence) : (ν.occurrence o).path = o.path := rfl

@[simp]
theorem occurrence_isTag (o : Occurrence) : (ν.occurrence o).isTag = o.isTag := rfl

/-- The tags of a tree start with a lower-case letter under their new names if they did before. -/
def KeepsCase (n : Node) (p : Path) : Prop :=
  ∀ q name, n.labelAt? q = some (.jsxIdentifier name) →
    Walk.tag.startsLower ((ν (p ++ q)).getD name) = Walk.tag.startsLower name

variable {ν}

theorem KeepsCase.subtree {m : Option Nat} {l : Label} {cs : List (Field × Node)} {i : Nat}
    {f : Field} {c : Node} {p : Path} (h : ν.KeepsCase (.marked m l cs) p)
    (hc : cs[i]? = some (f, c)) : ν.KeepsCase c (p ++ [i]) := by
  intro q name hq
  have := h (i :: q) name (by rw [Node.labelAt?_cons, hc]; exact hq)
  rwa [List.append_cons] at this

end Naming

namespace Event

mutual
def renamed (ν : Naming) : Event → Event
  | .declare reach kind o => .declare reach kind (ν.occurrence o)
  | .refer o => .refer (ν.occurrence o)
  | .scope p l f events => .scope p l f (renamedAll ν events)
def renamedAll (ν : Naming) : List Event → List Event
  | [] => []
  | e :: rest => renamed ν e :: renamedAll ν rest
end

theorem renamedAll_eq (ν : Naming) (es : List Event) : renamedAll ν es = es.map (renamed ν) := by
  induction es with
  | nil => rfl
  | cons e es ih => rw [renamedAll, ih, List.map_cons]

end Event

namespace Node
variable {ν : Naming}

theorem plan_label (ν : Naming) (p : Path) (l : Label) :
    (ν.label p l).plan = { l.plan with name := l.plan.name.map fun name => (ν p).getD name } := by
  cases l <;> rfl

theorem target_label (ν : Naming) (p : Path) (l : Label) (b : Bool) :
    (ν.label p l).target b = l.target b := by
  cases l <;> rfl

theorem label_eq_blockStatement (ν : Naming) (p : Path) (l : Label) :
    ν.label p l = .blockStatement ↔ l = .blockStatement := by
  cases l <;> simp [Naming.label]

theorem scoped_label (ν : Naming) (p : Path) (l : Label) (h : l.plan.scope ≠ none) :
    ν.label p l = l := by
  cases l <;> first | rfl | simp [Label.plan] at h

theorem zipIdx_relabel {α : Type} (cs : List (Field × Node)) (g : Path → Label → Label)
    (p : Path) (F : (Field × Node) × Nat → List α) :
    (cs.zipIdx.map fun c => (c.1.1, c.1.2.relabel g (p ++ [c.2]))).zipIdx.flatMap F =
      cs.zipIdx.flatMap fun c => F ((c.1.1, c.1.2.relabel g (p ++ [c.2])), c.2) := by
  suffices h : ∀ k, ((cs.zipIdx k).map fun c => (c.1.1, c.1.2.relabel g (p ++ [c.2]))).zipIdx k =
      (cs.zipIdx k).map fun c => ((c.1.1, c.1.2.relabel g (p ++ [c.2])), c.2) by
    rw [h 0, List.flatMap_map]
  induction cs with
  | nil => simp
  | cons c cs ih => intro k; simp [ih]

theorem bound_relabel (n : Node) (p : Path) (b : Bool) :
    (n.relabel ν.label p).bound b p = (n.bound b p).map ν.occurrence := by
  induction n using inductionOn generalizing p b with
  | marked m l cs ih =>
    rw [relabel_marked, bound_marked, bound_marked, target_label, List.map_append]
    congr 1
    · cases l <;> rfl
    · split
      · rename_i f c _
        rw [zipIdx_relabel, List.map_flatMap]
        refine List.flatMap_congr fun x hx => ?_
        split
        · exact ih x.1 (List.fst_mem_of_mem_zipIdx hx) _ _
        · rfl
      · rfl

theorem subtrees_relabel (g : Path → Label → Label) (p : Path) (n : Node) :
    (n.relabel g p).subtrees = n.subtrees.zipIdx.map fun c => (c.1.1, c.1.2.relabel g (p ++ [c.2])) := by
  obtain ⟨m,l,cs⟩ := n
  rw [relabel_marked]
  rfl

theorem fields_relabel (g : Path → Label → Label) (p : Path) (n : Node) :
    (n.relabel g p).subtrees.map Prod.fst = n.subtrees.map Prod.fst := by
  rw [subtrees_relabel, List.map_map]
  change n.subtrees.zipIdx.map (Prod.fst ∘ Prod.fst) = _
  rw [← List.map_map, List.zipIdx_map_fst]

theorem at?_relabel (g : Path → Label → Label) (p q : Path) (n : Node) :
    (n.relabel g p).at? q = (n.at? q).map fun c => c.relabel g (p ++ q) := by
  induction q generalizing n p with
  | nil => simp
  | cons i q ih =>
    simp only [at?, subtrees_relabel, List.getElem?_map, List.getElem?_zipIdx, Nat.zero_add]
    cases n.subtrees[i]? with
    | none => rfl
    | some c => simpa using ih (p ++ [i]) c.2

theorem labelAt?_relabel (g : Path → Label → Label) (p q : Path) (n : Node) :
    (n.relabel g p).labelAt? q = (n.labelAt? q).map (g (p ++ q)) := by
  rw [labelAt?, labelAt?, at?_relabel, Option.map_map, Option.map_map]
  exact congrArg (Option.map · _) (funext fun c => label_relabel g (p ++ q) c)

theorem index?_relabel (g : Path → Label → Label) (p : Path) (n : Node) (f : Field) :
    (n.relabel g p).index? f = n.index? f := by
  rw [index?, index?, subtrees_relabel, List.findIdx?_map]
  generalize n.subtrees = cs
  suffices h : ∀ k, (cs.zipIdx k).findIdx? ((fun c => decide (c.1 = f)) ∘
      fun c => (c.1.1, c.1.2.relabel g (p ++ [c.2]))) = cs.findIdx? fun c => decide (c.1 = f) from h 0
  induction cs with
  | nil => simp
  | cons c cs ih => intro k; simp [List.findIdx?_cons, ih]

theorem child?_relabel (g : Path → Label → Label) (p : Path) (n : Node) {f : Field} {j : Nat}
    (hj : n.index? f = some j) :
    (n.relabel g p).child? f = (n.child? f).map fun c => c.relabel g (p ++ [j]) := by
  rw [child?_of_index? hj, child?_of_index? ((index?_relabel g p n f).trans hj), subtrees_relabel,
    List.getElem?_map, List.getElem?_zipIdx]
  cases n.subtrees[j]? <;> simp

theorem declares_relabel (n : Node) (p : Path) (reach : Reach) (kind : BindingKind) :
    ((n.relabel ν.label p).boundIdentifiers p).map (Event.declare reach kind) =
      ((n.boundIdentifiers p).map (.declare reach kind)).map (Event.renamed ν) := by
  rw [boundIdentifiers_eq, boundIdentifiers_eq, bound_relabel, List.map_map, List.map_map]
  rfl

theorem member_relabel (n : Node) (p : Path) (slot : Field) (reach : Reach) :
    Piece.member slot reach (n.relabel ν.label p) p =
      (Piece.member slot reach n p).map (Event.renamed ν) := by
  unfold Piece.member
  rw [index?_relabel]
  cases hj : n.index? slot with
  | none => rfl
  | some j =>
    rw [child?_relabel _ _ _ hj]
    cases n.child? slot with
    | none => rfl
    | some target => exact declares_relabel target (p ++ [j]) reach .var

private theorem tagBase?_relabel (n : Node) (p : Path) :
    Walk.tagBase? (n.relabel ν.label p) p = (Walk.tagBase? n p).map ν.occurrence := by
  induction n, p using Walk.tagBase?.induct with
  | case1 p m name cs =>
    rw [relabel_marked]
    rfl
  | case2 p m c rest ih =>
    rw [relabel_marked]
    simpa [Walk.tagBase?, Naming.label] using ih
  | case3 n p h1 h2 =>
    obtain ⟨m,l,cs⟩ := n
    rw [Walk.tagBase?.eq_3 _ _ h1 h2, relabel_marked, Option.map_none]
    cases l <;> simp only [Naming.label] <;> try rfl
    · exact absurd rfl (h1 _ _ _)
    · cases cs with
      | nil => rfl
      | cons c cs =>
        obtain ⟨f,c⟩ := c
        cases f <;> first | rfl | exact absurd rfl (h2 _ _ _)

private theorem labelAt?_of_tagBase? {n : Node} {p : Path} {o : Occurrence}
    (h : Walk.tagBase? n p = some o) :
    ∃ q, o.path = p ++ q ∧ n.labelAt? q = some (.jsxIdentifier o.name) := by
  induction n, p using Walk.tagBase?.induct with
  | case1 p m name cs =>
    obtain rfl := Option.some.inj h
    exact ⟨[],by simp,rfl⟩
  | case2 p m c rest ih =>
    obtain ⟨q,hq,hl⟩ := ih h
    exact ⟨0 :: q,by simp [hq],by rw [labelAt?_cons]; exact hl⟩
  | case3 n p h1 h2 => simp [Walk.tagBase?] at h

private theorem component_relabel {n : Node} {p : Path} (hk : ν.KeepsCase n p) :
    Piece.component (n.relabel ν.label p) p = (Piece.component n p).map (Event.renamed ν) := by
  unfold Piece.component
  rw [tagBase?_relabel]
  cases ho : Walk.tagBase? n p with
  | none => rfl
  | some o =>
    obtain ⟨q,hq,hl⟩ := labelAt?_of_tagBase? ho
    have hs : Walk.tag.startsLower (ν.occurrence o).name = Walk.tag.startsLower o.name := by
      rw [Naming.occurrence, hq]
      exact hk q o.name hl
    simp only [Option.map_some, hs]
    split <;> rfl

private theorem eventsAt_relabel {n : Node} {p : Path} (f : Field) (hk : ν.KeepsCase n p)
    (hv : (n.relabel ν.label p).walk.visit p = (n.walk.visit p).map (Event.renamed ν))
    (hi : (n.relabel ν.label p).walk.inside p = (n.walk.inside p).map (Event.renamed ν))
    (piece : Piece) :
    piece.eventsAt f (n.relabel ν.label p) p = (piece.eventsAt f n p).map (Event.renamed ν) := by
  cases piece with
  | declare g reach kind =>
    simp only [Piece.eventsAt, declares_relabel]
    split <;> rfl
  | visit test =>
    simp only [Piece.eventsAt, hv]
    split <;> rfl
  | body =>
    simp only [Piece.eventsAt, hv, hi, label_relabel, label_eq_blockStatement]
    split
    · split <;> rfl
    · rfl
  | tag =>
    simp only [Piece.eventsAt, component_relabel hk]
    split <;> rfl
  | declarator reach => exact member_relabel n p .id reach
  | specifier =>
    simp only [Piece.eventsAt, member_relabel]
    split <;> rfl

/-- Naming a tree anew names the events of its walk anew, and changes nothing else about them. -/
theorem walk_relabel (n : Node) (p : Path) (hk : ν.KeepsCase n p) :
    (n.relabel ν.label p).walk.visit p = (n.walk.visit p).map (Event.renamed ν) ∧
      (n.relabel ν.label p).walk.inside p = (n.walk.inside p).map (Event.renamed ν) := by
  induction n using inductionOn generalizing p with
  | marked m l cs ih =>
    have hacross (piece : Piece) :
        piece.across (cs.zipIdx.map fun c => (c.1.1, c.1.2.relabel ν.label (p ++ [c.2]))) p =
          (piece.across cs p).map (Event.renamed ν) := by
      rw [Piece.across, zipIdx_relabel, Piece.across, List.map_flatMap]
      refine List.flatMap_congr fun c hc => ?_
      have hk := hk.subtree (List.mem_zipIdx_iff_getElem?.mp hc)
      obtain ⟨hv,hi⟩ := ih c.1 (List.fst_mem_of_mem_zipIdx hc) (p ++ [c.2]) hk
      exact eventsAt_relabel c.1.1 hk hv hi piece
    have hpieces (pieces : List Piece) :
        pieces.flatMap (Piece.across
          (cs.zipIdx.map fun c => (c.1.1, c.1.2.relabel ν.label (p ++ [c.2]))) p) =
            (pieces.flatMap (Piece.across cs p)).map (Event.renamed ν) := by
      rw [List.map_flatMap]
      exact List.flatMap_congr fun piece _ => hacross piece
    rw [relabel_marked, walk_inside, walk_inside]
    refine ⟨?_,hacross _⟩
    rw [walk_visit, walk_visit, Plan.events, Plan.events, plan_label, hpieces, List.map_append,
      List.map_append]
    congr 1
    · congr 1
      cases l.plan.name <;> rfl
    · cases hs : l.plan.scope with
      | none => rfl
      | some s =>
        rw [scoped_label ν p l (by simp [hs])]
        simp only [Option.map_some, Option.toList_some, List.map_cons, List.map_nil, Event.renamed,
          Event.renamedAll_eq, hpieces]

end Node

end Unravel
