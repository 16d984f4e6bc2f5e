import Unravel.Proofs.Scope.Sites

/-! What scope analysis does not look at: the marks of nodes, and whether a property is written as a
shorthand. -/

namespace Unravel

namespace Label

/-- A label as if a shorthand property were written out. -/
def writtenOut : Label → Label
  | .property computed method _ kind => .property computed method false kind
  | l => l

variable {l l' : Label} (h : l'.writtenOut = l.writtenOut)
include h

theorem plan_of_writtenOut : l'.plan = l.plan := by
  have hplan (l : Label) : l.writtenOut.plan = l.plan := by cases l <;> rfl
  rw [← hplan, h, hplan]

theorem target_of_writtenOut (member : Bool) : l'.target member = l.target member := by
  have htarget (l : Label) : l.writtenOut.target member = l.target member := by cases l <;> rfl
  rw [← htarget, h, htarget]

theorem eq_of_writtenOut (hl : ∀ a b c d, l ≠ .property a b c d) : l' = l := by
  have hself (l : Label) : l.writtenOut = l ∨ ∃ a b c d, l = .property a b c d := by
    cases l <;> first | exact .inl rfl | exact .inr ⟨_,_,_,_,rfl⟩
  rcases hself l with hkept | ⟨a,b,c,d,rfl⟩
  · rw [hkept] at h
    rcases hself l' with hkept' | ⟨a,b,c,d,rfl⟩
    · exact hkept'.symm.trans h
    · exact absurd h.symm (hl _ _ _ _)
  · exact absurd rfl (hl _ _ _ _)

end Label

namespace Node

/-- A change to nothing but marks and shorthand flags. -/
structure Retouches (f : Node → Node) : Prop where
  marked : ∀ m l cs, ∃ m' l', f (.marked m l cs) = .marked m' l' (cs.map fun c => (c.1, f c.2)) ∧
    l'.writtenOut = l.writtenOut

namespace Retouches
variable {f : Node → Node} (h : Retouches f) (n : Node)
include h

theorem subtrees : (f n).subtrees = n.subtrees.map fun c => (c.1, f c.2) := by
  obtain ⟨m,l,cs⟩ := n
  obtain ⟨m',l',he,-⟩ := h.marked m l cs
  rw [he]
  rfl

theorem writtenOut : (f n).label.writtenOut = n.label.writtenOut := by
  obtain ⟨m,l,cs⟩ := n
  obtain ⟨m',l',he,hl⟩ := h.marked m l cs
  rw [he]
  exact hl

/-- Whatever is told by labels alone, shorthand or not, stays. -/
theorem label_congr {α : Type} {t : Label → α} (ht : ∀ l, t l.writtenOut = t l) :
    t (f n).label = t n.label := by
  rw [← ht, h.writtenOut, ht]

theorem label_eq {l : Label} (hl : ∀ a b c d, l ≠ .property a b c d) :
    (f n).label = l ↔ n.label = l := by
  constructor
  · rintro rfl
    exact Label.eq_of_writtenOut (h.writtenOut n).symm hl
  · rintro rfl
    exact Label.eq_of_writtenOut (h.writtenOut n) hl

theorem at? (q : Path) : (f n).at? q = (n.at? q).map f := by
  induction q generalizing n with
  | nil => rfl
  | cons i q ih =>
    simp only [Node.at?, h.subtrees, List.getElem?_map]
    cases n.subtrees[i]? with
    | none => rfl
    | some c => exact ih c.2

theorem index? (g : Field) : (f n).index? g = n.index? g := by
  rw [Node.index?, h.subtrees, List.findIdx?_map, Node.index?]
  rfl

theorem child? (g : Field) : (f n).child? g = (n.child? g).map f := by
  simp only [Node.child?, h.subtrees, List.find?_map, Option.map_map]
  rfl

theorem bound (member : Bool) (p : Path) : (f n).bound member p = n.bound member p := by
  induction n using inductionOn generalizing member p with
  | marked m l cs ih =>
    obtain ⟨m',l',he,hl⟩ := h.marked m l cs
    rw [he, bound_marked, bound_marked, Label.target_of_writtenOut hl]
    congr 1
    · cases l with
      | property => cases l' <;> first | rfl | simp [Label.writtenOut] at hl
      | _ => rw [Label.eq_of_writtenOut hl (by simp)]
    · cases l.target member with
      | none => rfl
      | some t =>
        simp only [List.zipIdx_map, List.flatMap_map]
        refine List.flatMap_congr fun c hc => ?_
        simp only [Prod.map, id, ih c.1 (List.fst_mem_of_mem_zipIdx hc)]

private theorem tagBase? (p : Path) : Walk.tagBase? (f n) p = Walk.tagBase? n p := by
  induction n, p using Walk.tagBase?.induct with
  | case1 m name cs p =>
    obtain ⟨m',l',he,hl⟩ := h.marked m (.jsxIdentifier name) cs
    obtain rfl := Label.eq_of_writtenOut hl (by simp)
    rw [he]
    rfl
  | case2 m o rest p ih =>
    obtain ⟨m',l',he,hl⟩ := h.marked m .jsxMemberExpression ((.object, o) :: rest)
    obtain rfl := Label.eq_of_writtenOut hl (by simp)
    rw [he]
    exact ih
  | case3 n p h1 h2 =>
    rw [Walk.tagBase?.eq_3 _ _ h1 h2]
    refine Walk.tagBase?.eq_3 _ _ (fun m name cs he => ?_) fun m o rest he => ?_
    · have hl := (h.label_eq n (l := .jsxIdentifier name) (by simp)).mp (by rw [he]; rfl)
      obtain ⟨m',l',cs'⟩ := n
      exact h1 m' name cs' (congrArg (Node.marked m' · cs') hl)
    · have hl := (h.label_eq n (l := .jsxMemberExpression) (by simp)).mp (by rw [he]; rfl)
      have hcs := h.subtrees n
      rw [he] at hcs
      obtain ⟨m',l',cs'⟩ := n
      obtain rfl : l' = .jsxMemberExpression := hl
      rcases cs' with _ | ⟨⟨g,c⟩,cs'⟩
      · cases hcs
      · obtain ⟨hc,-⟩ := List.cons.inj hcs
        obtain ⟨rfl,-⟩ := Prod.mk.inj hc
        exact h2 m' c cs' rfl

private theorem member (g : Field) (reach : Reach) (p : Path) :
    Piece.member g reach (f n) p = Piece.member g reach n p := by
  unfold Piece.member
  rw [h.index?, h.child?]
  cases n.index? g with
  | none => rfl
  | some j =>
    cases n.child? g with
    | none => rfl
    | some target => exact congrArg (List.map _) (h.bound target false _)

theorem walk (p : Path) :
    (f n).walk.visit p = n.walk.visit p ∧ (f n).walk.inside p = n.walk.inside p := by
  induction n using inductionOn generalizing p with
  | marked m l cs ih =>
    have hblock (n : Node) := h.label_eq n (l := .blockStatement) (by simp)
    have hacross (piece : Piece) :
        piece.across (cs.map fun c => (c.1, f c.2)) p = piece.across cs p := by
      simp only [Piece.across, List.zipIdx_map, List.flatMap_map]
      refine List.flatMap_congr fun c hc => ?_
      obtain ⟨hvisit,hinside⟩ := ih c.1 (List.fst_mem_of_mem_zipIdx hc) (p ++ [c.2])
      have hbound := h.bound c.1.2 false (p ++ [c.2])
      cases piece <;>
        simp only [Piece.eventsAt, Piece.component, Prod.map, id, hblock, hvisit, hinside,
          boundIdentifiers_eq, hbound, h.tagBase?, h.member]
    have hpieces : Piece.across (cs.map fun c => (c.1, f c.2)) p = Piece.across cs p :=
      funext hacross
    obtain ⟨m',l',he,hl⟩ := h.marked m l cs
    have hplan := Label.plan_of_writtenOut hl
    rw [he, walk_visit, walk_visit, walk_inside, walk_inside, hacross]
    refine ⟨?_,rfl⟩
    -- A node that opens a scope is no property, so it keeps its label.
    cases hs : l.plan.scope with
    | none => simp only [Plan.events, hplan, hpieces, hs, Option.map_none]
    | some s =>
      obtain rfl : l' = l := Label.eq_of_writtenOut hl (by rintro a b c d rfl; cases hs)
      simp only [Plan.events, hpieces]

theorem events : (f n).events = n.events := (h.walk n []).1

/-- Scope analysis does not see the change. -/
theorem scope (hn : n.IsProgram) : (f n).scope = n.scope := by
  obtain ⟨sourceType,hl⟩ := hn
  have hl' := (h.label_eq n (by simp)).mpr hl
  simp only [Node.scope, h.events, hl, hl']

end Retouches

end Node

end Unravel
