import Unravel.Proofs.Settling.Origins

/-! Rules that only take nodes away. What is left stands in the order it stood in: of two places the one
before the other in the source is the lesser one in the lexicographic order of paths. -/

namespace Unravel

namespace Node

theorem marks_sublist {n : Node} {c : Field × Node} (h : c ∈ n.subtrees) :
    c.2.marks.Sublist n.marks := by
  obtain ⟨m,l,cs⟩ := n
  have hcs : c.2.marks.Sublist (cs.flatMap fun c => c.2.marks) := by
    have hone := (List.singleton_sublist.mpr h).flatMap fun c : Field × Node => c.2.marks
    rwa [List.flatMap_singleton] at hone
  rw [marks_marked]
  exact hcs.trans (List.sublist_append_right _ _)

theorem row_marks_sublist (n : Node) (f : Field) : ((n.row f).flatMap marks).Sublist n.marks := by
  obtain ⟨m,l,cs⟩ := n
  have hcs : ((cs.filter fun c => c.1 = f).flatMap fun c => c.2.marks).Sublist
      (cs.flatMap fun c => c.2.marks) := List.filter_sublist.flatMap _
  rw [marks_marked, row, List.flatMap_map]
  exact hcs.trans (List.sublist_append_right _ _)

/-- Where marks go up from place to place, a place before another one has the lesser mark. -/
theorem lt_of_lt {n : Node} (h : n.marks.Pairwise (· < ·)) {p q : Path} {j k : Nat}
    (hp : n.markAt p = some j) (hq : n.markAt q = some k) (hlt : p < q) : j < k := by
  induction n using inductionOn generalizing p q with
  | marked m l cs ih =>
    rw [marks_marked, List.pairwise_append, List.pairwise_flatMap] at h
    obtain ⟨-,⟨hinside,hapart⟩,htop⟩ := h
    have hmem {i : Nat} {r : Path} {a : Nat} (hr : (marked m l cs).markAt (i :: r) = some a) :
        ∃ c, cs[i]? = some c ∧ c.2.markAt r = some a ∧ a ∈ c.2.marks := by
      obtain ⟨b,hb,ha⟩ := Option.bind_eq_some_iff.mp hr
      obtain ⟨c,hc,hb⟩ := Option.bind_eq_some_iff.mp hb
      exact ⟨c,hc,Option.bind_eq_some_iff.mpr ⟨b,hb,ha⟩,marks_at? hb (mark_mem_marks ha)⟩
    cases q with
    | nil => exact absurd hlt (List.not_lt_nil p)
    | cons i q =>
      obtain ⟨d,hd,hdq,hk⟩ := hmem hq
      cases p with
      | nil =>
        obtain rfl : m = some j := hp
        exact htop j (by simp) k (List.mem_flatMap.mpr ⟨d,List.mem_of_getElem? hd,hk⟩)
      | cons i' p =>
        obtain ⟨c,hc,hcp,hj⟩ := hmem hp
        rcases List.cons_lt_cons_iff.mp hlt with hi | ⟨rfl,hrest⟩
        · obtain ⟨hi₁,rfl⟩ := List.getElem?_eq_some_iff.mp hc
          obtain ⟨hi₂,rfl⟩ := List.getElem?_eq_some_iff.mp hd
          exact List.pairwise_iff_getElem.mp hapart i' i hi₁ hi₂ hi j hj k hk
        · obtain rfl := Option.some.inj (hc.symm.trans hd)
          have hc := List.mem_of_getElem? hc
          exact ih c hc (hinside c hc) hcp hdq hrest

/-- Where marks go up from place to place, places are in the order of their marks. -/
theorem lt_iff_lt {n : Node} (h : n.marks.Pairwise (· < ·)) {p q : Path} {j k : Nat}
    (hp : n.markAt p = some j) (hq : n.markAt q = some k) : p < q ↔ j < k := by
  constructor
  · exact lt_of_lt h hp hq
  · intro hlt
    rcases lt_trichotomy p q with hpq | rfl | hqp
    · exact hpq
    · obtain rfl := Option.some.inj (hp.symm.trans hq)
      exact absurd hlt (Nat.lt_irrefl j)
    · exact absurd (lt_of_lt h hq hp hqp) (Nat.lt_asymm hlt)

end Node

namespace Rule
variable {r : Rule}

/-- A rule that puts nodes from inside a node in its place in the order they stood in. -/
structure Thins (r : Rule) : Prop extends r.Lifts where
  ordered : ∀ ctx n rep, (r.finish ctx n).replaced = some rep →
    (rep.nodes.flatMap Node.marks).Sublist n.marks

/-- What a replacement is fitted into the slot with has no marks. -/
theorem flatMap_marks_place (l : Label) (f : Field) (old : Node) (rep : Replacement) :
    ((place l f old rep).flatMap fun c => c.2.marks) = rep.nodes.flatMap Node.marks := by
  cases rep with
  | node n => simp [place, Replacement.nodes]
  | statements ns =>
    simp only [place, Replacement.nodes]
    split
    · rw [List.flatMap_map]
    · simp [Node.block, Node.mk, Node.marks_marked, List.flatMap_map]
  | nothing =>
    simp only [place, Replacement.nodes]
    split
    · rfl
    · split <;> rfl

namespace Thins
variable (hr : r.Thins)
include hr

/-- The marks after a visit are among those before it, in their order. -/
theorem visit_marks (n : Node) (ctx : Context) : (r.visit ctx n).kept.marks.Sublist n.marks ∧
    ((r.visit ctx n).result.nodes.flatMap Node.marks).Sublist n.marks := by
  induction n using Node.inductionOn generalizing ctx with
  | marked m l cs ih =>
    have hall (before : List (Field × Node)) :
        ((r.visitAll l before cs).1.flatMap fun c => c.2.marks).Sublist
          (cs.flatMap fun c => c.2.marks) := by
      induction cs generalizing before with
      | nil => exact .slnil
      | cons c cs ihs =>
        obtain ⟨f,n⟩ := c
        obtain ⟨ihn,ih⟩ := List.forall_mem_cons.mp ih
        rw [visitAll_cons]
        dsimp only
        rw [List.flatMap_append, List.flatMap_cons]
        refine List.Sublist.append ?_ (ihs ih _)
        split
        · simp
        · rw [flatMap_marks_place]
          exact (ihn _).2
    have hkept : (Node.marked m l (r.visitAll l [] cs).1).marks.Sublist (Node.marked m l cs).marks := by
      rw [Node.marks_marked, Node.marks_marked]
      exact (hall []).append_left _
    have hordered := hr.ordered ctx (.marked m l (r.visitAll l [] cs).1)
    rw [Rule.visit, hr.early]
    simp only [hr.kept, Visit.result]
    refine ⟨hkept,?_⟩
    generalize (r.finish ctx (.marked m l (r.visitAll l [] cs).1)).replaced = found at hordered
    cases found with
    | none => simpa [Replacement.nodes] using hkept
    | some rep => exact (hordered rep rfl).trans hkept

/-- The nodes that are there after a run are in the order they were in before. -/
theorem carries_lt_iff {tree : Node} (hm : tree.marks = []) {p p' q q' : Path}
    (hp : r.Carries tree p p') (hq : r.Carries tree q q') : p < q ↔ p' < q' := by
  obtain ⟨j,hj,hj'⟩ := hp
  obtain ⟨k,hk,hk'⟩ := hq
  have hsorted : (tree.number 0).1.marks.Pairwise (· < ·) := by
    rw [(Node.number_marks hm 0).1]
    exact List.pairwise_lt_range'
  have hsorted' := hsorted.sublist (hr.visit_marks (tree.number 0).1 top).1
  rw [Node.lt_iff_lt hsorted hj hk]
  exact (Node.lt_iff_lt hsorted' hj' hk').symm

end Thins
end Rule
end Unravel
