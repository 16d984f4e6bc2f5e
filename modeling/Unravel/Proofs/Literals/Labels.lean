import Unravel.Proofs.Tree

/-! What holds of every label of a tree, and rules that keep it, also where nodes stand at several
places. -/

namespace Unravel
variable {P : Label → Prop}

namespace Node

/-- All nodes of a tree have labels with a property. -/
def EveryLabel (P : Label → Prop) (n : Node) : Prop := ∀ e ∈ n.positions [], P e.2

instance [DecidablePred P] (n : Node) : Decidable (n.EveryLabel P) :=
  inferInstanceAs (Decidable (∀ e ∈ n.positions [], P e.2))

theorem everyLabel_iff {n : Node} : n.EveryLabel P ↔ ∀ q l, n.labelAt? q = some l → P l := by
  constructor
  · intro h q l hl
    exact h (q, l) (mem_positions.mpr ⟨q,rfl,hl⟩)
  · intro h e he
    obtain ⟨q,-,hl⟩ := mem_positions.mp he
    exact h q e.2 hl

@[simp]
theorem everyLabel_marked {m : Option Nat} {l : Label} {cs : List (Field × Node)} :
    (marked m l cs).EveryLabel P ↔ P l ∧ ∀ c ∈ cs, c.2.EveryLabel P := by
  simp only [everyLabel_iff]
  constructor
  · intro h
    refine ⟨h [] l rfl,fun c hc q l' hl' => ?_⟩
    obtain ⟨i,hi⟩ := List.mem_iff_getElem?.mp hc
    refine h (i :: q) l' ?_
    rw [labelAt?_cons, hi]
    exact hl'
  · rintro ⟨hl,hcs⟩ q l' hl'
    cases q with
    | nil =>
      obtain rfl := Option.some.inj hl'
      exact hl
    | cons i q =>
      rw [labelAt?_cons] at hl'
      obtain ⟨c,hc,hl'⟩ := Option.bind_eq_some_iff.mp hl'
      exact hcs c (List.mem_of_getElem? hc) q l' hl'

namespace EveryLabel
variable {n c : Node} {f : Field}

theorem label (h : n.EveryLabel P) : P n.label := by
  obtain ⟨m,l,cs⟩ := n
  exact (everyLabel_marked.mp h).1

theorem at? {q : Path} (h : n.EveryLabel P) (hq : n.at? q = some c) : c.EveryLabel P := by
  refine everyLabel_iff.mpr fun r l hl => everyLabel_iff.mp h (q ++ r) l ?_
  rw [labelAt?, at?_append, hq]
  exact hl

theorem subtree (h : n.EveryLabel P) {c : Field × Node} (hc : c ∈ n.subtrees) :
    c.2.EveryLabel P := by
  obtain ⟨m,l,cs⟩ := n
  exact (everyLabel_marked.mp h).2 c hc

theorem row (h : n.EveryLabel P) (hc : c ∈ n.row f) : c.EveryLabel P := by
  obtain ⟨e,he,rfl⟩ := List.mem_map.mp hc
  exact h.subtree (List.mem_filter.mp he).1

theorem child? (h : n.EveryLabel P) (hc : n.child? f = some c) : c.EveryLabel P :=
  h.row (mem_row_of_child? hc)

end EveryLabel

/-- Numbering changes no label. -/
theorem number_everyLabel {n : Node} (h : n.EveryLabel P) (next : Nat) :
    (n.number next).1.EveryLabel P := by
  induction n using inductionOn generalizing next with
  | marked m l cs ih =>
    obtain ⟨hl,hcs⟩ := everyLabel_marked.mp h
    rw [number_marked]
    refine everyLabel_marked.mpr ⟨hl,?_⟩
    clear h
    generalize (if m.isNone then next + 1 else next) = k
    induction cs generalizing k with
    | nil => simp [numberAll]
    | cons c cs ihcs =>
      obtain ⟨hc,hcs⟩ := List.forall_mem_cons.mp hcs
      obtain ⟨ihc,ih⟩ := List.forall_mem_cons.mp ih
      rw [numberAll_cons]
      exact List.forall_mem_cons.mpr ⟨ihc hc k,ihcs ih hcs _⟩

theorem numberAll_everyLabel {cs : List (Field × Node)} (h : ∀ c ∈ cs, c.2.EveryLabel P)
    (next : Nat) : ∀ c ∈ (numberAll next cs).1, c.2.EveryLabel P := by
  induction cs generalizing next with
  | nil => simp [numberAll]
  | cons c cs ih =>
    obtain ⟨hc,hcs⟩ := List.forall_mem_cons.mp h
    rw [numberAll_cons]
    exact List.forall_mem_cons.mpr ⟨number_everyLabel hc next,ih hcs _⟩

theorem unmark_everyLabel {n : Node} (h : n.EveryLabel P) (test : Nat → Bool) :
    (n.unmark test).EveryLabel P := by
  induction n using inductionOn with
  | marked m l cs ih =>
    obtain ⟨hl,hcs⟩ := everyLabel_marked.mp h
    rw [unmark_marked]
    refine everyLabel_marked.mpr ⟨hl,?_⟩
    simp only [List.mem_map]
    rintro _ ⟨c,hc,rfl⟩
    exact ih c hc (hcs c hc)

/-- A change of labels keeps what every label has if it keeps it label by label. -/
theorem relabel_everyLabel {n : Node} {f : Path → Label → Label} (hf : ∀ p l, P l → P (f p l))
    (h : n.EveryLabel P) (p : Path) : (n.relabel f p).EveryLabel P := by
  induction n using inductionOn generalizing p with
  | marked m l cs ih =>
    obtain ⟨hl,hcs⟩ := everyLabel_marked.mp h
    rw [relabel_marked]
    refine everyLabel_marked.mpr ⟨hf p l hl,?_⟩
    simp only [List.mem_map]
    rintro _ ⟨c,hc,rfl⟩
    have hmem := List.fst_mem_of_mem_zipIdx hc
    exact ih c.1 hmem (hcs c.1 hmem) (p ++ [c.2])

/-- Nodes may be taken out, and others with the property be put in. -/
theorem edit_everyLabel {n : Node} {gone : List Path} {put : Path → Option Node}
    (hput : ∀ p c, put p = some c → c.EveryLabel P) (h : n.EveryLabel P) (p : Path) :
    (n.edit gone put p).EveryLabel P := by
  induction n using inductionOn generalizing p with
  | marked m l cs ih =>
    obtain ⟨hl,hcs⟩ := everyLabel_marked.mp h
    rw [edit]
    split
    · rename_i c hc
      exact hput p c hc
    · refine everyLabel_marked.mpr ⟨hl,?_⟩
      rw [editAll_eq]
      simp only [List.mem_flatMap]
      rintro d ⟨c,hc,hd⟩
      split at hd
      · cases hd
      · obtain rfl := List.mem_singleton.mp hd
        have hmem := List.fst_mem_of_mem_zipIdx hc
        exact ih c.1 hmem (hcs c.1 hmem) (p ++ [c.2])

end Node

/-- All labels that a visit leaves behind have a property. -/
def Visit.EveryLabel (P : Label → Prop) (v : Visit) : Prop :=
  v.kept.EveryLabel P ∧
    match v.replaced with
    | some (.node c) => c.EveryLabel P
    | some (.statements cs) => ∀ c ∈ cs, c.EveryLabel P
    | _ => True

namespace Visit
variable {n : Node}

theorem everyLabel_keep (h : n.EveryLabel P) : (keep n).EveryLabel P := ⟨h,trivial⟩

theorem everyLabel_change (h : n.EveryLabel P) : (change n).EveryLabel P := ⟨h,trivial⟩

theorem everyLabel_replace {c : Node} (h : n.EveryLabel P) (hc : c.EveryLabel P) :
    (replace n (.node c)).EveryLabel P := ⟨h,hc⟩

end Visit

/-- All labels of the nodes held for marks have a property. -/
def Repeats.EveryLabel (P : Label → Prop) (s : Repeats) : Prop :=
  ∀ k n, s.current.getD k none = some n → n.EveryLabel P

namespace Repeats.EveryLabel
variable {s : Repeats} {n : Node}

theorem ofTree (n : Node) : (Repeats.ofTree n).EveryLabel P := by
  intro k c hc
  rw [getD_ofTree] at hc
  cases hc

theorem latest (hs : s.EveryLabel P) (hn : n.EveryLabel P) : (s.latest n).EveryLabel P := by
  unfold Repeats.latest
  split
  · exact hn
  · rename_i k _
    cases hc : s.current.getD k none with
    | none => exact hn
    | some c => exact hs k c hc

theorem claim (hs : s.EveryLabel P) {cs : List (Field × Node)} (hcs : ∀ c ∈ cs, c.2.EveryLabel P) :
    (∀ c ∈ (s.claim n cs).1, c.2.EveryLabel P) ∧ (s.claim n cs).2.EveryLabel P := by
  unfold Repeats.claim
  split
  · exact ⟨hcs,hs⟩
  · refine ⟨Node.numberAll_everyLabel hcs _,fun k c hc => ?_⟩
    rw [getD_append_replicate] at hc
    exact hs k c hc

theorem note (hs : s.EveryLabel P) (hn : n.EveryLabel P) :
    (s.note n).1.EveryLabel P ∧ (s.note n).2.EveryLabel P := by
  obtain ⟨m,l,cs⟩ := n
  cases m with
  | none => exact ⟨hn,hs⟩
  | some k =>
    obtain ⟨hl,hcs⟩ := Node.everyLabel_marked.mp hn
    obtain ⟨hcs,hs⟩ := hs.claim (n := .marked (some k) l cs) hcs
    simp only [Repeats.note, Node.mark?, Node.subtrees, Node.label, Node.update]
    generalize s.claim (.marked (some k) l cs) cs = claimed at hcs hs
    have hnew : (Node.marked (some k) l claimed.1).EveryLabel P := Node.everyLabel_marked.mpr ⟨hl,hcs⟩
    refine ⟨hnew,fun j c hc => ?_⟩
    obtain ⟨hv,-⟩ | hold := getD_set! claimed.2.current j k (some (.marked (some k) l claimed.1))
    · obtain rfl := Option.some.inj (hv.symm.trans hc)
      exact hnew
    · exact hs j c (hold ▸ hc)

theorem refresh (hs : s.EveryLabel P) (fuel : Nat) (hn : n.EveryLabel P) :
    (s.refresh fuel n).EveryLabel P := by
  induction fuel generalizing n with
  | zero => simpa [Repeats.refresh] using hn
  | succ fuel ih =>
    have hlatest := hs.latest hn
    rw [Repeats.refresh]
    refine Node.everyLabel_marked.mpr ⟨hlatest.label,?_⟩
    simp only [refreshAll, List.mem_map]
    rintro _ ⟨c,hc,rfl⟩
    exact ih (hlatest.subtree hc)

end Repeats.EveryLabel

namespace Rule

/-- A rule whose visits keep a property of all labels. What a slot puts around or instead of
statements has it as well. -/
structure KeepsLabels (r : Rule) (P : Label → Prop) : Prop where
  block : P .blockStatement
  empty : P .emptyStatement
  early : ∀ n v, n.EveryLabel P → r.early n = some v → v.EveryLabel P
  finish : ∀ ctx n, n.EveryLabel P → (r.finish ctx n).EveryLabel P

namespace KeepsLabels
variable {r : Rule} (hr : r.KeepsLabels P)
include hr

private theorem place {v : Visit} (h : v.EveryLabel P) (l : Label) (f : Field) (n : Node) :
    ∀ c ∈ place l f n v.result, c.2.EveryLabel P := by
  obtain ⟨kept,replaced,k⟩ := v
  obtain ⟨hkept,hreplaced⟩ := h
  match replaced with
  | none => simpa [Rule.place, Visit.result] using hkept
  | some (.node c) => simpa [Rule.place, Visit.result] using hreplaced
  | some (.statements cs) =>
    have hcs : ∀ c ∈ cs, c.EveryLabel P := hreplaced
    simp only [Visit.result, Option.getD_some, Rule.place]
    split
    · simpa using hcs
    · simpa [Node.block, hr.block] using hcs
  | some .nothing =>
    simp only [Visit.result, Option.getD_some, Rule.place]
    split
    · simp
    · split
      · simp [Node.empty, hr.empty]
      · simp

private theorem visitAll (l : Label) (before : List (Field × Node)) {cs : List (Field × Node)}
    (hcs : ∀ c ∈ cs, c.2.EveryLabel P) (h : ∀ c ∈ cs, ∀ ctx, (r.visit ctx c.2).EveryLabel P) :
    ∀ c ∈ (r.visitAll l before cs).1, c.2.EveryLabel P := by
  induction cs generalizing before with
  | nil => simp [Rule.visitAll]
  | cons c cs ih =>
    obtain ⟨f,n⟩ := c
    obtain ⟨hn,hcs⟩ := List.forall_mem_cons.mp hcs
    obtain ⟨hv,h⟩ := List.forall_mem_cons.mp h
    rw [visitAll_cons]
    refine List.forall_mem_append.mpr ⟨?_,ih _ hcs h⟩
    split
    · simpa using hn
    · exact hr.place (hv _) l f n

theorem visit (n : Node) (h : n.EveryLabel P) (ctx : Context) : (r.visit ctx n).EveryLabel P := by
  induction n using Node.inductionOn generalizing ctx with
  | marked m l cs ih =>
    obtain ⟨hl,hcs⟩ := Node.everyLabel_marked.mp h
    rw [Rule.visit]
    split
    · rename_i v hv
      exact hr.early _ v h hv
    · have hdone := hr.visitAll l [] hcs fun c hc => ih c hc (hcs c hc)
      exact hr.finish ctx _ (Node.everyLabel_marked.mpr ⟨hl,hdone⟩)

private theorem visitAllRepeated {fuel : Nat} {l : Label}
    (hvisit : ∀ ctx (n : Node) (s : Repeats), s.EveryLabel P → n.EveryLabel P →
      (r.visitRepeated fuel ctx n s).1.EveryLabel P ∧ (r.visitRepeated fuel ctx n s).2.EveryLabel P)
    (before : List (Field × Node)) {cs : List (Field × Node)} {s : Repeats} (hs : s.EveryLabel P)
    (hcs : ∀ c ∈ cs, c.2.EveryLabel P) :
    (∀ c ∈ (r.visitAllRepeated fuel l before cs s).1.1, c.2.EveryLabel P) ∧
      (r.visitAllRepeated fuel l before cs s).2.EveryLabel P := by
  induction cs generalizing before s with
  | nil =>
    rw [visitAllRepeated_nil]
    exact ⟨hcs,hs⟩
  | cons c cs ih =>
    obtain ⟨f,n⟩ := c
    obtain ⟨hn,hcs⟩ := List.forall_mem_cons.mp hcs
    cases hhole : n.isHole
    case true =>
      rw [visitAllRepeated_hole _ _ _ _ _ hhole]
      obtain ⟨hmore,hs'⟩ := ih (before ++ [(f, n)]) hs hcs
      exact ⟨List.forall_mem_append.mpr ⟨by simpa using hn,hmore⟩,hs'⟩
    case false =>
      rw [visitAllRepeated_node _ _ _ _ _ hhole]
      obtain ⟨hv,hs'⟩ := hvisit ⟨some l,f,membersBefore before f n⟩ n s hs hn
      obtain ⟨hmore,hs''⟩ := ih (before ++ [(f, n)]) hs' hcs
      exact ⟨List.forall_mem_append.mpr ⟨hr.place hv l f n,hmore⟩,hs''⟩

theorem visitRepeated (fuel : Nat) (ctx : Context) (n : Node) (s : Repeats) (hs : s.EveryLabel P)
    (hn : n.EveryLabel P) :
    (r.visitRepeated fuel ctx n s).1.EveryLabel P ∧ (r.visitRepeated fuel ctx n s).2.EveryLabel P := by
  induction fuel generalizing ctx n s with
  | zero =>
    rw [visitRepeated_zero]
    exact ⟨Visit.everyLabel_keep hn,hs⟩
  | succ fuel ih =>
    have hlatest := hs.latest hn
    cases he : r.early (s.latest n) with
    | some v =>
      rw [visitRepeated_early he]
      have hv := hr.early _ v hlatest he
      obtain ⟨hkept,hs'⟩ := hs.note hv.1
      exact ⟨⟨hkept,hv.2⟩,hs'⟩
    | none =>
      rw [visitRepeated_finish he]
      generalize s.latest n = n at hlatest
      obtain ⟨m,l,cs⟩ := n
      obtain ⟨hl,hcs⟩ := Node.everyLabel_marked.mp hlatest
      obtain ⟨hdone,hs₁⟩ := hr.visitAllRepeated ih [] hs hcs
      simp only [Node.label, Node.subtrees]
      generalize r.visitAllRepeated fuel l [] cs s = visited at hs₁ hdone
      obtain ⟨hclaimed,hs₂⟩ := hs₁.claim (n := .marked m l cs) hdone
      generalize visited.2.claim (.marked m l cs) visited.1.1 = claimed at hs₂ hclaimed
      have hv := hr.finish ctx (.marked m l claimed.1) (Node.everyLabel_marked.mpr ⟨hl,hclaimed⟩)
      obtain ⟨hkept,hs₃⟩ := hs₂.note hv.1
      exact ⟨⟨hkept,hv.2⟩,hs₃⟩

theorem runRepeated {tree : Node} (h : tree.EveryLabel P) : (r.runRepeated tree).1.EveryLabel P := by
  obtain ⟨hv,hs⟩ := hr.visitRepeated (2 * tree.size + 2) top tree _ (.ofTree tree) h
  exact hs.refresh _ hv.1

/-- What a rule keeps at single nodes it keeps in whole trees. -/
theorem run {tree : Node} (h : tree.EveryLabel P) : (r.run tree).1.EveryLabel P := by
  unfold Rule.run
  split
  · exact hr.runRepeated h
  · exact (hr.visit tree h top).1

end KeepsLabels
end Rule
end Unravel
