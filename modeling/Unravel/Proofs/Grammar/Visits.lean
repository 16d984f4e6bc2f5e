import Unravel.Proofs.Grammar.Table
import Unravel.Syntax.Rule

/-! Visits that keep a tree grammatical. What a rule puts in the place of a node plays the role of
the node, and the slot it stands in stays filled. -/

namespace Unravel

namespace Node
variable {known : Nat → Role → Bool} {r : Role}

theorem fitsAll_iff {l : Label} {cs : List (Field × Node)} :
    fitsAll known r l cs = true ↔ ∀ c ∈ cs, ∃ s ∈ l.roles r c.1, c.2.fits known s = true := by
  induction cs with
  | nil => simp [fitsAll]
  | cons c cs ih => simp [fitsAll, ih]

/-- A node fits a role if its kind plays it, its marks stand for it and its slots hold what they
should. -/
theorem fits_marked {m : Option Nat} {l : Label} {cs : List (Field × Node)} :
    (marked m l cs).fits known r = true ↔
      r.has l = true ∧ (∀ k, m = some k → known k r = true) ∧ l.filled (cs.map Prod.fst) = true ∧
        ∀ c ∈ cs, ∃ s ∈ l.roles r c.1, c.2.fits known s = true := by
  rw [fits, Bool.and_eq_true, Bool.and_eq_true, Bool.and_eq_true, fitsAll_iff, and_assoc, and_assoc]
  cases m <;> simp

theorem has_of_fits {n : Node} (h : n.fits known r = true) : r.has n.label = true := by
  obtain ⟨m,l,cs⟩ := n
  exact (fits_marked.mp h).1

theorem isProgram_of_fits {n : Node} (h : n.fits known .program = true) : n.IsProgram := by
  have hl := has_of_fits h
  cases hn : n.label <;> rw [hn] at hl <;> cases hl
  exact ⟨_,hn⟩

theorem fits_of_mem {n : Node} (h : n.fits known r = true) {c : Field × Node} (hc : c ∈ n.subtrees) :
    ∃ s ∈ n.label.roles r c.1, c.2.fits known s = true := by
  obtain ⟨m,l,cs⟩ := n
  exact (fits_marked.mp h).2.2.2 c hc

theorem fits_of_mem_row {n c : Node} {f : Field} (h : n.fits known r = true) (hc : c ∈ n.row f) :
    ∃ s ∈ n.label.roles r f, c.fits known s = true := by
  obtain ⟨e,he,rfl⟩ := List.mem_map.mp hc
  obtain ⟨hmem,hf⟩ := List.mem_filter.mp he
  rw [← of_decide_eq_true hf]
  exact fits_of_mem h hmem

theorem fits_of_child? {n c : Node} {f : Field} (h : n.fits known r = true)
    (hc : n.child? f = some c) : ∃ s ∈ n.label.roles r f, c.fits known s = true :=
  fits_of_mem_row h (mem_row_of_child? hc)

/-- A slot that must be filled holds a subtree. -/
theorem child?_of_fits {n : Node} {f : Field} (h : n.fits known r = true)
    (hs : Slot.one f ∈ n.label.slots) (ho : n.label.isOptional f = false) :
    ∃ c, n.child? f = some c := by
  obtain ⟨m,l,cs⟩ := n
  have hf := List.all_eq_true.mp (fits_marked.mp h).2.2.1 _ hs
  simp only [show l.isOptional f = false from ho, Bool.and_false, Bool.or_false,
    decide_eq_true_eq] at hf
  have hmem : f ∈ cs.map Prod.fst := List.count_pos_iff.mp (by omega)
  obtain ⟨c,hc,hcf⟩ := List.mem_map.mp hmem
  cases hfind : cs.find? fun c => c.1 = f with
  | none => exact absurd hcf (by simpa using List.find?_eq_none.mp hfind c hc)
  | some e => exact ⟨e.2,by simp [child?, subtrees, hfind]⟩

/-- Whether a tree fits depends on the roles of its own marks only. -/
theorem fits_mono {known known' : Nat → Role → Bool} {n : Node} {r : Role}
    (hk : ∀ k ∈ n.marks, ∀ s, known k s = true → known' k s = true)
    (h : n.fits known r = true) : n.fits known' r = true := by
  induction n using inductionOn generalizing r with
  | marked m l cs ih =>
    obtain ⟨hl,hm,hf,hcs⟩ := fits_marked.mp h
    rw [marks_marked] at hk
    refine fits_marked.mpr ⟨hl,?_,hf,fun c hc => ?_⟩
    · rintro k rfl
      exact hk k (by simp) r (hm k rfl)
    · obtain ⟨s,hs,hc'⟩ := hcs c hc
      refine ⟨s,hs,ih c hc (fun k hkc => hk k ?_) hc'⟩
      exact List.mem_append_right _ (List.mem_flatMap.mpr ⟨c,hc,hkc⟩)

end Node

namespace Label

/-- Slots for one subtree hold as many subtrees as before; one that may be empty may have become
so. -/
def Refilled (l : Label) (before after : List (Field × Node)) : Prop :=
  ∀ f, Slot.one f ∈ l.slots →
    (after.map Prod.fst).count f ≤ (before.map Prod.fst).count f ∧
      (l.isOptional f = false → (after.map Prod.fst).count f = (before.map Prod.fst).count f)

theorem Refilled.nil (l : Label) : l.Refilled [] [] := fun _ _ => ⟨Nat.le_refl _,fun _ => rfl⟩

theorem Refilled.one (l : Label) (f : Field) (n c : Node) : l.Refilled [(f, n)] [(f, c)] :=
  fun _ _ => ⟨Nat.le_refl _,fun _ => rfl⟩

theorem Refilled.append {l : Label} {cs ds cs' ds' : List (Field × Node)} (h : l.Refilled cs ds)
    (h' : l.Refilled cs' ds') : l.Refilled (cs ++ cs') (ds ++ ds') := by
  intro f hf
  obtain ⟨hle,heq⟩ := h f hf
  obtain ⟨hle',heq'⟩ := h' f hf
  simp only [List.map_append, List.count_append]
  exact ⟨by omega,fun ho => by rw [heq ho, heq' ho]⟩

theorem Refilled.cons {l : Label} {c : Field × Node} {ds cs ds' : List (Field × Node)}
    (h : l.Refilled [c] ds) (h' : l.Refilled cs ds') : l.Refilled (c :: cs) (ds ++ ds') := h.append h'

theorem Refilled.filled {l : Label} {cs ds : List (Field × Node)} (h : l.Refilled cs ds)
    (hcs : l.filled (cs.map Prod.fst) = true) : l.filled (ds.map Prod.fst) = true := by
  refine List.all_eq_true.mpr fun slot hslot => ?_
  have hold := List.all_eq_true.mp hcs slot hslot
  match slot with
  | .many f => rfl
  | .one f =>
    obtain ⟨hle,heq⟩ := h f hslot
    simp only [Bool.or_eq_true, Bool.and_eq_true, decide_eq_true_eq] at hold ⊢
    cases ho : l.isOptional f with
    | false =>
      rw [heq ho]
      simpa [ho] using hold
    | true =>
      simp only [ho, and_true] at hold ⊢
      omega

theorem isRow_of_one {l : Label} {f : Field} (h : Slot.one f ∈ l.slots) : l.isRow f = false := by
  cases l <;> simp only [slots, List.mem_cons, List.not_mem_nil, or_false, Slot.one.injEq, reduceCtorEq,
    false_or] at h
  all_goals
    rcases h with rfl | rfl | rfl | rfl
  all_goals rfl

/-- A statement may be missing only where it need not be there, which is an `else` branch. -/
theorem isOptional_alternate {l : Label} {r : Role} (h : Role.statement ∈ l.roles r .alternate) :
    l.isOptional .alternate = true := by
  cases l <;> simp [roles, table] at h
  rfl

end Label

/-- What a visit makes of a node that plays a role plays that role. Only statements are spliced or
vanish. -/
def Visit.Fits (known : Nat → Role → Bool) (r : Role) (v : Visit) : Prop :=
  v.kept.fits known r = true ∧
    match v.replaced with
    | none => True
    | some (.node c) => c.fits known r = true
    | some (.statements cs) => r = .statement ∧ ∀ c ∈ cs, c.fits known .statement = true
    | some .nothing => r = .statement

/-- A rule whose visits of single nodes keep roles, whatever the marks stand for. -/
structure Rule.KeepsRoles (rule : Rule) : Prop where
  early : ∀ known r (n : Node) v, n.fits known r = true → rule.early n = some v → v.Fits known r
  finish : ∀ known r ctx (n : Node), n.fits known r = true → (rule.finish ctx n).Fits known r

namespace Rule
variable {known : Nat → Role → Bool}

theorem fits_block {cs : List Node} (h : ∀ c ∈ cs, c.fits known .statement = true) :
    (Node.block cs).fits known .statement = true := by
  refine Node.fits_marked.mpr ⟨rfl,by simp,rfl,?_⟩
  simpa [Label.roles, Label.table] using h

/-- A replacement that is fitted into a slot plays the role of the node before, and the slot stays
filled. -/
theorem place_fits {l : Label} {f : Field} {r s : Role} {n : Node} {v : Visit}
    (hs : s ∈ l.roles r f) (hn : s.has n.label = true) (hv : v.Fits known s) :
    (∀ c ∈ place l f n v.result, c.1 = f ∧ c.2.fits known s = true) ∧
      l.Refilled [(f, n)] (place l f n v.result) := by
  obtain ⟨kept,replaced,k⟩ := v
  obtain ⟨hkept,hreplaced⟩ := hv
  have hrow (cs : List (Field × Node)) (hr : l.isRow f = true) (hcs : ∀ c ∈ cs, c.1 = f) :
      l.Refilled [(f, n)] cs := by
    intro g hg
    have hne : f ≠ g := by
      rintro rfl
      simp [Label.isRow_of_one hg] at hr
    have hzero : (cs.map Prod.fst).count g = 0 := by
      refine List.count_eq_zero.mpr fun hmem => ?_
      obtain ⟨c,hc,hcg⟩ := List.mem_map.mp hmem
      exact hne ((hcs c hc).symm.trans hcg)
    simp [hzero, hne]
  match replaced with
  | none => exact ⟨by simpa [place, Visit.result] using hkept,Label.Refilled.one l f n _⟩
  | some (.node c) => exact ⟨by simpa [place, Visit.result] using hreplaced,Label.Refilled.one l f n _⟩
  | some (.statements cs) =>
    obtain ⟨rfl,hcs⟩ := hreplaced
    simp only [Visit.result, Option.getD_some, place]
    split
    · rename_i hr
      exact ⟨by simpa using hcs,hrow _ hr (by simp)⟩
    · exact ⟨by simpa using fits_block hcs,Label.Refilled.one l f n _⟩
  | some .nothing =>
    obtain rfl : s = .statement := hreplaced
    simp only [Visit.result, Option.getD_some, place]
    split
    · rename_i hr
      exact ⟨by simp,hrow _ hr (by simp)⟩
    · split
      · exact ⟨by simpa using show Node.empty.fits known .statement = true from rfl,Label.Refilled.one l f n _⟩
      · rename_i hr he
        obtain rfl : f = .alternate := by
          simpa [Node.isStatement, show n.label.isStatement = true from hn] using he
        refine ⟨by simp,fun g hg => ⟨by simp,fun ho => ?_⟩⟩
        have hne : Field.alternate ≠ g := by
          rintro rfl
          simp [Label.isOptional_alternate hs] at ho
        simp [hne]

/-- Subtrees that play roles of their slots still do after a visit. -/
private theorem visitAll_fits {rule : Rule} {l : Label} {r : Role} (before : List (Field × Node))
    {cs : List (Field × Node)} (hcs : ∀ c ∈ cs, ∃ s ∈ l.roles r c.1, c.2.fits known s = true)
    (h : ∀ c ∈ cs, ∀ s ctx, c.2.fits known s = true → (rule.visit ctx c.2).Fits known s) :
    (∀ c ∈ (rule.visitAll l before cs).1, ∃ s ∈ l.roles r c.1, c.2.fits known s = true) ∧
      l.Refilled cs (rule.visitAll l before cs).1 := by
  induction cs generalizing before with
  | nil => exact ⟨by simp [visitAll],.nil l⟩
  | cons c cs ih =>
    obtain ⟨f,n⟩ := c
    obtain ⟨⟨s,hs,hn⟩,hcs⟩ := List.forall_mem_cons.mp hcs
    obtain ⟨hv,h⟩ := List.forall_mem_cons.mp h
    obtain ⟨hmore,hrefilled⟩ := ih (before ++ [(f, n)]) hcs h
    rw [visitAll_cons]
    split
    · refine ⟨List.forall_mem_append.mpr ⟨?_,hmore⟩,?_⟩
      · simpa using ⟨s,hs,hn⟩
      · exact (Label.Refilled.one l f n n).cons hrefilled
    · obtain ⟨hhere,hslot⟩ := place_fits hs (Node.has_of_fits hn) (hv s _ hn)
      refine ⟨List.forall_mem_append.mpr ⟨fun c hc => ?_,hmore⟩,?_⟩
      · obtain ⟨hf,hc⟩ := hhere c hc
        exact ⟨s,hf ▸ hs,hc⟩
      · exact hslot.cons hrefilled

/-- A rule that keeps roles node by node keeps them in whole trees. -/
theorem KeepsRoles.visit {rule : Rule} (hrule : rule.KeepsRoles) (n : Node) {r : Role}
    (h : n.fits known r = true) (ctx : Context) : (rule.visit ctx n).Fits known r := by
  induction n using Node.inductionOn generalizing r ctx with
  | marked m l cs ih =>
    obtain ⟨hl,hm,hf,hcs⟩ := Node.fits_marked.mp h
    rw [Rule.visit]
    split
    · rename_i v hv
      exact hrule.early known r _ v h hv
    · obtain ⟨hdone,hrefilled⟩ :=
        visitAll_fits [] hcs fun c hc s ctx hs => ih c hc hs ctx
      exact hrule.finish known r ctx _ (Node.fits_marked.mpr ⟨hl,hm,hrefilled.filled hf,hdone⟩)

end Rule
end Unravel
