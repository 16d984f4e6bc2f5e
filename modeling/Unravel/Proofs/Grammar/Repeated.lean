import Unravel.Proofs.Grammar.Visits

/-! Trees with repeated nodes that stay grammatical. Every mark stands for one role, so what a visit
makes of a node at one place plays its role at every other. -/

namespace Unravel

/-- The roles that marks stand for. -/
abbrev Marking := Nat → Option Role

namespace Marking

def knows (κ : Marking) (k : Nat) (r : Role) : Bool := κ k = some r

def Extends (κ κ' : Marking) : Prop := ∀ k r, κ k = some r → κ' k = some r

/-- Marks from a bound on stand for nothing yet. -/
def Below (κ : Marking) (bound : Nat) : Prop := ∀ k r, κ k = some r → k < bound

variable {κ κ' κ'' : Marking} {bound : Nat} {n : Node} {r : Role}

theorem Extends.refl (κ : Marking) : κ.Extends κ := fun _ _ h => h

theorem Extends.trans (h : κ.Extends κ') (h' : κ'.Extends κ'') : κ.Extends κ'' :=
  fun k r hk => h' k r (h k r hk)

theorem Extends.fits (h : κ.Extends κ') (hn : n.fits κ.knows r = true) : n.fits κ'.knows r = true :=
  Node.fits_mono (fun k _ s hk => decide_eq_true (h k s (of_decide_eq_true hk))) hn

/-- Gives the next mark a role. -/
def assign (κ : Marking) (next : Nat) (r : Role) : Marking := fun k => if k = next then some r else κ k

theorem Below.assign (h : κ.Below bound) (r : Role) :
    κ.Extends (κ.assign bound r) ∧ (κ.assign bound r).Below (bound + 1) := by
  constructor
  · intro k s hk
    have := h k s hk
    simp [Marking.assign, show k ≠ bound by omega, hk]
  · intro k s hk
    by_cases hb : k = bound
    · omega
    · simp only [Marking.assign, hb, if_false] at hk
      have := h k s hk
      omega

end Marking

namespace Label

/-- Subtrees that play roles of the slots they stand in. -/
def Takes (l : Label) (r : Role) (known : Nat → Role → Bool) (cs : List (Field × Node)) : Prop :=
  ∀ c ∈ cs, ∃ s ∈ l.roles r c.1, c.2.fits known s = true

end Label

theorem Marking.Extends.takes {κ κ' : Marking} (h : κ.Extends κ') {l : Label} {r : Role}
    {cs : List (Field × Node)} (hcs : l.Takes r κ.knows cs) : l.Takes r κ'.knows cs := by
  intro c hc
  obtain ⟨s,hs,hfits⟩ := hcs c hc
  exact ⟨s,hs,h.fits hfits⟩

/-! ### Numbering -/

namespace Node
variable {κ : Marking} {r : Role}

/-- What numbering does to a list of subtrees, given what it does to each. -/
private theorem numberAll_spec {l : Label} {cs : List (Field × Node)}
    (h : ∀ c ∈ cs, ∀ next, next ≤ (c.2.number next).2 ∧ ∀ (κ : Marking) s, c.2.fits κ.knows s = true →
      κ.Below next → ∃ κ' : Marking, κ.Extends κ' ∧ (c.2.number next).1.fits κ'.knows s = true ∧
        κ'.Below (c.2.number next).2) (next : Nat) :
    next ≤ (numberAll next cs).2 ∧ (numberAll next cs).1.map Prod.fst = cs.map Prod.fst ∧
      ∀ κ : Marking, l.Takes r κ.knows cs → κ.Below next → ∃ κ' : Marking, κ.Extends κ' ∧
        l.Takes r κ'.knows (numberAll next cs).1 ∧ κ'.Below (numberAll next cs).2 := by
  induction cs generalizing next with
  | nil => exact ⟨Nat.le_refl _,rfl,fun κ hcs hb => ⟨κ,.refl κ,hcs,hb⟩⟩
  | cons c cs ih =>
    obtain ⟨f,n⟩ := c
    obtain ⟨hn,hrest⟩ := List.forall_mem_cons.mp h
    obtain ⟨hle,hfits⟩ := hn next
    obtain ⟨hle',hfields,hmore⟩ := ih hrest (n.number next).2
    rw [numberAll_cons]
    refine ⟨Nat.le_trans hle hle',by simp [hfields],fun κ hcs hb => ?_⟩
    obtain ⟨⟨s,hs,hns⟩,hcs⟩ := List.forall_mem_cons.mp hcs
    obtain ⟨κ₁,hext,hn,hb⟩ := hfits κ s hns hb
    obtain ⟨κ₂,hext',hcs,hb⟩ := hmore κ₁ (hext.takes hcs) hb
    exact ⟨κ₂,hext.trans hext',List.forall_mem_cons.mpr ⟨⟨s,hs,hext'.fits hn⟩,hcs⟩,hb⟩

private theorem number_spec (n : Node) (next : Nat) :
    next ≤ (n.number next).2 ∧ ∀ (κ : Marking) r, n.fits κ.knows r = true → κ.Below next →
      ∃ κ' : Marking, κ.Extends κ' ∧ (n.number next).1.fits κ'.knows r = true ∧
        κ'.Below (n.number next).2 := by
  induction n using inductionOn generalizing next with
  | marked m l cs ih =>
    obtain ⟨hle,hfields,-⟩ := numberAll_spec (l := l) (r := .program) ih
      (if m.isNone then next + 1 else next)
    rw [number_marked]
    refine ⟨?_,fun κ r hfits hb => ?_⟩
    · cases m <;> simp only [Option.isNone_none, Option.isNone_some, if_true, Bool.false_eq_true,
        if_false] at hle ⊢ <;> omega
    · obtain ⟨hl,hm,hf,hcs⟩ := fits_marked.mp hfits
      obtain ⟨-,-,hall⟩ := numberAll_spec (l := l) (r := r) ih
        (if m.isNone then next + 1 else next)
      cases m with
      | none =>
        obtain ⟨hext,hb'⟩ := hb.assign r
        obtain ⟨κ',hext',hcs,hb''⟩ := hall (κ.assign next r) (hext.takes hcs) hb'
        refine ⟨κ',hext.trans hext',fits_marked.mpr ⟨hl,?_,hfields ▸ hf,hcs⟩,hb''⟩
        rintro k hk
        obtain rfl : next = k := Option.some.inj hk
        exact decide_eq_true (hext' next r (by simp [Marking.assign]))
      | some k =>
        obtain ⟨κ',hext,hcs,hb'⟩ := hall κ hcs hb
        refine ⟨κ',hext,fits_marked.mpr ⟨hl,?_,hfields ▸ hf,hcs⟩,hb'⟩
        rintro k' hk
        exact decide_eq_true (hext k' r (of_decide_eq_true (hm k' hk)))

/-- Marks put on the nodes of a tree can stand for the roles that these nodes play. -/
theorem number_fits {n : Node} {next : Nat} (h : n.fits κ.knows r = true) (hb : κ.Below next) :
    ∃ κ' : Marking, κ.Extends κ' ∧ (n.number next).1.fits κ'.knows r = true ∧
      κ'.Below (n.number next).2 := (number_spec n next).2 κ r h hb

theorem numberAll_takes {l : Label} {cs : List (Field × Node)} {next : Nat}
    (h : l.Takes r κ.knows cs) (hb : κ.Below next) :
    ∃ κ' : Marking, κ.Extends κ' ∧ l.Takes r κ'.knows (numberAll next cs).1 ∧
      κ'.Below (numberAll next cs).2 :=
  (numberAll_spec (fun c _ => number_spec c.2) next).2.2 κ h hb

theorem numberAll_fields (cs : List (Field × Node)) (next : Nat) :
    next ≤ (numberAll next cs).2 ∧ (numberAll next cs).1.map Prod.fst = cs.map Prod.fst := by
  have hspec (c : Field × Node) (_ : c ∈ cs) := number_spec c.2
  obtain ⟨hle,hfields,-⟩ := numberAll_spec (l := .hole) (r := .program) hspec next
  exact ⟨hle,hfields⟩

end Node

/-! ### The nodes as they are now -/

namespace Repeats
variable {s : Repeats} {κ κ' : Marking} {r : Role}

/-- Every node held for a mark plays the role that the mark stands for. -/
structure Fits (s : Repeats) (κ : Marking) : Prop where
  below : κ.Below s.current.size
  current : ∀ k n, s.current.getD k none = some n → ∃ r, κ k = some r ∧ n.fits κ.knows r = true

theorem latest_fits {n : Node} (hs : s.Fits κ) (hn : n.fits κ.knows r = true) :
    (s.latest n).fits κ.knows r = true := by
  obtain ⟨m,l,cs⟩ := n
  cases m with
  | none => exact hn
  | some k =>
    have hk : κ k = some r := of_decide_eq_true ((Node.fits_marked.mp hn).2.1 k rfl)
    simp only [latest, Node.mark?]
    cases hc : s.current.getD k none with
    | none => exact hn
    | some n =>
      obtain ⟨t,ht,hheld⟩ := hs.current k n hc
      obtain rfl : t = r := Option.some.inj (ht.symm.trans hk)
      exact hheld

/-- Among the subtrees of a marked node new ones get marks, with the roles they play. -/
theorem claim_fits {n : Node} {l : Label} {cs : List (Field × Node)} (hs : s.Fits κ)
    (hcs : l.Takes r κ.knows cs) :
    ∃ κ' : Marking, κ.Extends κ' ∧ (s.claim n cs).2.Fits κ' ∧ l.Takes r κ'.knows (s.claim n cs).1 ∧
      (s.claim n cs).1.map Prod.fst = cs.map Prod.fst := by
  unfold claim
  split
  · exact ⟨κ,.refl κ,hs,hcs,rfl⟩
  · obtain ⟨hle,hfields⟩ := Node.numberAll_fields cs s.current.size
    obtain ⟨κ',hext,hcs,hb⟩ := Node.numberAll_takes hcs hs.below
    refine ⟨κ',hext,⟨?_,fun k n hk => ?_⟩,hcs,hfields⟩
    · simpa [Nat.add_sub_cancel' hle] using hb
    · rw [getD_append_replicate] at hk
      obtain ⟨t,ht,hn⟩ := hs.current k n hk
      exact ⟨t,hext k t ht,hext.fits hn⟩

theorem note_fits {n : Node} (hs : s.Fits κ) (hn : n.fits κ.knows r = true) :
    ∃ κ' : Marking, κ.Extends κ' ∧ (s.note n).2.Fits κ' ∧ (s.note n).1.fits κ'.knows r = true := by
  obtain ⟨m,l,cs⟩ := n
  cases m with
  | none => exact ⟨κ,.refl κ,hs,hn⟩
  | some k =>
    obtain ⟨hl,hm,hf,hcs⟩ := Node.fits_marked.mp hn
    obtain ⟨κ',hext,hs',hcs',hfields⟩ := claim_fits (n := .marked (some k) l cs) hs hcs
    have hk : κ' k = some r := hext k r (of_decide_eq_true (hm k rfl))
    simp only [note, Node.mark?, Node.subtrees, Node.label, Node.update]
    generalize s.claim (.marked (some k) l cs) cs = claimed at hs' hcs' hfields
    have hnew : (Node.marked (some k) l claimed.1).fits κ'.knows r = true := by
      refine Node.fits_marked.mpr ⟨hl,?_,hfields ▸ hf,hcs'⟩
      rintro k' hk'
      obtain rfl : k = k' := Option.some.inj hk'
      exact decide_eq_true hk
    refine ⟨κ',hext,⟨?_,fun j n hj => ?_⟩,hnew⟩
    · simpa using hs'.below
    · obtain ⟨hv,rfl⟩ | hold := getD_set! claimed.2.current j k (some (.marked (some k) l claimed.1))
      · obtain rfl := Option.some.inj (hv.symm.trans hj)
        exact ⟨r,hk,hnew⟩
      · exact hs'.current j n (hold ▸ hj)

/-- Bringing places up to date keeps their roles. -/
theorem refresh_fits (hs : s.Fits κ) (fuel : Nat) {n : Node} {r : Role}
    (hn : n.fits κ.knows r = true) : (s.refresh fuel n).fits κ.knows r = true := by
  induction fuel generalizing n r with
  | zero => simpa [refresh] using hn
  | succ fuel ih =>
    have hlatest := latest_fits hs hn
    rw [refresh]
    generalize s.latest n = n at hlatest
    obtain ⟨m,l,cs⟩ := n
    obtain ⟨hl,hm,hf,hcs⟩ := Node.fits_marked.mp hlatest
    refine Node.fits_marked.mpr ⟨hl,hm,?_,?_⟩
    · simpa [refreshAll, Node.subtrees, Node.label, Function.comp_def] using hf
    · simp only [refreshAll, Node.subtrees, List.mem_map]
      rintro _ ⟨c,hc,rfl⟩
      obtain ⟨t,ht,hfits⟩ := hcs c hc
      exact ⟨t,ht,ih hfits⟩

end Repeats

/-! ### Visits -/

namespace Visit
variable {κ κ' : Marking} {r : Role}

theorem Fits.extend {v : Visit} (hext : κ.Extends κ') (h : v.Fits κ.knows r) : v.Fits κ'.knows r := by
  obtain ⟨kept,replaced,k⟩ := v
  obtain ⟨hkept,hreplaced⟩ := h
  refine ⟨hext.fits hkept,?_⟩
  match replaced with
  | none => trivial
  | some (.node c) => exact hext.fits hreplaced
  | some (.statements cs) => exact ⟨hreplaced.1,fun c hc => hext.fits (hreplaced.2 c hc)⟩
  | some .nothing => exact hreplaced

end Visit

namespace Rule
variable {κ : Marking}

/-- What the visits of subtrees come to, given what a visit with the same fuel does. -/
private theorem visitAllRepeated_fits {rule : Rule} {fuel : Nat} {l : Label} {r : Role}
    (hvisit : ∀ ctx (n : Node) (s : Repeats) (κ : Marking) t, s.Fits κ → n.fits κ.knows t = true →
      ∃ κ' : Marking, κ.Extends κ' ∧ (rule.visitRepeated fuel ctx n s).2.Fits κ' ∧
        (rule.visitRepeated fuel ctx n s).1.Fits κ'.knows t)
    (before : List (Field × Node)) {cs : List (Field × Node)} {s : Repeats} {κ : Marking}
    (hs : s.Fits κ) (hcs : l.Takes r κ.knows cs) :
    ∃ κ' : Marking, κ.Extends κ' ∧ (rule.visitAllRepeated fuel l before cs s).2.Fits κ' ∧
      l.Takes r κ'.knows (rule.visitAllRepeated fuel l before cs s).1.1 ∧
        l.Refilled cs (rule.visitAllRepeated fuel l before cs s).1.1 := by
  induction cs generalizing before s κ with
  | nil =>
    rw [visitAllRepeated_nil]
    exact ⟨κ,.refl κ,hs,hcs,.nil l⟩
  | cons c cs ih =>
    obtain ⟨f,n⟩ := c
    obtain ⟨⟨t,ht,hn⟩,hcs⟩ := List.forall_mem_cons.mp hcs
    cases hhole : n.isHole
    case true =>
      rw [visitAllRepeated_hole _ _ _ _ _ hhole]
      obtain ⟨κ',hext,hs',hmore,hrefilled⟩ := ih (before ++ [(f, n)]) hs hcs
      refine ⟨κ',hext,hs',List.forall_mem_append.mpr ⟨?_,hmore⟩,?_⟩
      · simpa using ⟨t,ht,hext.fits hn⟩
      · exact (Label.Refilled.one l f n n).cons hrefilled
    case false =>
      rw [visitAllRepeated_node _ _ _ _ _ hhole]
      obtain ⟨κ₁,hext₁,hs₁,hv⟩ := hvisit ⟨some l,f,membersBefore before f n⟩ n s κ t hs hn
      obtain ⟨κ₂,hext₂,hs₂,hmore,hrefilled⟩ := ih (before ++ [(f, n)]) hs₁ (hext₁.takes hcs)
      obtain ⟨hhere,hslot⟩ := place_fits ht (Node.has_of_fits hn) (hv.extend hext₂)
      refine ⟨κ₂,hext₁.trans hext₂,hs₂,List.forall_mem_append.mpr ⟨fun c hc => ?_,hmore⟩,?_⟩
      · obtain ⟨hf,hc⟩ := hhere c hc
        exact ⟨t,hf ▸ ht,hc⟩
      · exact hslot.cons hrefilled

/-- A rule that keeps roles keeps them where nodes stand at several places. -/
theorem KeepsRoles.visitRepeated {rule : Rule} (hrule : rule.KeepsRoles) (fuel : Nat) (ctx : Context)
    (n : Node) (s : Repeats) (κ : Marking) (r : Role) (hs : s.Fits κ)
    (hn : n.fits κ.knows r = true) :
    ∃ κ' : Marking, κ.Extends κ' ∧ (rule.visitRepeated fuel ctx n s).2.Fits κ' ∧
      (rule.visitRepeated fuel ctx n s).1.Fits κ'.knows r := by
  induction fuel generalizing ctx n s κ r with
  | zero =>
    rw [visitRepeated_zero]
    exact ⟨κ,.refl κ,hs,hn,trivial⟩
  | succ fuel ih =>
    have hlatest := Repeats.latest_fits hs hn
    -- What is noted for the mark afterwards is the node as the rule keeps it.
    have hnoted (v : Visit) (j : Nat) (s : Repeats) (κ : Marking) (hs : s.Fits κ)
        (hv : v.Fits κ.knows r) : ∃ κ' : Marking, κ.Extends κ' ∧ (s.note v.kept).2.Fits κ' ∧
          Visit.Fits κ'.knows r ⟨(s.note v.kept).1,v.replaced,j⟩ := by
      obtain ⟨κ',hext,hs',hkept⟩ := Repeats.note_fits hs hv.1
      exact ⟨κ',hext,hs',hkept,(hv.extend hext).2⟩
    cases he : rule.early (s.latest n) with
    | some v =>
      rw [visitRepeated_early he]
      exact hnoted v _ s κ hs (hrule.early _ r _ v hlatest he)
    | none =>
      rw [visitRepeated_finish he]
      generalize s.latest n = n at hlatest
      obtain ⟨m,l,cs⟩ := n
      obtain ⟨hl,hm,hf,hcs⟩ := Node.fits_marked.mp hlatest
      obtain ⟨κ₁,hext₁,hs₁,hdone,hrefilled⟩ := visitAllRepeated_fits ih [] hs hcs
      simp only [Node.label, Node.subtrees]
      generalize rule.visitAllRepeated fuel l [] cs s = visited at hs₁ hdone hrefilled
      obtain ⟨κ₂,hext₂,hs₂,hclaimed,hfields⟩ := Repeats.claim_fits (n := .marked m l cs) hs₁ hdone
      generalize visited.2.claim (.marked m l cs) visited.1.1 = claimed at hs₂ hclaimed hfields
      have hext := hext₁.trans hext₂
      have hnode : (Node.marked m l claimed.1).fits κ₂.knows r = true := by
        refine Node.fits_marked.mpr ⟨hl,fun k hk => ?_,hfields ▸ hrefilled.filled hf,hclaimed⟩
        exact decide_eq_true (hext k r (of_decide_eq_true (hm k hk)))
      obtain ⟨κ₃,hext₃,hs₃,hv⟩ := hnoted _ (visited.1.2 +
        (rule.finish ctx (.marked m l claimed.1)).count) claimed.2 κ₂ hs₂
          (hrule.finish κ₂.knows r ctx _ hnode)
      exact ⟨κ₃,hext.trans hext₃,hs₃,hv⟩

end Rule
end Unravel
