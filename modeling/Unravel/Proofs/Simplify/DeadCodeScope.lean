import Unravel.Proofs.Scope.Releases
import Unravel.Simplify.DeadCode

/-! Names after branches that are never taken were removed. A branch that goes takes its
declarations with it, also those of names that are used elsewhere. A block that gives up its
statements binds nothing, unless a declaration stands behind a label or in a branch of it. -/

namespace Unravel

namespace Simplify
open Node

/-! ### What the pass does to a node -/

/-- The mark of the branch that a test chooses. -/
def takenMark (n : Node) : Option Nat :=
  ((n.child? .test).bind staticTest).bind fun outcome => (branch n outcome).bind mark?

/-- What the rule puts in the place of a node. -/
inductive Decided (n : Node) : Replacement → Prop
  | nothing : Decided n .nothing
  | branch {f : Field} {c : Node} (hc : c ∈ n.row f) : Decided n (.node c)
  | body {f : Field} {c : Node} (hn : n.label = .ifStatement) (hc : c ∈ n.row f)
    (hl : c.label = .blockStatement) (hd : declaresLexically c = false)
    (hm : takenMark n = c.mark?) : Decided n (.statements (c.row .body))

theorem deadCodeRule_decided (ctx : Context) (n : Node) : (deadCodeRule.finish ctx n).kept = n ∧
    ∀ rep, (deadCodeRule.finish ctx n).replaced = some rep →
      n.label.givesWay = true ∧ Decided n rep := by
  have hgives (hl : n.label = .ifStatement ∨ n.label = .conditionalExpression) :
      n.label.givesWay = true := by
    rcases hl with hl | hl <;> rw [hl] <;> rfl
  have hdeciding := deadCodeRule_deciding ctx n
  generalize deadCodeRule.finish ctx n = v at hdeciding ⊢
  cases hdeciding with
  | keep => exact ⟨rfl,fun rep hrep => by cases hrep⟩
  | nothing hl =>
    refine ⟨rfl,fun rep hrep => ⟨hgives hl,?_⟩⟩
    obtain rfl := Option.some.inj hrep
    exact .nothing
  | taken hl _ hc =>
    refine ⟨rfl,fun rep hrep => ⟨hgives hl,?_⟩⟩
    obtain rfl := Option.some.inj hrep
    exact .branch (mem_row_of_child? hc)
  | opened hl hb hc hblock hlexical =>
    refine ⟨rfl,fun rep hrep => ⟨hgives (.inl hl),?_⟩⟩
    obtain rfl := Option.some.inj hrep
    refine .body hl (mem_row_of_child? hc) hblock hlexical ?_
    simp only [takenMark, hb, hc, Option.bind_some]

section Remarks
variable {f : Node → Node} (hf : Remarks f)
include hf

private theorem staticTest_of_remarks (n : Node) :
    ((f n).child? .test).bind staticTest = (n.child? .test).bind staticTest := by
  have hside (test : Node) (g : Field) :
      ((f test).child? g).bind stringValue? = (test.child? g).bind stringValue? := by
    rw [hf.child?]
    cases test.child? g with
    | none => rfl
    | some side => exact stringValue?_of_remarks hf side
  rw [hf.child?, Option.bind_map]
  refine congrArg _ (funext fun test => ?_)
  simp only [Function.comp_apply, staticTest, hf.label, hside]

private theorem branch_of_remarks (n : Node) (outcome : Bool) :
    branch (f n) outcome = (branch n outcome).map f := by
  simp only [branch, hf.child?]

private theorem takenBranch_of_remarks (branch : Option Node) :
    takenBranch (branch.map f) = (takenBranch branch).onNodes f := by
  have hlexical (s : Node) : isLexicalDeclaration (f s) = isLexicalDeclaration s := by
    simp only [isLexicalDeclaration, hf.label]
  cases branch with
  | none => rfl
  | some c =>
    have hdeclares : declaresLexically (f c) = declaresLexically c := by
      simp only [declaresLexically, hf.row, List.any_map, Function.comp_def, hlexical]
    simp only [Option.map_some, takenBranch, hf.label, hf.row, hdeclares]
    split <;> rfl

end Remarks

theorem deadCodeRule_ignoresMarks : deadCodeRule.IgnoresMarks where
  early _ := rfl
  finish hf ctx n := by
    simp only [deadCodeRule, hf.label, staticTest_of_remarks hf, branch_of_remarks hf,
      takenBranch_of_remarks hf]
    generalize (n.child? .test).bind staticTest = outcome?
    generalize n.label = l
    split
    · cases branch n _ <;> rfl
    · rfl
    · rfl

theorem deadCodeRule_releases : deadCodeRule.Releases takenMark fun _ _ => True where
  ignores := deadCodeRule_ignoresMarks
  marks g hg n := by
    have hf := remark_remarks (fun _ => g) fun _ => hg
    simp only [takenMark, staticTest_of_remarks hf, branch_of_remarks hf]
    cases (n.child? .test).bind staticTest with
    | none => exact hg.symm
    | some outcome =>
      cases hb : branch n outcome with
      | none => simp [hb, hg]
      | some c => simp [hb, mark?_remark]
  kept ctx n := (deadCodeRule_decided ctx n).1
  roles := deadCodeRule_roles
  gives ctx n h := by
    obtain ⟨rep,hrep⟩ := Option.isSome_iff_exists.mp h
    exact ((deadCodeRule_decided ctx n).2 rep hrep).1
  placed ctx n s rep hfits hn _ hrep l f t ht old := by
    obtain ⟨hgives,hdecided⟩ := (deadCodeRule_decided ctx n).2 rep hrep
    cases hdecided with
    | nothing => exact .nothing _ old
    | branch hc => exact .child hn hgives hc fun d => isBody_of_givesWay hfits hgives ht
    | @body g c hl hc hblock _ hmark =>
      obtain rfl : s = .statement := role_of_givesWay hfits hgives (by simp [hl])
      have hchild : l.Pruned [(f, n)] [(f, c)] :=
        .child hn hgives hc fun d => isBody_of_givesWay hfits hgives ht
      have hmarks := hchild.nodup_left
      have hstatements : Label.blockStatement.Pruned c.subtrees
          ((c.row .body).map fun d => (.body, d)) := by
        rw [map_row]
        exact .sublist (nodup_marksAll hmarks) List.filter_sublist
      rw [hmark]
      refine hchild.trans ?_
      obtain ⟨m,_,cs⟩ := c
      obtain rfl := hblock
      have hkept : l.Pruned [(f, marked m .blockStatement cs)] [(f, marked m .blockStatement
          (((marked m .blockStatement cs).row .body).map fun d => (.body, d)))] :=
        .node hstatements hmarks rfl
      exact hkept.trans (.statements hkept.nodup_left rfl rfl rfl (fun _ => rfl)
        (Label.isBody_of_statement ht) old)

/-! ### Scopes that stay -/

/-- A node does not let another one inside it out: it never gives way, and if it is a block the
other node stands in a lexical declaration among its statements. -/
structure Guards (n : Node) (j : Nat) : Prop where
  inside : j ∈ n.marks
  stays : n.label.givesWay = false
  declared : n.label = .blockStatement →
    ∃ c ∈ n.row .body, isLexicalDeclaration c = true ∧ j ∈ c.marks

/-- The node with a mark does not let the node with another mark out. -/
def Guarded (n : Node) (k j : Nat) : Prop := ∃ q c, n.at? q = some c ∧ c.mark? = some k ∧ Guards c j

namespace Guarded
variable {n : Node} {k j : Nat}

theorem marks (h : Guarded n k j) : k ∈ n.marks ∧ j ∈ n.marks := by
  obtain ⟨q,c,hc,hk,hj⟩ := h
  exact ⟨marks_at? hc (mark_mem_marks hk),marks_at? hc hj.inside⟩

theorem of_mem {c : Field × Node} (hc : c ∈ n.subtrees) (h : Guarded c.2 k j) : Guarded n k j := by
  obtain ⟨i,hi⟩ := exists_at?_of_mem hc
  obtain ⟨q,d,hd,hrest⟩ := h
  exact ⟨[i] ++ q,d,by rw [at?_append, hi, Option.bind_some, hd],hrest⟩

theorem cases {m : Option Nat} {l : Label} {cs : List (Field × Node)}
    (h : Guarded (marked m l cs) k j) :
    (m = some k ∧ Guards (marked m l cs) j) ∨ ∃ c ∈ cs, Guarded c.2 k j := by
  obtain ⟨_ | ⟨i,q⟩,d,hd,hk,hj⟩ := h
  · obtain rfl := Option.some.inj hd
    exact .inl ⟨hk,hj⟩
  · obtain ⟨c,hc,hd⟩ := Option.bind_eq_some_iff.mp hd
    exact .inr ⟨c,List.mem_of_getElem? hc,q,d,hd,hk,hj⟩

/-- What a node itself does not hold is held in the subtree in which the mark stands. -/
theorem mem_row (h : Guarded n k j) (hn : n.marks.Nodup) (hnot : ¬Guards n j) {f : Field} {c : Node}
    (hc : c ∈ n.row f) (hj : j ∈ c.marks) : Guarded c k j := by
  obtain ⟨m,l,cs⟩ := n
  obtain ⟨e,he,rfl⟩ := List.mem_map.mp hc
  rcases h.cases with ⟨-,hhere⟩ | ⟨d,hd,h⟩
  · exact absurd hhere hnot
  · have hmarks : (marksAll cs).Nodup := (List.nodup_append.mp hn).2.1
    obtain rfl := eq_of_mem_marks hmarks hd (List.mem_filter.mp he).1 h.marks.2 hj
    exact h

end Guarded

/-- What the rule puts in the place of a node holds what the node held. -/
private theorem guarded_place {n old : Node} {rep : Replacement} (h : Decided n rep)
    (hgives : n.label.givesWay = true) (hn : n.marks.Nodup) {l : Label} {f : Field} {k j : Nat}
    (hguarded : Guarded n k j) (hj : j ∈ marksAll (Rule.place l f old rep)) :
    ∃ d ∈ Rule.place l f old rep, Guarded d.2 k j := by
  have hnot : ¬Guards n j := fun h => by
    rw [h.stays] at hgives
    cases hgives
  have hsub {g : Field} {c : Node} (hc : c ∈ n.row g) : c.marks.Nodup := by
    obtain ⟨e,he,rfl⟩ := List.mem_map.mp hc
    exact nodup_of_mem (nodup_marksAll hn) (List.mem_filter.mp he).1
  cases h with
  | nothing =>
    have hnil : marksAll (Rule.place l f old .nothing) = [] := by
      simp only [Rule.place]
      split
      · rfl
      · split <;> rfl
    rw [hnil] at hj
    cases hj
  | @branch g c hc =>
    rw [Rule.place, marksAll_singleton] at hj
    exact ⟨(f, c),List.mem_singleton_self _,hguarded.mem_row hn hnot hc hj⟩
  | @body g c hl hc hblock hd hmark =>
    have hnone : ¬Guards c j := by
      intro h
      obtain ⟨e,he,hlexical,-⟩ := h.declared hblock
      rw [declaresLexically, List.any_eq_false] at hd
      exact hd e he hlexical
    have hinside {s : Node} (hs : s ∈ c.row .body) (hjs : j ∈ s.marks) : Guarded s k j := by
      have hjc : j ∈ c.marks := by
        obtain ⟨i,hi⟩ := exists_at?_of_row hs
        exact marks_at? hi hjs
      exact (hguarded.mem_row hn hnot hc hjc).mem_row (hsub hc) hnone hs hjs
    have hmem : ∃ s ∈ c.row .body, j ∈ s.marks := by
      simp only [Rule.place] at hj
      split at hj
      · rw [marksAll_eq, List.flatMap_map] at hj
        exact List.mem_flatMap.mp hj
      · rw [marksAll_singleton, block, marks_marked, List.flatMap_map] at hj
        exact List.mem_flatMap.mp hj
    obtain ⟨s,hs,hjs⟩ := hmem
    simp only [Rule.place]
    split
    · exact ⟨_,List.mem_map_of_mem hs,hinside hs hjs⟩
    · exact ⟨_,List.mem_singleton_self _,.of_mem (c := (.body, s))
        (List.mem_map_of_mem (f := fun s => (Field.body, s)) hs) (hinside hs hjs)⟩

/-- Subtrees that took the place of a subtree hold what it held. -/
private structure Holds (c : Field × Node) (ds : List (Field × Node)) : Prop where
  marks : ∀ j ∈ marksAll ds, j ∈ c.2.marks
  nodup : (marksAll ds).Nodup
  held : ∀ k j, Guarded c.2 k j → j ∈ marksAll ds → ∃ d ∈ ds, Guarded d.2 k j
  stays : c.2.label.givesWay = false → ∃ d, ds = [(c.1, d)] ∧ d.label = c.2.label

section Node
variable {m : Option Nat} {l : Label} {cs : List (Field × Node)}
  {pieces : List (List (Field × Node))} (h : List.Forall₂ Holds cs pieces) (hn : (marked m l cs).marks.Nodup)
include h hn

omit hn in
private theorem exists_piece {d : Field × Node} (hd : d ∈ pieces.flatten) :
    ∃ c ∈ cs, ∃ ds, Holds c ds ∧ d ∈ ds ∧ ∀ e ∈ ds, e ∈ pieces.flatten := by
  induction h with
  | nil => cases hd
  | @cons c ds cs pieces hc _ ih =>
    rw [List.flatten_cons] at hd ⊢
    rcases List.mem_append.mp hd with hd | hd
    · exact ⟨c,List.mem_cons_self,ds,hc,hd,fun e he => List.mem_append_left _ he⟩
    · obtain ⟨b,hb,es,hbs,hd,hes⟩ := ih hd
      exact ⟨b,List.mem_cons_of_mem _ hb,es,hbs,hd,fun e he => List.mem_append_right _ (hes e he)⟩

/-- A mark of a subtree that is left is left in what took its place. -/
private theorem piece_of_mark {c : Field × Node} (hc : c ∈ cs) {j : Nat} (hj : j ∈ c.2.marks)
    (hleft : j ∈ (marked m l pieces.flatten).marks) :
    ∃ ds, Holds c ds ∧ j ∈ marksAll ds ∧ ∀ d ∈ ds, d ∈ pieces.flatten := by
  obtain ⟨-,hcs,hapart⟩ := List.nodup_append.mp hn
  have hmem : j ∈ marksAll cs := by
    rw [marksAll_eq]
    exact List.mem_flatMap.mpr ⟨c,hc,hj⟩
  rw [marks_marked, List.mem_append, or_iff_right fun hm => hapart j hm j hmem rfl] at hleft
  obtain ⟨d,hd,hjd⟩ := List.mem_flatMap.mp hleft
  obtain ⟨b,hb,ds,hbs,hd,hds⟩ := exists_piece h hd
  have hjds : j ∈ marksAll ds := by
    rw [marksAll_eq]
    exact List.mem_flatMap.mpr ⟨d,hd,hjd⟩
  obtain rfl := eq_of_mem_marks hcs hb hc (hbs.marks j hjds) hj
  exact ⟨ds,hbs,hjds,hds⟩

private theorem guarded_flatten {k j : Nat} (hguarded : Guarded (marked m l cs) k j)
    (hleft : j ∈ (marked m l pieces.flatten).marks) : Guarded (marked m l pieces.flatten) k j := by
  rcases hguarded.cases with ⟨hk,hguards⟩ | ⟨c,hc,hguarded⟩
  · refine ⟨[],_,rfl,hk,hleft,hguards.stays,fun hl => ?_⟩
    obtain ⟨c,hc,hlexical,hj⟩ := hguards.declared hl
    obtain ⟨e,he,rfl⟩ := List.mem_map.mp hc
    obtain ⟨he,hf⟩ := List.mem_filter.mp he
    obtain ⟨ds,hds,hjds,hsub⟩ := piece_of_mark h hn he hj hleft
    -- A declaration stays where it is.
    have hstays : e.2.label.givesWay = false := by
      unfold isLexicalDeclaration at hlexical
      cases hl : e.2.label <;> simp [hl] at hlexical <;> rfl
    obtain ⟨d,rfl,hd⟩ := hds.stays hstays
    rw [marksAll_singleton] at hjds
    refine ⟨d,List.mem_map.mpr ⟨(e.1, d),List.mem_filter.mpr ⟨hsub _ (by simp),hf⟩,rfl⟩,?_,hjds⟩
    rwa [isLexicalDeclaration, hd]
  · obtain ⟨ds,hds,hjds,hsub⟩ := piece_of_mark h hn hc hguarded.marks.2 hleft
    obtain ⟨d,hd,hguarded⟩ := hds.held k j hguarded hjds
    exact .of_mem (hsub d hd) hguarded

omit hn in
/-- No mark comes in, and none comes twice. -/
private theorem marks_flatten (hn : (marksAll cs).Nodup) :
    (∀ j ∈ marksAll pieces.flatten, j ∈ marksAll cs) ∧ (marksAll pieces.flatten).Nodup := by
  induction h with
  | nil => exact ⟨fun _ => id,hn⟩
  | @cons c ds cs pieces hc _ ih =>
    rw [marksAll] at hn ⊢
    obtain ⟨-,hcs,hapart⟩ := List.nodup_append.mp hn
    obtain ⟨hmarks,hnodup⟩ := ih hcs
    rw [List.flatten_cons, marksAll_append]
    refine ⟨fun j hj => List.mem_append.mpr ((List.mem_append.mp hj).imp (hc.marks j) (hmarks j)),?_⟩
    exact List.nodup_append.mpr ⟨hc.nodup,hnodup,fun j hj i hi =>
      hapart j (hc.marks j hj) i (hmarks i hi)⟩

end Node

/-- No mark comes in with what the rule puts in the place of a node. -/
private theorem marks_place {ctx : Context} {n : Node} {s : Role} {rep : Replacement}
    (hfits : n.fits (fun _ _ => true) s = true) (hn : n.marks.Nodup)
    (hrep : (deadCodeRule.finish ctx n).replaced = some rep) {l : Label} {f : Field} {t : Role}
    (ht : s ∈ l.roles t f) (old : Node) :
    (∀ j ∈ marksAll (Rule.place l f old rep), j ∈ n.marks) ∧
      (marksAll (Rule.place l f old rep)).Nodup := by
  have hplaced := deadCodeRule_releases.placed ctx n s rep hfits hn trivial hrep l f t ht old
  have hfewer : (marksAll (Rule.place l f old rep)).Sublist
      (marksAll (Rule.placeAs (takenMark n) l f old rep)) := by
    cases rep with
    | node | nothing => exact .refl _
    | statements ss =>
      simp only [Rule.place, Rule.placeAs]
      split
      · exact .refl _
      · simp only [marksAll_singleton, block, marks_marked]
        exact List.sublist_append_right _ _
  refine ⟨fun j hj => ?_,hplaced.nodup.sublist hfewer⟩
  rw [← marksAll_singleton (f := f)]
  exact hplaced.marks j (hfewer.subset hj)

/-- What a visit makes of a node holds what the node held. -/
private theorem guarded_visit {n : Node} {s : Role} (hfits : n.fits (fun _ _ => true) s = true)
    (hn : n.marks.Nodup) (ctx : Context) :
    (∀ k j, Guarded n k j → j ∈ (deadCodeRule.visit ctx n).kept.marks →
        Guarded (deadCodeRule.visit ctx n).kept k j) ∧
      ∀ (l : Label) f t, s ∈ l.roles t f → ∀ old,
        Holds (f, n) (Rule.place l f old (deadCodeRule.visit ctx n).result) := by
  induction n using inductionOn generalizing s ctx with
  | marked m l cs ih =>
    have hcs := (fits_marked.mp hfits).2.2.2
    have hnodup : (marksAll cs).Nodup := nodup_marksAll hn
    obtain ⟨pieces,heq,hpieces⟩ : ∃ pieces, (deadCodeRule.visitAll l [] cs).1 = pieces.flatten ∧
        List.Forall₂ Holds cs pieces := by
      refine Rule.exists_pieces (A := fun _ => True) (p := []) (fun c hc earlier q _ => ?_)
        fun _ _ => trivial
      unfold Rule.fitted
      split
      · refine ⟨fun j hj => ?_,?_,fun k j hg _ => ⟨c,List.mem_singleton_self _,hg⟩,
          fun _ => ⟨c.2,rfl,rfl⟩⟩
        · rwa [← marksAll_singleton (f := c.1)]
        · rw [marksAll_singleton (f := c.1)]
          exact nodup_of_mem hnodup hc
      · obtain ⟨t,ht,hfits⟩ := hcs c hc
        exact (ih c hc hfits (nodup_of_mem hnodup hc) _).2 l c.1 s ht c.2
    have hkeptfits := (deadCodeRule_roles.visit (.marked m l cs) hfits ctx).1
    obtain ⟨hkept,hreplaced⟩ := Rule.visit_marked (r := deadCodeRule) (fun _ => rfl)
      (fun ctx n => (deadCodeRule_decided ctx n).1) ctx m l cs
    rw [heq] at hkept hreplaced
    rw [hkept] at hkeptfits ⊢
    have hguarded {k j : Nat} := guarded_flatten (k := k) (j := j) hpieces hn
    obtain ⟨hsub,hpiecesnodup⟩ := marks_flatten hpieces hnodup
    have hkeptsub : ∀ j ∈ (marked m l pieces.flatten).marks, j ∈ (marked m l cs).marks := by
      intro j hj
      rw [Node.marks, List.mem_append] at hj ⊢
      exact hj.imp_right (hsub j)
    have hkeptmarks : (marked m l pieces.flatten).marks.Nodup := by
      obtain ⟨hm,-,hapart⟩ := List.nodup_append.mp hn
      exact List.nodup_append.mpr ⟨hm,hpiecesnodup,fun k hk j hj => hapart k hk j (hsub j hj)⟩
    refine ⟨fun k j => hguarded,fun l' f t ht old => ?_⟩
    rw [Visit.result, hreplaced, hkept]
    cases hrep : (deadCodeRule.finish ctx (.marked m l pieces.flatten)).replaced with
    | none =>
      refine ⟨fun j hj => ?_,?_,fun k j hg hj => ?_,fun _ => ⟨_,rfl,rfl⟩⟩
      · rw [Option.getD_none, Rule.place, marksAll_singleton] at hj
        exact hkeptsub j hj
      · rwa [Option.getD_none, Rule.place, marksAll_singleton]
      · rw [Option.getD_none, Rule.place, marksAll_singleton] at hj
        exact ⟨_,List.mem_singleton_self _,hguarded hg hj⟩
    | some rep =>
      obtain ⟨hgives,hdecided⟩ := (deadCodeRule_decided ctx _).2 rep hrep
      obtain ⟨hmarks,hplaced⟩ := marks_place hkeptfits hkeptmarks hrep (f := f) ht old
      refine ⟨fun j hj => hkeptsub j (hmarks j hj),hplaced,fun k j hg hj => ?_,fun hstays => ?_⟩
      · exact guarded_place hdecided hgives hkeptmarks (hguarded hg (hmarks j hj)) hj
      · exact absurd (hstays.symm.trans hgives) (by simp)

/-! ### Names -/

/-- A declaration leaves its block, although it stood behind a label or in a branch of an `if` without
braces, not among the statements of the block. -/
def LeavesIndirectly (tree : Node) (e : Path) : Prop :=
  (∃ q', deadCodeRule.Carries tree e q') ∧ ∃ σ ∈ tree.scope.walk,
    (¬∃ q', deadCodeRule.Carries tree σ.path q') ∧
      (∃ b ∈ σ.bindings, ∃ d ∈ b.declarations, d.path = e) ∧
        ∃ block ∈ tree.at? σ.path, block.label = .blockStatement ∧
          ∀ c ∈ block.subtrees.zipIdx, c.1.1 = .body → isLexicalDeclaration c.1.2 = true →
            ¬σ.path ++ [c.2] <+: e

section Names
variable {tree : Node} (h : tree.Grammatical) (hm : tree.hasMarks = false)
include h hm

/-- A block keeps the declarations that it looks for. -/
private theorem leavesIndirectly_of_leaves {e e' : Path}
    (hleaves : tree.Leaves (fun q => ∃ q', deadCodeRule.Carries tree q q') e)
    (he : deadCodeRule.Carries tree e e') : LeavesIndirectly tree e := by
  obtain ⟨σ,hσ,hgone,b,hb,d,hd,rfl⟩ := hleaves
  refine ⟨⟨e',he⟩,σ,hσ,hgone,⟨b,hb,d,hd,rfl⟩,?_⟩
  have hpruned := deadCodeRule_releases.prunedTo h hm fun _ _ _ => trivial
  have hplain : (tree.number 0).1.plain = tree := by
    rw [plain_number, plain_of_marks (hasMarks_eq_false.mp hm)]
  rw [← Rule.scope_number hm] at hσ
  obtain ⟨j,hj,hj'⟩ := he
  obtain ⟨c,hc,hopens,hmem⟩ := hpruned.exists_scope hσ hb hd hj
  obtain ⟨k,hk⟩ := Option.isSome_iff_exists.mp (hpruned.marked _ c hc)
  have hat : tree.at? σ.path = some c.plain := by rw [← hplain, at?_plain, hc]; rfl
  have hguards : ¬Guards c j := by
    intro hguards
    have hguarded := (guarded_visit (Rule.grammatical_number h hm) hpruned.nodup Rule.top).1 k j
      ⟨_,c,hc,hk,hguards⟩ (markAt_mem hj')
    obtain ⟨q,hq⟩ := exists_markAt hguarded.marks.1
    exact hgone ⟨q,k,by rw [markAt, hc, Option.bind_some, hk],hq⟩
  have hstays : c.label.givesWay = false := by
    cases hl : c.label <;> simp [hl, Label.opens] at hopens <;> rfl
  have hblock : c.label = .blockStatement := by
    by_contra hl
    exact hguards ⟨hmem,hstays,fun hblock => absurd hblock hl⟩
  refine ⟨_,hat,by rwa [label_plain],?_⟩
  rintro ⟨s,i⟩ hs hf hlexical ⟨r,hr⟩
  refine hguards ⟨hmem,hstays,fun _ => ?_⟩
  rw [List.mem_zipIdx_iff_getElem?, subtrees_plain, List.getElem?_map] at hs
  obtain ⟨s,hs,rfl⟩ := Option.map_eq_some_iff.mp hs
  obtain ⟨a,ha,haj⟩ := Option.bind_eq_some_iff.mp hj
  rw [← hr, at?_append, at?_snoc hc hs, Option.bind_some] at ha
  refine ⟨s.2,?_,?_,marks_at? ha (mark_mem_marks haj)⟩
  · exact List.mem_map_of_mem (List.mem_filter.mpr ⟨List.mem_of_getElem? hs,decide_eq_true hf⟩)
  · rwa [isLexicalDeclaration, label_plain] at hlexical

omit h in
private theorem deadCode_eq_runOnce : deadCode tree = deadCodeRule.runOnce tree := by
  rw [deadCode, Rule.run, hm]
  rfl

/-- A use of a name that is left after branches were removed stands for what it stood for, exactly if
a declaration of that is left. No declaration that a block let out from where it does not look
intrudes. -/
theorem deadCode_undisturbed_iff {q q' : Path}
    (hd : ∀ e, LeavesIndirectly tree e →
      ¬Intrudes (deadCodeRule.Carries tree) tree (deadCode tree).1 e q)
    (hq : deadCodeRule.Carries tree q q') :
    Undisturbed (deadCodeRule.Carries tree)
        (tree.KeepsDeclaration fun q => ∃ q', deadCodeRule.Carries tree q q') tree
        (deadCode tree).1 q q' ↔
      tree.KeepsDeclaration (fun q => ∃ q', deadCodeRule.Carries tree q q') q := by
  rw [deadCode_eq_runOnce hm] at hd ⊢
  rw [deadCodeRule_releases.undisturbed_iff (fun _ _ _ => trivial) h hm (fun _ _ _ => trivial) hq]
  refine and_iff_left fun e hleaves hintrudes => ?_
  obtain ⟨_,-,-,he,-⟩ := id hintrudes
  exact hd e (leavesIndirectly_of_leaves h hm hleaves he) hintrudes

/-- Only a declaration of a name intrudes on it. -/
theorem nameAt?_of_intrudes_deadCode {e q : Path}
    (he : Intrudes (deadCodeRule.Carries tree) tree (deadCode tree).1 e q) :
    tree.nameAt? e = tree.nameAt? q := by
  rw [deadCode_eq_runOnce hm] at he
  exact deadCodeRule_releases.nameAt?_of_intrudes (fun _ _ _ => trivial) h hm (fun _ _ _ => trivial) he

end Names

namespace Branches

def decided (outcome : Bool) (taken : List Node) : Node :=
  .mk .ifStatement [(.test, .ofBool outcome), (.consequent, .block taken)]

/-- `label: function name() { }` -/
def labelledFunction (label name : String) : Node :=
  .mk .labeledStatement [(.label, .identifier label),
    (.body, .mk (.functionDeclaration {} none) [(.id, .identifier name), (.body, .block [])])]

/-- `if (true) { let a = true; a; } if (true) { var b = true; l: function d() { } } b; if (false) {
var c = true; c; }` -/
def settled : Node := script
  [decided true [declares "let" "a", reads "a"],
    decided true [declares "var" "b", labelledFunction "l" "d"], reads "b",
    decided false [declares "var" "c", reads "c"]]

/-- `if (false) { var x = true; } x;` -/
def hoisted : Node := script [decided false [declares "var" "x"], reads "x"]

/-- `if (true) { l: function x() { } } x;` -/
def behindLabel : Node := script [decided true [labelledFunction "l" "x"], reads "x"]

end Branches

open Branches in
theorem deadCode_undisturbed_settled :
    settled.Grammatical ∧ settled.hasMarks = false ∧
      (∀ e, LeavesIndirectly settled e →
        ¬Intrudes (deadCodeRule.Carries settled) settled (deadCode settled).1 e [2, 0]) ∧
      (deadCode settled).2 = 3 ∧ deadCodeRule.Carries settled [2, 0] [3, 0] ∧
        Undisturbed (deadCodeRule.Carries settled)
          (settled.KeepsDeclaration fun q => ∃ q', deadCodeRule.Carries settled q q') settled
          (deadCode settled).1 [2, 0] [3, 0] := by
  have h : settled.Grammatical := by decide +kernel
  have hm : settled.hasMarks = false := by decide +kernel
  have hname : ∀ σ ∈ settled.scope.walk, (¬∃ q', deadCodeRule.Carries settled σ.path q') →
      ∀ b ∈ σ.bindings, ∀ d ∈ b.declarations, settled.nameAt? d.path ≠ settled.nameAt? [2, 0] := by
    simp only [Rule.Carries, exists_stays_iff]
    decide +kernel
  have hd : ∀ e, LeavesIndirectly settled e →
      ¬Intrudes (deadCodeRule.Carries settled) settled (deadCode settled).1 e [2, 0] := by
    rintro e ⟨-,σ,hσ,hgone,⟨b,hb,d,hd,rfl⟩,-⟩ hintrudes
    exact hname σ hσ hgone b hb d hd (nameAt?_of_intrudes_deadCode h hm hintrudes)
  have hq : deadCodeRule.Carries settled [2, 0] [3, 0] := ⟨23,by decide +kernel,by decide +kernel⟩
  refine ⟨h,hm,hd,by decide +kernel,hq,(deadCode_undisturbed_iff h hm hd hq).mpr ?_⟩
  simp only [KeepsDeclaration, Rule.Carries, exists_stays_iff]
  decide +kernel

open Branches in
/-- A branch that is never taken may hold the only declaration of a name, and a block may let out a
declaration from behind a label. -/
theorem deadCode_disturbs :
    (hoisted.Grammatical ∧ hoisted.hasMarks = false ∧
      ¬∀ q q', deadCodeRule.Carries hoisted q q' →
        Undisturbed (deadCodeRule.Carries hoisted) (fun _ => True) hoisted (deadCode hoisted).1
          q q') ∧
    behindLabel.Grammatical ∧ behindLabel.hasMarks = false ∧
      ¬∀ q q', deadCodeRule.Carries behindLabel q q' →
        Undisturbed (deadCodeRule.Carries behindLabel) (fun _ => True) behindLabel
          (deadCode behindLabel).1 q q' := by
  refine ⟨⟨by decide +kernel,by decide +kernel,fun hsame => ?_⟩,by decide +kernel,by decide +kernel,
    fun hsame => ?_⟩
  · have hstays : deadCodeRule.Carries hoisted [1, 0] [0, 0] :=
      ⟨9,by decide +kernel,by decide +kernel⟩
    have hbound : hoisted.IsBound [1, 0] := by decide +kernel
    exact absurd ((hsame _ _ hstays).1.mp hbound) (by decide +kernel)
  · have hstays : deadCodeRule.Carries behindLabel [1, 0] [1, 0] :=
      ⟨10,by decide +kernel,by decide +kernel⟩
    have hbound : (deadCode behindLabel).1.IsBound [1, 0] := by decide +kernel
    exact absurd ((hsame _ _ hstays).1.mpr hbound) (by decide +kernel)

end Simplify
end Unravel
