import Unravel.Proofs.Grammar.Passes
import Unravel.Proofs.Scope.Survival
import Unravel.Proofs.Scope.Tracking
import Unravel.Proofs.Simplify.Unflattening

/-! Rules that put statements and expressions from inside a node in its place. Where names are bound
they change nothing, so that a run of such a rule prunes a program. Runs are watched with marks on the
blocks that they make. -/

namespace Unravel

/-- The roles of what stands where names are bound. -/
def Role.isTarget : Role → Bool
  | .name | .pattern | .rest | .hole | .patternProperty => true
  | _ => false

/-- The kinds of node that may give way to something from inside. -/
def Label.givesWay : Label → Bool
  | .ifStatement | .whileStatement | .conditionalExpression => true
  | _ => false

namespace Label

/-- What may give way is a statement or an expression. -/
theorem givesWay_of_role {l : Label} {s : Role} (hs : s ≠ .statement) (hs' : s ≠ .expression)
    (h : s.has l = true) : l.givesWay = false := by
  cases l with
  | ifStatement | whileStatement | conditionalExpression =>
    cases s <;> contradiction
  | _ => rfl

theorem givesWay_of_target {l : Label} {s : Role} (hs : s.isTarget = true) (h : s.has l = true) :
    l.givesWay = false :=
  givesWay_of_role (by rintro rfl; cases hs) (by rintro rfl; cases hs) h

/-- Where names are bound the slots that lead on to names hold names too. -/
theorem roles_of_target {l : Label} {s : Role} (hs : s.isTarget = true) (h : s.has l = true)
    {member : Bool} {f : Field} {b : Bool} (ht : l.target member = some (f, b)) :
    ∀ t ∈ l.roles s f, t.isTarget = true := by
  cases l <;> simp [target] at ht
  case property =>
    obtain ⟨-,rfl,-⟩ := ht
    cases s <;> cases hs <;> cases h
    simp [roles, table, Role.isTarget]
  all_goals
    obtain ⟨rfl,-⟩ := ht
    simp [roles, table, Role.isTarget]

/-- A tag name is made of tag names. -/
theorem roles_tagName {l : Label} (h : Role.tagName.has l = true) {f : Field} {t : Role}
    (ht : t ∈ l.roles .tagName f) : t = .tagName := by
  refine forall_roles (P := fun t => t = .tagName) ?_ f t ht
  cases l <;> cases h <;> simp [table]

/-- A declarator and what an import lists bind names in slots of their own. -/
theorem roles_member {l : Label} {s : Role} (hs : s = .declarator ∨ s = .importSpecifier)
    (h : s.has l = true) {f : Field} (hf : f = .id ∨ f = .localName) :
    ∀ t ∈ l.roles s f, t.isTarget = true := by
  rcases hs with rfl | rfl <;> cases l <;> cases h <;> rcases hf with rfl | rfl <;> decide

theorem isBody_of_statement {l : Label} {r : Role} {f : Field} (h : Role.statement ∈ l.roles r f)
    (n : Node) : l.isBody f n = false := by
  cases l <;> first | rfl | skip
  all_goals
    by_cases hf : f = .body
    · subst hf
      simp [roles, table] at h
    · simp [isBody, hf]

namespace Pruned
open Node
variable {l : Label} {f g : Field} {n c : Node}

/-- One of the subtrees in a slot stands for a node that may give way. -/
theorem child (hn : n.marks.Nodup) (hgives : n.label.givesWay = true) (hc : c ∈ n.row g)
    (hbody : ∀ d ∈ n.row g, l.isBody f d = false) : l.Pruned [(f, n)] [(f, c)] := by
  have hown : n.ownParts = [] := by
    unfold ownParts ownUses ownOutward ownInward
    cases hl : n.label <;> simp [hl, givesWay] at hgives <;> rfl
  have hplain : n.label.opens = none ∧ n.label.walks g = true ∧ n.label.hasBody = false ∧
      n.label ≠ .blockStatement := by
    cases hl : n.label <;> simp [hl, givesWay] at hgives <;>
      exact ⟨rfl,rfl,rfl,nofun⟩
  obtain ⟨hopens,hwalks,hhas,hblock⟩ := hplain
  have hreleased : l.Pruned [(f, n)] ((n.row g).map fun d => (f, d)) :=
    .release hn hown (by simp [hopens]) hwalks (by simp [isBody, hblock]) fun d hd => by
      rw [hbody d hd, isBody, hhas]
      rfl
  exact hreleased.trans (.choose hreleased.nodup (List.nodup_singleton _) (by simpa using hc))

section Statements
variable {ss : List Node} {m : Option Nat} {l' : Label}
  (hn : (marked m l' (ss.map fun d => (g, d))).marks.Nodup)
  (hown : (marked m l' (ss.map fun d => (g, d))).ownParts = []) (hopens : l'.opens = some false)
  (hw : l'.walks g = true) (hinside : ∀ d, l'.isBody g d = false)
  (hbody : ∀ d, l.isBody f d = false)
include hn hown hopens hw hinside hbody

/-- A node that opens a block scope, of which only the statements in a slot are left, gives way to
them. -/
theorem releaseRow :
    l.Pruned [(f, marked m l' (ss.map fun d => (g, d)))] (ss.map fun d => (f, d)) := by
  have hrow : (marked m l' (ss.map fun d => (g, d))).row g = ss := by
    simp [row, subtrees, List.filter_map, Function.comp_def]
  have hreleased : l.Pruned [(f, marked m l' (ss.map fun d => (g, d)))]
      (((marked m l' (ss.map fun d => (g, d))).row g).map fun d => (f, d)) :=
    .release hn hown (by simp [label, hopens]) hw (hbody _) fun d _ =>
      (hbody d).trans (hinside d).symm
  rwa [hrow] at hreleased

/-- The statements stand in its place, in a new block with its mark if need be. -/
theorem statements (old : Node) : l.Pruned [(f, marked m l' (ss.map fun d => (g, d)))]
    (Rule.placeAs m l f old (.statements ss)) := by
  simp only [Rule.placeAs]
  split
  · exact releaseRow hn hown hopens hw hinside hbody
  · exact .block hn hown hopens hw hinside hbody

end Statements

/-- Nothing, or an empty statement, stands in the place of a node. -/
theorem nothing (m : Option Nat) (old : Node) :
    l.Pruned [(f, n)] (Rule.placeAs m l f old .nothing) := by
  have hempty (d : Field × Node) (hd : d = (f, Node.empty)) (chain : Chain) (part : Part) :
      ¬l.Tells d chain part := by
    rintro ⟨-,htells⟩
    subst hd
    cases htells with
    | own h => cases h
    | inside hc => cases hc
  simp only [Rule.placeAs, Rule.place]
  split
  · exact .silent rfl (by simp)
  · split
    · exact .silent rfl (by simpa using hempty _ rfl)
    · exact .silent rfl (by simp)

end Pruned
end Label

namespace Node
variable {known : Nat → Role → Bool} {n c : Node} {s t : Role}

/-- What may give way is a statement, or a conditional expression. -/
theorem role_of_givesWay (h : n.fits known s = true) (hgives : n.label.givesWay = true)
    (hl : n.label ≠ .conditionalExpression) : s = .statement := by
  have hs := has_of_fits h
  cases hn : n.label <;> simp [hn, Label.givesWay] at hgives hl <;>
    rw [hn] at hs <;> cases s <;> cases hs <;> rfl

/-- The body of a function does not stand in such a place, and is no expression. -/
theorem isBody_of_givesWay (h : n.fits known s = true) (hgives : n.label.givesWay = true)
    {l : Label} {f g : Field} (ht : s ∈ l.roles t f) (hc : c ∈ n.row g) : l.isBody f c = false := by
  by_cases hl : n.label = .conditionalExpression
  case neg => exact Label.isBody_of_statement (role_of_givesWay h hgives hl ▸ ht) c
  obtain ⟨u,hu,hfits⟩ := fits_of_mem_row h hc
  rw [hl] at hu
  obtain rfl : u = .expression :=
    Label.forall_roles (P := fun t => t = .expression) (by simp [Label.table]) g u hu
  have hblock : c.label ≠ .blockStatement := by
    intro hblock
    have hc := has_of_fits hfits
    rw [hblock] at hc
    cases hc
  simp [Label.isBody, hblock]

end Node

namespace Rule

/-- What a rule makes of a subtree in its slot. -/
def fitted (r : Rule) (l : Label) (ctx : Context) (c : Field × Node) : List (Field × Node) :=
  if c.2.isHole then [c] else place l c.1 c.2 (r.visit ctx c.2).result

section Pieces
variable {r : Rule} {A : Visited → Prop}

/-- The subtrees of a node are visited one by one. -/
theorem exists_pieces {P : Field × Node → List (Field × Node) → Prop} {l : Label} {p : Path}
    {before cs : List (Field × Node)}
    (h : ∀ c ∈ cs, ∀ earlier q,
      (c.2.isHole = false → ∀ x ∈ r.visits ⟨some l,c.1,earlier⟩ q c.2, A x) →
        P c (r.fitted l ⟨some l,c.1,earlier⟩ c))
    (hall : ∀ x ∈ r.visitsAll l p before cs, A x) :
    ∃ pieces, (r.visitAll l before cs).1 = pieces.flatten ∧ List.Forall₂ P cs pieces := by
  induction cs generalizing before with
  | nil => exact ⟨[],rfl,.nil⟩
  | cons c cs ih =>
    obtain ⟨f,n⟩ := c
    obtain ⟨hc,hcs⟩ := List.forall_mem_cons.mp h
    rw [visitsAll] at hall
    obtain ⟨hhere,hmore⟩ := List.forall_mem_append.mp hall
    obtain ⟨pieces,heq,hpieces⟩ := ih hcs hmore
    refine ⟨_ :: pieces,?_,.cons (hc ((before.filter fun c => c.1 = f).map Prod.snd)
      (p ++ [before.length]) fun hhole => ?_) hpieces⟩
    · rw [visitAll_cons, List.flatten_cons, ← heq]
      rfl
    · rw [hhole] at hhere
      exact hhere

end Pieces

/-- Subtrees that took the place of a subtree in its slot, of a node that plays a role. Names are
bound in the slot as before. -/
structure Fitted (l : Label) (s : Role) (c : Field × Node)
    (ds : List (Field × Node)) : Prop where
  pruned : l.Pruned [c] ds
  field : ∀ d ∈ ds, d.1 = c.1
  targets : (∀ t ∈ l.roles s c.1, t.isTarget = true) →
    ∃ d, ds = [(c.1, d)] ∧ ∀ member, d.targets member = c.2.targets member
  members : (∀ t ∈ l.roles s c.1, t = .declarator ∨ t = .importSpecifier) →
    ∃ d, ds = [(c.1, d)] ∧ d.memberTargets .id = c.2.memberTargets .id ∧
      d.memberTargets .localName = c.2.memberTargets .localName
  tag : (∀ t ∈ l.roles s c.1, t = .tagName) → ds = [c]

section Fitted
open Node
variable {l : Label} {s : Role} {cs : List (Field × Node)}
  {pieces : List (List (Field × Node))} {m : Option Nat}

private theorem pruned_flatten (h : List.Forall₂ (fun c ds => l.Pruned [c] ds) cs pieces)
    (hn : (marksAll cs).Nodup) : l.Pruned cs pieces.flatten := by
  induction h with
  | nil => exact .refl hn
  | @cons c ds cs pieces hc _ ih =>
    have hrest : (marksAll cs).Nodup := by
      rw [marksAll] at hn
      exact (List.nodup_append.mp hn).2.1
    exact hc.append (ih hrest) hn

private theorem flatMap_flatten {α : Type} {F : Field × Node → List α}
    (h : List.Forall₂ (fun c ds => ds.flatMap F = F c) cs pieces) :
    pieces.flatten.flatMap F = cs.flatMap F := by
  induction h with
  | nil => rfl
  | cons hc _ ih => rw [List.flatten_cons, List.flatMap_append, hc, ih, List.flatMap_cons]

variable (h : List.Forall₂ (Fitted l s) cs pieces)
include h

private theorem flatMap_slot {α : Type} {f : Field} {F : Node → List α}
    (hF : ∀ c ds, Fitted l s c ds → c.1 = f → ∃ d, ds = [(f, d)] ∧ F d = F c.2) :
    (pieces.flatten.flatMap fun c => if c.1 = f then F c.2 else []) =
      cs.flatMap fun c => if c.1 = f then F c.2 else [] := by
  refine flatMap_flatten (h.imp fun c ds hc => ?_)
  by_cases hf : c.1 = f
  · obtain ⟨d,rfl,hd⟩ := hF c ds hc hf
    simp [hf, hd]
  · rw [if_neg hf]
    refine List.flatMap_eq_nil_iff.mpr fun d hd => ?_
    rw [if_neg]
    rw [hc.field d hd]
    exact hf

private theorem targets_flatten {f : Field} (hf : ∀ t ∈ l.roles s f, t.isTarget = true)
    (member : Bool) :
    (pieces.flatten.flatMap fun c => if c.1 = f then c.2.targets member else []) =
      cs.flatMap fun c => if c.1 = f then c.2.targets member else [] := by
  refine flatMap_slot h fun c ds hc hcf => ?_
  subst hcf
  obtain ⟨d,rfl,hd⟩ := hc.targets hf
  exact ⟨d,rfl,hd member⟩

private theorem memberTargets_flatten {f : Field} (hf : ∀ t ∈ l.roles s f, t.isTarget = true) :
    (marked m l pieces.flatten).memberTargets f = (marked m l cs).memberTargets f := by
  simp only [memberTargets, child?, subtrees]
  induction h with
  | nil => rfl
  | @cons c ds cs pieces hc _ ih =>
    rw [List.flatten_cons, List.find?_append, List.find?_cons]
    by_cases hcf : c.1 = f
    · subst hcf
      obtain ⟨d,rfl,hd⟩ := hc.targets hf
      simp [hd false]
    · have hnone : ds.find? (fun d => d.1 = f) = none :=
        List.find?_eq_none.mpr fun d hd => by simpa [hc.field d hd] using hcf
      simp only [hnone, hcf, decide_false, Option.none_or]
      exact ih

private theorem eq_flatten (hl : ∀ f, ∀ t ∈ l.roles s f, t = .tagName) : pieces.flatten = cs := by
  induction h with
  | nil => rfl
  | @cons c ds cs pieces hc _ ih =>
    rw [List.flatten_cons, hc.tag (hl c.1), ih, List.singleton_append]

/-- The names that a node takes from its subtrees stay. -/
private theorem ownParts_flatten :
    (marked m l pieces.flatten).ownParts = (marked m l cs).ownParts := by
  have hslot {f : Field} (hf : ∀ t ∈ l.roles s f, t.isTarget = true) :
      slotTargets f pieces.flatten = slotTargets f cs := targets_flatten h hf false
  have htag (hf : ∀ t ∈ l.roles s .name, t = .tagName) :
      (pieces.flatten.flatMap fun c => if c.1 = .name then c.2.component else []) =
        cs.flatMap fun c => if c.1 = .name then c.2.component else [] := by
    refine flatMap_slot h fun c ds hc hcf => ?_
    rw [← hcf] at hf ⊢
    exact ⟨c.2,hc.tag hf,rfl⟩
  have hspecifiers (hf : ∀ t ∈ l.roles s .specifiers, t = .importSpecifier) :
      (pieces.flatten.flatMap fun c =>
          if c.1 = .specifiers then c.2.memberTargets .localName else []) =
        cs.flatMap fun c => if c.1 = .specifiers then c.2.memberTargets .localName else [] := by
    refine flatMap_slot h fun c ds hc hcf => ?_
    rw [← hcf] at hf ⊢
    obtain ⟨d,hd,-,hmember⟩ := hc.members fun t ht => .inr (hf t ht)
    exact ⟨d,hd,hmember⟩
  have hdeclarators (hf : ∀ f, ∀ t ∈ l.roles s f, t = .declarator) :
      (pieces.flatten.flatMap fun c => c.2.memberTargets .id) =
        cs.flatMap fun c => c.2.memberTargets .id := by
    refine flatMap_flatten (h.imp fun c ds hc => ?_)
    obtain ⟨d,rfl,hmember,-⟩ := hc.members fun t ht => .inl (hf c.1 t ht)
    simp [hmember]
  have huses : (marked m l pieces.flatten).ownUses = (marked m l cs).ownUses := by
    unfold ownUses
    cases l <;> first | rfl | exact htag (by simp [Label.roles, Label.table])
  have houtward : (marked m l pieces.flatten).ownOutward = (marked m l cs).ownOutward := by
    unfold ownOutward
    cases l <;> first
      | rfl
      | exact congrArg _ (hslot (by simp [Label.roles, Label.table, Role.isTarget]))
      | exact congrArg _ (hspecifiers (by simp [Label.roles, Label.table]))
      | exact congrArg _ (hdeclarators (Label.forall_roles (by simp [Label.table])))
  have hinward : (marked m l pieces.flatten).ownInward = (marked m l cs).ownInward := by
    unfold ownInward
    cases l <;> first
      | rfl
      | exact hslot (by simp [Label.roles, Label.table, Role.isTarget])
      | exact congrArg₂ _ (hslot (by simp [Label.roles, Label.table, Role.isTarget]))
          (hslot (by simp [Label.roles, Label.table, Role.isTarget]))
  simp only [ownParts, huses, houtward, hinward]
  rfl

end Fitted
end Rule

/-- What a visit makes of a node that plays a role. The names that are bound there stay, and what
takes the place of the node tells nothing new. -/
structure Visit.Prunes (s : Role) (ctx : Context) (n : Node) (v : Visit) : Prop where
  kept : ∀ l f, Label.Pruned l [(f, n)] [(f, v.kept)]
  gives : v.replaced.isSome → n.label.givesWay = true
  placed : ∀ (l : Label) t, ctx.parent = some l → s ∈ l.roles t ctx.field → ∀ old,
    l.Pruned [(ctx.field, n)] (Rule.place l ctx.field old v.result)
  targets : s.isTarget = true → ∀ member, v.kept.targets member = n.targets member
  members : ∀ f, (∀ t ∈ n.label.roles s f, t.isTarget = true) →
    v.kept.memberTargets f = n.memberTargets f
  tag : s = .tagName → v.kept = n

namespace Rule
open Node

private theorem Fitted.refl {l : Label} {s : Role} {c : Field × Node} (h : c.2.marks.Nodup) :
    Fitted l s c [c] where
  pruned := .refl (by rwa [marksAll_singleton (f := c.1)])
  field := by simp
  targets _ := ⟨c.2,rfl,fun _ => rfl⟩
  members _ := ⟨c.2,rfl,rfl,rfl⟩
  tag _ := rfl

/-- What a visit makes of a subtree fits into its slot. -/
private theorem fitted_of_prunes {l : Label} {s t : Role} {c : Field × Node} {earlier : List Node}
    {v : Visit} (ht : t ∈ l.roles s c.1) (hn : t.has c.2.label = true)
    (h : v.Prunes t ⟨some l,c.1,earlier⟩ c.2) : Fitted l s c (place l c.1 c.2 v.result) := by
  have hkept (hgives : c.2.label.givesWay = false) : place l c.1 c.2 v.result = [(c.1, v.kept)] := by
    have hnone : v.replaced = none := by
      refine Option.not_isSome_iff_eq_none.mp fun hsome => ?_
      rw [h.gives hsome] at hgives
      cases hgives
    rw [Visit.result, hnone]
    rfl
  refine ⟨h.placed l s rfl ht c.2,fun d hd => field_place hd,fun hall => ?_,fun hall => ?_,
    fun hall => ?_⟩
  · have htarget := hall t ht
    exact ⟨_,hkept (Label.givesWay_of_target htarget hn),h.targets htarget⟩
  · have hmember {f : Field} (hf : f = .id ∨ f = .localName) :
        v.kept.memberTargets f = c.2.memberTargets f :=
      h.members f (Label.roles_member (hall t ht) hn hf)
    have hgives : c.2.label.givesWay = false := by
      rcases hall t ht with rfl | rfl <;> exact Label.givesWay_of_role (by simp) (by simp) hn
    exact ⟨_,hkept hgives,hmember (.inl rfl),hmember (.inr rfl)⟩
  · obtain rfl := hall t ht
    rw [hkept (Label.givesWay_of_role (by simp) (by simp) hn), h.tag rfl]

/-- A rule that keeps a node or puts something from inside in its place, where that is allowed. A block
around it has the mark of the scope that it stands for. -/
structure Releases (r : Rule) (mark : Node → Option Nat) (allowed : Context → Node → Prop) :
    Prop where
  ignores : r.IgnoresMarks
  marks : ∀ g : Option Nat → Option Nat, g none = none → ∀ n, mark (n.remark fun _ => g) = g (mark n)
  kept : ∀ ctx n, (r.finish ctx n).kept = n
  roles : r.KeepsRoles
  gives : ∀ ctx n, (r.finish ctx n).replaced.isSome → n.label.givesWay = true
  placed : ∀ ctx n s rep, n.fits (fun _ _ => true) s = true → n.marks.Nodup → allowed ctx n →
    (r.finish ctx n).replaced = some rep → ∀ (l : Label) f t, s ∈ l.roles t f → ∀ old,
      l.Pruned [(f, n)] (placeAs (mark n) l f old rep)

/-- A rule that keeps a node puts something in its place after its subtrees were visited. -/
theorem visit_marked {r : Rule} (hearly : ∀ n, r.early n = none)
    (hkept : ∀ ctx n, (r.finish ctx n).kept = n) (ctx : Context) (m : Option Nat) (l : Label)
    (cs : List (Field × Node)) :
    (r.visit ctx (.marked m l cs)).kept = .marked m l (r.visitAll l [] cs).1 ∧
      (r.visit ctx (.marked m l cs)).replaced =
        (r.finish ctx (.marked m l (r.visitAll l [] cs).1)).replaced := by
  rw [Rule.visit, hearly]
  exact ⟨hkept _ _,rfl⟩

section Releases
variable {r : Rule} {mark : Node → Option Nat} {allowed : Context → Node → Prop}

private theorem fits_remark {g : Label → Option Nat → Option Nat} {n : Node} {s : Role} :
    (n.remark g).fits (fun _ _ => true) s = true ↔ n.fits (fun _ _ => true) s = true := by
  induction n using inductionOn generalizing s with
  | marked m l cs ih =>
    rw [remark_marked, fits_marked, fits_marked]
    refine and_congr_right fun _ => and_congr (by simp) (and_congr ?_ ?_)
    · rw [List.map_map]
      rfl
    · rw [List.forall_mem_map]
      exact forall₂_congr fun c hc => exists_congr fun t => and_congr_right fun _ => ih c hc

/-- Marks do not matter to the roles that a run keeps. -/
private theorem Releases.fits_tracked (hr : r.Releases mark allowed) (ctx : Context) {n : Node}
    {s : Role} (h : n.fits (fun _ _ => true) s = true) :
    ((r.tracked mark).visit ctx n).kept.fits (fun _ _ => true) s = true := by
  have hf : Remarks (remark fun _ _ => none) := remark_remarks _ fun _ => rfl
  have hfollows : (r.tracked mark).Follows r (remark fun _ _ => none) :=
    hr.ignores.follows hf (places_tracked hr.ignores.early mark) (places_self hr.ignores.early)
      fun n cs => remark_marked ..
  rw [← fits_remark, ← (hfollows.visit hf ctx n).kept]
  exact (hr.roles.visit _ (fits_remark.mpr h) _).1

theorem Releases.visit (hr : r.Releases mark allowed) {ctx : Context} {p : Path} {n : Node}
    {s : Role} (hfits : n.fits (fun _ _ => true) s = true) (hn : n.marks.Nodup)
    (hall : ∀ x ∈ (r.tracked mark).visits ctx p n, x.outcome.replaced.isSome →
      allowed x.context x.outcome.kept) : ((r.tracked mark).visit ctx n).Prunes s ctx n := by
  have hplaces := places_tracked hr.ignores.early mark
  induction n using inductionOn generalizing ctx p s with
  | marked m l cs ih =>
    obtain ⟨hs,-,-,hcs⟩ := fits_marked.mp hfits
    have hnodup : (marksAll cs).Nodup := nodup_marksAll hn
    rw [visits, hplaces.early] at hall
    obtain ⟨hbelow,hhere⟩ := List.forall_mem_append.mp hall
    rw [List.forall_mem_singleton] at hhere
    -- The subtrees of the node, each in its slot.
    obtain ⟨pieces,heq,hpieces⟩ := exists_pieces (P := Fitted l s) (fun c hc earlier q hall => by
      unfold fitted
      split
      · exact .refl (nodup_of_mem hnodup hc)
      · rename_i hhole
        obtain ⟨t,ht,hfits⟩ := hcs c hc
        exact fitted_of_prunes ht (has_of_fits hfits)
          (ih c hc hfits (nodup_of_mem hnodup hc) (hall (by simpa using hhole)))) hbelow
    have hparts := ownParts_flatten (m := m) hpieces
    have hpruned := pruned_flatten (hpieces.imp fun _ _ h => h.pruned) hnodup
    have hkeptfits := hr.fits_tracked ctx hfits
    obtain ⟨hkept,hreplaced⟩ := visit_marked hplaces.early
      (fun ctx n => (hplaces.kept ctx n).trans (hr.kept ctx n)) ctx m l cs
    rw [heq] at hkept hreplaced
    rw [hkept] at hhere hkeptfits
    have hnode (l' : Label) (f : Field) :
        l'.Pruned [(f, .marked m l cs)] [(f, .marked m l pieces.flatten)] := .node hpruned hn hparts
    refine ⟨fun l' f => hkept ▸ hnode l' f,fun hsome => ?_,fun l' t hl' ht old => ?_,
      fun hs' member => ?_,fun f hf => ?_,fun hs' => ?_⟩
    · rw [hreplaced, hplaces.replaced] at hsome
      exact hr.gives _ (.marked m l pieces.flatten) hsome
    · rw [Visit.result, hreplaced, hkept]
      have hfinish := hplaces.placed ctx (.marked m l pieces.flatten) l' hl' old
      rw [Visit.result, hplaces.kept, hr.kept] at hfinish
      rw [hfinish, Visit.result, hr.kept]
      cases hrep : (r.finish ctx (.marked m l pieces.flatten)).replaced with
      | none => exact hnode l' ctx.field
      | some rep =>
        have hsome : ((r.tracked mark).visit ctx (.marked m l cs)).replaced.isSome := by
          rw [hreplaced, hplaces.replaced, hrep]
          rfl
        have hleft := hnode l' ctx.field
        exact hleft.trans (hr.placed ctx _ s rep hkeptfits hleft.nodup_left (hhere hsome) hrep l'
          ctx.field t ht old)
    · rw [hkept, targets_marked, targets_marked]
      congr 1
      cases ht : l.target member with
      | none => rfl
      | some e => exact targets_flatten hpieces (Label.roles_of_target hs' hs ht) e.2
    · rw [hkept]
      exact memberTargets_flatten hpieces hf
    · rw [hkept]
      subst hs'
      exact congrArg _ (eq_flatten hpieces fun f t ht => Label.roles_tagName hs ht)

end Releases

/-! ### Runs over numbered programs -/

/-- A node of a program is there after a run, at another place perhaps. Numbers tell which one it
is. -/
def Carries (r : Rule) (tree : Node) : Path → Path → Prop :=
  (tree.number 0).1.Stays (r.runOnce (tree.number 0).1).1

section Program
variable {r : Rule} {mark : Node → Option Nat} {allowed : Context → Node → Prop} {tree : Node}

theorem follows_plain (hi : r.IgnoresMarks) : r.Follows r Node.plain :=
  hi.follows plain_remarks (places_self hi.early) (places_self hi.early) fun _ _ => plain_marked ..

theorem runOnce_number (hi : r.IgnoresMarks) (hm : tree.hasMarks = false) :
    (r.runOnce (tree.number 0).1).1.plain = (r.runOnce tree).1 := by
  rw [← (follows_plain hi).runOnce plain_remarks, plain_number,
    plain_of_marks (hasMarks_eq_false.mp hm)]

theorem grammatical_number (h : tree.Grammatical) (hm : tree.hasMarks = false) :
    (tree.number 0).1.Grammatical := by
  obtain ⟨κ,hfits,hbelow⟩ := (h.consistent hm).below
  have hnext : tree.nextMark = 0 := by rw [nextMark, hasMarks_eq_false.mp hm]; rfl
  rw [hnext] at hbelow
  obtain ⟨κ',-,hnumbered,-⟩ := number_fits hfits hbelow
  exact fits_mono (fun _ _ _ _ => rfl) hnumbered

theorem nameAt?_number (hm : tree.hasMarks = false) (q : Path) :
    (tree.number 0).1.nameAt? q = tree.nameAt? q := by
  rw [← nameAt?_plain, plain_number, plain_of_marks (hasMarks_eq_false.mp hm)]

theorem scope_number (hm : tree.hasMarks = false) : (tree.number 0).1.scope = tree.scope := by
  rw [← scope_plain, plain_number, plain_of_marks (hasMarks_eq_false.mp hm)]

/-- Whatever a run of the rule does to a program is allowed. -/
def Allows (r : Rule) (allowed : Context → Node → Prop) (tree : Node) : Prop :=
  ∀ x ∈ r.visits top [] tree, x.outcome.replaced.isSome → allowed x.context x.outcome.kept

/-- A run with marks for new blocks does what the run without does, so that it is allowed too. -/
private theorem Allows.tracked (ha : r.Allows allowed tree) (hi : r.IgnoresMarks)
    (hplain : ∀ ctx n, allowed ctx.plain n.plain → allowed ctx n) (hm : tree.hasMarks = false) :
    (r.tracked mark).Allows allowed (tree.number 0).1 := by
  intro x hx hsome
  have hfollows : (r.tracked mark).Follows r Node.plain :=
    hi.follows plain_remarks (places_tracked hi.early mark) (places_self hi.early) fun _ _ =>
      plain_marked ..
  obtain ⟨y,hy,hcontext,hkept,hreplaced⟩ := hfollows.exists_visited plain_remarks hx
  rw [plain_number, plain_of_marks (hasMarks_eq_false.mp hm)] at hy
  have hallowed := ha y hy (hreplaced ▸ hsome)
  rw [hcontext, hkept] at hallowed
  exact hplain _ _ hallowed

/-- A run prunes a grammatical program. -/
theorem Releases.prunedTo (hr : r.Releases mark allowed) (h : tree.Grammatical)
    (hm : tree.hasMarks = false) (ha : (r.tracked mark).Allows allowed (tree.number 0).1) :
    (tree.number 0).1.PrunedTo ((r.tracked mark).runOnce (tree.number 0).1).1 := by
  have hnumbered := grammatical_number h hm
  have hnodup := nodup_number (hasMarks_eq_false.mp hm) 0
  have hkept := hr.fits_tracked top hnumbered
  exact ⟨isProgram_of_fits hnumbered,declaratorsOnly_of_fits hnumbered,isProgram_of_fits hkept,
    declaratorsOnly_of_fits hkept,number_allMarked tree 0,hnodup,
    (hr.visit hnumbered hnodup ha).kept _ _⟩

private theorem scope_runOnce_number (hi : r.IgnoresMarks) (hm : tree.hasMarks = false) :
    (r.runOnce (tree.number 0).1).1.scope = (r.runOnce tree).1.scope := by
  rw [← scope_plain, runOnce_number hi hm]

private theorem scope_tracked (hi : r.IgnoresMarks) (mark : Node → Option Nat) (n : Node) :
    (r.runOnce n).1.scope = ((r.tracked mark).runOnce n).1.scope := by
  rw [← scope_plain, ← hi.tracked_plain mark, scope_plain]

section Run
variable (hr : r.Releases mark allowed)
  (hplain : ∀ ctx n, allowed ctx.plain n.plain → allowed ctx n) (h : tree.Grammatical)
  (hm : tree.hasMarks = false) (ha : r.Allows allowed tree)
include hr hplain h hm ha

/-- A use of a name of a grammatical program that is left after a run stands for what it stood for,
exactly if a declaration of that is left and none that leaves its scope intrudes. -/
theorem Releases.undisturbed_iff {q q' : Path} (hq : r.Carries tree q q') :
    Undisturbed (r.Carries tree) (tree.KeepsDeclaration fun q => ∃ q', r.Carries tree q q') tree
        (r.runOnce tree).1 q q' ↔
      tree.KeepsDeclaration (fun q => ∃ q', r.Carries tree q q') q ∧
        ∀ e, tree.Leaves (fun q => ∃ q', r.Carries tree q q') e →
          ¬Intrudes (r.Carries tree) tree (r.runOnce tree).1 e q := by
  have hi := hr.ignores
  have hpruned := hr.prunedTo h hm (ha.tracked hi hplain hm)
  have hscope := scope_number hm
  have hafter := scope_runOnce_number hi hm
  have hleft := hpruned.undisturbed_iff_of_fewer (scope_tracked hi mark _)
    (fun _ _ => hi.markAt_tracked hr.marks) (fun _ => hi.markAt_of_name mark _) hq
  rw [undisturbed_congr hscope hafter, keepsDeclaration_congr hscope] at hleft
  simp only [leaves_congr hscope, intrudes_congr hscope hafter] at hleft
  exact hleft

/-- Only a declaration of a name intrudes on it. -/
theorem Releases.nameAt?_of_intrudes {e q : Path}
    (he : Intrudes (r.Carries tree) tree (r.runOnce tree).1 e q) :
    tree.nameAt? e = tree.nameAt? q := by
  have hi := hr.ignores
  rw [← intrudes_congr (scope_number hm) (scope_runOnce_number hi hm)] at he
  rw [← nameAt?_number hm, ← nameAt?_number hm]
  exact (hr.prunedTo h hm (ha.tracked hi hplain hm)).nameAt?_of_intrudes (scope_tracked hi mark _)
    (fun _ _ => hi.markAt_tracked hr.marks) he

end Run

end Program

end Rule
end Unravel
