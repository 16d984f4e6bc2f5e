import Unravel.Proofs.Scope.Releases
import Unravel.Proofs.Simplify.Sharing

/-! Names after flattened control flow was undone. The statements of the cases leave the scopes of
the switch and of the loop's body, with the declarations that they hold in these; all else in the loop
goes, and the declarations in it. -/

namespace Unravel

namespace Simplify
open Node

/-! ### What the pass does to a loop -/

/-- The case whose statements are taken for a label. -/
def chosen? (cases : List Node) (label : Text) : Option Node :=
  cases.reverse.find? fun c => ((c.child? .test).bind caseLabel) = some label

/-- The statements of a case without its jumps. -/
def taken (c : Node) : List Node := (c.row .consequent).filter fun s => !isJump s

theorem flatMap_caseBody (cases : List Node) (order : List Text) :
    order.flatMap (caseBody cases) = (order.filterMap (chosen? cases)).flatMap taken := by
  rw [List.filterMap_eq_flatMap_toList, List.flatMap_assoc]
  refine List.flatMap_congr fun label _ => ?_
  unfold caseBody chosen?
  split <;> rename_i h <;> simp [h, taken]

/-- Distinct labels choose distinct cases. -/
private theorem chosen_nodup {cases : List Node} {order : List Text} (h : order.Nodup) :
    (order.filterMap (chosen? cases)).Nodup := by
  refine h.filterMap fun label label' c hc hc' => ?_
  have hlabel : (c.child? .test).bind caseLabel = some label := by simpa using List.find?_some hc
  have hlabel' : (c.child? .test).bind caseLabel = some label' := by simpa using List.find?_some hc'
  exact Option.some.inj (hlabel.symm.trans hlabel')

/-- Of a switch the statements are left that cases give up. -/
private theorem pruned_switch {l : Label} {f : Field} {switch : Node} (hn : switch.marks.Nodup)
    (hl : switch.label = .switchStatement) (hcases : ∀ c ∈ switch.row .cases, c.label = .switchCase)
    {order : List Text} (horder : order.Nodup) :
    l.Pruned [(f, switch)] [(f, marked switch.mark? .switchStatement
      ((order.flatMap (caseBody (switch.row .cases))).map fun s => (.cases, s)))] := by
  have hinj : Function.Injective fun s : Node => (Field.cases, s) := fun _ _ h => (Prod.mk.inj h).2
  have hchosen : Label.switchStatement.Pruned switch.subtrees
      ((order.filterMap (chosen? (switch.row .cases))).map fun c => (.cases, c)) := by
    refine .choose (nodup_marksAll hn) ((chosen_nodup horder).map hinj) ?_
    simp only [List.mem_map, List.mem_filterMap]
    rintro _ ⟨c,⟨label,-,hc⟩,rfl⟩
    exact mem_subtrees_of_row (List.mem_reverse.mp (List.mem_of_find?_eq_some hc))
  have htaken : Label.switchStatement.Pruned
      ((order.filterMap (chosen? (switch.row .cases))).map fun c => (.cases, c))
      ((order.flatMap (caseBody (switch.row .cases))).map fun s => (.cases, s)) := by
    have hall : Label.switchStatement.Pruned
        ((order.filterMap (chosen? (switch.row .cases))).map fun c => (Field.cases, c))
        (((order.filterMap (chosen? (switch.row .cases))).map fun c => (Field.cases, c)).flatMap
          fun c => (taken c.2).map fun s => (Field.cases, s)) := by
      refine .flatMap (fun e he => ?_) hchosen.nodup
      obtain ⟨c,hc,rfl⟩ := List.mem_map.mp he
      obtain ⟨label,-,hfound⟩ := List.mem_filterMap.mp hc
      have hcase := hcases c (List.mem_reverse.mp (List.mem_of_find?_eq_some hfound))
      have hown : c.ownParts = [] := by
        unfold ownParts ownUses ownOutward ownInward
        simp [hcase]
      have hrow : Label.switchStatement.Pruned [(.cases, c)]
          ((c.row .consequent).map fun s => (.cases, s)) :=
        .release (nodup_of_mem hchosen.nodup he) hown (by simp [hcase, Label.opens])
          (by simp [hcase, Label.walks]) rfl fun _ _ => by rw [hcase]; rfl
      exact hrow.trans (.sublist hrow.nodup (List.filter_sublist.map _))
    rwa [List.flatMap_map, ← List.map_flatMap, ← flatMap_caseBody] at hall
  obtain ⟨m,_,cs⟩ := switch
  obtain rfl := hl
  exact .node (hchosen.trans htaken) hn rfl

theorem label_of_case {known : Nat → Role → Bool} {s : Role} {switch c : Node}
    (h : switch.fits known s = true) (hl : switch.label = .switchStatement)
    (hc : c ∈ switch.row .cases) : c.label = .switchCase := by
  obtain ⟨t,ht,hfits⟩ := fits_of_mem_row h hc
  rw [hl] at ht
  obtain rfl : t = .switchCase := by simpa [Label.roles, Label.table] using ht
  have hrole := has_of_fits hfits
  cases hcl : c.label <;> rw [hcl] at hrole <;> cases hrole

/-- The order of a loop names no label twice. -/
def Distinct (ctx : Context) (loop : Node) : Prop :=
  ∀ d ∈ Dispatch.of? ctx.earlier loop, d.order.Nodup

instance (ctx : Context) (loop : Node) : Decidable (Distinct ctx loop) :=
  inferInstanceAs (Decidable (∀ d ∈ _, _))

/-- The mark of the switch in a loop. -/
def switchMark (loop : Node) : Option Nat :=
  (loop.child? .body).bind fun body => ((body.row .body).find? Dispatch.isSwitch).bind mark?

private theorem isSwitch_of_remarks {f : Node → Node} (hf : Remarks f) :
    Dispatch.isSwitch ∘ f = Dispatch.isSwitch := by
  funext s
  simp only [Function.comp_apply, Dispatch.isSwitch, hf.label]

/-- A block can be left to one of its statements. -/
private theorem pruned_statement {l : Label} {f : Field} {block s : Node} (hn : block.marks.Nodup)
    (hblock : block.label = .blockStatement) (hs : s ∈ block.row .body)
    (hinside : ∀ d, l.isBody f d = false) : l.Pruned [(f, block)] [(f, s)] := by
  have hpicked : Label.blockStatement.Pruned block.subtrees [(.body, s)] :=
    .choose (nodup_marksAll hn) (List.nodup_singleton _) (by simpa using mem_subtrees_of_row hs)
  obtain ⟨m,_,cs⟩ := block
  obtain rfl := hblock
  have hkept : l.Pruned [(f, marked m .blockStatement cs)]
      [(f, marked m .blockStatement [(.body, s)])] := .node hpicked hn rfl
  have hmarks : (marked m .blockStatement ([s].map fun d => (.body, d))).marks.Nodup :=
    hkept.nodup_left
  exact hkept.trans (.releaseRow hmarks rfl rfl rfl (fun _ => rfl) hinside)

theorem flatteningRule_releases : flatteningRule.Releases switchMark Distinct where
  ignores := flatteningRule_ignoresMarks
  marks g hg n := by
    have hf := remark_remarks (fun _ => g) fun _ => hg
    simp only [switchMark, hf.child?]
    cases n.child? .body with
    | none => exact hg.symm
    | some body =>
      simp only [Option.map_some, Option.bind_some, hf.row, List.find?_map, isSwitch_of_remarks hf]
      cases (body.row .body).find? Dispatch.isSwitch with
      | none => exact hg.symm
      | some switch => exact mark?_remark (fun _ => g) switch
  kept := flatteningRule_finish_kept
  roles := flatteningRule_roles
  gives ctx n h := by
    obtain ⟨hkeep,-⟩ | ⟨_,hl,-⟩ := flatteningRule_cases ctx n
    · rw [hkeep] at h
      cases h
    · rw [hl]
      rfl
  placed ctx n s rep hfits hn hallows hrep l f t ht old := by
    obtain ⟨hkeep,-⟩ | ⟨ss,hl,hss,hput⟩ := flatteningRule_cases ctx n
    · rw [hkeep] at hrep
      cases hrep
    rw [hput] at hrep
    obtain rfl := Option.some.inj hrep
    obtain ⟨body,switch,order,hbody,hblock,hfirst,hswitchl,hof,rfl⟩ :=
      Dispatch.unflatten?_parts hss
    have hgives : n.label.givesWay = true := by rw [hl]; rfl
    obtain rfl : s = .statement := role_of_givesWay hfits hgives (by simp [hl])
    have hinside := Label.isBody_of_statement ht
    have hmem := mem_row_of_child? hbody
    have hswitch := List.mem_of_find?_eq_some hfirst
    have hmark : switchMark n = switch.mark? := by
      simp only [switchMark, hbody, hfirst, Option.bind_some]
    obtain ⟨u,-,hbodyfits⟩ := fits_of_mem_row hfits hmem
    obtain ⟨v,-,hswitchfits⟩ := fits_of_mem_row hbodyfits hswitch
    -- Of the loop the block is left, of that the switch, and of the switch what it gives up.
    have hchild : l.Pruned [(f, n)] [(f, body)] := .child hn hgives hmem fun d _ => hinside d
    have hreleased : l.Pruned [(f, body)] [(f, switch)] :=
      pruned_statement hchild.nodup_left hblock hswitch hinside
    have hleft : l.Pruned [(f, switch)] [(f, marked switch.mark? .switchStatement
        ((order.flatMap (caseBody (switch.row .cases))).map fun s => (.cases, s)))] :=
      pruned_switch hreleased.nodup_left hswitchl (fun c => label_of_case hswitchfits hswitchl)
        (hallows _ hof)
    rw [hmark]
    exact hchild.trans (hreleased.trans (hleft.trans
      (.statements hleft.nodup_left rfl rfl rfl (fun _ => rfl) hinside old)))

/-! ### Names -/

/-- No order of a loop that is replaced names a label twice. -/
def DistinctOrders (tree : Node) : Prop := flatteningRule.Allows Distinct tree

private theorem order_plain (earlier : List Node) (loop : Node) :
    (Dispatch.of? (earlier.map plain) loop.plain).map Dispatch.order =
      (Dispatch.of? earlier loop).map Dispatch.order := by
  simp only [Dispatch.of?, child?_plain]
  cases loop.child? .body with
  | none => rfl
  | some body =>
    simp only [Option.map_some, Option.bind_eq_bind, Option.bind_some, row_plain, List.find?_map,
      isSwitch_of_remarks plain_remarks]
    cases (body.row .body).find? Dispatch.isSwitch with
    | none => rfl
    | some switch =>
      simp only [Option.map_some, Option.bind_some, child?_plain]
      cases switch.child? .discriminant with
      | none => rfl
      | some d =>
        simp only [Option.map_some, Option.bind_some, dispatchOrder_of_remarks plain_remarks]
        cases dispatchOrder earlier d <;> rfl

private theorem distinct_of_plain (ctx : Context) (n : Node) (h : Distinct ctx.plain n.plain) :
    Distinct ctx n := by
  intro d hd
  have horder := order_plain ctx.earlier n
  rw [show Dispatch.of? ctx.earlier n = some d from hd] at horder
  obtain ⟨e,he,heq⟩ := Option.map_eq_some_iff.mp horder
  rw [← heq]
  exact h e he

section Names
variable {tree : Node}

private theorem scope_flattening (hm : tree.hasMarks = false) :
    (flattening tree).1.scope = (flatteningRule.runOnce tree).1.scope := by
  rw [← scope_plain, flattening_plain (hasMarks_eq_false.mp hm)]

variable (h : tree.Grammatical) (hm : tree.hasMarks = false) (hdistinct : DistinctOrders tree)
  {q q' : Path}
include h hm hdistinct

/-- A use of a name that is left after flattened control flow was undone stands for what it stood
for, exactly if a declaration of that is left and no declaration that leaves a switch or the body of
a loop intrudes. Nothing keeps such a declaration from it. -/
theorem flattening_undisturbed_iff (hq : flatteningRule.Carries tree q q') :
    Undisturbed (flatteningRule.Carries tree)
        (tree.KeepsDeclaration fun q => ∃ q', flatteningRule.Carries tree q q') tree
        (flattening tree).1 q q' ↔
      tree.KeepsDeclaration (fun q => ∃ q', flatteningRule.Carries tree q q') q ∧
        ∀ e, tree.Leaves (fun q => ∃ q', flatteningRule.Carries tree q q') e →
          ¬Intrudes (flatteningRule.Carries tree) tree (flattening tree).1 e q := by
  simp only [undisturbed_congr rfl (scope_flattening hm), intrudes_congr rfl (scope_flattening hm)]
  exact flatteningRule_releases.undisturbed_iff distinct_of_plain h hm hdistinct hq

/-- Only a declaration of a name intrudes on it. -/
theorem nameAt?_of_intrudes_flattening {e : Path}
    (he : Intrudes (flatteningRule.Carries tree) tree (flattening tree).1 e q) :
    tree.nameAt? e = tree.nameAt? q := by
  rw [intrudes_congr rfl (scope_flattening hm)] at he
  exact flatteningRule_releases.nameAt?_of_intrudes distinct_of_plain h hm hdistinct he

end Names

namespace Dispatch

/-- `while (true) { switch ('1|0'.split('|')[i++]) { case '0': b; let c = true; continue; case '1':
var b = true; continue; } break; } b;` -/
def declaring : Node := script
  [dispatching (Text.ofString "1|0") []
    [labelled "0" [reads "b", declares "let" "c", resumes],
      labelled "1" [declares "var" "b", resumes]] [leaves],
   reads "b"]

/-- `while (true) { switch ('0'.split('|')[i++]) { case '0': let x = true; continue; } break; } x;` -/
def declaringLet : Node := script
  [dispatching (Text.ofString "0") [] [labelled "0" [declares "let" "x", resumes]] [leaves],
   reads "x"]

end Dispatch

open Dispatch in
/-- A declaration that leaves a switch is harmless to other names, and takes a use of its own name
behind the loop for itself. -/
theorem flattening_undisturbed_declaring :
    (declaring.Grammatical ∧ declaring.hasMarks = false ∧ DistinctOrders declaring ∧
      (flattening declaring).2 = 1 ∧ flatteningRule.Carries declaring [0, 1, 0, 1, 1, 0] [1, 0] ∧
        Undisturbed (flatteningRule.Carries declaring)
          (declaring.KeepsDeclaration fun q => ∃ q', flatteningRule.Carries declaring q q') declaring
          (flattening declaring).1 [0, 1, 0, 1, 1, 0] [1, 0]) ∧
    declaringLet.Grammatical ∧ declaringLet.hasMarks = false ∧ DistinctOrders declaringLet ∧
      (flattening declaringLet).2 = 1 ∧ flatteningRule.Carries declaringLet [1, 0] [1, 0] ∧
        ¬declaringLet.IsBound [1, 0] ∧
        ¬Undisturbed (flatteningRule.Carries declaringLet)
          (declaringLet.KeepsDeclaration fun q => ∃ q', flatteningRule.Carries declaringLet q q')
          declaringLet (flattening declaringLet).1 [1, 0] [1, 0] := by
  constructor
  · have h : declaring.Grammatical := by decide +kernel
    have hm : declaring.hasMarks = false := by decide +kernel
    have hdistinct : DistinctOrders declaring := by
      unfold DistinctOrders Rule.Allows
      decide +kernel
    have hq : flatteningRule.Carries declaring [0, 1, 0, 1, 1, 0] [1, 0] :=
      ⟨16,by decide +kernel,by decide +kernel⟩
    have hname : ∀ σ ∈ declaring.scope.walk,
        (¬∃ q', flatteningRule.Carries declaring σ.path q') → ∀ b ∈ σ.bindings, ∀ d ∈ b.declarations,
          declaring.nameAt? d.path ≠ declaring.nameAt? [0, 1, 0, 1, 1, 0] := by
      simp only [Rule.Carries, exists_stays_iff]
      decide +kernel
    refine ⟨h,hm,hdistinct,by decide +kernel,hq,
      (flattening_undisturbed_iff h hm hdistinct hq).mpr ⟨?_,?_⟩⟩
    · simp only [KeepsDeclaration, Rule.Carries, exists_stays_iff]
      decide +kernel
    · rintro e ⟨σ,hσ,hgone,b,hb,d,hd,rfl⟩ hintrudes
      exact hname σ hσ hgone b hb d hd (nameAt?_of_intrudes_flattening h hm hdistinct hintrudes)
  · have h : declaringLet.Grammatical := by decide +kernel
    have hm : declaringLet.hasMarks = false := by decide +kernel
    have hdistinct : DistinctOrders declaringLet := by
      unfold DistinctOrders Rule.Allows
      decide +kernel
    have hq : flatteningRule.Carries declaringLet [1, 0] [1, 0] :=
      ⟨22,by decide +kernel,by decide +kernel⟩
    have he : flatteningRule.Carries declaringLet [0, 1, 0, 1, 1, 0, 0] [0, 0, 0] :=
      ⟨17,by decide +kernel,by decide +kernel⟩
    have hleaves : declaringLet.Leaves (fun q => ∃ q', flatteningRule.Carries declaringLet q q')
        [0, 1, 0, 1, 1, 0, 0] := by
      simp only [Leaves, Rule.Carries, exists_stays_iff]
      decide +kernel
    have hunbound : ¬declaringLet.IsBound [1, 0] := by decide +kernel
    refine ⟨h,hm,hdistinct,by decide +kernel,hq,hunbound,fun hsame => ?_⟩
    refine ((flattening_undisturbed_iff h hm hdistinct hq).mp hsame).2 _ hleaves
      ⟨[0, 0, 0],[1, 0],[1, 0],he,hq,?_,fun hbefore => hunbound hbefore.isBound,by decide +kernel,
        .inl rfl⟩
    exact fun b hb hlisted => absurd ⟨b,hb,hlisted⟩ hunbound

end Simplify
end Unravel
