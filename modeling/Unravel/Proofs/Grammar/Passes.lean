import Unravel.Proofs.Grammar.Repeated
import Unravel.Proofs.Scope.CaptureFree
import Unravel.Proofs.Simplify.Termination

/-! Simplification and renaming keep programs grammatical, in any order, also where undoing
flattened control flow has put statements at several places. -/

namespace Unravel

/-- A grammatical program in which every mark stands for one role. -/
def Node.Consistent (n : Node) : Prop := ∃ κ : Marking, n.fits κ.knows .program = true

namespace Node

theorem Consistent.grammatical {n : Node} (h : n.Consistent) : n.Grammatical := by
  obtain ⟨κ,h⟩ := h
  exact fits_mono (fun _ _ _ _ => rfl) h

/-- In a tree whose nodes stand at one place each no mark has to stand for anything. -/
theorem Grammatical.consistent {n : Node} (h : n.Grammatical) (hm : n.hasMarks = false) :
    n.Consistent := by
  refine ⟨fun _ => none,fits_mono (fun k hk => ?_) h⟩
  rw [hasMarks_eq_false.mp hm] at hk
  cases hk

theorem lt_nextMark {n : Node} {k : Nat} (h : k ∈ n.marks) : k < n.nextMark := by
  suffices hfold : ∀ (ks : List Nat) (b : Nat), b ≤ ks.foldl (fun k m => max k (m + 1)) b ∧
      ∀ k ∈ ks, k < ks.foldl (fun k m => max k (m + 1)) b from (hfold n.marks 0).2 k h
  intro ks
  induction ks with
  | nil => simp
  | cons j ks ih =>
    intro b
    obtain ⟨hle,hlt⟩ := ih (max b (j + 1))
    refine ⟨?_,List.forall_mem_cons.mpr ⟨?_,hlt⟩⟩
    · rw [List.foldl_cons]
      omega
    · rw [List.foldl_cons]
      omega

/-- The marks of a consistent program may be taken to be all there are. -/
theorem Consistent.below {n : Node} (h : n.Consistent) :
    ∃ κ : Marking, n.fits κ.knows .program = true ∧ κ.Below n.nextMark := by
  obtain ⟨κ,h⟩ := h
  refine ⟨fun k => if k < n.nextMark then κ k else none,fits_mono (fun k hk s hs => ?_) h,?_⟩
  · simpa [Marking.knows, lt_nextMark hk] using hs
  · intro k r hk
    by_contra hge
    simp [hge] at hk

theorem unmark_fits {known : Nat → Role → Bool} {n : Node} {r : Role} (test : Nat → Bool)
    (h : n.fits known r = true) : (n.unmark test).fits known r = true := by
  induction n using inductionOn generalizing r with
  | marked m l cs ih =>
    obtain ⟨hl,hm,hf,hcs⟩ := fits_marked.mp h
    rw [unmark_marked]
    refine fits_marked.mpr ⟨hl,fun k hk => ?_,by simpa [Function.comp_def] using hf,?_⟩
    · exact hm k (Option.filter_eq_some_iff.mp hk).1
    · simp only [List.mem_map]
      rintro _ ⟨c,hc,rfl⟩
      obtain ⟨s,hs,hfits⟩ := hcs c hc
      exact ⟨s,hs,ih c hc hfits⟩

end Node

namespace Rule

theorem KeepsRoles.runRepeated {rule : Rule} (hrule : rule.KeepsRoles) {tree : Node}
    (h : tree.Consistent) : (rule.runRepeated tree).1.Consistent := by
  obtain ⟨κ,hfits,hb⟩ := h.below
  have hs : (Repeats.ofTree tree).Fits κ := by
    refine ⟨by simpa [Repeats.ofTree] using hb,fun k n hk => ?_⟩
    rw [Repeats.getD_ofTree] at hk
    cases hk
  obtain ⟨κ',-,hs',hv⟩ := hrule.visitRepeated (2 * tree.size + 2) top tree _ κ .program hs hfits
  exact ⟨κ',Repeats.refresh_fits hs' _ hv.1⟩

/-- A rule that keeps roles keeps programs consistent. -/
theorem KeepsRoles.run {rule : Rule} (hrule : rule.KeepsRoles) {tree : Node} (h : tree.Consistent) :
    (rule.run tree).1.Consistent := by
  unfold Rule.run
  split
  · exact hrule.runRepeated h
  · obtain ⟨κ,h⟩ := h
    exact ⟨κ,(hrule.visit tree h top).1⟩

end Rule

/-! ### Labels that differ in atoms only -/

namespace Label

/-- Labels of one place in the grammar. -/
structure Alike (l l' : Label) : Prop where
  has : ∀ r : Role, r.has l' = r.has l
  table : ∀ r, l'.table r = l.table r
  slots : l'.slots = l.slots
  optional : l'.optional = l.optional

theorem Alike.refl (l : Label) : l.Alike l := ⟨fun _ => rfl,fun _ => rfl,rfl,rfl⟩

theorem alike_literal (v v' : LiteralValue) (raw raw' : Option Text) :
    (literal v raw).Alike (literal v' raw') :=
  ⟨fun r => by cases r <;> rfl,fun _ => rfl,rfl,rfl⟩

theorem alike_identifier (name name' : String) : (identifier name).Alike (identifier name') :=
  ⟨fun r => by cases r <;> rfl,fun _ => rfl,rfl,rfl⟩

theorem alike_jsxIdentifier (name name' : String) :
    (jsxIdentifier name).Alike (jsxIdentifier name') :=
  ⟨fun r => by cases r <;> rfl,fun _ => rfl,rfl,rfl⟩

theorem alike_property (computed method shorthand shorthand' : Bool) (kind : String) :
    (property computed method shorthand kind).Alike (property computed method shorthand' kind) :=
  ⟨fun r => by cases r <;> rfl,fun _ => rfl,rfl,rfl⟩

theorem Alike.filled {l l' : Label} (h : l.Alike l') (fields : List Field) :
    l'.filled fields = l.filled fields := by
  simp only [Label.filled, h.slots, isOptional, h.optional]

theorem Alike.roles {l l' : Label} (h : l.Alike l') (r : Role) (f : Field) :
    l'.roles r f = l.roles r f := by
  rw [Label.roles, h.table r, Label.roles]

end Label

namespace Node
variable {known : Nat → Role → Bool} {r : Role}

theorem fits_alike {m : Option Nat} {l l' : Label} {cs cs' : List (Field × Node)} (hl : l.Alike l')
    (hfields : cs'.map Prod.fst = cs.map Prod.fst)
    (hcs : ∀ c ∈ cs', ∃ s ∈ l.roles r c.1, c.2.fits known s = true)
    (h : (marked m l cs).fits known r = true) : (marked m l' cs').fits known r = true := by
  obtain ⟨hr,hm,hf,-⟩ := fits_marked.mp h
  refine fits_marked.mpr ⟨(hl.has r).trans hr,hm,?_,?_⟩
  · rwa [hl.filled, hfields]
  · intro c hc
    rw [hl.roles]
    exact hcs c hc

/-- A change of atoms keeps roles. -/
theorem relabel_fits {f : Path → Label → Label} (hf : ∀ p (l : Label), l.Alike (f p l)) {n : Node}
    (p : Path)
    (h : n.fits known r = true) : (n.relabel f p).fits known r = true := by
  induction n using inductionOn generalizing r p with
  | marked m l cs ih =>
    rw [relabel_marked]
    refine fits_alike (hf p l) ?_ ?_ h
    · rw [List.map_map]
      change List.map (Prod.fst ∘ Prod.fst) cs.zipIdx = _
      rw [← List.map_map, List.zipIdx_map_fst]
    · simp only [List.mem_map]
      rintro _ ⟨c,hc,rfl⟩
      have hmem := List.fst_mem_of_mem_zipIdx hc
      obtain ⟨s,hs,hfits⟩ := (fits_marked.mp h).2.2.2 c.1 hmem
      exact ⟨s,hs,ih c.1 hmem (p ++ [c.2]) hfits⟩

theorem splitShorthand_fits {n : Node} (h : n.fits known r = true) :
    (Rename.splitShorthand n).fits known r = true := by
  induction n using inductionOn generalizing r with
  | marked m l cs ih =>
    obtain ⟨l',hsplit,hl⟩ := Rename.splitShorthand_marked m l cs
    rw [hsplit]
    have hlike : l.Alike l' := by
      obtain rfl | ⟨method,kind,s,s',rfl,rfl⟩ := hl
      · exact .refl _
      · exact Label.alike_property ..
    refine fits_alike hlike (by simp [Function.comp_def]) ?_ h
    simp only [List.mem_map]
    rintro _ ⟨c,hc,rfl⟩
    obtain ⟨s,hs,hfits⟩ := (fits_marked.mp h).2.2.2 c hc
    exact ⟨s,hs,ih c hc hfits⟩

/-- Renaming keeps roles. -/
theorem renameGenerated_fits {n : Node} (h : n.fits known r = true) :
    (renameGenerated n).1.fits known r = true := by
  have hrename (names : List (Path × String)) :
      (Rename.rename names (Rename.splitShorthand n)).fits known r = true := by
    refine relabel_fits (fun p l => ?_) [] (splitShorthand_fits h)
    split
    · exact Label.alike_identifier ..
    · exact Label.alike_jsxIdentifier ..
    · exact .refl _
  unfold renameGenerated
  simp only
  split <;> exact hrename _

end Node

/-! ### The rules -/

namespace Visit
variable {known : Nat → Role → Bool} {r : Role} {n : Node}

theorem fits_keep (h : n.fits known r = true) : (keep n).Fits known r := ⟨h,trivial⟩

theorem fits_replace {c : Node} (h : n.fits known r = true) (hc : c.fits known r = true) :
    (replace n (.node c)).Fits known r := ⟨h,hc⟩

end Visit

namespace Simplify
open Node
variable {known : Nat → Role → Bool} {r : Role} {n : Node}

/-- The role of a kind that plays one only. -/
private def soleRole? : Label → Option Role
  | .unaryExpression .. | .binaryExpression _ | .conditionalExpression => some .expression
  | .ifStatement | .whileStatement => some .statement
  | _ => none

private theorem role_eq {s : Role} (h : n.fits known r = true) (hs : soleRole? n.label = some s) :
    r = s := by
  have hr := has_of_fits h
  unfold soleRole? at hs
  split at hs
  case h_6 => cases hs
  all_goals
    rename_i hl
    obtain rfl := Option.some.inj hs
    rw [hl] at hr
    cases r <;> first | rfl | cases hr

private theorem fits_ofNumber (v : Number) : (ofNumber v).fits known .expression = true := by
  have hm (v : Number) : (ofMagnitude v).fits known .expression = true := rfl
  unfold ofNumber
  split
  · refine fits_marked.mpr ⟨rfl,by simp,rfl,?_⟩
    simpa [Label.roles, Label.table] using hm v.neg
  · exact hm v

theorem expressionRule_roles : expressionRule.KeepsRoles := by
  constructor
  · intro known r n v h hv
    obtain ⟨hn,rfl⟩ := expressionRule_early hv
    obtain ⟨_,-,hl,-⟩ := label_of_isNegated hn
    obtain rfl : r = .expression := role_eq h (by rw [hl]; rfl)
    exact Visit.fits_replace h rfl
  · intro known r ctx n h
    have hfolding := expressionRule_folding ctx n
    generalize expressionRule.finish ctx n = v at hfolding ⊢
    cases hfolding with
    | keep => exact Visit.fits_keep h
    | negation hn =>
      obtain ⟨_,-,hl,-⟩ := label_of_isNegated hn
      obtain rfl : r = .expression := role_eq h (by rw [hl]; rfl)
      exact Visit.fits_replace h rfl
    | void hl =>
      obtain rfl : r = .expression := role_eq h (by rw [hl]; rfl)
      exact Visit.fits_replace h rfl
    | numbers hl =>
      obtain rfl : r = .expression := role_eq h (by rw [hl]; rfl)
      exact Visit.fits_replace h (fits_ofNumber _)
    | strings hl =>
      obtain rfl : r = .expression := role_eq h (by rw [hl]; rfl)
      exact Visit.fits_replace h rfl
    | @spelling v raw hl =>
      obtain ⟨m,l,cs⟩ := n
      obtain rfl : l = .literal (.number v) (some raw) := hl
      exact ⟨fits_alike (Label.alike_literal ..) rfl (fits_marked.mp h).2.2.2 h,trivial⟩

theorem escapeRule_roles : escapeRule.KeepsRoles := by
  constructor
  · intro known r n v _ hv
    cases hv
  · intro known r ctx n h
    obtain hkeep | ⟨t,raw,hl,-,hchange⟩ := escapeRule_cases ctx n
    · rw [hkeep]
      exact Visit.fits_keep h
    · rw [hchange]
      obtain ⟨m,l,cs⟩ := n
      obtain rfl : l = .literal (.text t) (some raw) := hl
      exact ⟨fits_alike (Label.alike_literal ..) rfl (fits_marked.mp h).2.2.2 h,trivial⟩

theorem accessRule_roles : accessRule.KeepsRoles := by
  constructor
  · intro known r n v _ hv
    cases hv
  · intro known r ctx n h
    obtain hkeep | ⟨object,_,name,hl,hobject,-,-,-,hchange⟩ := accessRule_cases ctx n
    · rw [hkeep]
      exact Visit.fits_keep h
    · rw [hchange]
      obtain ⟨m,l,cs⟩ := n
      obtain rfl : l = .memberExpression true := hl
      obtain ⟨hr,hm,-,-⟩ := fits_marked.mp h
      refine ⟨fits_marked.mpr ⟨?_,hm,rfl,?_⟩,trivial⟩
      · exact (show r.has (.memberExpression false) = r.has (.memberExpression true) by
          cases r <;> rfl).trans hr
      · obtain ⟨s,hs,ho⟩ := fits_of_child? h hobject
        have hname : (Node.identifier name.toString).fits known .name = true := rfl
        simp only [List.mem_cons, List.not_mem_nil, or_false, forall_eq_or_imp, forall_eq]
        exact ⟨⟨s,hs,ho⟩,⟨.name,by simp [Label.roles, Label.table],hname⟩⟩

/-- The statements of a block are statements. -/
private theorem fits_of_block {c : Node} (h : n.fits known r = true) (hl : n.label = .blockStatement)
    (hc : c ∈ n.row .body) : c.fits known .statement = true := by
  obtain ⟨s,hs,hfits⟩ := fits_of_mem_row h hc
  rw [hl] at hs
  obtain rfl : s = .statement := by simpa [Label.roles, Label.table] using hs
  exact hfits

/-- A branch stands where the node stands whose test chooses it. -/
private theorem fits_branch {b : Bool} {c : Node} (h : n.fits known r = true)
    (hl : n.label = .ifStatement ∨ n.label = .conditionalExpression) (hc : branch n b = some c) :
    c.fits known r = true := by
  obtain ⟨s,hs,hfits⟩ := fits_of_child? h hc
  rcases hl with hl | hl
  · obtain rfl : r = .statement := role_eq h (by rw [hl]; rfl)
    rw [hl] at hs
    obtain rfl : s = .statement := by cases b <;> simpa [Label.roles, Label.table] using hs
    exact hfits
  · obtain rfl : r = .expression := role_eq h (by rw [hl]; rfl)
    rw [hl] at hs
    obtain rfl : s = .expression := by cases b <;> simpa [Label.roles, Label.table] using hs
    exact hfits

theorem deadCodeRule_roles : deadCodeRule.KeepsRoles := by
  constructor
  · intro known r n v _ hv
    cases hv
  · intro known r ctx n h
    have hdeciding := deadCodeRule_deciding ctx n
    generalize deadCodeRule.finish ctx n = v at hdeciding ⊢
    cases hdeciding with
    | keep => exact Visit.fits_keep h
    | @nothing b hl _ hnone =>
      rcases hl with hl | hl
      · obtain rfl : r = .statement := role_eq h (by rw [hl]; rfl)
        exact ⟨h,rfl⟩
      · -- Both branches of a conditional are there.
        obtain ⟨c,hc⟩ := child?_of_fits (f := if b then .consequent else .alternate) h
          (by cases b <;> simp [hl, Label.slots])
          (by cases b <;> simp [hl, Label.isOptional, Label.optional])
        rw [branch, hc] at hnone
        cases hnone
    | taken hl _ hc => exact Visit.fits_replace h (fits_branch h hl hc)
    | opened hl _ hc hblock _ =>
      obtain rfl : r = .statement := role_eq h (by rw [hl]; rfl)
      exact ⟨h,rfl,fun d hd => fits_of_block (fits_branch h (.inl hl) hc) hblock hd⟩

private theorem label_switchCase {l : Label} (h : Role.switchCase.has l = true) : l = .switchCase := by
  cases l <;> first | rfl | cases h

/-- A loop gives up statements only. -/
theorem unflatten?_fits {earlier ss : List Node} (h : n.fits known r = true)
    (hl : n.label = .whileStatement) (hss : unflatten? earlier n = some ss) :
    ∀ s ∈ ss, s.fits known .statement = true := by
  obtain ⟨body,switch,d,order,hbody,hblock,hswitch,-,-,rfl,-⟩ := unflatten?_eq_some.mp hss
  obtain ⟨t,ht,hfits⟩ := fits_of_child? h hbody
  rw [hl] at ht
  obtain rfl : t = .statement := by simpa [Label.roles, Label.table] using ht
  have hsl : switch.label = .switchStatement := by simpa using List.find?_some hswitch
  have hsfits := fits_of_block hfits hblock (List.mem_of_find?_eq_some hswitch)
  intro s hs
  obtain ⟨c,hc,hs⟩ := exists_case hs
  obtain ⟨u,hu,hcfits⟩ := fits_of_mem_row hsfits hc
  rw [hsl] at hu
  obtain rfl : u = .switchCase := by simpa [Label.roles, Label.table] using hu
  have hcl := label_switchCase (has_of_fits hcfits)
  obtain ⟨u,hu,hfits⟩ := fits_of_mem_row hcfits hs
  rw [hcl] at hu
  obtain rfl : u = .statement := by simpa [Label.roles, Label.table] using hu
  exact hfits

theorem flatteningRule_roles : flatteningRule.KeepsRoles := by
  constructor
  · intro known r n v _ hv
    cases hv
  · intro known r ctx n h
    obtain ⟨hkeep,-⟩ | ⟨ss,hl,hss,hgives⟩ := flatteningRule_cases ctx n
    · rw [hkeep]
      exact Visit.fits_keep h
    · rw [hgives]
      obtain rfl : r = .statement := role_eq h (by rw [hl]; rfl)
      exact ⟨h,rfl,unflatten?_fits h hl hss⟩

/-- Undoing flattened control flow keeps programs consistent, the marks it puts on included. -/
theorem flattening_consistent {tree : Node} (h : tree.Consistent) : (flattening tree).1.Consistent := by
  unfold flattening
  split
  · obtain ⟨κ,hfits,hb⟩ := h.below
    obtain ⟨κ',-,hnumbered,-⟩ := number_fits hfits hb
    obtain ⟨κ'',hrun⟩ := flatteningRule_roles.runRepeated ⟨κ',hnumbered⟩
    exact ⟨κ'',unmark_fits _ hrun⟩
  · exact flatteningRule_roles.run h

/-- The simplifications that keep the grammar, and renaming. -/
def grammatical : List Pass := [expressions, deadCode, flattening, access, escapes, renameGenerated]

theorem grammatical_consistent {pass : Pass} (hpass : pass ∈ grammatical) {tree : Node}
    (h : tree.Consistent) : (pass tree).1.Consistent := by
  simp only [grammatical, List.mem_cons, List.not_mem_nil, or_false] at hpass
  rcases hpass with rfl | rfl | rfl | rfl | rfl | rfl
  · exact expressionRule_roles.run h
  · exact deadCodeRule_roles.run h
  · exact flattening_consistent h
  · exact accessRule_roles.run h
  · exact escapeRule_roles.run h
  · obtain ⟨κ,h⟩ := h
    exact ⟨κ,renameGenerated_fits h⟩

theorem runPasses_consistent {passes : List Pass} (hp : ∀ pass ∈ passes, pass ∈ grammatical)
    {tree : Node} (h : tree.Consistent) : (runPasses passes tree).1.Consistent := by
  induction passes generalizing tree with
  | nil => exact h
  | cons pass passes ih =>
    obtain ⟨hpass,hrest⟩ := List.forall_mem_cons.mp hp
    exact ih hrest (grammatical_consistent hpass h)

/-- From a grammatical program, simplification and renaming in any order lead to a grammatical
program. -/
theorem runPasses_grammatical (tree : Node) (h : tree.Grammatical) (hm : tree.hasMarks = false)
    (passes : List Pass) (hp : ∀ pass ∈ passes, pass ∈ grammatical) :
    (runPasses passes tree).1.Grammatical :=
  (runPasses_consistent hp (h.consistent hm)).grammatical

/-- A loop over a switch whose order names one label twice, so that the statements under it stand
at two places afterwards. -/
def repeatedLabel : Node :=
  let text (s : String) : Node := .ofText (Text.ofString s)
  let order : Node := .call (.mk (.memberExpression false)
    [(.object, text "1|0|1"), (.property, .identifier "split")]) [text "|"]
  let next : Node := .mk (.updateExpression "++" false) [(.argument, .identifier "i")]
  let run (f : String) : Node := .mk (.expressionStatement none none)
    [(.expression, .call (.identifier f) [])]
  let known : Node := .mk .ifStatement
    [(.test, .ofBool true), (.consequent, .block [run "second"]), (.alternate, run "never")]
  .mk (.program "script") [(.body, .mk .whileStatement [(.test, .ofBool true), (.body, .block [
    .mk .switchStatement [
      (.discriminant, .mk (.memberExpression true) [(.object, order), (.property, next)]),
      (.cases, .mk .switchCase [(.test, text "0"), (.consequent, run "first")]),
      (.cases, .mk .switchCase [(.test, text "1"), (.consequent, known)])],
    .mk .breakStatement []])])]

theorem runPasses_grammatical_repeatedLabel :
    repeatedLabel.Grammatical ∧
      (runPasses [flattening, deadCode, renameGenerated] repeatedLabel).1.Grammatical := by
  have h : repeatedLabel.Grammatical := by decide
  exact ⟨h,runPasses_grammatical repeatedLabel h (by decide) _ (by simp [grammatical])⟩

end Simplify
end Unravel
