import Unravel.Proofs.Number.Spelling
import Unravel.Proofs.Settling.Shared

/-! Folding of constant expressions leaves nothing to fold, whatever the arithmetic on numbers is. What
is folded inside out may be folded again by the expression around it; what is not stays as it is. -/

namespace Unravel.Simplify
open Node

/-- Arithmetic on two numbers under an operator, where it has a result. -/
abbrev Arithmetic := String → Number → Number → Option Double

section Arithmetic
variable (fold : Arithmetic)

def foldNumbersWith (operator : String) (left right : Node) : Option Double := do
  fold operator (← left.numericValue?) (← right.numericValue?)

def foldBinaryWith (operator : String) (n : Node) : Visit :=
  match n.child? .left, n.child? .right with
  | some l, some r =>
    match foldNumbersWith fold operator l r with
    | some d => .replace n (.node (.ofNumber (.double d)))
    | none =>
      match foldStrings operator l r with
      | some t => .replace n (.node (.ofText t))
      | none => .keep n
  | _, _ => .keep n

/-- The rule that folds constant expressions, by an arithmetic of any kind. -/
def expressionRuleWith : Rule where
  early := foldEarly
  finish ctx n :=
    match n.label with
    | .binaryExpression op => foldBinaryWith fold op n
    | _ => expressionRule.finish ctx n

/-- Folds constant expressions by an arithmetic of any kind. -/
def expressionsWith (tree : Node) : Node × Nat := (expressionRuleWith fold).run tree

/-- Nothing is left to fold at a node: it is no operator on numbers that has a result, no join of two
strings, no spelling of a boolean by an array, no `void 0`, and no number spelled in hexadecimal. -/
structure Folded (n : Node) : Prop where
  numbers : ∀ op l r x y, n.label = .binaryExpression op → n.child? .left = some l →
    n.child? .right = some r → l.numericValue? = some x → r.numericValue? = some y → fold op x y = none
  strings : ∀ l r t u, n.label = .binaryExpression "+" → n.child? .left = some l →
    n.child? .right = some r → l.stringValue? = some t → r.stringValue? ≠ some u
  negated : isNegated isEmptyArray n = false
  doubled : isNegated (isNegated isEmptyArray) n = false
  void : ∀ p a v, n.label = .unaryExpression "void" p → n.child? .argument = some a →
    a.numberValue? = some v → v.isZero = false
  spelling : ∀ v raw, n.label = .literal (.number v) (some raw) → isHexSpelling raw = false

end Arithmetic

theorem expressionRuleWith_foldArithmetic : expressionRuleWith foldArithmetic = expressionRule := by
  have hfinish : (expressionRuleWith foldArithmetic).finish = expressionRule.finish := by
    funext ctx n
    simp only [expressionRuleWith, expressionRule]
    split
    · rename_i op hl
      rw [hl]
      rfl
    · rfl
  exact congrArg (Rule.mk foldEarly) hfinish

section Arithmetic
variable {fold : Arithmetic}

theorem finish_negated {n : Node} (h : isNegated isEmptyArray n = true) (ctx : Context) :
    (expressionRuleWith fold).finish ctx n = .replace n (.node (.ofBool false)) := by
  obtain ⟨p,_,hl,-⟩ := label_of_isNegated h
  simp only [expressionRuleWith, expressionRule, hl, foldUnary, if_pos h]

theorem rests_ofBool (b : Bool) : (expressionRuleWith fold).Rests (.ofBool b) :=
  Rule.rests_leaf (Rule.leavesBe_of_keep rfl fun _ => rfl)

theorem rests_ofText (t : Text) : (expressionRuleWith fold).Rests (.ofText t) :=
  Rule.rests_leaf (Rule.leavesBe_of_keep rfl fun _ => rfl)

theorem rests_identifier (name : String) : (expressionRuleWith fold).Rests (.identifier name) :=
  Rule.rests_leaf (Rule.leavesBe_of_keep rfl fun _ => rfl)

private theorem rests_ofMagnitude (v : Number) : (expressionRuleWith fold).Rests (.ofMagnitude v) := by
  refine Rule.rests_leaf (Rule.leavesBe_of_keep rfl fun ctx => ?_)
  simp only [expressionRuleWith, expressionRule, Node.mk, Node.label, Number.isHexSpelling_text,
    Bool.false_eq_true, if_false]

/-- A number comes as a plain literal, or as one with a minus before it. -/
theorem rests_ofNumber (v : Number) : (expressionRuleWith fold).Rests (.ofNumber v) := by
  unfold Node.ofNumber
  split
  · refine Rule.rests_marked.mpr ⟨Rule.leavesBe_of_keep ?_ fun ctx => ?_,?_⟩
    · simp [expressionRuleWith, foldEarly, isNegated, Node.label]
    · simp [expressionRuleWith, expressionRule, foldUnary, isNegated, Node.label]
    · simpa using rests_ofMagnitude v.neg
  · exact rests_ofMagnitude v

private theorem isNegated_plain {test : Node → Bool} (h : ∀ n, test n.plain = test n) (n : Node) :
    isNegated test n.plain = isNegated test n := by
  simp only [isNegated, label_plain, child?_plain]
  split
  · cases n.child? .argument with
    | none => rfl
    | some a => exact h a
  · rfl

private theorem isEmptyArray_plain (n : Node) : isEmptyArray n.plain = isEmptyArray n := by
  simp [isEmptyArray, subtrees_plain]

private theorem numericValue?_plain (n : Node) : n.plain.numericValue? = n.numericValue? := by
  simp only [numericValue?, numberValue?_plain, label_plain, child?_plain, Option.bind_map,
    Function.comp_def]

/-- What the rule does to a node once its subtrees are visited. -/
inductive Folds (fold : Arithmetic) (n : Node) : Visit → Prop
  | keeps : Folds fold n (.keep n)
  | puts (c : Node) (hmarks : c.marks = []) (hrests : (expressionRuleWith fold).Rests c) :
    Folds fold n (.replace n (.node c))
  | respells (v : Number) (raw : Text) (hl : n.label = .literal (.number v) (some raw))
    (hraw : isHexSpelling raw = true) :
    Folds fold n (.change (n.update (.literal (.number v) (some (Text.ofString v.text))) n.subtrees))

theorem finish_folds (fold : Arithmetic) (n : Node) :
    Folds fold n ((expressionRuleWith fold).finish Rule.top n) := by
  simp only [expressionRuleWith]
  split
  · unfold foldBinaryWith
    split
    · split
      · exact .puts _ (marks_ofNumber _) (rests_ofNumber _)
      · split
        · exact .puts _ rfl (rests_ofText _)
        · exact .keeps
    · exact .keeps
  · rename_i hnot
    have hfolding := expressionRule_folding Rule.top n
    generalize expressionRule.finish Rule.top n = v at hfolding ⊢
    cases hfolding with
    | keep => exact .keeps
    | negation => exact .puts _ rfl (rests_ofBool false)
    | void => exact .puts _ rfl (rests_identifier "undefined")
    | numbers hl => exact absurd hl (hnot _)
    | strings hl => exact absurd hl (hnot _)
    | spelling hl hraw => exact .respells _ _ hl hraw

private theorem foldUnary_plain (n : Node) : foldUnary n.plain = (foldUnary n).plain := by
  have hnumber : (n.plain.child? .argument).bind numberValue? = (n.child? .argument).bind numberValue? := by
    simp only [child?_plain, Option.bind_map, Function.comp_def, numberValue?_plain]
  rw [foldUnary, foldUnary, isNegated_plain isEmptyArray_plain, hnumber, label_plain]
  split
  · exact (Visit.plain_replace n rfl).symm
  · split
    · split
      · exact (Visit.plain_replace n rfl).symm
      · rfl
    · rfl

private theorem foldBinaryWith_plain (op : String) (n : Node) :
    foldBinaryWith fold op n.plain = (foldBinaryWith fold op n).plain := by
  simp only [foldBinaryWith, child?_plain]
  cases n.child? .left with
  | none => rfl
  | some l =>
    cases n.child? .right with
    | none => rfl
    | some r =>
      simp only [Option.map_some, foldNumbersWith, numericValue?_plain, foldStrings, stringValue?_plain]
      split
      · exact (Visit.plain_replace n (marks_ofNumber _)).symm
      · split
        · exact (Visit.plain_replace n rfl).symm
        · rfl

/-- Marks do not matter to the rule. -/
private theorem finish_plain (n : Node) : (expressionRuleWith fold).finish Rule.top n.plain =
    ((expressionRuleWith fold).finish Rule.top n).plain := by
  simp only [expressionRuleWith, expressionRule, label_plain]
  split
  · exact foldBinaryWith_plain _ n
  · split
    · exact foldUnary_plain n
    · exact absurd ‹_› (by simp_all)
    · split
      · simp only [Visit.change, Visit.plain, plain_update, Option.map_none]
      · rfl
    · rfl

theorem foldEarly_eq_none {n : Node} (h : ∀ c ∈ n.subtrees, (expressionRuleWith fold).Rests c.2) :
    foldEarly n = none := by
  refine if_neg fun hdouble => ?_
  obtain ⟨_,a,-,ha,hnegated⟩ := label_of_isNegated hdouble
  obtain ⟨e,he,rfl⟩ := Option.map_eq_some_iff.mp ha
  have hreplaced := (h e (List.mem_of_find?_eq_some he) [] e.2 rfl).replaced Rule.top
  rw [finish_negated hnegated] at hreplaced
  cases hreplaced

theorem expressionRuleWith_settles (fold : Arithmetic) : (expressionRuleWith fold).Settles where
  context _ _ := rfl
  plain_early n := by
    simp only [expressionRuleWith, foldEarly, isNegated_plain (isNegated_plain isEmptyArray_plain)]
    split
    · exact congrArg some (Visit.plain_replace n rfl).symm
    · rfl
  plain_finish := finish_plain
  reshapes n := by
    have hfolds := finish_folds fold n
    generalize (expressionRuleWith fold).finish Rule.top n = v at hfolds
    cases hfolds with
    | keeps => exact n.reshaped_self
    | puts c _ _ => exact n.reshaped_self
    | respells v raw _ _ => exact n.reshaped_update _
  early n v h := by
    obtain ⟨-,rfl⟩ := expressionRule_early h
    exact ⟨rfl,_,rfl,rfl,rests_ofBool true⟩
  late n h := foldEarly_eq_none h
  finish n h := by
    have hfolds := finish_folds fold n
    generalize hv : (expressionRuleWith fold).finish Rule.top n = v at hfolds
    cases hfolds with
    | keeps =>
      exact .keep (Rule.leavesBe_of_keep (foldEarly_eq_none h) fun _ => hv)
    | puts c hmarks hrests =>
      refine .yields _ _ ?_
      simp only [Replacement.nodes, List.mem_singleton, forall_eq]
      exact ⟨hrests,.inl hmarks⟩
    | respells v raw _ _ =>
      refine .stays _ _ _ (Rule.leavesBe_of_keep rfl fun ctx => ?_) fun _ => .inl
      simp only [expressionRuleWith, expressionRule, Node.update, Node.label, Number.isHexSpelling_text,
        Bool.false_eq_true, if_false]
  framed n h := by
    have hearly : foldEarly n = none := by
      rcases h with hl | hl | hl <;> simp [foldEarly, isNegated, hl]
    apply Rule.leavesBe_of_keep hearly
    intro ctx
    rcases h with hl | hl | hl <;> simp [expressionRuleWith, expressionRule, hl]

theorem expressionRuleWith_programs (fold : Arithmetic) : (expressionRuleWith fold).KeepsPrograms := by
  constructor
  · exact expressionRule_programs.early
  · rintro ctx n ⟨s,hs⟩
    simp [expressionRuleWith, expressionRule, hs]

/-! ### What is left -/

/-- What the rule leaves as it is it does not count. -/
theorem keep_of_leavesBe {n : Node} (h : (expressionRuleWith fold).LeavesBe n) :
    (expressionRuleWith fold).finish Rule.top n = .keep n := by
  have hfolds := finish_folds fold n
  have hkept := h.kept Rule.top
  have hnone := h.replaced Rule.top
  generalize (expressionRuleWith fold).finish Rule.top n = v at hfolds hkept hnone
  cases hfolds with
  | keeps => rfl
  | puts c _ _ => cases hnone
  | respells v raw hl hraw =>
    have hlabel : .literal (.number v) (some (Text.ofString v.text)) = n.label := congrArg Node.label hkept
    rw [hl] at hlabel
    injection hlabel with _ hspelling
    rw [← Option.some.inj hspelling, Number.isHexSpelling_text] at hraw
    cases hraw

/-- Nothing is left to fold at a node that the rule leaves as it is. -/
theorem folded_of_leavesBe {n : Node} (h : (expressionRuleWith fold).LeavesBe n) : Folded fold n := by
  have hnone := h.replaced Rule.top
  have hearly : foldEarly n = none := h.early
  refine ⟨fun op l r x y hl hleft hright hx hy => ?_,fun l r t u hl hleft hright ht hu => ?_,?_,?_,
    fun p a v hl ha hv => ?_,fun v raw hl => ?_⟩
  · simp only [expressionRuleWith, hl, foldBinaryWith, hleft, hright, foldNumbersWith, hx, hy] at hnone
    cases hfold : fold op x y with
    | none => rfl
    | some d =>
      simp [hfold, Visit.replace] at hnone
  · simp only [expressionRuleWith, hl, foldBinaryWith, hleft, hright, foldStrings, ht, hu] at hnone
    split at hnone
    · cases hnone
    · simp [Visit.replace] at hnone
  · cases hn : isNegated isEmptyArray n with
    | false => rfl
    | true =>
      rw [finish_negated hn] at hnone
      cases hnone
  · cases hn : isNegated (isNegated isEmptyArray) n with
    | false => rfl
    | true =>
      rw [foldEarly, if_pos hn] at hearly
      cases hearly
  · simp only [expressionRuleWith, expressionRule, hl, foldUnary, ha, Option.bind_some, hv] at hnone
    split at hnone
    · cases hnone
    · cases hzero : v.isZero with
      | false => rfl
      | true => simp [hzero, Visit.replace] at hnone
  · have hkeep := keep_of_leavesBe h
    simp only [expressionRuleWith, expressionRule, hl] at hkeep
    split at hkeep
    · cases congrArg Visit.count hkeep
    · exact (Bool.not_eq_true _).mp ‹_›

/-- Where nothing is left to fold no number has to be spelled anew. -/
private theorem hasOverlongSpelling_of_folded {n : Node} (h : ∀ q a, n.at? q = some a → Folded fold a) :
    hasOverlongSpelling n = false := by
  induction n using inductionOn with
  | marked m l cs ih =>
    have hinside : ∀ c ∈ cs, hasOverlongSpelling c.2 = false := by
      intro c hc
      obtain ⟨i,hi⟩ := List.mem_iff_getElem?.mp hc
      apply ih c hc
      intro q a ha
      apply h (i :: q) a
      rw [at?_cons, hi]
      exact ha
    have hspelling := (h [] _ rfl).spelling
    rw [hasOverlongSpelling, fold_marked, Bool.or_eq_false_iff]
    constructor
    · simpa [hasOverlongSpelling] using hinside
    · split
      · rw [hspelling _ _ rfl, Bool.false_and]
      · rfl

/-- The statement `void 0;`, one node at both its places. -/
def voided : Node :=
  .marked (some 0) (.expressionStatement none none) [(.expression,
    .marked (some 1) (.unaryExpression "void" true) [(.argument,
      .marked (some 2) (.literal (.number (.int 0)) (some [48])) [])])]

/-- The script `void 0; 1 - 0x10 - 2; void 0; !![];`. -/
def folding : Node :=
  .mk (.program "script") [(.body, voided),
    (.body, .mk (.expressionStatement none none) [(.expression,
      .binary "-"
        (.binary "-" (.ofNumber (.int 1)) (.mk (.literal (.number (.int 16)) (some (Text.ofString "0x10"))) []))
        (.ofNumber (.int 2)))]),
    (.body, voided),
    (.body, .mk (.expressionStatement none none) [(.expression,
      .unary "!" (.unary "!" (.mk .arrayExpression [])))])]

end Arithmetic
end Unravel.Simplify
