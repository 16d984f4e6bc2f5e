import Unravel.Proofs.Numbering
import Unravel.Proofs.Simplify.Dispatch

/-! Undoing flattened control flow does not look at marks. Where an order names a label twice, the
statements that come to stand at two places are what they were without numbers. -/

namespace Unravel.Simplify
open Node

section Remarks
variable {f : Node → Node} (hf : Remarks f)
include hf

theorem stringValue?_of_remarks (n : Node) : (f n).stringValue? = n.stringValue? := by
  simp only [stringValue?, hf.label]

private theorem numberValue?_of_remarks (n : Node) : (f n).numberValue? = n.numberValue? := by
  simp only [numberValue?, hf.label]

private theorem identifierName?_of_remarks (n : Node) :
    (f n).identifierName? = n.identifierName? := by
  simp only [identifierName?, hf.label]

private theorem memberName?_of_remarks (n : Node) : (f n).memberName? = n.memberName? := by
  simp only [memberName?, hf.label, hf.child?]
  split
  · cases n.child? .property <;>
      simp [staticKey?, stringValue?_of_remarks hf, identifierName?_of_remarks hf]
  · rfl

theorem splitOrder_of_remarks (n : Node) : splitOrder (f n) = splitOrder n := by
  simp only [splitOrder, hf.label, hf.child?, hf.row]
  cases hc : n.child? .callee with
  | none => rfl
  | some callee =>
    cases ho : callee.child? .object with
    | none => simp [ho, hf.child?]
    | some object =>
      cases hrow : n.row .arguments with
      | nil => simp
      | cons a args =>
        cases args <;>
          simp [ho, hf.child?, memberName?_of_remarks hf, stringValue?_of_remarks hf]

theorem isStateIncrement_of_remarks (n : Node) : isStateIncrement (f n) = isStateIncrement n := by
  simp only [isStateIncrement, hf.label, hf.child?]
  cases n.child? .argument <;> simp [identifierName?_of_remarks hf]

theorem orderIn_of_remarks (name : String) (found : Option (List Text)) (s : Node) :
    orderIn name found (f s) = orderIn name found s := by
  simp only [orderIn, hf.label, hf.row, List.foldl_map, hf.child?]
  split
  · congr 1
    funext found d
    have hname : ((d.child? .id).map f).bind identifierName? = (d.child? .id).bind identifierName? := by
      cases d.child? .id <;> simp [identifierName?_of_remarks hf]
    have hinit : ((d.child? .init).map f).bind splitOrder = (d.child? .init).bind splitOrder := by
      cases d.child? .init <;> simp [splitOrder_of_remarks hf]
    rw [hname, hinit]
  · rfl

theorem declaredOrder_of_remarks (earlier : List Node) (name : String) :
    declaredOrder (earlier.map f) name = declaredOrder earlier name := by
  simp only [declaredOrder, List.foldl_map, orderIn_of_remarks hf]

theorem dispatchOrder_of_remarks (earlier : List Node) (n : Node) :
    dispatchOrder (earlier.map f) (f n) = dispatchOrder earlier n := by
  simp only [dispatchOrder, hf.label, hf.child?]
  split
  · cases hi : n.child? .property with
    | none => rfl
    | some index =>
      cases ho : n.child? .object with
      | none => simp
      | some object =>
        have hdeclared : declaredOrder (earlier.map f) = declaredOrder earlier :=
          funext (declaredOrder_of_remarks hf earlier)
        simp [isStateIncrement_of_remarks hf, splitOrder_of_remarks hf,
          identifierName?_of_remarks hf, hdeclared]
  · rfl

theorem caseBody_of_remarks (cases : List Node) (label : Text) :
    caseBody (cases.map f) label = (caseBody cases label).map f := by
  have htest : (fun c : Node => decide ((((f c).child? .test).bind caseLabel) = some label)) =
      fun c => decide (((c.child? .test).bind caseLabel) = some label) := by
    funext c
    have hlabel : ((c.child? .test).map f).bind caseLabel = (c.child? .test).bind caseLabel := by
      cases c.child? .test <;>
        simp [caseLabel, stringValue?_of_remarks hf, numberValue?_of_remarks hf]
    rw [hf.child?, hlabel]
  have hjump : (fun s : Node => !isJump (f s)) = fun s => !isJump s := by
    funext s
    simp only [isJump, hf.label]
  simp only [caseBody, ← List.map_reverse, List.find?_map, Function.comp_def, htest]
  cases cases.reverse.find? fun c => decide (((c.child? .test).bind caseLabel) = some label) with
  | none => rfl
  | some c => simp [List.filter_map, Function.comp_def, hjump, hf.row]

theorem unflatten?_of_remarks (earlier : List Node) (loop : Node) :
    unflatten? (earlier.map f) (f loop) = (unflatten? earlier loop).map (List.map f) := by
  simp only [unflatten?, hf.child?]
  cases loop.child? .body with
  | none => rfl
  | some body =>
    simp only [Option.map_some, Option.bind_eq_bind, Option.bind_some, hf.label, hf.row,
      List.find?_map, Function.comp_def]
    by_cases hblock : body.label = .blockStatement
    case neg => simp [hblock]
    simp only [ne_eq, hblock, not_true_eq_false, if_false]
    cases (body.row .body).find? fun s => decide (s.label = .switchStatement) with
    | none => rfl
    | some switch =>
      cases hd : switch.child? .discriminant with
      | none => simp [hd, hf.child?]
      | some d =>
        simp only [Option.map_some, Option.bind_some, hf.child?, hd, dispatchOrder_of_remarks hf,
          hf.row]
        cases dispatchOrder earlier d with
        | none => rfl
        | some order =>
          have hbodies : order.flatMap (caseBody ((switch.row .cases).map f)) =
              (order.flatMap (caseBody (switch.row .cases))).map f := by
            rw [List.map_flatMap]
            exact List.flatMap_congr fun label _ => caseBody_of_remarks hf _ label
          simp only [Option.bind_some, hbodies]
          cases order.flatMap (caseBody (switch.row .cases)) <;> rfl

end Remarks

@[simp]
theorem stringValue?_plain (n : Node) : n.plain.stringValue? = n.stringValue? :=
  stringValue?_of_remarks plain_remarks n

@[simp]
theorem numberValue?_plain (n : Node) : n.plain.numberValue? = n.numberValue? :=
  numberValue?_of_remarks plain_remarks n

@[simp]
theorem memberName?_plain (n : Node) : n.plain.memberName? = n.memberName? :=
  memberName?_of_remarks plain_remarks n

theorem flatteningRule_ignoresMarks : flatteningRule.IgnoresMarks where
  early _ := rfl
  finish hf ctx n := by
    simp only [flatteningRule, hf.label, Context.onNodes, unflatten?_of_remarks hf]
    split
    · cases unflatten? ctx.earlier n <;> rfl
    · rfl

theorem flatteningRule_selects : flatteningRule.Selects where
  early _ := rfl
  kept := flatteningRule_finish_kept
  replaced ctx n := by
    obtain ⟨h,-⟩ | ⟨ss,-,hss,h⟩ := flatteningRule_cases ctx n <;> rw [h]
    · exact .inl rfl
    · exact .inr ⟨ss,rfl,unflatten?_inside hss⟩
  plain := flatteningRule_ignoresMarks.plain

/-- Statements that come to stand at several places stand there as if each place had its own. -/
theorem flattening_plain {tree : Node} (h : tree.marks = []) :
    (flattening tree).1.plain = (flatteningRule.runOnce tree).1 := by
  have hrun := (flatteningRule_selects.runRepeated_number h).1
  unfold flattening
  split
  · exact (plain_unmark _ _).trans hrun
  · rw [Rule.run, hasMarks_eq_false.mpr h, if_neg (by simp), ← hrun]
    exact plain_unmark _ _

end Unravel.Simplify
