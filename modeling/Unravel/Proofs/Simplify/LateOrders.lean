import Unravel.Proofs.Settling.Idle
import Unravel.Proofs.Settling.Selected
import Unravel.Proofs.Simplify.FlatteningScope
import Unravel.Proofs.Simplify.Termination

/-! Orders that a loop comes by late. A loop finds the order of its cases in a declaration before it in its
own list. Where the statements of a loop around it take the place of that loop they come to stand behind
others, and a second run may find an order there that the first did not. -/

namespace Unravel.Simplify
open Node

theorem flatteningRule_programs : flatteningRule.KeepsPrograms := by
  constructor
  · intro n _
    rfl
  · rintro ctx n ⟨s,hs⟩
    simp [flatteningRule, hs]

theorem flatteningRule_lifts : flatteningRule.Lifts where
  early _ := rfl
  kept := flatteningRule_finish_kept
  inside ctx n rep hrep := by
    obtain ⟨hkeep,-⟩ | ⟨ss,-,hss,hgives⟩ := flatteningRule_cases ctx n
    · rw [hkeep] at hrep
      cases hrep
    · rw [hgives] at hrep
      obtain rfl := Option.some.inj hrep
      exact unflatten?_below hss
  holes ctx n h := by
    obtain ⟨hkeep,-⟩ | ⟨ss,hl,-⟩ := flatteningRule_cases ctx n
    · rw [hkeep]
      rfl
    · rw [of_decide_eq_true h] at hl
      cases hl

theorem flatteningRule_countsRewrites : flatteningRule.CountsRewrites := by
  refine ⟨fun _ => rfl,fun ctx n => ?_⟩
  obtain ⟨h,-⟩ | ⟨ss,-,-,h⟩ := flatteningRule_cases ctx n <;> rw [h] <;> rfl

/-! ### Orders under a name -/

/-- The name under which the switch of a loop reads the order of its cases. -/
def orderName? (loop : Node) : Option String := do
  let body ← loop.child? .body
  let switch ← (body.row .body).find? Dispatch.isSwitch
  let discriminant ← switch.child? .discriminant
  let object ← discriminant.child? .object
  object.identifierName?

/-- A discriminant has an order if it steps through a string that is split, or through what a declaration
before the loop has under a name. -/
theorem dispatchOrder_eq_some {earlier : List Node} {d : Node} {order : List Text} :
    dispatchOrder earlier d = some order ↔
      ∃ index object, d.label = .memberExpression true ∧ d.child? .property = some index ∧
        isStateIncrement index = true ∧ d.child? .object = some object ∧
          (splitOrder object).or (object.identifierName?.bind (declaredOrder earlier)) = some order := by
  unfold dispatchOrder
  split
  · rename_i hl
    cases d.child? .property with
    | none => simp
    | some index =>
      cases d.child? .object with
      | none => simp
      | some object =>
        cases hsteps : isStateIncrement index
        · simp [hsteps]
        · cases hsplit : splitOrder object <;> simp [hl, hsteps, hsplit]
  · rename_i hl
    exact iff_of_false nofun fun ⟨_,_,hmember,_⟩ => hl hmember

/-- What a loop gives up behind some statements and does not behind others it has an order for under a
name, in a declaration among the ones and not among the others. -/
theorem exists_orderName {earlier earlier' ss : List Node} {loop : Node}
    (h : unflatten? earlier loop = some ss) (h' : unflatten? earlier' loop = none) :
    ∃ name order, orderName? loop = some name ∧ declaredOrder earlier name = some order ∧
      declaredOrder earlier' name ≠ some order := by
  obtain ⟨body,switch,d,order,hbody,hblock,hswitch,hd,horder,hss,hne⟩ := unflatten?_eq_some.mp h
  obtain ⟨index,object,hl,hindex,hsteps,hobject,hread⟩ := dispatchOrder_eq_some.mp horder
  have hlost : dispatchOrder earlier' d ≠ some order := by
    intro horder'
    have hgives : unflatten? earlier' loop = some ss :=
      unflatten?_eq_some.mpr ⟨body,switch,d,order,hbody,hblock,hswitch,hd,horder',hss,hne⟩
    rw [h'] at hgives
    cases hgives
  have hunread (horder' : (splitOrder object).or (object.identifierName?.bind (declaredOrder earlier')) =
      some order) : False :=
    hlost (dispatchOrder_eq_some.mpr ⟨index,object,hl,hindex,hsteps,hobject,horder'⟩)
  cases hsplit : splitOrder object with
  | some found =>
    rw [hsplit] at hread hunread
    exact absurd hread hunread
  | none =>
    rw [hsplit, Option.none_or] at hread hunread
    obtain ⟨name,hname,hdeclared⟩ := Option.bind_eq_some_iff.mp hread
    rw [hname, Option.bind_some] at hunread
    refine ⟨name,order,?_,hdeclared,hunread⟩
    change (body.row .body).find? Dispatch.isSwitch = some switch at hswitch
    simp only [orderName?, hbody, Option.bind_eq_bind, Option.bind_some, hswitch, hd, hobject, hname]

/-! ### Second runs -/

/-- A loop stands at a place of a tree that gives up statements there. -/
def FlattenedAt (tree : Node) (q : Path) (loop : Node) : Prop :=
  tree.at? q = some loop ∧ loop.label = .whileStatement ∧
    (unflatten? (tree.contextAt Rule.top q).earlier loop).isSome

/-- The rule puts something in the place of the loops that give up statements where they stand. -/
theorem flatteningRule_staysAt {tree a : Node} {q : Path} (ha : tree.at? q = some a) :
    flatteningRule.StaysAt Rule.top tree q a ↔ ¬FlattenedAt tree q a := by
  unfold Rule.StaysAt FlattenedAt
  obtain ⟨h,hnone⟩ | ⟨ss,hl,hss,h⟩ := flatteningRule_cases (tree.contextAt Rule.top q) a
  · rw [h]
    refine iff_of_true rfl ?_
    rintro ⟨-,hl,hsome⟩
    rw [hnone hl] at hsome
    cases hsome
  · rw [h, hss]
    exact iff_of_false nofun fun hnot => hnot ⟨ha,hl,rfl⟩

variable {tree : Node}

/-- A run over a tree without marks changes nothing just where no loop gives up statements. -/
theorem flattening_eq_self_iff (hm : tree.marks = []) (hholes : tree.EmptyHoles) :
    flattening tree = (tree, 0) ↔ ∀ q loop, ¬FlattenedAt tree q loop := by
  have hcount : (flattening tree).2 = (flatteningRule.visit Rule.top tree).count := by
    unfold flattening
    split
    · exact (flatteningRule_selects.runRepeated_number hm).2
    · rw [Rule.run, if_neg (by simp [hasMarks_eq_false.mpr hm])]
      rfl
  have hzero : flattening tree = (tree, 0) ↔ (flattening tree).2 = 0 :=
    ⟨fun h => congrArg Prod.snd h,
      fun h => Prod.ext (flattening_eq_self (marksShared_of_marks hm) h) h⟩
  rw [hzero, hcount, flatteningRule_lifts.visit_count_eq_zero flatteningRule_tells
    flatteningRule_countsRewrites hholes]
  constructor
  · exact fun h q loop hloop => (flatteningRule_staysAt hloop.1).mp (h q loop hloop.1) hloop
  · exact fun h q a ha => (flatteningRule_staysAt ha).mpr (h q a)

/-- A run over a tree of shared nodes changes nothing if no loop gives up statements at any of its
places. -/
theorem flattening_eq_self_of_none (h : tree.MarksShared) (hholes : tree.EmptyHoles)
    (hnone : ∀ q loop, ¬FlattenedAt tree.plain q loop) : flattening tree = (tree, 0) := by
  have hstands {root : Node} (hroot : root.plain = tree.plain) : flatteningRule.Stands root := by
    apply Rule.stands_of_plain flatteningRule_ignoresMarks flatteningRule_tells flatteningRule_countsRewrites
    intro p a ha
    rw [hroot] at ha ⊢
    exact (flatteningRule_staysAt ha).mpr (hnone p a)
  by_cases hm : tree.hasMarks = true
  · unfold flattening
    split
    · have hsame := (hstands (plain_number tree tree.nextMark)).runRepeated h.coherent.number
      rw [hsame]
      exact Prod.ext h.number rfl
    · rw [Rule.run, if_pos hm]
      exact (hstands rfl).runRepeated h.coherent
  · have hmarks := hasMarks_eq_false.mp (Bool.not_eq_true _ ▸ hm)
    rw [plain_of_marks hmarks] at hnone
    exact (flattening_eq_self_iff hmarks hholes).mpr hnone

/-- After a run marks stand for the nodes that have come to stand at several places. -/
theorem flattening_marksShared (hm : tree.marks = []) (hholes : tree.EmptyHoles) :
    (flattening tree).1.MarksShared := by
  by_cases hrepeats : repeatsLabel tree = true
  · rw [flattening, if_pos hrepeats]
    exact (flatteningRule_selects.runRepeated_coherent hm hholes).dropSingleMarks
  · apply marksShared_of_marks
    have honce : (flattening tree).1 = (flatteningRule.runOnce tree).1 := by
      rw [flattening, if_neg hrepeats, Rule.run, if_neg (by simp [hasMarks_eq_false.mpr hm])]
    rw [honce, ← flattening_plain hm]
    exact marks_plain _

/-- Undoing flattened control flow may take more than one run. A second run changes nothing if no loop that
is left gives up statements, and only then where no node has come to stand at several places. A loop that
does was there before. It reads its order under a name, and a declaration of this order is among the
statements that now stand before it, but was not among those that did. Places of a shared node count as
nodes of their own. -/
theorem flattening_again (hprogram : tree.IsProgram) (hm : tree.hasMarks = false)
    (hholes : tree.EmptyHoles) :
    ((∀ q loop, ¬FlattenedAt (flattening tree).1.plain q loop) →
      flattening (flattening tree).1 = ((flattening tree).1, 0)) ∧
      ((flattening tree).1.hasMarks = false →
        flattening (flattening tree).1 = ((flattening tree).1, 0) →
          ∀ q loop, ¬FlattenedAt (flattening tree).1.plain q loop) ∧
      ∀ q' loop, FlattenedAt (flattening tree).1.plain q' loop →
        ∃ q name order, flatteningRule.Carries tree q q' ∧ tree.labelAt? q = some .whileStatement ∧
          orderName? loop = some name ∧
          declaredOrder ((flattening tree).1.plain.contextAt Rule.top q').earlier name = some order ∧
          declaredOrder (tree.contextAt Rule.top q).earlier name ≠ some order := by
  have hmarks := hasMarks_eq_false.mp hm
  have hplain := flattening_plain hmarks
  have hkeeps := (flatteningRule_programs.visit hprogram Rule.top).1
  have honce : (flattening tree).1.EmptyHoles := by
    rw [← emptyHoles_plain, hplain]
    exact (flatteningRule_lifts.visit_emptyHoles hholes Rule.top).1
  refine ⟨flattening_eq_self_of_none (flattening_marksShared hmarks hholes) honce,fun hunshared => ?_,
    fun q' loop hloop => ?_⟩
  · have hunmarked := hasMarks_eq_false.mp hunshared
    rw [plain_of_marks hunmarked]
    exact (flattening_eq_self_iff hunmarked honce).mp
  · obtain ⟨hplace,hl,hsome⟩ := hloop
    obtain ⟨ss,hss⟩ := Option.isSome_iff_exists.mp hsome
    rw [hplain] at hplace
    obtain ⟨q,a,hq,ha,hlabel,hstays⟩ | hnew := flatteningRule_lifts.carries_or_new
      flatteningRule_ignoresMarks hmarks hholes hkeeps hplace
    · have hnone : unflatten? (tree.contextAt Rule.top q).earlier loop = none := by
        obtain ⟨-,hnone⟩ | ⟨ss,-,-,hgives⟩ := flatteningRule_cases (tree.contextAt Rule.top q) loop
        · exact hnone hl
        · rw [Rule.StaysAt, hgives] at hstays
          cases hstays
      obtain ⟨name,order,hname,hlate⟩ := exists_orderName hss hnone
      refine ⟨q,name,order,hq,?_,hname,hlate⟩
      rw [labelAt?, ha, Option.map_some, hlabel, hl]
    · rw [hl] at hnew
      rcases hnew with hnew | hnew <;> cases hnew

namespace Dispatch

/-- The expression `'<labels>'.split('|')`. -/
def splitting (labels : String) : Node :=
  .call (.mk (.memberExpression false)
    [(.object, .ofText (Text.ofString labels)), (.property, .identifier "split")])
    [.ofText (Text.ofString "|")]

/-- The loop `while (true) { switch (order[state++]) { cases } break; }`. -/
def stepping (order : Node) (state : String) (cases : List Node) : Node :=
  let next : Node := .mk (.updateExpression "++" false) [(.argument, .identifier state)]
  let discriminant : Node := .mk (.memberExpression true) [(.object, order), (.property, next)]
  .mk .whileStatement [(.test, .ofBool true), (.body, .block [
    .mk .switchStatement ((.discriminant, discriminant) :: cases.map fun c => (.cases, c)), leaves])]

/-- `while (true) { switch (o[j++]) { case 'a': f(); continue; case 'b': g(); continue; } break; }` -/
def namedLoop : Node :=
  stepping (.identifier "o") "j" [labelled "a" [runs "f", resumes], labelled "b" [runs "g", resumes]]

/-- `while (true) { switch ('0|1'.split('|')[i++]) { case '0': var o = 'a|b'.split('|'); continue;
case '1': <namedLoop> continue; } break; }` -/
def lateOrder : Node :=
  let order : Node := .mk (.variableDeclaration "var")
    [(.declarations, .mk .variableDeclarator [(.id, .identifier "o"), (.init, splitting "a|b")])]
  script [stepping (splitting "0|1") "i"
    [labelled "0" [order, resumes], labelled "1" [namedLoop, resumes]]]

end Dispatch

open Dispatch in
theorem flattening_again_lateOrder :
    lateOrder.IsProgram ∧ lateOrder.hasMarks = false ∧ lateOrder.EmptyHoles ∧
      (flattening lateOrder).1.hasMarks = false ∧ (flattening lateOrder).2 = 1 ∧
        flattening (flattening lateOrder).1 ≠ ((flattening lateOrder).1, 0) ∧
        (flattening (flattening lateOrder).1).2 = 1 ∧
        ∃ q, flatteningRule.Carries lateOrder q [1] ∧ lateOrder.labelAt? q = some .whileStatement ∧
          declaredOrder ((flattening lateOrder).1.plain.contextAt Rule.top [1]).earlier "o" =
            some [[97], [98]] ∧
          declaredOrder (lateOrder.contextAt Rule.top q).earlier "o" ≠ some [[97], [98]] := by
  have hprogram : lateOrder.IsProgram := ⟨"script",rfl⟩
  have hm : lateOrder.hasMarks = false := by decide
  have hholes : lateOrder.EmptyHoles := EveryLabel.emptyHoles (by decide)
  have hunshared : (flattening lateOrder).1.hasMarks = false := by decide +kernel
  obtain ⟨-,hagain,hfound⟩ := flattening_again hprogram hm hholes
  have hloop : FlattenedAt (flattening lateOrder).1.plain [1] namedLoop := ⟨rfl,rfl,by decide +kernel⟩
  obtain ⟨q,name,order,hq,hl,hname,hlate,hearly⟩ := hfound [1] namedLoop hloop
  obtain rfl : "o" = name := Option.some.inj hname
  have hdeclared : declaredOrder ((flattening lateOrder).1.plain.contextAt Rule.top [1]).earlier "o" =
      some [[97], [98]] := by decide +kernel
  rw [hdeclared] at hlate
  obtain rfl := Option.some.inj hlate
  exact ⟨hprogram,hm,hholes,hunshared,by decide +kernel,fun h => hagain hunshared h [1] namedLoop hloop,
    by decide +kernel,q,hq,hl,hdeclared,hearly⟩

end Unravel.Simplify
