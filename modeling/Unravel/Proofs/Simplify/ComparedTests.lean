import Unravel.Proofs.Literals.Units
import Unravel.Proofs.Settling.Grafts
import Unravel.Proofs.Simplify.DecidedTests
import Unravel.Proofs.Simplify.Unflattening

/-! Branches that are decided by a comparison of two strings. The strings are compared by their code points,
and when the program runs by their code units. -/

namespace Unravel.Simplify
open Node

/-- A test that is a comparison of two strings once it is visited, and the answer it gives for equal ones. -/
def ComparesStrings (test : Node) (whenEqual : Bool) (l r : Text) : Prop :=
  ∃ t op, (deadCodeRule.visit Rule.top test).result = .node t ∧ t.label = .binaryExpression op ∧
    equalityAnswer? op = some whenEqual ∧ (t.child? .left).bind stringValue? = some l ∧
      (t.child? .right).bind stringValue? = some r

/-- The answer of a comparison that looks at code points. -/
def answerByPoints (whenEqual : Bool) (l r : Text) : Bool := decide (l = r) == whenEqual

/-- The answer of a comparison when the program runs. -/
def answerByUnits (whenEqual : Bool) (l r : Text) : Bool := decide (l.units = r.units) == whenEqual

/-- What stays of a conditional whose branch is known. -/
def staying (l : Label) (branch : Option Node) : Replacement :=
  if l = .ifStatement then takenBranch branch else branch.elim .nothing .node

theorem ComparesStrings.plain {test : Node} {whenEqual : Bool} {l r : Text}
    (h : ComparesStrings test whenEqual l r) : ComparesStrings test.plain whenEqual l r := by
  obtain ⟨t,op,hvisit,hlabel,hop,hl,hr⟩ := h
  refine ⟨t.plain,op,?_,by rw [label_plain, hlabel],hop,?_,?_⟩
  · rw [deadCodeRule_settles.visit_plain, Visit.result_plain, hvisit]
    rfl
  · simpa only [child?_plain, Option.bind_map, Function.comp_def, stringValue?_plain] using hl
  · simpa only [child?_plain, Option.bind_map, Function.comp_def, stringValue?_plain] using hr

/-- A node whose test is decided gives way to one of its branches. -/
theorem deadCodeRule_chooses {n : Node} (hn : n.label = .ifStatement ∨ n.label = .conditionalExpression)
    {b : Bool} (hb : (n.child? .test).bind staticTest = some b) (ctx : Context) :
    deadCodeRule.finish ctx n = .replace n (staying n.label (branch n b)) := by
  simp only [deadCodeRule, hb]
  rcases hn with hl | hl
  · simp only [hl, staying, if_true]
  · simp only [hl, staying]
    cases branch n b <;> rfl

/-! ### The test among the subtrees -/

/-- The first node of a slot, and what stands before and after it. -/
theorem exists_split {n c : Node} {f : Field} {i : Nat} (hi : n.index? f = some i) (hc : n.child? f = some c) :
    ∃ before after, n.subtrees = before ++ (f, c) :: after ∧ before.length = i ∧ ∀ d ∈ before, d.1 ≠ f := by
  obtain ⟨hlt,-,hmin⟩ := List.findIdx?_eq_some_iff_getElem.mp hi
  have hat := getElem?_index? hi hc
  refine ⟨n.subtrees.take i,n.subtrees.drop (i + 1),?_,List.length_take_of_le hlt.le,fun d hd => ?_⟩
  · rw [← (List.getElem?_eq_some_iff.mp hat).2, ← List.drop_eq_getElem_cons hlt, List.take_append_drop]
  · obtain ⟨j,hj,rfl⟩ := List.mem_take_iff_getElem.mp hd
    have hnot := hmin j (by omega)
    simpa using hnot

section Subtrees
variable {m : Option Nat} {l : Label} {before after : List (Field × Node)} {f : Field} {c c' : Node}

theorem graft_split : (marked m l (before ++ (f, c) :: after)).graft [before.length] c' =
    .marked m l (before ++ (f, c') :: after) := by
  rw [graft, List.modify_eq_take_cons_drop (by simp)]
  simp [graft]

theorem child?_split (h : ∀ d ∈ before, d.1 ≠ f) :
    (marked m l (before ++ (f, c) :: after)).child? f = some c := by
  have hnone : before.find? (fun d => decide (d.1 = f)) = none :=
    List.find?_eq_none.mpr fun d hd => by simpa using h d hd
  simp [child?, subtrees, hnone]

theorem child?_split_of_ne {g : Field} (hg : f ≠ g) :
    (marked m l (before ++ (f, c') :: after)).child? g =
      (marked m l (before ++ (f, c) :: after)).child? g := by
  simp [child?, subtrees, hg]

end Subtrees

theorem ne_of_visitAll {l : Label} (start : List (Field × Node)) {cs : List (Field × Node)} {f : Field}
    (h : ∀ c ∈ cs, c.1 ≠ f) :
    ∀ c ∈ (deadCodeRule.visitAll l start cs).1, c.1 ≠ f := by
  induction cs generalizing start with
  | nil => simp [Rule.visitAll]
  | cons c cs ih =>
    obtain ⟨g,n⟩ := c
    obtain ⟨hg,h⟩ := List.forall_mem_cons.mp h
    rw [Rule.visitAll_cons]
    refine List.forall_mem_append.mpr ⟨fun c hc => ?_,ih _ h⟩
    split at hc
    · obtain rfl := List.mem_singleton.mp hc
      exact hg
    · rw [Rule.field_place hc]
      exact hg

theorem visitAll_split {l : Label} {before after : List (Field × Node)} {f : Field} {c t : Node}
    (hc : (deadCodeRule.visit Rule.top c).result = .node t) (hhole : c.isHole = false) :
    (deadCodeRule.visitAll l [] (before ++ (f, c) :: after)).1 =
      (deadCodeRule.visitAll l [] before).1 ++ (f, t) :: (deadCodeRule.visitAll l [] after).1 := by
  have hr := deadCodeRule_settles
  rw [Rule.visitAll_append, Rule.visitAll_cons]
  simp only [hhole, hr.visit_context c _ Rule.top, hc, hr.visitAll_before l _ [] after]
  rfl

/-! ### The branch that stays -/

theorem ComparesStrings.isHole {test : Node} {whenEqual : Bool} {l r : Text}
    (h : ComparesStrings test whenEqual l r) : test.isHole = false := by
  obtain ⟨t,op,hvisit,hlabel,-⟩ := h
  obtain ⟨m,lab,cs⟩ := test
  rw [← Bool.not_eq_true]
  intro hhole
  obtain rfl : lab = .hole := of_decide_eq_true hhole
  have hkeep (done : List (Field × Node)) :
      deadCodeRule.finish Rule.top (.marked m .hole done) = .keep (.marked m .hole done) := by
    simp [deadCodeRule, Node.label]
  have hearly (n : Node) : deadCodeRule.early n = none := rfl
  rw [Rule.visit, hearly] at hvisit
  simp only [hkeep] at hvisit
  rw [← Replacement.node.inj hvisit] at hlabel
  cases hlabel

/-- A visit chooses by the code points of the strings, and chooses the same where the answer itself stands
for the test. -/
theorem visit_compares {n test : Node} (hn : n.label = .ifStatement ∨ n.label = .conditionalExpression)
    {i : Nat} (hi : n.index? .test = some i) (htest : n.child? .test = some test) {whenEqual : Bool}
    {l r : Text} (h : ComparesStrings test whenEqual l r) (ctx : Context) :
    (deadCodeRule.visit ctx n).result =
        staying n.label (branch (deadCodeRule.visit ctx n).kept (answerByPoints whenEqual l r)) ∧
      (deadCodeRule.visit ctx (n.graft [i] (.ofBool (answerByPoints whenEqual l r)))).result =
        (deadCodeRule.visit ctx n).result := by
  obtain ⟨before,after,hsplit,rfl,hbefore⟩ := exists_split hi htest
  obtain ⟨m,lab,cs⟩ := n
  obtain rfl : cs = before ++ (.test, test) :: after := hsplit
  have hhole := h.isHole
  obtain ⟨t,op,hvisit,hlabel,hop,hl,hr⟩ := h
  have hdone := ne_of_visitAll (l := lab) [] hbefore
  have hanswer : staticTest t = some (answerByPoints whenEqual l r) := by
    simp [staticTest, hlabel, hop, hl, hr, answerByPoints]
  have hliteral (b : Bool) : (deadCodeRule.visit Rule.top (.ofBool b)).result = .node (.ofBool b) := by
    cases b <;> rfl
  have hearly (n : Node) : deadCodeRule.early n = none := rfl
  rw [graft_split, Rule.visit, Rule.visit, hearly, hearly]
  simp only [visitAll_split hvisit hhole, visitAll_split (hliteral _) rfl]
  generalize (deadCodeRule.visitAll lab [] before).1 = done at hdone
  generalize (deadCodeRule.visitAll lab [] after).1 = rest
  have hchoose (c : Node) (hc : staticTest c = some (answerByPoints whenEqual l r)) :
      deadCodeRule.finish ctx (.marked m lab (done ++ (.test, c) :: rest)) =
        .replace (.marked m lab (done ++ (.test, c) :: rest)) (staying lab
          (branch (.marked m lab (done ++ (.test, c) :: rest)) (answerByPoints whenEqual l r))) := by
    refine deadCodeRule_chooses (n := .marked m lab (done ++ (.test, c) :: rest)) hn ?_ ctx
    rw [child?_split hdone]
    exact hc
  have hbranch : branch (.marked m lab (done ++ (.test, .ofBool (answerByPoints whenEqual l r)) :: rest))
      (answerByPoints whenEqual l r) =
        branch (.marked m lab (done ++ (.test, t) :: rest)) (answerByPoints whenEqual l r) := by
    unfold branch
    split <;> exact child?_split_of_ne (by decide)
  rw [hchoose t hanswer, hchoose _ rfl, hbranch]
  exact ⟨rfl,rfl⟩

theorem answer_eq_iff (whenEqual : Bool) (l r : Text) :
    answerByPoints whenEqual l r = answerByUnits whenEqual l r ↔ (l.units = r.units → l = r) := by
  by_cases hpoints : l = r
  · subst hpoints
    simp [answerByPoints, answerByUnits]
  · by_cases hunits : l.units = r.units <;> cases whenEqual <;>
      simp [answerByPoints, answerByUnits, hpoints, hunits]

/-- Where a comparison of two strings decides a branch, the branch that stays is the one that the comparison
by code points chooses, in a whole program as if that answer stood for the test. When the program runs it
chooses the same branch, unless the strings differ in their code points only. Then one of them spells a
surrogate pair by its two halves. -/
theorem deadCode_compares {tree : Node} (hprogram : tree.IsProgram) (hcoherent : tree.Coherent)
    (hholes : tree.EmptyHoles) {q : Path} {n test : Node} (hat : tree.at? q = some n)
    (hn : n.label = .ifStatement ∨ n.label = .conditionalExpression) {i : Nat}
    (hi : n.index? .test = some i) (htest : n.child? .test = some test) {whenEqual : Bool} {l r : Text}
    (h : ComparesStrings test whenEqual l r) :
    (∀ ctx, (deadCodeRule.visit ctx n).result =
        staying n.label (branch (deadCodeRule.visit ctx n).kept (answerByPoints whenEqual l r))) ∧
      (deadCode tree).1.plain =
        (deadCode (tree.plain.graft (q ++ [i]) (.ofBool (answerByPoints whenEqual l r)))).1 ∧
      (answerByPoints whenEqual l r = answerByUnits whenEqual l r ↔ (l.units = r.units → l = r)) ∧
        (Text.Joined l → Text.Joined r → answerByPoints whenEqual l r = answerByUnits whenEqual l r) := by
  refine ⟨fun ctx => (visit_compares hn hi htest h ctx).1,?_,answer_eq_iff whenEqual l r,fun hl hr => ?_⟩
  · have hat' : tree.plain.at? q = some n.plain := by
      rw [at?_plain, hat]
      rfl
    have hn' : n.plain.label = .ifStatement ∨ n.plain.label = .conditionalExpression := by
      rwa [label_plain]
    have hi' : n.plain.index? .test = some i := by
      obtain ⟨m,lab,cs⟩ := n
      rw [← hi, plain_marked]
      simp only [index?, subtrees, List.findIdx?_map]
      rfl
    have htest' : n.plain.child? .test = some test.plain := by
      rw [child?_plain, htest]
      rfl
    have hinside : n.plain.at? [i] = some test.plain := by
      rw [Node.at?, getElem?_index? hi' htest']
      rfl
    have hgraft : (n.plain.graft [i] (.ofBool (answerByPoints whenEqual l r))).label = n.plain.label := by
      obtain ⟨m,lab,cs⟩ := n
      rfl
    have halike : deadCodeRule.Alike n.plain
        (n.plain.graft [i] (.ofBool (answerByPoints whenEqual l r))) := by
      refine ⟨fun ctx => (visit_compares hn' hi' htest' h.plain ctx).2,⟨?_,?_⟩,?_,fun _ _ _ => rfl⟩
      · rcases hn' with hl | hl <;> simp [isHole, hl]
      · rw [isHole, hgraft]
        rcases hn' with hl | hl <;> simp [hl]
      · rw [isStatement, hgraft, isStatement]
    have hnot : ¬n.plain.IsProgram := by
      rintro ⟨s,hs⟩
      rcases hn' with hl | hl <;> rw [hl] at hs <;> cases hs
    rw [graft_append hat']
    exact halike.run deadCodeRule_settles deadCodeRule_programs hprogram hcoherent hholes hat' hnot
      ((swaps_graft hinside _).marks rfl (marks_plain n))
  · rw [answer_eq_iff]
    exact Text.eq_of_units hl hr

/-- The script `if ('\ud83d\ude00' === '\u{1f600}') a; else b;`. The strings are the same when it runs. -/
def halves : Node :=
  let reads (name : String) : Node := .mk (.expressionStatement none none) [(.expression, .identifier name)]
  .mk (.program "script") [(.body, .mk .ifStatement [
    (.test, .binary "===" (.ofText [0xD83D, 0xDE00]) (.ofText [0x1F600])),
    (.consequent, reads "a"), (.alternate, reads "b")])]

theorem deadCode_compares_halves :
    halves.IsProgram ∧ halves.Coherent ∧ halves.EmptyHoles ∧
      answerByPoints true [0xD83D, 0xDE00] [0x1F600] = false ∧
        answerByUnits true [0xD83D, 0xDE00] [0x1F600] = true ∧
          (deadCode halves).1.plain = (deadCode (halves.plain.graft [0, 0] (.ofBool false))).1 := by
  have hprogram : halves.IsProgram := ⟨"script",rfl⟩
  have hcoherent : halves.Coherent := coherent_of_marks (by decide)
  have hholes : halves.EmptyHoles := EveryLabel.emptyHoles (by decide)
  have hcompares : ComparesStrings (.binary "===" (.ofText [0xD83D, 0xDE00]) (.ofText [0x1F600])) true
      [0xD83D, 0xDE00] [0x1F600] := ⟨_,"===",rfl,rfl,rfl,rfl,rfl⟩
  have hpoints : answerByPoints true [0xD83D, 0xDE00] [0x1F600] = false := by decide
  obtain ⟨-,hrun,-⟩ := deadCode_compares hprogram hcoherent hholes (q := [0]) rfl (.inl rfl) rfl rfl hcompares
  rw [hpoints] at hrun
  exact ⟨hprogram,hcoherent,hholes,hpoints,by decide,hrun⟩

end Unravel.Simplify
