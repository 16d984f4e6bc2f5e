import Unravel.Proofs.Literals.Labels
import Unravel.Proofs.Simplify.Sharing

/-! Undoing flattened control flow where it was made by the book: groups of statements in the cases of
a switch, in any order, and a string that tells the order. The groups come back as they were. -/

namespace Unravel

namespace Text

theorem splitAt_ne_nil (sep : Nat) (t : Text) : splitAt sep t ≠ [] := by
  induction t with
  | nil => simp [splitAt]
  | cons c t ih =>
    rw [splitAt]
    split
    · simp
    · split <;> simp

private theorem splitAt_piece {sep : Nat} {t : Text} (h : sep ∉ t) (rest : Text) :
    splitAt sep t = [t] ∧ splitAt sep (t ++ sep :: rest) = t :: splitAt sep rest := by
  induction t with
  | nil =>
    refine ⟨rfl,?_⟩
    rw [List.nil_append, splitAt]
    split
    · exact absurd ‹_› (splitAt_ne_nil sep rest)
    · rename_i hrest
      rw [if_pos rfl, hrest]
  | cons c t ih =>
    obtain ⟨hc,ht⟩ := not_or.mp (fun hmem => h (List.mem_cons.mpr hmem))
    obtain ⟨halone,hmore⟩ := ih ht
    have hne : c ≠ sep := fun he => hc he.symm
    rw [List.cons_append, splitAt, halone, splitAt, hmore]
    simp [hne]

/-- Texts without the separator are got back from the text that joins them. -/
theorem splitAt_join {sep : Nat} {ts : List Text} (hne : ts ≠ []) (h : ∀ t ∈ ts, sep ∉ t) :
    splitAt sep (join [sep] ts) = ts := by
  induction ts with
  | nil => exact absurd rfl hne
  | cons t ts ih =>
    obtain ⟨ht,hts⟩ := List.forall_mem_cons.mp h
    cases ts with
    | nil => exact (splitAt_piece ht []).1
    | cons u us =>
      rw [join, List.append_assoc, List.singleton_append, (splitAt_piece ht _).2,
        ih (by simp) hts]
      · simp

end Text

/-- In the places that arrays leave empty there is nothing. -/
def Node.EmptyHoles (n : Node) : Prop := ∀ q a, n.at? q = some a → a.isHole = true → a.subtrees = []

theorem Node.EveryLabel.emptyHoles {n : Node} (h : n.EveryLabel fun l => l ≠ .hole) : n.EmptyHoles := by
  intro q a ha hhole
  exact absurd (of_decide_eq_true hhole) (h.at? ha).label

namespace Rule

/-- A replacement is filed under the slot it is fitted into. -/
theorem field_place {l : Label} {f : Field} {old : Node} {x : Replacement} {c : Field × Node}
    (h : c ∈ place l f old x) : c.1 = f := by
  unfold place at h
  split at h
  · obtain rfl := List.mem_singleton.mp h
    rfl
  · split at h
    · obtain ⟨n,-,rfl⟩ := List.mem_map.mp h
      rfl
    · obtain rfl := List.mem_singleton.mp h
      rfl
  · split at h
    · cases h
    · split at h
      · obtain rfl := List.mem_singleton.mp h
        rfl
      · cases h

theorem visitAll_append (r : Rule) (l : Label) (before cs ds : List (Field × Node)) :
    r.visitAll l before (cs ++ ds) =
      ((r.visitAll l before cs).1 ++ (r.visitAll l (before ++ cs) ds).1,
        (r.visitAll l before cs).2 + (r.visitAll l (before ++ cs) ds).2) := by
  induction cs generalizing before with
  | nil => simp [visitAll]
  | cons c cs ih =>
    obtain ⟨f,n⟩ := c
    rw [List.cons_append, visitAll_cons, visitAll_cons, ih]
    simp [Nat.add_assoc]

/-- A visit that leaves the node as it is. -/
def Leaves (r : Rule) (ctx : Context) (n : Node) : Prop :=
  (r.visit ctx n).kept = n ∧ (r.visit ctx n).replaced = none

theorem visitAll_leaves {r : Rule} (l : Label) (before : List (Field × Node))
    {cs : List (Field × Node)} (h : ∀ c ∈ cs, ∀ ctx, r.Leaves ctx c.2) :
    (r.visitAll l before cs).1 = cs := by
  induction cs generalizing before with
  | nil => rfl
  | cons c cs ih =>
    obtain ⟨f,n⟩ := c
    obtain ⟨hn,hcs⟩ := List.forall_mem_cons.mp h
    obtain ⟨hkept,hnone⟩ := hn ⟨some l,f,(before.filter fun c => c.1 = f).map Prod.snd⟩
    rw [visitAll_cons]
    simp [ih _ hcs, Visit.result, hnone, hkept, place]

/-- The subtrees of a node when others are put in the place of one of them. The subtrees beside it
are visited; what stands before a node in its row are the members that stood there. -/
def visitBeside (r : Rule) (l : Label) (cs : List (Field × Node)) (i : Nat)
    (put : List (Field × Node)) : List (Field × Node) :=
  (r.visitAll l [] (cs.take i)).1 ++ put ++ (r.visitAll l (cs.take (i + 1)) (cs.drop (i + 1))).1

/-- A visit of a tree that leaves out one subtree of the node at a position and puts others in its
place. Everything else is visited as ever, but nothing is counted. -/
def visitBut (r : Rule) (i : Nat) (put : List (Field × Node)) : Path → Context → Node → Visit
  | [], ctx, .marked m l cs => r.finish ctx (.marked m l (r.visitBeside l cs i put))
  | j :: p, ctx, .marked m l cs =>
    let here :=
      match cs[j]? with
      | none => []
      | some (f, n) =>
        let earlier := ((cs.take j).filter fun c => c.1 = f).map Prod.snd
        place l f n (r.visitBut i put p ⟨some l, f, earlier⟩ n).result
    r.finish ctx (.marked m l (r.visitBeside l cs j here))

/-- What a visit puts in the place of one subtree. -/
private theorem visitAll_beside {r : Rule} {l : Label} {cs : List (Field × Node)} {i : Nat} {f : Field}
    {n : Node} (hi : cs[i]? = some (f, n)) (hn : n.isHole = false) :
    (r.visitAll l [] cs).1 = r.visitBeside l cs i
      (place l f n (r.visit ⟨some l,f,((cs.take i).filter fun c => c.1 = f).map Prod.snd⟩ n).result) := by
  have hcs : cs = cs.take i ++ (f, n) :: cs.drop (i + 1) := by
    have hlt := (List.getElem?_eq_some_iff.mp hi).1
    rw [← (List.getElem?_eq_some_iff.mp hi).2, ← List.drop_eq_getElem_cons hlt, List.take_append_drop]
  have htake : cs.take (i + 1) = cs.take i ++ [(f, n)] := by
    rw [List.take_add_one, hi]
    rfl
  conv_lhs => rw [hcs]
  rw [visitAll_append, visitAll_cons, visitBeside, htake]
  simp [hn]

/-- A visit is a visit that leaves out some subtree, with what it makes of this subtree put in its
place. -/
theorem visit_eq_visitBut {r : Rule} (hr : ∀ n, r.early n = none) {tree parent loop : Node} {p : Path}
    {i : Nat} {f : Field} (hholes : tree.EmptyHoles) (hp : tree.at? p = some parent)
    (hi : parent.subtrees[i]? = some (f, loop)) (hloop : loop.isHole = false) (ctx : Context) :
    let earlier := ((parent.subtrees.take i).filter fun c => c.1 = f).map Prod.snd
    let put := place parent.label f loop (r.visit ⟨some parent.label,f,earlier⟩ loop).result
    (r.visit ctx tree).kept = (r.visitBut i put p ctx tree).kept ∧
      (r.visit ctx tree).replaced = (r.visitBut i put p ctx tree).replaced := by
  induction p generalizing tree ctx with
  | nil =>
    obtain rfl := Option.some.inj hp
    obtain ⟨m,l,cs⟩ := tree
    simp only [Node.subtrees] at hi
    simp only [Rule.visit, hr, visitBut, Node.label, Node.subtrees]
    rw [visitAll_beside hi hloop]
    exact ⟨rfl,rfl⟩
  | cons j p ih =>
    obtain ⟨m,l,cs⟩ := tree
    obtain ⟨⟨g,n⟩,hj,hp⟩ := Option.bind_eq_some_iff.mp hp
    simp only [Node.subtrees] at hj
    have hinner : n.EmptyHoles := by
      intro q a ha
      refine hholes (j :: q) a ?_
      rw [Node.at?_cons, hj]
      exact ha
    have hn : n.isHole = false := by
      cases hhole : n.isHole with
      | false => rfl
      | true =>
        have hnone := hinner [] n rfl hhole
        cases p with
        | nil =>
          obtain rfl := Option.some.inj hp
          simp [hnone] at hi
        | cons k p =>
          obtain ⟨m',l',cs'⟩ := n
          obtain rfl : cs' = [] := hnone
          simp at hp
    have hresult := ih hinner hp ⟨some l,g,((cs.take j).filter fun c => c.1 = g).map Prod.snd⟩
    simp only at hresult
    simp only [Rule.visit, hr, visitBut, hj]
    rw [visitAll_beside hj hn, Visit.result, Visit.result, hresult.1, hresult.2]
    exact ⟨rfl,rfl⟩

end Rule

namespace Simplify
open Node

/-! ### What the pass leaves alone -/

private theorem finish_other {n : Node} (h : n.label ≠ .whileStatement) (ctx : Context) :
    flatteningRule.finish ctx n = .keep n := by
  obtain ⟨hkeep,-⟩ | ⟨_,hl,-⟩ := flatteningRule_cases ctx n
  · exact hkeep
  · exact absurd hl h

/-- A node that is no loop is left alone if its subtrees are. -/
private theorem leaves_node {m : Option Nat} {l : Label} {cs : List (Field × Node)}
    (hl : l ≠ .whileStatement) (hcs : (flatteningRule.visitAll l [] cs).1 = cs) (ctx : Context) :
    flatteningRule.Leaves ctx (.marked m l cs) := by
  have hvisit : flatteningRule.early (.marked m l cs) = none := rfl
  simp only [Rule.Leaves, Rule.visit, hvisit, hcs]
  rw [finish_other (n := .marked m l cs) hl]
  exact ⟨rfl,rfl⟩

/-- Trees without loops are left alone. -/
private theorem leaves_loopless {n : Node} (h : n.EveryLabel fun l => l ≠ .whileStatement)
    (ctx : Context) : flatteningRule.Leaves ctx n := by
  induction n using inductionOn generalizing ctx with
  | marked m l cs ih =>
    obtain ⟨hl,hcs⟩ := everyLabel_marked.mp h
    exact leaves_node hl (Rule.visitAll_leaves l [] fun c hc => ih c hc (hcs c hc)) ctx

/-- A program of given statements. -/
def script (body : List Node) : Node := .mk (.program "script") (body.map fun s => (.body, s))

/-- The statement `name;`. -/
def reads (name : String) : Node :=
  .mk (.expressionStatement none none) [(.expression, .identifier name)]

def declares (kind name : String) : Node :=
  .mk (.variableDeclaration kind)
    [(.declarations, .mk .variableDeclarator [(.id, .identifier name), (.init, .ofBool true)])]

/-- What a visit makes of statements in a row depends on the row only, not on the node it is of. -/
private theorem visitAll_row {l l' : Label} {f f' : Field} (hf : l.isRow f = true)
    (hf' : l'.isRow f' = true) (before before' : List (Field × Node)) (ss : List Node)
    (hbefore : (before.filter fun c => c.1 = f).map Prod.snd =
      (before'.filter fun c => c.1 = f').map Prod.snd) :
    (flatteningRule.visitAll l before (ss.map fun s => (f, s))).1.map Prod.snd =
      (flatteningRule.visitAll l' before' (ss.map fun s => (f', s))).1.map Prod.snd := by
  induction ss generalizing before before' with
  | nil => rfl
  | cons s ss ih =>
    have hnext := ih (before ++ [(f, s)]) (before' ++ [(f', s)])
      (by simp [List.filter_append, hbefore])
    have hvisit : flatteningRule.visit ⟨some l,f,(before.filter fun c => c.1 = f).map Prod.snd⟩ s =
        flatteningRule.visit ⟨some l',f',(before'.filter fun c => c.1 = f').map Prod.snd⟩ s := by
      obtain ⟨m,k,cs⟩ := s
      rw [hbefore]
      rfl
    rw [List.map_cons, List.map_cons, Rule.visitAll_cons, Rule.visitAll_cons, hvisit]
    simp only [List.map_append, hnext]
    congr 1
    split
    · rfl
    · generalize Visit.result _ = x
      match x with
      | .node n => rfl
      | .statements ns => simp [Rule.place, hf, hf', Function.comp_def]
      | .nothing => simp [Rule.place, hf, hf']

private theorem eq_filed {f : Field} {cs : List (Field × Node)} (h : ∀ c ∈ cs, c.1 = f) :
    cs = (cs.map Prod.snd).map fun n => (f, n) := by
  rw [List.map_map]
  refine (List.map_id cs).symm.trans (List.map_congr_left fun c hc => ?_)
  rw [Function.comp_apply, ← h c hc]
  rfl

private theorem field_visitAll {r : Rule} {l : Label} {f : Field} (before : List (Field × Node))
    (ss : List Node) : ∀ c ∈ (r.visitAll l before (ss.map fun s => (f, s))).1, c.1 = f := by
  induction ss generalizing before with
  | nil => simp [Rule.visitAll]
  | cons s ss ih =>
    rw [List.map_cons, Rule.visitAll_cons]
    refine List.forall_mem_append.mpr ⟨fun c hc => ?_,ih _⟩
    split at hc
    · obtain rfl := List.mem_singleton.mp hc
      rfl
    · exact Rule.field_place hc

/-- Statements that the pass leaves unchanged as a program stay unchanged in any row. -/
private theorem visitAll_unchanged {l : Label} {f : Field} (hf : l.isRow f = true) {ss : List Node}
    (hmarks : ∀ s ∈ ss, s.marks = []) (h : (flattening (script ss)).1 = script ss)
    {before : List (Field × Node)} (hbefore : before.filter (fun c => c.1 = f) = []) :
    (flatteningRule.visitAll l before (ss.map fun s => (f, s))).1 = ss.map fun s => (f, s) := by
  have hscript : (script ss).marks = [] := marks_eq_nil.mpr ⟨rfl,by simpa using hmarks⟩
  have honce := flattening_plain hscript
  rw [h, plain_of_marks hscript] at honce
  have hkept : (flatteningRule.runOnce (script ss)).1 = .mk (.program "script")
      (flatteningRule.visitAll (.program "script") [] (ss.map fun s => (.body, s))).1 :=
    flatteningRule_finish_kept _ _
  rw [hkept] at honce
  have hbody := congrArg Node.subtrees honce
  simp only [script, Node.subtrees] at hbody
  have hrow := visitAll_row hf (rfl : (Label.program "script").isRow .body = true) before [] ss
    (by rw [hbefore]; rfl)
  rw [← hbody] at hrow
  rw [eq_filed (field_visitAll before ss), hrow]
  simp [Function.comp_def]

/-! ### Flattened loops -/

/-- `'<labels>'.split('|')`, however the two strings are spelled. -/
def splitCall (raw raw' : Option Text) (labels : List Text) : Node :=
  .call (.mk (.memberExpression false)
      [(.object, .mk (.literal (.text (Text.join [124] labels)) raw) []), (.property, .identifier "split")])
    [.mk (.literal (.text [124]) raw') []]

/-- The declarators of a variable in a statement that declares variables. -/
def declarators (name : String) (s : Node) : List Node :=
  match s.label with
  | .variableDeclaration _ =>
    (s.row .declarations).filter fun d => (d.child? .id).bind identifierName? = some name
  | _ => []

/-- Where a loop takes its order from: it is written there, or in the last declarator that gives a
value to a variable among the statements before. -/
inductive Orders (earlier : List Node) (labels : List Text) : Node → Prop where
  | inline (raw raw' : Option Text) : Orders earlier labels (splitCall raw raw' labels)
  | declared (name : String) (raw raw' : Option Text) (d : Node)
      (last : (earlier.flatMap (declarators name)).getLast? = some d)
      (init : d.child? .init = some (splitCall raw raw' labels)) :
      Orders earlier labels (.identifier name)

/-- A group of statements, and the label of its case as it is spelled. -/
structure Step where
  label : Text
  raw : Option Text
  body : List Node

/-- The case of a group: its statements, then `continue`. -/
def Step.case (s : Step) : Node :=
  Dispatch.caseOf (some (.mk (.literal (.text s.label) s.raw) [])) (s.body ++ [Dispatch.resumes])

/-- The discriminant `order[counter++]`. -/
def discriminantOf (order : Node) (counter : String) : Node :=
  .mk (.memberExpression true) [(.object, order),
    (.property, .mk (.updateExpression "++" false) [(.argument, .identifier counter)])]

def flattenedSwitch (order : Node) (counter : String) (cases : List Node) : Node :=
  .mk .switchStatement
    ((.discriminant, discriminantOf order counter) :: cases.map fun c => (.cases, c))

/-- The body `{ switch (order[counter++]) { cases } break; }`. -/
def flattenedBody (order : Node) (counter : String) (cases : List Node) : Node :=
  .block [flattenedSwitch order counter cases, Dispatch.leaves]

/-- The loop `while (test) { switch (order[counter++]) { cases } break; }`. -/
def flattenedLoop (test order : Node) (counter : String) (cases : List Node) : Node :=
  .mk .whileStatement [(.test, test), (.body, flattenedBody order counter cases)]

/-- Groups that flattening can take apart: their labels differ and hold no bar, no statement of
theirs jumps, some group has a statement, and the pass leaves every group unchanged. -/
structure Flattenable (steps : List Step) : Prop where
  distinct : (steps.map Step.label).Nodup
  bare : ∀ s ∈ steps, 124 ∉ s.label
  some : ∃ s ∈ steps, s.body ≠ []
  jumpless : ∀ s ∈ steps, ∀ x ∈ s.body, isJump x = false
  unchanged : ∀ s ∈ steps, (flattening (script s.body)).1 = script s.body

theorem splitOrder_splitCall {labels : List Text} (hne : labels ≠ []) (h : ∀ t ∈ labels, 124 ∉ t)
    (raw raw' : Option Text) : splitOrder (splitCall raw raw' labels) = some labels := by
  simp only [splitOrder, splitCall, Node.call]
  simp [label, child?, subtrees, row, memberName?, staticKey?, stringValue?, identifierName?,
    Node.identifier, Text.splitAt_join hne h]

private theorem orderIn_eq (name : String) (found : Option (List Text)) (s : Node) :
    orderIn name found s =
      match (declarators name s).getLast? with
      | some d => (d.child? .init).bind splitOrder
      | none => found := by
  unfold orderIn declarators
  generalize s.label = l
  cases l
  case variableDeclaration kind =>
    simp only
    induction s.row .declarations using List.reverseRecOn with
    | nil => rfl
    | append_singleton ds d ih =>
      rw [List.foldl_append, List.foldl_cons, List.foldl_nil, ih, List.filter_append]
      by_cases hd : (d.child? .id).bind identifierName? = some name
      · simp [hd]
      · simp [hd]
  all_goals rfl

/-- The last declarator of a variable decides about its order. -/
theorem declaredOrder_eq (earlier : List Node) (name : String) :
    declaredOrder earlier name =
      (earlier.flatMap (declarators name)).getLast?.bind fun d => (d.child? .init).bind splitOrder := by
  induction earlier using List.reverseRecOn with
  | nil => rfl
  | append_singleton earlier s ih =>
    rw [declaredOrder, List.foldl_append, List.foldl_cons, List.foldl_nil, ← declaredOrder, ih,
      orderIn_eq, List.flatMap_append, List.flatMap_singleton, List.getLast?_append]
    cases (declarators name s).getLast? <;> rfl

theorem Orders.dispatchOrder {earlier : List Node} {labels : List Text} {order : Node}
    (h : Orders earlier labels order) (hne : labels ≠ []) (hbare : ∀ t ∈ labels, 124 ∉ t)
    (counter : String) :
    dispatchOrder earlier (discriminantOf order counter) = some labels := by
  have hsplit := splitOrder_splitCall hne hbare
  cases h with
  | inline raw raw' =>
    simp [Simplify.dispatchOrder, discriminantOf, label, child?, subtrees, isStateIncrement, identifierName?,
      Node.identifier, hsplit]
  | declared name raw raw' d last init =>
    have hnone : splitOrder (.identifier name) = none := rfl
    have hdeclared : declaredOrder earlier name = some labels := by
      rw [declaredOrder_eq, last, Option.bind_some, init, Option.bind_some, hsplit]
    simp [Simplify.dispatchOrder, discriminantOf, label, child?, subtrees, isStateIncrement, identifierName?,
      Node.identifier] at hnone hdeclared ⊢
    simp [hnone, hdeclared]

section Loop
variable {steps : List Step} {cases : List Node} (hsteps : Flattenable steps)
  (hcases : cases.Perm (steps.map Step.case))
include hsteps hcases

/-- The case of a label holds the group of this label. -/
private theorem caseBody_eq {s : Step} (hs : s ∈ steps) : caseBody cases s.label = s.body := by
  have hlabel (s : Step) : (s.case.child? .test).bind caseLabel = some s.label := rfl
  have hfilter : ((s.case.row .consequent).filter fun x => !isJump x) = s.body := by
    have hrow : s.case.row .consequent = s.body ++ [Dispatch.resumes] := by
      simp [Step.case, Dispatch.caseOf, row, subtrees, List.filter_map, Function.comp_def]
    have hbody : s.body.filter (fun x => !isJump x) = s.body :=
      List.filter_eq_self.mpr fun x hx => by simp [hsteps.jumpless s hs x hx]
    rw [hrow, List.filter_append, hbody]
    simp [isJump, Dispatch.resumes, label]
  unfold caseBody
  cases hfind : cases.reverse.find? fun c => ((c.child? .test).bind caseLabel) = some s.label with
  | none =>
    have hmem : s.case ∈ cases.reverse :=
      List.mem_reverse.mpr (hcases.mem_iff.mpr (List.mem_map_of_mem hs))
    have hnot := List.find?_eq_none.mp hfind _ hmem
    rw [hlabel] at hnot
    simp at hnot
  | some c =>
    have hmem := hcases.mem_iff.mp (List.mem_reverse.mp (List.mem_of_find?_eq_some hfind))
    obtain ⟨t,ht,rfl⟩ := List.mem_map.mp hmem
    have hsame := List.find?_some hfind
    rw [hlabel] at hsame
    obtain rfl : t = s :=
      List.inj_on_of_nodup_map hsteps.distinct ht hs (by simpa using hsame)
    exact hfilter

/-- From a flattened loop the groups come back, whatever its test has become. -/
private theorem unflatten?_flattened {earlier : List Node} {order : Node}
    (horder : Orders earlier (steps.map Step.label) order) (m : Option Nat) (counter : String)
    {test : List (Field × Node)} (htest : ∀ c ∈ test, c.1 = .test) :
    unflatten? earlier (.marked m .whileStatement
      (test ++ [(.body, flattenedBody order counter cases)])) = some (steps.flatMap Step.body) := by
  obtain ⟨first,hfirst,hbody⟩ := hsteps.some
  have hlabels : steps.map Step.label ≠ [] := by
    simpa using List.ne_nil_of_mem hfirst
  have hbare : ∀ t ∈ steps.map Step.label, 124 ∉ t := by simpa using hsteps.bare
  have hchild : (Node.marked m .whileStatement
      (test ++ [(.body, flattenedBody order counter cases)])).child? .body =
        some (flattenedBody order counter cases) := by
    have hnone : test.find? (fun c => c.1 = Field.body) = none := by
      refine List.find?_eq_none.mpr fun c hc => ?_
      simp [htest c hc]
    simp [child?, subtrees, List.find?_append, hnone]
  have hbodies : (steps.map Step.label).flatMap (caseBody cases) = steps.flatMap Step.body := by
    rw [List.flatMap_map]
    exact List.flatMap_congr fun s hs => caseBody_eq hsteps hcases hs
  have hsome : steps.flatMap Step.body ≠ [] := by
    intro hnil
    exact hbody (List.flatMap_eq_nil_iff.mp hnil first hfirst)
  have hdispatch := horder.dispatchOrder hlabels hbare counter
  have hblock : (flattenedBody order counter cases).label = .blockStatement := rfl
  have hfind : ((flattenedBody order counter cases).row .body).find? (fun s => s.label = .switchStatement) =
      some (flattenedSwitch order counter cases) := rfl
  have hdiscriminant : (flattenedSwitch order counter cases).child? .discriminant =
      some (discriminantOf order counter) := rfl
  have hrow : (flattenedSwitch order counter cases).row .cases = cases := by
    simp [flattenedSwitch, row, subtrees, List.filter_map, Function.comp_def]
  simp only [unflatten?, hchild, hblock, hfind, hdiscriminant, hrow, hdispatch, hbodies,
    Option.bind_eq_bind, Option.bind_some, ne_eq, not_true_eq_false, if_false]

/-- A case is left alone, since its group is. -/
private theorem leaves_case {c : Node} (hc : c ∈ cases) (hmarks : c.marks = []) (ctx : Context) :
    flatteningRule.Leaves ctx c := by
  obtain ⟨s,hs,rfl⟩ := List.mem_map.mp (hcases.mem_iff.mp hc)
  have hbody : ∀ x ∈ s.body, x.marks = [] := by
    intro x hx
    refine marks_of_mem_row (f := .consequent) hmarks (List.mem_map.mpr ⟨(.consequent, x),?_,rfl⟩)
    simp [Step.case, Dispatch.caseOf, subtrees, hx]
  refine leaves_node (by simp) ?_ ctx
  have hsubtrees : (some (Node.mk (.literal (.text s.label) s.raw) [])).toList.map (fun t => (Field.test, t)) ++
      (s.body ++ [Dispatch.resumes]).map (fun s => (Field.consequent, s)) =
        [(Field.test, .mk (.literal (.text s.label) s.raw) [])] ++
          (s.body.map (fun s => (Field.consequent, s)) ++ [(.consequent, Dispatch.resumes)]) := by
    simp
  rw [hsubtrees, Rule.visitAll_append, Rule.visitAll_append]
  simp only
  rw [visitAll_unchanged rfl hbody (hsteps.unchanged s hs) rfl]
  rfl

/-- A visit puts the groups in the place of a flattened loop, in their order. -/
theorem visit_flattenedLoop {ctx : Context} {test order : Node} {counter : String}
    (hmarks : (flattenedLoop test order counter cases).marks = [])
    (horder : Orders ctx.earlier (steps.map Step.label) order) :
    (flatteningRule.visit ctx (flattenedLoop test order counter cases)).replaced =
      some (.statements (steps.flatMap Step.body)) := by
  have horderLeft : order.EveryLabel fun l => l ≠ .whileStatement := by
    cases horder with
    | inline raw raw' => simp [splitCall, Node.call, Node.identifier]
    | declared name raw raw' d last init => simp [Node.identifier]
  have hdiscriminant : (discriminantOf order counter).EveryLabel fun l => l ≠ .whileStatement := by
    simp [discriminantOf, horderLeft, Node.identifier]
  have hcasesMarks : ∀ c ∈ cases, c.marks = [] := by
    have hall := (marks_eq_nil.mp hmarks).2
    simp only [flattenedBody, flattenedSwitch, Node.block, List.mem_cons, List.not_mem_nil, or_false,
      forall_eq_or_imp, forall_eq, marks_eq_nil, List.map_cons, List.map_nil, List.mem_map] at hall
    intro c hc
    exact hall.2.2.1.2.2 _ ⟨c,hc,rfl⟩
  have hswitch (ctx : Context) : flatteningRule.Leaves ctx (flattenedSwitch order counter cases) := by
    refine leaves_node (by simp) (Rule.visitAll_leaves _ _ ?_) ctx
    refine List.forall_mem_cons.mpr ⟨fun ctx => leaves_loopless hdiscriminant ctx,?_⟩
    simp only [List.mem_map]
    rintro _ ⟨c,hc,rfl⟩ ctx
    exact leaves_case hsteps hcases hc (hcasesMarks c hc) ctx
  have hbody (ctx : Context) : flatteningRule.Leaves ctx (flattenedBody order counter cases) := by
    refine leaves_node (by simp) (Rule.visitAll_leaves _ _ ?_) ctx
    simp only [List.map_cons, List.map_nil, List.mem_cons, List.not_mem_nil, or_false,
      forall_eq_or_imp, forall_eq]
    exact ⟨hswitch,fun ctx => leaves_loopless (by simp [Dispatch.leaves]) ctx⟩
  -- Only the test may have changed.
  obtain ⟨tested,htested,hfield⟩ : ∃ tested, (flatteningRule.visitAll .whileStatement []
      [(.test, test), (.body, flattenedBody order counter cases)]).1 =
        tested ++ [(.body, flattenedBody order counter cases)] ∧ ∀ c ∈ tested, c.1 = .test := by
    have hsplit := Rule.visitAll_append flatteningRule .whileStatement [] [(.test, test)]
      [(.body, flattenedBody order counter cases)]
    rw [List.singleton_append] at hsplit
    refine ⟨(flatteningRule.visitAll .whileStatement [] [(.test, test)]).1,?_,?_⟩
    · have hlast : (flatteningRule.visitAll .whileStatement ([] ++ [(.test, test)])
          [(.body, flattenedBody order counter cases)]).1 =
            [(.body, flattenedBody order counter cases)] :=
        Rule.visitAll_leaves _ _ (by simpa using hbody)
      rw [hsplit]
      simp only [hlast]
    · exact field_visitAll [] [test]
  have hunflatten := unflatten?_flattened hsteps hcases horder none counter hfield
  have hvisit : (flatteningRule.visit ctx (flattenedLoop test order counter cases)).replaced =
      (flatteningRule.finish ctx (.mk .whileStatement
        (tested ++ [(.body, flattenedBody order counter cases)]))).replaced := by
    rw [← htested]
    rfl
  rw [hvisit]
  simp only [flatteningRule, label, hunflatten]
  rfl

end Loop

/-- Two groups behind a declaration of their order, the second one empty, and a call after them. -/
def orderedGroups : List Step :=
  [⟨Text.ofString "b",none,[Dispatch.runs "first", Dispatch.runs "second"]⟩,⟨Text.ofString "a",none,[]⟩,
   ⟨Text.ofString "",none,[Dispatch.runs "third"]⟩]

/-- `var order = 'b|a|'.split('|');` -/
def orderDeclared : Node :=
  .mk (.variableDeclaration "var") [(.declarations, .mk .variableDeclarator
    [(.id, .identifier "order"), (.init, splitCall none none (orderedGroups.map Step.label))])]

/-- The groups of a program flattened, with the cases in another order. -/
def flattenedScript : Node :=
  script [orderDeclared,
    flattenedLoop (.ofBool true) (.identifier "order") "i" (orderedGroups.reverse.map Step.case),
    Dispatch.runs "last"]

end Simplify
end Unravel
