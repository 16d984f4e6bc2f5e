import Unravel.Proofs.Holes

/-! Rules that are done in one run. What such a rule makes of a node it leaves as it is from then on, so
that a second run over a tree finds nothing to change. -/

namespace Unravel

/-- What a replacement consists of. -/
def Replacement.nodes : Replacement → List Node
  | .node n => [n]
  | .statements ns => ns
  | .nothing => []

namespace Node

theorem plain_update (n : Node) (l : Label) :
    (n.update l n.subtrees).plain = n.plain.update l n.plain.subtrees := by
  obtain ⟨m,k,cs⟩ := n
  simp only [update, plain_marked]
  rfl

/-- What a rule makes of a node that it keeps: the node with another label, or with new subtrees beside
old ones. -/
structure Reshaped (n kept : Node) : Prop where
  mark : kept.mark? = n.mark?
  subtrees : ∀ c ∈ kept.subtrees, c ∈ n.subtrees ∨ c.2.marks = []
  same : kept.plain = n.plain → kept = n

theorem reshaped_update (n : Node) (l : Label) : n.Reshaped (n.update l n.subtrees) where
  mark := rfl
  subtrees _ := .inl
  same h := by
    have hlabel := congrArg Node.label h
    rw [label_plain, label_plain] at hlabel
    obtain rfl : l = n.label := hlabel
    exact n.update_self

theorem reshaped_self (n : Node) : n.Reshaped n := by
  have h := n.reshaped_update n.label
  rwa [update_self] at h

end Node

theorem Visit.plain_replace (n : Node) {c : Node} (hc : c.marks = []) :
    (Visit.replace n (.node c)).plain = .replace n.plain (.node c) := by
  simp only [Visit.replace, Visit.plain, Option.map_some, Replacement.plain, Node.plain_of_marks hc]

namespace Rule
variable {r : Rule}

/-- A rule leaves a node as it is, whatever it counts there. -/
structure LeavesBe (r : Rule) (n : Node) : Prop where
  early : r.early n = none
  kept : ∀ ctx, (r.finish ctx n).kept = n
  replaced : ∀ ctx, (r.finish ctx n).replaced = none

/-- A rule leaves every node of a tree as it is. -/
def Rests (r : Rule) (n : Node) : Prop := ∀ q a, n.at? q = some a → r.LeavesBe a

theorem rests_marked {m : Option Nat} {l : Label} {cs : List (Field × Node)} :
    r.Rests (.marked m l cs) ↔ r.LeavesBe (.marked m l cs) ∧ ∀ c ∈ cs, r.Rests c.2 := by
  constructor
  · intro h
    refine ⟨h [] _ rfl,fun c hc q a ha => ?_⟩
    obtain ⟨i,hi⟩ := List.mem_iff_getElem?.mp hc
    apply h (i :: q) a
    rw [Node.at?_cons, hi]
    exact ha
  · rintro ⟨htop,hcs⟩ q a ha
    cases q with
    | nil =>
      obtain rfl := Option.some.inj ha
      exact htop
    | cons i q =>
      obtain ⟨c,hc,ha⟩ := Option.bind_eq_some_iff.mp ha
      exact hcs c (List.mem_of_getElem? hc) q a ha

theorem rests_leaf {l : Label} (h : r.LeavesBe (.mk l [])) : r.Rests (.mk l []) :=
  rests_marked.mpr ⟨h,by simp⟩

theorem Rests.subtree {n : Node} (h : r.Rests n) {c : Field × Node} (hc : c ∈ n.subtrees) :
    r.Rests c.2 := by
  obtain ⟨m,l,cs⟩ := n
  exact (rests_marked.mp h).2 c hc

theorem Rests.at? {n a : Node} {q : Path} (h : r.Rests n) (ha : n.at? q = some a) : r.Rests a := by
  intro p b hb
  apply h (q ++ p) b
  rw [Node.at?_append, ha, Option.bind_some, hb]

/-- What a rule makes of a node whose subtrees it leaves as they are: it leaves the node as it is from
then on, or puts something in its place that it leaves as it is, from inside the node or new. -/
inductive Settling (r : Rule) (n : Node) : Visit → Prop
  | stays (l : Label) (cs : List (Field × Node)) (k : Nat) (h : r.LeavesBe (n.update l cs))
    (hcs : ∀ c ∈ cs, c ∈ n.subtrees ∨ r.Rests c.2) : Settling r n ⟨n.update l cs,none,k⟩
  | yields (rep : Replacement) (k : Nat)
    (h : ∀ d ∈ rep.nodes, r.Rests d ∧ (d.marks = [] ∨ ∃ c ∈ n.subtrees, ∃ q, c.2.at? q = some d)) :
    Settling r n ⟨n,some rep,k⟩

theorem leavesBe_of_keep {n : Node} (hearly : r.early n = none)
    (h : ∀ ctx, r.finish ctx n = .keep n) : r.LeavesBe n :=
  ⟨hearly,fun ctx => by rw [h ctx]; rfl,fun ctx => by rw [h ctx]; rfl⟩

theorem Settling.keep {n : Node} (h : r.LeavesBe n) : r.Settling n (.keep n) := by
  have hstays := Settling.stays (r := r) (n := n) n.label n.subtrees 0
  rw [Node.update_self] at hstays
  exact hstays h fun _ => .inl

/-- A rule that does not look at marks, nor at where a node stands, and that leaves as it is what it
has made. -/
structure Settles (r : Rule) : Prop where
  context : ∀ ctx n, r.finish ctx n = r.finish top n
  plain_early : ∀ n, r.early n.plain = (r.early n).map Visit.plain
  plain_finish : ∀ n, r.finish top n.plain = (r.finish top n).plain
  reshapes : ∀ n : Node, n.Reshaped (r.finish top n).kept
  early : ∀ n v, r.early n = some v →
    v.kept = n ∧ ∃ c, v.replaced = some (.node c) ∧ c.marks = [] ∧ r.Rests c
  late : ∀ n, (∀ c ∈ n.subtrees, r.Rests c.2) → r.early n = none
  finish : ∀ n, (∀ c ∈ n.subtrees, r.Rests c.2) → r.Settling n (r.finish top n)
  framed : ∀ n, n.label = .blockStatement ∨ n.label = .emptyStatement ∨ n.label = .hole → r.LeavesBe n

/-! ### Visits of what is left alone -/

mutual
/-- What a rule counts in a tree that it leaves as it is. -/
def idle (r : Rule) : Node → Nat
  | .marked m l cs => r.idleAll cs + (r.finish top (.marked m l cs)).count
def idleAll (r : Rule) : List (Field × Node) → Nat
  | [] => 0
  | (_, n) :: rest => (if n.isHole then 0 else r.idle n) + r.idleAll rest
end

theorem idle_marked (m : Option Nat) (l : Label) (cs : List (Field × Node)) :
    r.idle (.marked m l cs) = r.idleAll cs + (r.finish top (.marked m l cs)).count := by rw [idle]

theorem idleAll_cons (f : Field) (n : Node) (rest : List (Field × Node)) :
    r.idleAll ((f, n) :: rest) = (if n.isHole then 0 else r.idle n) + r.idleAll rest := by rw [idleAll]

/-- A rule that counts nothing where it leaves a node as it is counts nothing in a whole tree. -/
theorem idle_eq_zero {n : Node} (h : ∀ q a, n.at? q = some a → (r.finish top a).count = 0) :
    r.idle n = 0 := by
  induction n using Node.inductionOn with
  | marked m l cs ih =>
    have hall : r.idleAll cs = 0 := by
      have hcs : ∀ c ∈ cs, ∀ q a, c.2.at? q = some a → (r.finish top a).count = 0 := by
        intro c hc q a ha
        obtain ⟨i,hi⟩ := List.mem_iff_getElem?.mp hc
        apply h (i :: q) a
        rw [Node.at?_cons, hi]
        exact ha
      clear h
      induction cs with
      | nil => rfl
      | cons c cs ihs =>
        obtain ⟨hc,hcs⟩ := List.forall_mem_cons.mp hcs
        obtain ⟨ihc,ih⟩ := List.forall_mem_cons.mp ih
        rw [idleAll_cons, ihc hc, ihs ih hcs, ite_self]
    rw [idle_marked, hall, h [] _ rfl]

/-- After a visit the rule leaves as it is what stands in the place of the node. If the visit looked
into the node then it leaves the subtrees as they are, and would finish the node the same way again. -/
structure Settled (r : Rule) (n : Node) (v : Visit) : Prop where
  result : ∀ d ∈ v.result.nodes, r.Rests d
  inside : r.early n = none → ∀ c ∈ v.kept.subtrees, r.Rests c.2
  again : r.early n = none →
    (r.finish top v.kept).kept = v.kept ∧ (r.finish top v.kept).replaced = v.replaced

/-- What is true of the nodes of a replacement is true of what is fitted into the slot, if it carries
over to a block and is true of the empty statement. -/
theorem forall_mem_place {P : Node → Prop} (hblock : ∀ ns, (∀ n ∈ ns, P n) → P (.block ns))
    (hempty : P .empty) {l : Label} {f : Field} {old : Node} {rep : Replacement}
    (h : ∀ d ∈ rep.nodes, P d) : ∀ c ∈ place l f old rep, P c.2 := by
  cases rep with
  | node n =>
    simp only [place, List.mem_singleton, forall_eq]
    exact h n (List.mem_singleton_self n)
  | statements ns =>
    simp only [place]
    split
    · exact List.forall_mem_map.mpr h
    · simp only [List.mem_singleton, forall_eq]
      exact hblock ns h
  | nothing =>
    simp only [place]
    split
    · simp
    · split
      · simp only [List.mem_singleton, forall_eq]
        exact hempty
      · simp

namespace Settles
variable (hr : r.Settles)
include hr

/-- A visit leaves as it is what the rule leaves as it is. -/
theorem visit_rests {n : Node} (h : r.Rests n) (ctx : Context) : r.visit ctx n = ⟨n,none,r.idle n⟩ := by
  induction n using Node.inductionOn generalizing ctx with
  | marked m l cs ih =>
    obtain ⟨htop,hcs⟩ := rests_marked.mp h
    have hall (before : List (Field × Node)) : r.visitAll l before cs = (cs, r.idleAll cs) := by
      clear h htop
      induction cs generalizing before with
      | nil => rfl
      | cons c cs ihs =>
        obtain ⟨f,n⟩ := c
        obtain ⟨hc,hcs⟩ := List.forall_mem_cons.mp hcs
        obtain ⟨ihc,ih⟩ := List.forall_mem_cons.mp ih
        rw [visitAll_cons, ihs ih hcs, ihc hc, idleAll_cons]
        split <;> rfl
    have hkept := htop.kept ctx
    have hnone := htop.replaced ctx
    rw [hr.context] at hkept hnone
    rw [Rule.visit, htop.early]
    simp only [hall, hr.context ctx, hkept, hnone, idle_marked]

/-! ### Marks -/

/-- A node that the rule leaves as it is but for marks is left as it is. -/
theorem kept_eq_self {n : Node} (h : (r.finish top n).kept.plain = n.plain) :
    (r.finish top n).kept = n := (hr.reshapes n).same h

theorem leavesBe_plain {n : Node} : r.LeavesBe n.plain ↔ r.LeavesBe n := by
  have hfinish := hr.plain_finish n
  have hearly := hr.plain_early n
  constructor
  · intro h
    have hkept := h.kept top
    have hnone := h.replaced top
    rw [hfinish, Visit.plain] at hkept hnone
    refine ⟨?_,fun ctx => ?_,fun ctx => ?_⟩
    · rwa [h.early, eq_comm, Option.map_eq_none_iff] at hearly
    · rw [hr.context]
      exact hr.kept_eq_self hkept
    · rw [hr.context]
      exact Option.map_eq_none_iff.mp hnone
  · intro h
    refine ⟨?_,fun ctx => ?_,fun ctx => ?_⟩
    · rw [hearly, h.early, Option.map_none]
    · rw [hr.context, hfinish, Visit.plain, h.kept]
    · rw [hr.context, hfinish, Visit.plain, h.replaced, Option.map_none]

theorem rests_plain {n : Node} : r.Rests n.plain ↔ r.Rests n := by
  induction n using Node.inductionOn with
  | marked m l cs ih =>
    rw [rests_marked, ← hr.leavesBe_plain, Node.plain_marked, rests_marked, List.forall_mem_map]
    exact and_congr_right fun _ => forall₂_congr ih

/-- Where a node stands makes no difference to a visit. -/
theorem visit_context (n : Node) (ctx ctx' : Context) : r.visit ctx n = r.visit ctx' n := by
  obtain ⟨m,l,cs⟩ := n
  simp only [Rule.visit, hr.context ctx, hr.context ctx']

theorem visitAll_before (l : Label) (before before' : List (Field × Node)) (cs : List (Field × Node)) :
    r.visitAll l before cs = r.visitAll l before' cs := by
  induction cs generalizing before before' with
  | nil => rfl
  | cons c cs ih =>
    obtain ⟨f,n⟩ := c
    have hn := hr.visit_context n ⟨some l,f,(before.filter fun c => c.1 = f).map Prod.snd⟩
      ⟨some l,f,(before'.filter fun c => c.1 = f).map Prod.snd⟩
    rw [visitAll_cons, visitAll_cons, hn, ih (before ++ [(f, n)]) (before' ++ [(f, n)])]

/-- A visit of a node without marks comes to the visit of the node, without marks. -/
theorem visit_plain (n : Node) (ctx : Context) : r.visit ctx n.plain = (r.visit ctx n).plain := by
  induction n using Node.inductionOn generalizing ctx with
  | marked m l cs ih =>
    have hall : r.visitAll l [] (cs.map fun c => (c.1, c.2.plain)) =
        ((r.visitAll l [] cs).1.map fun c => (c.1, c.2.plain), (r.visitAll l [] cs).2) := by
      induction cs with
      | nil => rfl
      | cons c cs ihs =>
        obtain ⟨f,n⟩ := c
        obtain ⟨ihn,ih⟩ := List.forall_mem_cons.mp ih
        simp only [List.map_cons, visitAll_cons, Node.isHole_plain, hr.visitAll_before l _ [], ihs ih,
          List.filter_nil, List.map_nil, List.map_append, ihn, ← place_plain]
        split <;> rfl
    have hearly := hr.plain_early (.marked m l cs)
    rw [Node.plain_marked] at hearly ⊢
    rw [Rule.visit, Rule.visit, hearly]
    cases r.early (.marked m l cs) with
    | some v => rfl
    | none =>
      have hfinish := hr.plain_finish (.marked m l (r.visitAll l [] cs).1)
      rw [Node.plain_marked] at hfinish
      simp only [Option.map_none, hall, hr.context ctx, hfinish]
      rfl

/-- Marks do not matter to what a rule counts. -/
theorem idle_plain (n : Node) : r.idle n.plain = r.idle n := by
  induction n using Node.inductionOn with
  | marked m l cs ih =>
    have hall : r.idleAll (cs.map fun c => (c.1, c.2.plain)) = r.idleAll cs := by
      induction cs with
      | nil => rfl
      | cons c cs ihs =>
        obtain ⟨f,n⟩ := c
        obtain ⟨ihn,ih⟩ := List.forall_mem_cons.mp ih
        rw [List.map_cons, idleAll_cons, idleAll_cons, Node.isHole_plain, ihn, ihs ih]
    have hfinish := hr.plain_finish (.marked m l cs)
    rw [Node.plain_marked, Node.mk] at hfinish
    rw [Node.plain_marked, Node.mk, idle_marked, idle_marked, hall, hfinish]
    rfl

/-! ### Visits -/

theorem place_rests {l : Label} {f : Field} {old : Node} {rep : Replacement}
    (h : ∀ d ∈ rep.nodes, r.Rests d) : ∀ c ∈ place l f old rep, r.Rests c.2 := by
  refine forall_mem_place (fun ns hns => ?_) ?_ h
  · exact rests_marked.mpr ⟨hr.framed _ (.inl rfl),List.forall_mem_map.mpr hns⟩
  · exact rests_marked.mpr ⟨hr.framed _ (.inr (.inl rfl)),by simp⟩

/-- Nodes left as they are, and nodes that a visit left behind, fit into a slot as what the rule leaves
as it is. -/
theorem visitAll_rests {l : Label} {cs : List (Field × Node)} (hcs : ∀ c ∈ cs, c.2.EmptyHoles)
    (h : ∀ c ∈ cs, ∀ ctx, ∀ d ∈ (r.visit ctx c.2).result.nodes, r.Rests d)
    (before : List (Field × Node)) : ∀ c ∈ (r.visitAll l before cs).1, r.Rests c.2 := by
  induction cs generalizing before with
  | nil => simp [visitAll]
  | cons c cs ih =>
    obtain ⟨f,n⟩ := c
    obtain ⟨hn,hcs⟩ := List.forall_mem_cons.mp hcs
    obtain ⟨hvisit,h⟩ := List.forall_mem_cons.mp h
    rw [visitAll_cons]
    refine List.forall_mem_append.mpr ⟨?_,ih hcs h _⟩
    split
    · rename_i hhole
      have hnone := hn [] n rfl hhole
      obtain ⟨m,l',cs'⟩ := n
      obtain rfl : cs' = [] := hnone
      simp only [List.mem_singleton, forall_eq]
      exact rests_marked.mpr ⟨hr.framed _ (.inr (.inr (of_decide_eq_true hhole))),by simp⟩
    · exact hr.place_rests (hvisit _)

theorem visit_settled (n : Node) (hn : n.EmptyHoles) (ctx : Context) : r.Settled n (r.visit ctx n) := by
  induction n using Node.inductionOn generalizing ctx with
  | marked m l cs ih =>
    cases hearly : r.early (.marked m l cs) with
    | some v =>
      obtain ⟨-,c,hc,-,hrests⟩ := hr.early _ v hearly
      rw [Rule.visit, hearly]
      refine ⟨?_,by simp [hearly],by simp [hearly]⟩
      simp only [Visit.result, hc, Option.getD_some, Replacement.nodes, List.mem_singleton, forall_eq]
      exact hrests
    | none =>
      have hcs : ∀ c ∈ cs, c.2.EmptyHoles := fun c hc => hn.subtree hc
      have hdone := hr.visitAll_rests (l := l) hcs (fun c hc ctx => (ih c hc (hcs c hc) ctx).result) []
      rw [Rule.visit, hearly]
      simp only [hr.context ctx]
      generalize (r.visitAll l [] cs).1 = done at hdone
      have hfinish := hr.finish (.marked m l done) hdone
      generalize hv : r.finish top (.marked m l done) = v at hfinish
      cases hfinish with
      | stays l' cs' k h hcs' =>
        replace hdone : ∀ c ∈ cs', r.Rests c.2 := fun c hc => (hcs' c hc).elim (hdone c) id
        have hrests : r.Rests (.marked m l' cs') := rests_marked.mpr ⟨h,hdone⟩
        refine ⟨?_,fun _ => hdone,fun _ => ⟨h.kept top,h.replaced top⟩⟩
        simp only [Visit.result, Option.getD_none, Replacement.nodes, List.mem_singleton, forall_eq]
        exact hrests
      | yields rep k h =>
        refine ⟨fun d hd => (h d hd).1,fun _ => hdone,fun _ => ?_⟩
        simp only [hv, true_and]

/-- Where the rule leaves the root in its place, a run comes to a tree that the rule leaves as it is. -/
theorem runOnce_rests {tree : Node} (hn : tree.EmptyHoles)
    (hroot : (r.visit top tree).replaced = none) : r.Rests (r.runOnce tree).1 := by
  apply (hr.visit_settled tree hn top).result
  rw [Visit.result, hroot]
  exact List.mem_singleton_self _

end Settles
end Rule
end Unravel
