import Unravel.Proofs.Scope.Releases
import Unravel.Proofs.Settling.Shared

/-! Rules that put nodes from inside a node in its place. Whatever stands in a tree after a run is a new
block or a new empty statement, or a node that was visited and left in its place where it stood. -/

namespace Unravel

namespace Node

/-- Where the visit of a tree comes to a place, as it is told the visitor there. -/
def contextAt (ctx : Context) (n : Node) : Path → Context
  | [] => ctx
  | i :: q =>
    match n.subtrees[i]? with
    | none => ctx
    | some (f, c) =>
      c.contextAt ⟨some n.label, f, ((n.subtrees.take i).filter fun b => b.1 = f).map Prod.snd⟩ q

@[simp]
theorem contextAt_nil (ctx : Context) (n : Node) : n.contextAt ctx [] = ctx := rfl

theorem contextAt_cons (ctx : Context) {m : Option Nat} {l : Label} {cs : List (Field × Node)} {i : Nat}
    {f : Field} {c : Node} (hc : cs[i]? = some (f, c)) (q : Path) :
    (marked m l cs).contextAt ctx (i :: q) =
      c.contextAt ⟨some l,f,((cs.take i).filter fun b => b.1 = f).map Prod.snd⟩ q := by
  rw [contextAt]
  simp only [subtrees, hc]
  rfl

theorem contextAt_plain (ctx : Context) (n : Node) (q : Path) :
    n.plain.contextAt ctx.plain q = (n.contextAt ctx q).plain := by
  induction q generalizing n ctx with
  | nil => rfl
  | cons i q ih =>
    obtain ⟨m,l,cs⟩ := n
    rw [plain_marked, contextAt, contextAt]
    simp only [label, subtrees, List.getElem?_map]
    cases cs[i]? with
    | none => rfl
    | some c =>
      simp only [Option.map_some, ← List.map_take, filter_plain]
      exact ih ⟨some l,c.1,((cs.take i).filter fun b => b.1 = c.1).map Prod.snd⟩ c.2

/-- Every node of a tree is one of another tree, of which a property holds with the place it had there,
or is a new block or a new empty statement. -/
def StemsFrom (P : Path → Node → Prop) (d n : Node) : Prop := ∀ q a, d.at? q = some a →
  (∃ p b, n.at? p = some b ∧ b.mark? = a.mark? ∧ b.label = a.label ∧ P p a) ∨
    a.mark? = none ∧ (a.label = .blockStatement ∨ a.label = .emptyStatement)

variable {P : Path → Node → Prop}

theorem StemsFrom.at? {d n a : Node} {p : Path} (h : d.StemsFrom P n) (ha : d.at? p = some a) :
    a.StemsFrom P n := by
  intro q b hb
  apply h (p ++ q) b
  rw [at?_append, ha, Option.bind_some, hb]

theorem StemsFrom.of_subtree {d : Node} {m : Option Nat} {l : Label} {cs : List (Field × Node)} {i : Nat}
    {c : Field × Node} (hc : cs[i]? = some c) (h : d.StemsFrom (fun p a => P (i :: p) a) c.2) :
    d.StemsFrom P (marked m l cs) := by
  intro q a ha
  refine (h q a ha).imp_left fun ⟨p,b,hb,hsame⟩ => ⟨i :: p,b,?_,hsame⟩
  rw [at?_cons, hc]
  exact hb

/-- A node stems from a tree if it is one of the tree, or new, and its subtrees stem from the tree. -/
theorem stemsFrom_marked {m : Option Nat} {l : Label} {cs : List (Field × Node)} {n : Node}
    (htop : (∃ p b, n.at? p = some b ∧ b.mark? = m ∧ b.label = l ∧ P p (.marked m l cs)) ∨
      m = none ∧ (l = .blockStatement ∨ l = .emptyStatement))
    (hcs : ∀ c ∈ cs, c.2.StemsFrom P n) : (marked m l cs).StemsFrom P n := by
  intro q a ha
  cases q with
  | nil =>
    obtain rfl := Option.some.inj ha
    exact htop
  | cons i q =>
    obtain ⟨c,hc,ha⟩ := Option.bind_eq_some_iff.mp ha
    exact hcs c (List.mem_of_getElem? hc) q a ha

end Node

namespace Rule
variable {r : Rule}

/-- A rule that leaves a node as it is or puts nodes from inside it in its place. It leaves alone what
arrays leave empty. -/
structure Lifts (r : Rule) : Prop where
  early : ∀ n, r.early n = none
  kept : ∀ ctx n, (r.finish ctx n).kept = n
  inside : ∀ ctx n rep, (r.finish ctx n).replaced = some rep →
    ∀ d ∈ rep.nodes, ∃ c ∈ n.subtrees, ∃ q, c.2.at? q = some d
  holes : ∀ ctx n, n.isHole = true → (r.finish ctx n).replaced = none

/-- In a given place a rule leaves a node where it is. -/
def StaysAt (r : Rule) (ctx : Context) (n : Node) (p : Path) (a : Node) : Prop :=
  (r.finish (n.contextAt ctx p) a).replaced = none

namespace Lifts
variable (hr : r.Lifts)

section
include hr

private theorem visitAll_stemsFrom {l : Label} {cs : List (Field × Node)}
    (hcs : ∀ c ∈ cs, c.2.EmptyHoles)
    (h : ∀ c ∈ cs, ∀ ctx, ∀ d ∈ (r.visit ctx c.2).result.nodes, d.StemsFrom (r.StaysAt ctx c.2) c.2)
    (before : List (Field × Node)) :
    ∀ d ∈ (r.visitAll l before cs).1, ∃ i f c, cs[i]? = some (f, c) ∧
      d.2.StemsFrom (r.StaysAt
        ⟨some l,f,((before ++ cs.take i).filter fun b => b.1 = f).map Prod.snd⟩ c) c := by
  induction cs generalizing before with
  | nil => simp [visitAll]
  | cons c cs ih =>
    obtain ⟨f,n⟩ := c
    obtain ⟨hn,hcs⟩ := List.forall_mem_cons.mp hcs
    obtain ⟨hvisit,h⟩ := List.forall_mem_cons.mp h
    rw [visitAll_cons]
    refine List.forall_mem_append.mpr ⟨fun d hd => ⟨0,f,n,rfl,?_⟩,fun d hd => ?_⟩
    · simp only [List.take_zero, List.append_nil]
      split at hd
      · rename_i hhole
        obtain rfl := List.mem_singleton.mp hd
        have hempty := hn [] n rfl hhole
        have hstays := hr.holes ⟨some l,f,(before.filter fun b => b.1 = f).map Prod.snd⟩ n hhole
        obtain ⟨m,l',cs'⟩ := n
        obtain rfl : cs' = [] := hempty
        exact Node.stemsFrom_marked (.inl ⟨[],_,rfl,rfl,rfl,hstays⟩) (by simp)
      · refine forall_mem_place (P := fun d => d.StemsFrom _ n) (fun ns hns => ?_) ?_ (hvisit _) d hd
        · exact Node.stemsFrom_marked (.inr ⟨rfl,.inl rfl⟩) (List.forall_mem_map.mpr hns)
        · exact Node.stemsFrom_marked (.inr ⟨rfl,.inr rfl⟩) (by simp)
    · obtain ⟨i,g,c,hc,hstems⟩ := ih hcs h _ d hd
      refine ⟨i + 1,g,c,hc,?_⟩
      rwa [List.take_succ_cons, List.append_cons]

/-- What a visit leaves are nodes that were visited and left where they stood, new blocks and new empty
statements. -/
theorem visit_stemsFrom {n : Node} (hn : n.EmptyHoles) (ctx : Context) :
    (∀ c ∈ (r.visit ctx n).kept.subtrees, c.2.StemsFrom (r.StaysAt ctx n) n) ∧
      ∀ d ∈ (r.visit ctx n).result.nodes, d.StemsFrom (r.StaysAt ctx n) n := by
  induction n using Node.inductionOn generalizing ctx with
  | marked m l cs ih =>
    have hcs : ∀ c ∈ cs, c.2.EmptyHoles := fun c hc => hn.subtree hc
    have hall := hr.visitAll_stemsFrom (l := l) hcs
      (fun c hc ctx => (ih c hc (hcs c hc) ctx).2) []
    have hdone : ∀ d ∈ (r.visitAll l [] cs).1,
        d.2.StemsFrom (r.StaysAt ctx (.marked m l cs)) (.marked m l cs) := by
      intro d hd
      obtain ⟨i,f,c,hc,hstems⟩ := hall d hd
      refine Node.StemsFrom.of_subtree hc fun q a ha => ?_
      refine (hstems q a ha).imp_left fun ⟨p,b,hb,hmark,hlabel,hstays⟩ => ⟨p,b,hb,hmark,hlabel,?_⟩
      change (r.finish ((Node.marked m l cs).contextAt ctx (i :: p)) a).replaced = none
      rw [Node.contextAt_cons ctx hc]
      exact hstays
    have hinside := hr.inside ctx (.marked m l (r.visitAll l [] cs).1)
    have hkept := hr.kept ctx (.marked m l (r.visitAll l [] cs).1)
    rw [Rule.visit, hr.early]
    simp only [hkept, Visit.result]
    refine ⟨hdone,?_⟩
    cases hrep : (r.finish ctx (.marked m l (r.visitAll l [] cs).1)).replaced with
    | none =>
      simp only [Option.getD_none, Replacement.nodes, List.mem_singleton, forall_eq]
      exact Node.stemsFrom_marked (.inl ⟨[],_,rfl,rfl,rfl,hrep⟩) hdone
    | some rep =>
      intro d hd
      obtain ⟨c,hc,q,hq⟩ := hinside rep hrep d hd
      exact (hdone c hc).at? hq

/-- What is there after a run was there before, and the rule left it in its place where it stood; or it is
a new block or a new empty statement. -/
theorem carries_or_new (hi : r.IgnoresMarks) {tree : Node} (hm : tree.marks = [])
    (hholes : tree.EmptyHoles) (hkeeps : (r.visit top tree).replaced = none) {q' : Path} {a' : Node}
    (ha' : (r.runOnce tree).1.at? q' = some a') :
    (∃ q a, r.Carries tree q q' ∧ tree.at? q = some a ∧ a.label = a'.label ∧ r.StaysAt top tree q a') ∨
      a'.label = .blockStatement ∨ a'.label = .emptyStatement := by
  have hplain : (tree.number 0).1.plain = tree := by
    rw [Node.plain_number, Node.plain_of_marks hm]
  have hnone : (r.visit top (tree.number 0).1).replaced = none := by
    have hsame := ((follows_plain hi).visit Node.plain_remarks top (tree.number 0).1).replaced
    rw [hplain] at hsame
    change (r.visit top tree).replaced.isSome = _ at hsame
    rw [hkeeps] at hsame
    exact Option.not_isSome_iff_eq_none.mp (by simp [← hsame])
  have hnumbered : (tree.number 0).1.EmptyHoles := by
    rwa [← Node.emptyHoles_plain, hplain]
  have hstems := (hr.visit_stemsFrom hnumbered top).2
  rw [Visit.result, hnone] at hstems
  have hstems := hstems _ (List.mem_singleton_self _)
  rw [← runOnce_number hi (Node.hasMarks_eq_false.mpr hm), Node.at?_plain] at ha'
  obtain ⟨b',hb',rfl⟩ := Option.map_eq_some_iff.mp ha'
  rcases hstems q' b' hb' with ⟨q,b,hb,hmark,hlabel,hstays⟩ | ⟨-,hnew⟩
  · have hplace : tree.at? q = some b.plain := by
      rw [← hplain, Node.at?_plain, hb]
      rfl
    refine .inl ⟨q,b.plain,?_,hplace,by rw [Node.label_plain, Node.label_plain, hlabel],?_⟩
    · obtain ⟨k,hk⟩ := Option.isSome_iff_exists.mp (Node.number_allMarked tree 0 q b hb)
      refine ⟨k,?_,Option.bind_eq_some_iff.mpr ⟨b',hb',hmark.symm.trans hk⟩⟩
      rw [Node.markAt, hb, Option.bind_some, hk]
    · have hcontext := Node.contextAt_plain top (tree.number 0).1 q
      rw [hplain] at hcontext
      change tree.contextAt top q = _ at hcontext
      rw [StaysAt, hcontext, hi.plain, Visit.plain, hstays, Option.map_none]
  · rw [Node.label_plain]
    exact .inr hnew

/-- What arrays leave empty stays empty. -/
theorem visit_emptyHoles {n : Node} (hn : n.EmptyHoles) (ctx : Context) :
    (r.visit ctx n).kept.EmptyHoles ∧ ∀ d ∈ (r.visit ctx n).result.nodes, d.EmptyHoles := by
  induction n using Node.inductionOn generalizing ctx with
  | marked m l cs ih =>
    obtain ⟨htop,hcs⟩ := Node.emptyHoles_marked.mp hn
    have hall (before : List (Field × Node)) :
        ∀ d ∈ (r.visitAll l before cs).1, d.2.EmptyHoles := by
      clear htop hn
      induction cs generalizing before with
      | nil => simp [visitAll]
      | cons c cs ihs =>
        obtain ⟨f,n⟩ := c
        obtain ⟨ihn,ih⟩ := List.forall_mem_cons.mp ih
        obtain ⟨hn,hcs⟩ := List.forall_mem_cons.mp hcs
        rw [visitAll_cons]
        refine List.forall_mem_append.mpr ⟨?_,ihs ih hcs _⟩
        split
        · simpa using hn
        · refine forall_mem_place (fun ns hns => ?_) ?_ (ihn hn _).2
          · exact Node.emptyHoles_marked.mpr ⟨by simp,List.forall_mem_map.mpr hns⟩
          · exact Node.emptyHoles_marked.mpr ⟨by simp,by simp⟩
    have hdone : (Node.marked m l (r.visitAll l [] cs).1).EmptyHoles := by
      refine Node.emptyHoles_marked.mpr ⟨fun hl => ?_,hall []⟩
      rw [htop hl]
      rfl
    have hinside := hr.inside ctx (.marked m l (r.visitAll l [] cs).1)
    rw [Rule.visit, hr.early]
    simp only [hr.kept, Visit.result]
    refine ⟨hdone,?_⟩
    cases hrep : (r.finish ctx (.marked m l (r.visitAll l [] cs).1)).replaced with
    | none => simpa [Replacement.nodes] using hdone
    | some rep =>
      intro d hd
      obtain ⟨c,hc,q,hq⟩ := hinside rep hrep d hd
      exact (hall [] c hc).at? hq

end

/-! ### Visits that find nothing -/

variable (ht : r.Tells) (hc : r.CountsRewrites)

include hr in
private theorem visitAll_count {l : Label} {cs : List (Field × Node)} (hcs : ∀ c ∈ cs, c.2.EmptyHoles)
    (h : ∀ c ∈ cs, ∀ ctx, (r.visit ctx c.2).count = 0 ↔
      ∀ q a, c.2.at? q = some a → r.StaysAt ctx c.2 q a) (before : List (Field × Node)) :
    (r.visitAll l before cs).2 = 0 ↔ ∀ i f c, cs[i]? = some (f, c) → ∀ q a, c.at? q = some a →
      r.StaysAt ⟨some l,f,((before ++ cs.take i).filter fun b => b.1 = f).map Prod.snd⟩ c q a := by
  induction cs generalizing before with
  | nil => simp [visitAll]
  | cons c cs ih =>
    obtain ⟨f,n⟩ := c
    obtain ⟨hn,hcs⟩ := List.forall_mem_cons.mp hcs
    obtain ⟨hvisit,h⟩ := List.forall_mem_cons.mp h
    have hhere : (if n.isHole then 0
        else (r.visit ⟨some l,f,(before.filter fun b => b.1 = f).map Prod.snd⟩ n).count) = 0 ↔
        ∀ q a, n.at? q = some a →
          r.StaysAt ⟨some l,f,(before.filter fun b => b.1 = f).map Prod.snd⟩ n q a := by
      split
      · rename_i hhole
        have hempty := hn [] n rfl hhole
        refine ⟨fun _ q a ha => ?_,fun _ => rfl⟩
        obtain ⟨m,l',cs'⟩ := n
        obtain rfl : cs' = [] := hempty
        cases q with
        | nil =>
          obtain rfl := Option.some.inj ha
          exact hr.holes _ _ hhole
        | cons i q => cases ha
      · exact hvisit _
    rw [visitAll_cons, Nat.add_eq_zero_iff, hhere, ih hcs h]
    constructor
    · rintro ⟨hfirst,hmore⟩ i g d hd
      cases i with
      | zero =>
        obtain ⟨rfl,rfl⟩ := Prod.mk.inj (Option.some.inj hd)
        simpa using hfirst
      | succ i =>
        rw [List.take_succ_cons, List.append_cons]
        exact hmore i g d hd
    · intro hall
      refine ⟨by simpa using hall 0 f n rfl,fun i g d hd => ?_⟩
      have hrest := hall (i + 1) g d hd
      rwa [List.take_succ_cons, List.append_cons] at hrest

include hr ht hc in
/-- A visit counts nothing just where the rule leaves every node in its place. -/
theorem visit_count_eq_zero {n : Node} (hn : n.EmptyHoles) (ctx : Context) :
    (r.visit ctx n).count = 0 ↔ ∀ q a, n.at? q = some a → r.StaysAt ctx n q a := by
  induction n using Node.inductionOn generalizing ctx with
  | marked m l cs ih =>
    have hcs : ∀ c ∈ cs, c.2.EmptyHoles := fun c hc => hn.subtree hc
    have hall := hr.visitAll_count (l := l) hcs (fun c hc => ih c hc (hcs c hc)) []
    have hinside : (∀ q a, (Node.marked m l cs).at? q = some a → r.StaysAt ctx (.marked m l cs) q a) ↔
        (r.visitAll l [] cs).2 = 0 ∧ (r.finish ctx (.marked m l cs)).replaced = none := by
      rw [hall]
      constructor
      · intro h
        refine ⟨fun i f c hi q a ha => ?_,h [] _ rfl⟩
        have hstays := h (i :: q) a (by rw [Node.at?_cons, hi]; exact ha)
        rwa [StaysAt, Node.contextAt_cons ctx hi] at hstays
      · rintro ⟨h,htop⟩ q a ha
        cases q with
        | nil =>
          obtain rfl := Option.some.inj ha
          exact htop
        | cons i q =>
          obtain ⟨c,hi,ha⟩ := Option.bind_eq_some_iff.mp ha
          change (r.finish ((Node.marked m l cs).contextAt ctx (i :: q)) a).replaced = none
          rw [Node.contextAt_cons ctx (show cs[i]? = some (c.1, c.2) from hi)]
          exact h i c.1 c.2 hi q a ha
    have hzero : (r.visit ctx (.marked m l cs)).count = 0 ↔ (r.visitAll l [] cs).2 = 0 ∧
        (r.finish ctx (.marked m l (r.visitAll l [] cs).1)).count = 0 := by
      rw [Rule.visit, hr.early]
      exact Nat.add_eq_zero_iff
    rw [hinside, hzero]
    refine and_congr_right fun hcount => ?_
    rw [visitAll_eq_self (fun c _ ctx => ht.visit c.2 ctx) hcount, hc.finish]
    cases (r.finish ctx (.marked m l cs)).replaced <;> simp

end Lifts
end Rule
end Unravel
