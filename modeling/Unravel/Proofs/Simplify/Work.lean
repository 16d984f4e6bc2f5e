import Mathlib.Algebra.GroupWithZero.Nat
import Unravel.Proofs.Number.Spelling
import Unravel.Proofs.Simplify.Rewrites

/-! The work left in a tree. Folding, inlining, removal of branches and plain access each take
more from it than they count, whatever they make work for elsewhere, so no order of them goes on
for ever. -/

namespace Unravel

namespace Node

mutual
/-- How many nodes of a tree satisfy a test. -/
def count (test : Node → Bool) : Node → Nat
  | .marked m l cs => (test (.marked m l cs)).toNat + countAll test cs
def countAll (test : Node → Bool) : List (Field × Node) → Nat
  | [] => 0
  | (_, n) :: rest => n.count test + countAll test rest
end

/-- A number that is spelled in hexadecimal. -/
def isHexNumber (n : Node) : Bool :=
  match n.label with
  | .literal (.number _) (some raw) => Simplify.isHexSpelling raw
  | _ => false

/-- A string that reads as a plain name. -/
def isPlainString (n : Node) : Bool := n.stringValue?.any Simplify.isPlainName

/-- A computed access by a string that reads as a plain name. -/
def isPlainAccess (n : Node) : Bool :=
  n.label = .memberExpression true && (n.child? .property).any isPlainString

/-- Two for each node, one more for each number in hexadecimal and each access by a plain name. -/
def work (n : Node) : Nat :=
  2 * n.count (fun c => !c.isHole) + n.count isHexNumber + n.count isPlainAccess

def workOf (cs : List (Field × Node)) : Nat := (cs.map fun c => c.2.work).sum

/-- The work at a node itself. -/
def ownWork (n : Node) : Nat := 2 * (!n.isHole).toNat + n.isHexNumber.toNat + n.isPlainAccess.toNat

theorem countAll_eq (test : Node → Bool) (cs : List (Field × Node)) :
    countAll test cs = (cs.map fun c => c.2.count test).sum := by
  induction cs with
  | nil => rfl
  | cons c cs ih => rw [countAll, ih, List.map_cons, List.sum_cons]

theorem work_eq (n : Node) : n.work = n.ownWork + workOf n.subtrees := by
  obtain ⟨m,l,cs⟩ := n
  have hsum : workOf cs = 2 * (cs.map fun c => c.2.count fun c => !c.isHole).sum +
      (cs.map fun c => c.2.count isHexNumber).sum + (cs.map fun c => c.2.count isPlainAccess).sum := by
    simp only [workOf, work]
    induction cs with
    | nil => rfl
    | cons c cs ih =>
      simp only [List.map_cons, List.sum_cons, ih]
      omega
  simp only [work, count, ownWork, countAll_eq, subtrees, hsum]
  omega

theorem work_marked (m : Option Nat) (l : Label) (cs : List (Field × Node)) :
    (marked m l cs).work = (marked m l cs).ownWork + workOf cs := work_eq _

@[simp]
theorem workOf_nil : workOf [] = 0 := rfl

@[simp]
theorem workOf_cons (c : Field × Node) (cs : List (Field × Node)) :
    workOf (c :: cs) = c.2.work + workOf cs := by simp [workOf]

theorem workOf_append (cs ds : List (Field × Node)) : workOf (cs ++ ds) = workOf cs + workOf ds := by
  simp [workOf]

/-- The work in one slot. -/
def workIn (f : Field) (n : Node) : Nat := ((n.row f).map work).sum

theorem workOf_filed (f : Field) (ns : List Node) :
    workOf (ns.map fun n => (f, n)) = (ns.map work).sum := by
  simp [workOf, Function.comp_def]

private theorem sum_filter_le {f g : Field} (hne : f ≠ g) (cs : List (Field × Node)) :
    (((cs.filter fun c => c.1 = f).map Prod.snd).map work).sum +
      (((cs.filter fun c => c.1 = g).map Prod.snd).map work).sum ≤ workOf cs := by
  induction cs with
  | nil => simp
  | cons c cs ih =>
    by_cases hf : c.1 = f
    · simp [hf, hne] at ih ⊢
      omega
    · by_cases hg : c.1 = g
      · simp [hg, hne.symm] at ih ⊢
        omega
      · simp [hf, hg] at ih ⊢
        omega

/-- What stands in two slots of a node is part of the node. -/
theorem workIn_add_le {f g : Field} (hne : f ≠ g) (n : Node) :
    n.ownWork + n.workIn f + n.workIn g ≤ n.work := by
  have := sum_filter_le hne n.subtrees
  simp only [work_eq n, workIn, row]
  omega

theorem work_le_workIn {n c : Node} {f : Field} (h : n.child? f = some c) : c.work ≤ n.workIn f := by
  obtain ⟨s,t,hst⟩ := List.append_of_mem (mem_row_of_child? h)
  simp only [workIn, hst, List.map_append, List.map_cons, List.sum_append, List.sum_cons]
  omega

theorem two_le_ownWork {n : Node} (h : n.label ≠ .hole) : 2 ≤ n.ownWork := by
  have : n.isHole = false := by simpa [isHole] using h
  simp only [ownWork, this]
  simp
  omega

theorem two_le_work {n : Node} (h : n.label ≠ .hole) : 2 ≤ n.work := by
  have := two_le_ownWork h
  rw [work_eq]
  omega

theorem work_child_le {n c : Node} {f : Field} (hl : n.label ≠ .hole) (h : n.child? f = some c) :
    2 + c.work ≤ n.work := by
  -- The second slot only has to be another one.
  obtain ⟨g,hg⟩ : ∃ g, f ≠ g := by
    cases f
    case alternate => exact ⟨.argument,by decide⟩
    all_goals exact ⟨.alternate,by decide⟩
  have := workIn_add_le hg n
  have := two_le_ownWork hl
  have := work_le_workIn h
  omega

theorem work_children_le {n c d : Node} {f g : Field} (hne : f ≠ g) (hl : n.label ≠ .hole)
    (hc : n.child? f = some c) (hd : n.child? g = some d) : 2 + c.work + d.work ≤ n.work := by
  have := workIn_add_le hne n
  have := two_le_ownWork hl
  have := work_le_workIn hc
  have := work_le_workIn hd
  omega

end Node

/-! ### Visits -/

/-- A visit counts no more than it takes from the work of a node. One that puts something else in
the place of the node takes one more, which pays for what the slot and the parent make of it. -/
def Visit.Sheds (n : Node) (v : Visit) : Prop :=
  match v.replaced with
  | none => v.kept.work + v.count ≤ n.work ∧ (v.kept.isPlainString = true → n.isPlainString = true)
  | some (.node c) => c.work + v.count + 1 ≤ n.work
  | some (.statements cs) => (cs.map Node.work).sum + 2 + v.count + 1 ≤ n.work
  | some .nothing => 2 + v.count + 1 ≤ n.work

theorem Visit.Sheds.add {n n' : Node} {v : Visit} {k : Nat} (h : v.Sheds n')
    (hn : n'.work + k ≤ n.work) (hp : n'.isPlainString = n.isPlainString) :
    Visit.Sheds n { v with count := k + v.count } := by
  obtain ⟨kept,replaced,c⟩ := v
  match replaced with
  | none =>
    obtain ⟨hw,hk⟩ := h
    refine ⟨?_,hp ▸ hk⟩
    simp only at hw ⊢
    omega
  | some (.node _) | some (.statements _) | some .nothing =>
    simp only [Visit.Sheds] at h ⊢
    omega

namespace Rule

/-- Every visit of a rule sheds work. -/
structure Sheds (r : Rule) : Prop where
  early : ∀ n v, r.early n = some v → v.Sheds n
  finish : ∀ ctx n, (r.finish ctx n).Sheds n

/-- What comes of one subtree: it stays one subtree that is no new plain name, or it leaves work
over. -/
private def Lighter (f : Field) (n : Node) (here : List (Field × Node)) (k : Nat) : Prop :=
  (∃ c, here = [(f, c)] ∧ (c.isPlainString = true → n.isPlainString = true) ∧ c.work + k ≤ n.work) ∨
    Node.workOf here + k + 1 ≤ n.work

private theorem work_block (ns : List Node) : (Node.block ns).work = 2 + (ns.map Node.work).sum := by
  have hsub : (Node.block ns).subtrees = ns.map fun n => (.body, n) := rfl
  rw [Node.work_eq, hsub, Node.workOf_filed]
  rfl

private theorem lighter_place {n : Node} {v : Visit} (h : v.Sheds n) (l : Label) (f : Field) :
    Lighter f n (place l f n v.result) v.count := by
  obtain ⟨kept,replaced,k⟩ := v
  match replaced with
  | none => exact .inl ⟨kept,rfl,h.2,h.1⟩
  | some (.node c) =>
    refine .inr ?_
    simp only [Visit.Sheds] at h
    simp only [Visit.result, place, Option.getD_some, Node.workOf_cons, Node.workOf_nil]
    omega
  | some (.statements cs) =>
    refine .inr ?_
    simp only [Visit.Sheds] at h
    simp only [Visit.result, place, Option.getD_some]
    split
    · rw [Node.workOf_filed]
      omega
    · rw [Node.workOf_cons, work_block, Node.workOf_nil]
      omega
  | some .nothing =>
    have hempty : Node.empty.work = 2 := by decide
    refine .inr ?_
    simp only [Visit.Sheds] at h
    simp only [Visit.result, place, Option.getD_some]
    split
    · rw [Node.workOf_nil]
      omega
    · split
      · rw [Node.workOf_cons, hempty, Node.workOf_nil]
        omega
      · rw [Node.workOf_nil]
        omega

/-- Whether the first subtree in the property slot reads as a plain name. -/
private def plainKey (cs : List (Field × Node)) : Bool :=
  (cs.find? fun c => c.1 = .property).any fun c => c.2.isPlainString

/-- The subtrees leave work over, or they bring no new plain name into the property slot. -/
private theorem visitAll_work (r : Rule) (l : Label) (before cs : List (Field × Node))
    (h : ∀ c ∈ cs, ∀ ctx, (r.visit ctx c.2).Sheds c.2) :
    Node.workOf (r.visitAll l before cs).1 + (r.visitAll l before cs).2 + 1 ≤ Node.workOf cs ∨
      Node.workOf (r.visitAll l before cs).1 + (r.visitAll l before cs).2 ≤ Node.workOf cs ∧
        (plainKey (r.visitAll l before cs).1 = true → plainKey cs = true) := by
  induction cs generalizing before with
  | nil => exact .inr ⟨Nat.le_refl _,id⟩
  | cons c cs ih =>
    obtain ⟨f,n⟩ := c
    obtain ⟨hn,hcs⟩ := List.forall_mem_cons.mp h
    have hrest := ih (before ++ [(f, n)]) hcs
    rw [visitAll_cons]
    generalize r.visitAll l (before ++ [(f, n)]) cs = more at hrest
    have hhere : Lighter f n
        (if n.isHole then [(f, n)] else place l f n
          (r.visit ⟨some l,f,(before.filter fun c => c.1 = f).map Prod.snd⟩ n).result)
        (if n.isHole then 0 else
          (r.visit ⟨some l,f,(before.filter fun c => c.1 = f).map Prod.snd⟩ n).count) := by
      split
      · exact .inl ⟨n,rfl,id,Nat.le_refl _⟩
      · exact lighter_place (hn _) l f
    simp only
    generalize (if n.isHole then [(f, n)] else _) = here at hhere ⊢
    generalize (if n.isHole then 0 else _) = k at hhere ⊢
    rw [Node.workOf_append, Node.workOf_cons]
    obtain ⟨c,rfl,hplain,hwork⟩ | hwork := hhere
    · rw [Node.workOf_cons, Node.workOf_nil]
      obtain hr | ⟨hr,hkey⟩ := hrest
      · exact .inl (by simp only; omega)
      · refine .inr ⟨by simp only; omega,?_⟩
        simp only [plainKey, List.singleton_append, List.find?_cons] at hkey ⊢
        cases decide (f = .property) with
        | true => exact hplain
        | false => exact hkey
    · refine .inl ?_
      simp only
      omega

private theorem ownWork_le (m : Option Nat) (l : Label) (cs ds : List (Field × Node)) :
    (Node.marked m l ds).ownWork ≤ (Node.marked m l cs).ownWork + 1 ∧
      ((plainKey ds = true → plainKey cs = true) →
        (Node.marked m l ds).ownWork ≤ (Node.marked m l cs).ownWork) := by
  have hp (ds : List (Field × Node)) : (Node.marked m l ds).isPlainAccess =
      (decide (l = .memberExpression true) && plainKey ds) := by
    simp only [Node.isPlainAccess, Node.child?, Node.label, Node.subtrees, plainKey]
    cases ds.find? fun c => c.1 = .property <;> rfl
  have hhole : (Node.marked m l ds).isHole = (Node.marked m l cs).isHole := rfl
  have hhex : (Node.marked m l ds).isHexNumber = (Node.marked m l cs).isHexNumber := rfl
  simp only [Node.ownWork, hp, hhole, hhex]
  constructor
  · have := Bool.toNat_le (decide (l = .memberExpression true) && plainKey ds)
    omega
  · intro h
    cases hd : plainKey ds with
    | false => simp
    | true => simp [h hd]

/-- A visit by a rule that sheds work sheds work, subtrees included. -/
theorem Sheds.visit {r : Rule} (hr : r.Sheds) (n : Node) (ctx : Context) :
    (r.visit ctx n).Sheds n := by
  induction n using Node.inductionOn generalizing ctx with
  | marked m l cs ih =>
    rw [Rule.visit]
    split
    · rename_i v hv
      exact hr.early _ v hv
    · have hall := visitAll_work r l [] cs ih
      generalize r.visitAll l [] cs = all at hall
      obtain ⟨done,k⟩ := all
      have hwork : (Node.marked m l done).work + k ≤ (Node.marked m l cs).work := by
        obtain ⟨hone,hkey⟩ := ownWork_le m l cs done
        simp only [Node.work_eq (.marked m l _), Node.subtrees]
        obtain hall | ⟨hall,hplain⟩ := hall
        · simp only at hall
          omega
        · have := hkey hplain
          simp only at hall
          omega
      exact (hr.finish ctx (.marked m l done)).add hwork rfl

end Rule

/-! ### The rules -/

namespace Visit

theorem sheds_keep (n : Node) : (keep n).Sheds n := ⟨Nat.le_refl _,id⟩

end Visit

namespace Simplify
open Node

private theorem work_ofBool (b : Bool) : (ofBool b).work = 2 := by cases b <;> decide

private theorem work_ofText (t : Text) : (ofText t).work = 2 := by
  rw [work_eq]
  rfl

private theorem work_ofMagnitude (v : Number) : (ofMagnitude v).work = 2 := by
  have h : (ofMagnitude v).isHexNumber = false := v.isHexSpelling_text
  rw [work_eq, ownWork, h]
  rfl

private theorem work_ofNumber_le (v : Number) : (ofNumber v).work ≤ 4 := by
  unfold ofNumber
  split
  · have := work_ofMagnitude v.neg
    simp [unary, work_eq (Node.mk _ _), ownWork, subtrees, isHole, isHexNumber, isPlainAccess, label,
      this]
  · rw [work_ofMagnitude]
    omega

private theorem two_le_of_isEmptyArray {n : Node} (h : isEmptyArray n = true) : 2 ≤ n.work := by
  refine two_le_work fun hl => ?_
  simp [isEmptyArray, hl] at h

private theorem two_le_of_numberValue? {n : Node} {v : Number} (h : n.numberValue? = some v) :
    2 ≤ n.work := by
  refine two_le_work fun hl => ?_
  simp [numberValue?, hl] at h

private theorem two_le_of_numericValue? {n : Node} {v : Number} (h : n.numericValue? = some v) :
    2 ≤ n.work := by
  refine two_le_work fun hl => ?_
  simp [numericValue?, numberValue?, hl] at h

private theorem two_le_of_stringValue? {n : Node} {t : Text} (h : n.stringValue? = some t) :
    2 ≤ n.work := by
  refine two_le_work fun hl => ?_
  simp [stringValue?, hl] at h

private theorem two_le_of_foldNumbers {op : String} {l r : Node} {d : Double}
    (h : foldNumbers op l r = some d) : 2 ≤ l.work ∧ 2 ≤ r.work := by
  obtain ⟨x,hx,h⟩ := Option.bind_eq_some_iff.mp h
  obtain ⟨y,hy,-⟩ := Option.bind_eq_some_iff.mp h
  exact ⟨two_le_of_numericValue? hx,two_le_of_numericValue? hy⟩

private theorem two_le_of_foldStrings {op : String} {l r : Node} {t : Text}
    (h : foldStrings op l r = some t) : 2 ≤ l.work ∧ 2 ≤ r.work := by
  obtain ⟨-,h⟩ := Option.ite_none_right_eq_some.mp h
  obtain ⟨x,hx,h⟩ := Option.bind_eq_some_iff.mp h
  obtain ⟨y,hy,-⟩ := Option.bind_eq_some_iff.mp h
  exact ⟨two_le_of_stringValue? hx,two_le_of_stringValue? hy⟩

/-- Folding constants sheds work. -/
theorem expressionRule_sheds : expressionRule.Sheds := by
  constructor
  · intro n v h
    obtain ⟨hn,rfl⟩ := expressionRule_early h
    obtain ⟨_,c,hl,hc,hn⟩ := label_of_isNegated hn
    obtain ⟨_,d,hl',hd,-⟩ := label_of_isNegated hn
    have hw := work_child_le (by simp [hl]) hc
    have hw' := work_child_le (by simp [hl']) hd
    simp only [Visit.Sheds, Visit.replace, work_ofBool]
    omega
  · intro ctx n
    have hfolding := expressionRule_folding ctx n
    generalize expressionRule.finish ctx n = v at hfolding ⊢
    cases hfolding with
    | keep => exact Visit.sheds_keep n
    | negation hn =>
      obtain ⟨_,c,hl,hc,hempty⟩ := label_of_isNegated hn
      have hw := work_child_le (by simp [hl]) hc
      have := two_le_of_isEmptyArray hempty
      simp only [Visit.Sheds, Visit.replace, work_ofBool]
      omega
    | void hl ha _ =>
      obtain ⟨c,hc,ha⟩ := Option.bind_eq_some_iff.mp ha
      have hw := work_child_le (by simp [hl]) hc
      have := two_le_of_numberValue? ha
      have hid : (Node.identifier "undefined").work = 2 := by decide
      simp only [Visit.Sheds, Visit.replace, hid]
      omega
    | @numbers _ _ _ d hl hleft hright hd =>
      have hw := work_children_le (by decide) (by simp [hl]) hleft hright
      have := two_le_of_foldNumbers hd
      have := work_ofNumber_le (.double d)
      simp only [Visit.Sheds, Visit.replace]
      omega
    | strings hl hleft hright ht =>
      have hw := work_children_le (by decide) (by simp [hl]) hleft hright
      have := two_le_of_foldStrings ht
      simp only [Visit.Sheds, Visit.replace, work_ofText]
      omega
    | @spelling v raw hl hraw =>
      obtain ⟨m,l,cs⟩ := n
      obtain rfl : l = .literal (.number v) (some raw) := hl
      have hold : (marked m (.literal (.number v) (some raw)) cs).ownWork = 3 := by
        simp [ownWork, isHole, isHexNumber, isPlainAccess, label, hraw]
      have hnew : (marked m (.literal (.number v) (some (Text.ofString v.text))) cs).ownWork = 2 := by
        simp [ownWork, isHole, isHexNumber, isPlainAccess, label, v.isHexSpelling_text]
      refine ⟨?_,fun h => by simp [Visit.change, update, isPlainString, stringValue?, label] at h⟩
      simp only [Visit.change, update, mark?, subtrees, work_marked, hold, hnew]
      omega

/-- Access by plain names sheds work. -/
theorem accessRule_sheds : accessRule.Sheds := by
  constructor
  · intro n v h
    cases h
  · intro ctx n
    obtain hkeep | ⟨object,key,name,hl,hobject,hkey,hname,hplain,hchange⟩ := accessRule_cases ctx n
    · rw [hkeep]
      exact Visit.sheds_keep n
    · rw [hchange]
      have haccess : n.isPlainAccess = true := by
        simp [isPlainAccess, hl, hkey, isPlainString, hname, hplain]
      have hown : n.ownWork = 3 := by simp [ownWork, isHole, isHexNumber, hl, haccess]
      have hw := workIn_add_le (f := .object) (g := .property) (by decide) n
      have := work_le_workIn hobject
      have := work_le_workIn hkey
      have := two_le_of_stringValue? hname
      refine ⟨?_,fun h => by simp [Visit.change, update, isPlainString, stringValue?, label] at h⟩
      have hid (name : String) : (Node.identifier name).work = 2 := by
        rw [work_eq]
        rfl
      have hnew (m : Option Nat) (cs : List (Field × Node)) :
          (marked m (.memberExpression false) cs).ownWork = 2 := by
        simp [ownWork, isHole, isHexNumber, isPlainAccess, label]
      simp only [Visit.change, update, work_marked, workOf_cons, workOf_nil, hid, hnew]
      omega

private theorem two_le_of_staticTest {n : Node} {b : Bool} (h : staticTest n = some b) :
    2 ≤ n.work := by
  refine two_le_work fun hl => ?_
  simp [staticTest, hl] at h

private theorem branch_work_le {n test : Node} {outcome : Bool} (hl : n.label ≠ .hole)
    (ht : n.child? .test = some test) {c : Node} (hc : branch n outcome = some c) :
    2 + test.work + c.work ≤ n.work := by
  refine work_children_le ?_ hl ht hc
  cases outcome <;> decide

/-- Removal of branches sheds work. -/
theorem deadCodeRule_sheds : deadCodeRule.Sheds := by
  constructor
  · intro n v h
    cases h
  · intro ctx n
    have hdeciding := deadCodeRule_deciding ctx n
    have hhole (hl : n.label = .ifStatement ∨ n.label = .conditionalExpression) : n.label ≠ .hole := by
      rcases hl with hl | hl <;> simp [hl]
    generalize deadCodeRule.finish ctx n = v at hdeciding ⊢
    cases hdeciding with
    | keep => exact Visit.sheds_keep n
    | nothing hl hb _ =>
      obtain ⟨test,ht,hs⟩ := Option.bind_eq_some_iff.mp hb
      have := two_le_of_staticTest hs
      have := work_child_le (hhole hl) ht
      simp only [Visit.Sheds, Visit.replace]
      omega
    | taken hl hb hc =>
      obtain ⟨test,ht,hs⟩ := Option.bind_eq_some_iff.mp hb
      have := two_le_of_staticTest hs
      have := branch_work_le (hhole hl) ht hc
      simp only [Visit.Sheds, Visit.replace]
      omega
    | @opened _ c hl hb hc hblock _ =>
      obtain ⟨test,ht,hs⟩ := Option.bind_eq_some_iff.mp hb
      have := two_le_of_staticTest hs
      have := branch_work_le (hhole (.inl hl)) ht hc
      have hin := workIn_add_le (f := .body) (g := .test) (by decide) c
      have := two_le_ownWork (n := c) (by simp [hblock])
      simp only [workIn] at hin
      simp only [Visit.Sheds, Visit.replace]
      omega

/-- A member of a proxy object is an access of a name under a name. -/
private theorem six_le_of_member? {t : ProxyTable} {n : Node} {op : Operation}
    (h : t.member? n = some op) : 6 ≤ n.work := by
  unfold ProxyTable.member? at h
  split at h
  · rename_i computed hl
    obtain ⟨object,hobject,h⟩ := Option.bind_eq_some_iff.mp h
    obtain ⟨name,hname,-⟩ := Option.bind_eq_some_iff.mp h
    obtain ⟨o,ho,hid⟩ := Option.bind_eq_some_iff.mp hobject
    simp only [memberName?, hl] at hname
    obtain ⟨p,hp,hkey⟩ := Option.bind_eq_some_iff.mp hname
    have := work_children_le (by decide) (by simp [hl]) ho hp
    have : 2 ≤ o.work := by
      refine two_le_work fun h => ?_
      simp [identifierName?, h] at hid
    have : 2 ≤ p.work := by
      refine two_le_work fun h => ?_
      simp [staticKey?, stringValue?, identifierName?, h] at hkey
    omega
  · cases h

private theorem work_binary (operator : String) (a b : Node) :
    (Node.binary operator a b).work = 2 + a.work + b.work := by
  unfold Node.binary
  split <;> simp [work_eq (Node.mk _ _), ownWork, subtrees, isHole, isHexNumber, isPlainAccess, label]
    <;> omega

private theorem work_call (f : Node) (args : List Node) :
    (Node.call f args).work = 2 + f.work + (args.map work).sum := by
  rw [work_eq]
  simp only [Node.call, subtrees, workOf_cons, workOf_filed]
  simp [ownWork, isHole, isHexNumber, isPlainAccess, label]
  omega

private theorem inlineCall?_work {t : ProxyTable} {n e : Node} (hl : n.label = .callExpression)
    (h : inlineCall? t n = some e) : e.work + 2 ≤ n.work := by
  obtain ⟨⟨callee,op,hcallee,hop⟩,he⟩ := inlineCall?_cases h
  have := six_le_of_member? hop
  have := work_le_workIn hcallee
  have := two_le_ownWork (n := n) (by simp [hl])
  have hw := workIn_add_le (f := .callee) (g := .arguments) (by decide) n
  have hargs : n.workIn .arguments = ((n.row .arguments).map work).sum := rfl
  obtain ⟨o,a,b,hrow,rfl⟩ | ⟨f,args,hrow,rfl⟩ := he
  · simp only [hrow, List.map_cons, List.map_nil, List.sum_cons, List.sum_nil] at hargs
    rw [work_binary]
    omega
  · simp only [hrow, List.map_cons, List.sum_cons] at hargs
    rw [work_call]
    omega

/-- Inlining of proxy members sheds work. -/
theorem proxyRule_sheds (t : ProxyTable) : (proxyRule t).Sheds := by
  constructor
  · intro n v h
    cases h
  · intro ctx n
    obtain h | ⟨e,hl,he,h⟩ | ⟨s,hs,h⟩ := proxyRule_cases t ctx n <;> rw [h]
    · exact Visit.sheds_keep n
    · have := inlineCall?_work hl he
      simp only [Visit.Sheds, Visit.replace]
      omega
    · have := six_le_of_member? hs
      simp only [Visit.Sheds, Visit.replace, work_ofText]
      omega

end Simplify
end Unravel
