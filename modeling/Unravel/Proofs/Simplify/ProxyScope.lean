import Unravel.Proofs.Scope.Resolution
import Unravel.Proofs.Simplify.Rewrites

/-! Inlining of proxy members against lexical scoping. Objects are known by name alone, so that an
access is rewritten also where its name stands for something else. -/

namespace Unravel

namespace Rule

/-- A visit of a rule to the node at a place. -/
structure Visited where
  place : Path
  context : Context
  outcome : Visit

mutual
/-- The visits of a rule to the nodes of a tree, in the order they end. -/
def visits (r : Rule) (ctx : Context) (p : Path) : Node → List Visited
  | .marked m l cs =>
    (if (r.early (.marked m l cs)).isSome then [] else r.visitsAll l p [] cs)
      ++ [⟨p, ctx, r.visit ctx (.marked m l cs)⟩]
def visitsAll (r : Rule) (l : Label) (p : Path) (before : List (Field × Node)) :
    List (Field × Node) → List Visited
  | [] => []
  | (f, n) :: rest =>
    let earlier := (before.filter fun c => c.1 = f).map Prod.snd
    (if n.isHole then [] else r.visits ⟨some l, f, earlier⟩ (p ++ [before.length]) n)
      ++ r.visitsAll l p (before ++ [(f, n)]) rest
end

section Visits
variable {r : Rule}

/-- The visits to subtrees are told the node above and the slot. -/
theorem mem_visitsAll {l : Label} {p : Path} {before cs : List (Field × Node)} {x : Visited}
    (h : x ∈ r.visitsAll l p before cs) :
    ∃ c earlier i, cs[i]? = some c ∧
      x ∈ r.visits ⟨some l, c.1, earlier⟩ (p ++ [before.length + i]) c.2 := by
  induction cs generalizing before with
  | nil => cases h
  | cons c cs ih =>
    rw [visitsAll] at h
    rcases List.mem_append.mp h with h | h
    · split at h
      · cases h
      · exact ⟨c,_,0,rfl,h⟩
    · obtain ⟨d,earlier,i,hd,hx⟩ := ih h
      refine ⟨d,earlier,i + 1,hd,?_⟩
      rwa [List.length_append, List.length_singleton, Nat.add_assoc, Nat.add_comm 1] at hx

/-- Each visit is one to the subtree at its place. -/
theorem mem_visits {ctx : Context} {p : Path} {n : Node} {x : Visited} (h : x ∈ r.visits ctx p n) :
    ∃ q c, x.place = p ++ q ∧ n.at? q = some c ∧ x.outcome = r.visit x.context c := by
  induction n using Node.inductionOn generalizing ctx p with
  | marked m l cs ih =>
    rw [visits] at h
    rcases List.mem_append.mp h with h | h
    · split at h
      · cases h
      · obtain ⟨c,earlier,i,hc,hx⟩ := mem_visitsAll h
        obtain ⟨q,d,hq,hd,hv⟩ := ih c (List.mem_of_getElem? hc) hx
        refine ⟨i :: q,d,?_,?_,hv⟩
        · rw [hq, List.length_nil, Nat.zero_add, List.append_assoc, List.singleton_append]
        · rw [Node.at?_cons, hc]
          exact hd
    · obtain rfl := List.mem_singleton.mp h
      exact ⟨[],_,(List.append_nil p).symm,rfl,rfl⟩

/-- A rule that leaves no node early and counts what it replaces. -/
structure CountsRewrites (r : Rule) : Prop where
  early : ∀ n, r.early n = none
  finish : ∀ ctx n, (r.finish ctx n).count = if (r.finish ctx n).replaced.isSome then 1 else 0

theorem CountsRewrites.visit (hr : r.CountsRewrites) (n : Node) (ctx : Context) (p : Path) :
    (r.visit ctx n).count = (r.visits ctx p n).countP fun x => x.outcome.replaced.isSome := by
  induction n using Node.inductionOn generalizing ctx p with
  | marked m l cs ih =>
    have hall (before : List (Field × Node)) : (r.visitAll l before cs).2 =
        (r.visitsAll l p before cs).countP fun x => x.outcome.replaced.isSome := by
      induction cs generalizing before with
      | nil => rfl
      | cons c cs ihs =>
        obtain ⟨hc,hcs⟩ := List.forall_mem_cons.mp ih
        rw [visitAll_cons, visitsAll, List.countP_append, ← ihs hcs]
        split
        · rfl
        · rw [← hc]
    rw [visits, Rule.visit, hr.early]
    simp only [Option.isSome_none, Bool.false_eq_true, if_false, List.countP_append,
      List.countP_singleton, ← hall, hr.finish]

end Visits
end Rule

namespace Node
open Simplify

/-! ### Objects and accesses -/

mutual
/-- The declarators of proxy objects, each with its place and entry, in the order they are found. -/
def proxiesAt (p : Path) : Node → List (Path × String × List (Text × Operation))
  | .marked m l cs =>
    proxiesAtAll p 0 cs ++
      if l = .variableDeclarator then
        ((proxyDeclared? (.marked m l cs)).map fun e => (p, e)).toList
      else []
def proxiesAtAll (p : Path) (i : Nat) :
    List (Field × Node) → List (Path × String × List (Text × Operation))
  | [] => []
  | (_, n) :: rest => n.proxiesAt (p ++ [i]) ++ proxiesAtAll p (i + 1) rest
end

/-- The last of the declarators that name a proxy object in one way. -/
def lastProxy? (tree : Node) (name : String) : Option (Path × String × List (Text × Operation)) :=
  (tree.proxiesAt []).reverse.find? fun e => e.2.1 = name

/-- The identifier whose member an access at a place reads. -/
def accessed? (n : Node) (q : Path) : Option Occurrence :=
  match n.label with
  | .memberExpression _ => do
    let i ← n.index? .object
    let name ← (n.child? .object).bind identifierName?
    return ⟨name, q ++ [i], false⟩
  | _ => none

/-- The identifier that a call of a member or an access at a place goes through. -/
def through? (n : Node) (q : Path) : Option Occurrence :=
  match n.label with
  | .callExpression => do
    let i ← n.index? .callee
    (← n.child? .callee).accessed? (q ++ [i])
  | _ => n.accessed? q

/-- What is called, or the node itself. -/
def access? (n : Node) : Option Node :=
  match n.label with
  | .callExpression => n.child? .callee
  | _ => some n

theorem access?_of_ne {n : Node} (h : n.label ≠ .callExpression) : n.access? = some n := by
  unfold access?
  split
  · rename_i hl
    exact absurd hl h
  · rfl

/-- An identifier is the name in the last declarator of a proxy object of that name, and the members
of the object literal are those operations. -/
def Supplies (tree : Node) (d : Occurrence) (ops : List (Text × Operation)) : Prop :=
  ∃ s c i object, tree.lastProxy? d.name = some (s, d.name, ops) ∧
    tree.at? s = some c ∧ c.label = .variableDeclarator ∧
    c.index? .id = some i ∧ d.path = s ++ [i] ∧ d.isTag = false ∧
    (c.child? .id).bind identifierName? = some d.name ∧
    c.child? .init = some object ∧ object.label = .objectExpression ∧ operations object = ops

end Node

namespace Simplify
open Node

/-- What an operation makes of the arguments of a call, if it is one for them. -/
def Operation.applied? (op : Operation) (arguments : List Node) : Option Node :=
  match op with
  | .string _ => none
  | .binary o | .logical o =>
    match arguments with
    | [a, b] => if isSpread a || isSpread b then none else some (.binary o a b)
    | _ => none
  | .call =>
    match arguments with
    | f :: args => if isSpread f then none else some (.call f args)
    | [] => none

/-- What an operation makes of a call or a read. -/
def Operation.outcome? (op : Operation) (n : Node) : Option Node :=
  if n.label = .callExpression then op.applied? (n.row .arguments)
  else
    match op with
    | .string s => some (.ofText s)
    | _ => none

/-! ### The table of objects -/

private theorem proxies_eq (found : ProxyTable) (p : Path) (n : Node) :
    proxies found n = ((n.proxiesAt p).map Prod.snd).reverse ++ found := by
  induction n using Node.inductionOn generalizing found p with
  | marked m l cs ih =>
    have hall (found : ProxyTable) (i : Nat) :
        proxiesAll found cs = ((proxiesAtAll p i cs).map Prod.snd).reverse ++ found := by
      induction cs generalizing found i with
      | nil => rfl
      | cons c cs ihs =>
        obtain ⟨hc,hcs⟩ := List.forall_mem_cons.mp ih
        rw [proxiesAll, proxiesAtAll, hc found (p ++ [i]), ihs hcs _ (i + 1)]
        simp
    rw [proxies, proxiesAt, hall found 0]
    split
    · cases proxyDeclared? (.marked m l cs) <;> simp
    · simp

/-- An operation is looked up in the last object declared under a name. -/
theorem lookup_proxies (tree : Node) (object : String) (key : Text) :
    (proxies [] tree).lookup object key =
      (tree.lastProxy? object).bind fun e => (e.2.2.find? fun m => m.1 = key).map Prod.snd := by
  rw [ProxyTable.lookup, proxies_eq [] [] tree, List.append_nil, ← List.map_reverse, List.find?_map,
    lastProxy?]
  have htest : ((fun e : String × List (Text × Operation) => decide (e.1 = object)) ∘ Prod.snd) =
      fun e : Path × String × List (Text × Operation) => decide (e.2.1 = object) := rfl
  rw [htest, Option.bind_map, Option.map_bind]
  rfl

private theorem proxiesAtAll_eq (p : Path) (i : Nat) (cs : List (Field × Node)) :
    proxiesAtAll p i cs = (cs.zipIdx i).flatMap fun c => c.1.2.proxiesAt (p ++ [c.2]) := by
  induction cs generalizing i with
  | nil => rfl
  | cons c cs ih => rw [proxiesAtAll, ih, List.zipIdx_cons, List.flatMap_cons]

/-- The declarators of proxy objects are those listed. -/
theorem mem_proxiesAt_iff {p : Path} {n : Node} {x : Path × String × List (Text × Operation)} :
    x ∈ n.proxiesAt p ↔ ∃ q c, x.1 = p ++ q ∧ n.at? q = some c ∧
      c.label = .variableDeclarator ∧ proxyDeclared? c = some x.2 := by
  induction n using Node.inductionOn generalizing p with
  | marked m l cs ih =>
    rw [proxiesAt, proxiesAtAll_eq, List.mem_append, List.mem_flatMap]
    constructor
    · rintro (⟨⟨c,j⟩,hc,hx⟩ | h)
      · have hc : cs[j]? = some c := List.mem_zipIdx_iff_getElem?.mp hc
        obtain ⟨q,d,hq,hd,hl⟩ := (ih c (List.mem_of_getElem? hc)).mp hx
        refine ⟨j :: q,d,?_,?_,hl⟩
        · rw [hq, List.append_assoc, List.singleton_append]
        · rw [at?_cons, hc]
          exact hd
      · split at h
        · rename_i hl
          obtain ⟨e,he,rfl⟩ := Option.map_eq_some_iff.mp (Option.mem_toList.mp h)
          exact ⟨[],_,(List.append_nil p).symm,rfl,hl,he⟩
        · cases h
    · rintro ⟨q,d,hq,hd,hl,he⟩
      cases q with
      | nil =>
        obtain rfl := Option.some.inj hd
        rw [List.append_nil] at hq
        obtain ⟨_,e⟩ := x
        obtain rfl := hq
        have hl : l = .variableDeclarator := hl
        refine .inr ?_
        rw [if_pos hl]
        exact Option.mem_toList.mpr (Option.map_eq_some_iff.mpr ⟨e,he,rfl⟩)
      | cons j q =>
        obtain ⟨c,hc,hd⟩ := Option.bind_eq_some_iff.mp hd
        refine .inl ⟨(c, j),List.mem_zipIdx_iff_getElem?.mpr hc,?_⟩
        refine (ih c (List.mem_of_getElem? hc)).mpr ⟨q,d,?_,hd,hl,he⟩
        rw [hq, List.append_assoc, List.singleton_append]

/-- The table holds the entries of the declarators. -/
theorem mem_proxies_iff {tree : Node} {e : String × List (Text × Operation)} :
    e ∈ proxies [] tree ↔ ∃ q c, tree.at? q = some c ∧ c.label = .variableDeclarator ∧
      proxyDeclared? c = some e := by
  rw [proxies_eq [] [] tree, List.append_nil, List.mem_reverse, List.mem_map]
  constructor
  · rintro ⟨x,hx,rfl⟩
    obtain ⟨q,c,-,hc⟩ := mem_proxiesAt_iff.mp hx
    exact ⟨q,c,hc⟩
  · rintro ⟨q,c,hc⟩
    exact ⟨(q, e),mem_proxiesAt_iff.mpr ⟨q,c,rfl,hc⟩,rfl⟩

theorem proxyDeclared?_eq_some_iff {c : Node} {name : String} {ops : List (Text × Operation)} :
    proxyDeclared? c = some (name, ops) ↔ (c.child? .id).bind identifierName? = some name ∧
      ∃ object, c.child? .init = some object ∧ object.label = .objectExpression ∧
        operations object = ops ∧ ops ≠ [] := by
  constructor
  · intro h
    obtain ⟨_,hid,h⟩ := Option.bind_eq_some_iff.mp h
    obtain ⟨object,hobject,h⟩ := Option.bind_eq_some_iff.mp h
    split at h
    · rename_i hliteral
      split at h
      · cases h
      · rename_i hne
        obtain ⟨rfl,rfl⟩ := Prod.mk.inj (Option.some.inj h)
        exact ⟨hid,object,hobject,hliteral,rfl,hne⟩
    · cases h
  · rintro ⟨hid,object,hobject,hliteral,rfl,hne⟩
    rw [proxyDeclared?, hid, hobject]
    simp only [Option.bind_eq_bind, Option.bind_some, if_pos hliteral]

theorem supplies_of_lastProxy? {tree : Node} {name : String}
    {e : Path × String × List (Text × Operation)} (h : tree.lastProxy? name = some e) :
    ∃ i, tree.Supplies ⟨name, e.1 ++ [i], false⟩ e.2.2 := by
  have hname : e.2.1 = name := by simpa using List.find?_some h
  obtain ⟨q,c,hq,hc,hl,he⟩ := mem_proxiesAt_iff.mp (List.mem_reverse.mp (List.mem_of_find?_eq_some h))
  obtain ⟨s,_,ops⟩ := e
  obtain rfl := hname
  obtain rfl : s = q := hq
  obtain ⟨hid,object,hobject,hliteral,hops,-⟩ := proxyDeclared?_eq_some_iff.mp he
  obtain ⟨target,htarget,-⟩ := Option.bind_eq_some_iff.mp hid
  obtain ⟨i,hi⟩ := exists_index? htarget
  exact ⟨i,s,c,i,object,h,hc,hl,hi,rfl,rfl,hid,hobject,hliteral,hops⟩

/-! ### Visits of accesses -/

section Visited
variable (t : ProxyTable)

/-- What may stand in the place of a node once it was visited. Holes are not. -/
def Shows (c d : Node) : Prop := d = c ∨ ∃ ctx, ((proxyRule t).visit ctx c).result = .node d

/-- Subtrees that stand in the slots of others once these were visited. -/
def ShowsAll (cs ds : List (Field × Node)) : Prop :=
  List.Forall₂ (fun c d => d.1 = c.1 ∧ Shows t c.2 d.2) cs ds

variable {t}

/-- A call of a member, or a member read where it stands, becomes what its operation makes of it. -/
theorem replaced_finish (ctx : Context) (n : Node) : ((proxyRule t).finish ctx n).replaced =
    if n.label ≠ .callExpression ∧ Context.isTarget ctx then none
    else ((n.access?.bind t.member?).bind fun op => op.outcome? n).map .node := by
  have hcall (hl : n.label = .callExpression) :
      inlineCall? t n = (n.access?.bind t.member?).bind fun op => op.outcome? n := by
    rw [inlineCall?, access?, hl]
    refine Option.bind_congr fun op _ => ?_
    unfold Operation.outcome?
    rw [if_pos hl]
    generalize n.row .arguments = args
    cases op <;> rcases args with _ | ⟨a,_ | ⟨b,_ | _⟩⟩ <;> rfl
  simp only [proxyRule]
  split
  · rename_i hl
    rw [if_neg (fun h => h.1 hl), ← hcall hl]
    cases inlineCall? t n <;> rfl
  · rename_i computed hl
    rw [access?_of_ne (by simp [hl]), Option.bind_some]
    cases Context.isTarget ctx with
    | true => simp [hl, Visit.keep]
    | false =>
      cases t.member? n with
      | none => simp [Visit.keep]
      | some op => cases op <;> simp [Operation.outcome?, hl, Visit.keep, Visit.replace]
  · rename_i hcall hmember
    have hnone : t.member? n = none := by
      unfold ProxyTable.member?
      split
      · rename_i computed hl
        exact absurd hl (hmember computed)
      · rfl
    simp [access?_of_ne hcall, hnone, Visit.keep]

theorem finish_cases (ctx : Context) (n : Node) : (proxyRule t).finish ctx n = .keep n ∨
    ∃ r, (proxyRule t).finish ctx n = .replace n r := by
  obtain h | ⟨e,-,-,h⟩ | ⟨s,-,h⟩ := proxyRule_cases t ctx n
  · exact .inl h
  · exact .inr ⟨_,h⟩
  · exact .inr ⟨_,h⟩

theorem proxyRule_counts : (proxyRule t).CountsRewrites := by
  refine ⟨fun _ => rfl,fun ctx n => ?_⟩
  obtain h | ⟨r,h⟩ := finish_cases (t := t) ctx n <;> rw [h] <;> rfl

theorem kept_visit (ctx : Context) (m : Option Nat) (l : Label) (cs : List (Field × Node)) :
    ((proxyRule t).visit ctx (.marked m l cs)).kept =
      .marked m l ((proxyRule t).visitAll l [] cs).1 := by
  rw [Rule.visit]
  obtain h | ⟨r,h⟩ :=
    finish_cases (t := t) ctx (.marked m l ((proxyRule t).visitAll l [] cs).1) <;> simp only [h] <;> rfl

theorem exists_of_replaced {ctx : Context} {n : Node} {e : Replacement}
    (h : ((proxyRule t).finish ctx n).replaced = some e) :
    ∃ access op r, n.access? = some access ∧ t.member? access = some op ∧ op.outcome? n = some r ∧
      e = .node r := by
  rw [replaced_finish, Option.ite_none_left_eq_some, Option.map_eq_some_iff] at h
  obtain ⟨-,r,hr,rfl⟩ := h
  obtain ⟨op,hop,hr⟩ := Option.bind_eq_some_iff.mp hr
  obtain ⟨access,haccess,hop⟩ := Option.bind_eq_some_iff.mp hop
  exact ⟨access,op,r,haccess,hop,hr,rfl⟩

/-- An operation is looked up by the name of the object and by that of the member. -/
theorem member?_eq_some_iff {n : Node} {op : Operation} (q : Path) : t.member? n = some op ↔
    ∃ o key, n.accessed? q = some o ∧ n.memberName? = some key ∧ t.lookup o.name key = some op := by
  by_cases hl : ∃ computed, n.label = .memberExpression computed
  case neg =>
    have hmember : t.member? n = none := by
      unfold ProxyTable.member?
      split
      · exact absurd ⟨_,‹_›⟩ hl
      · rfl
    have haccessed : n.accessed? q = none := by
      unfold Node.accessed?
      split
      · exact absurd ⟨_,‹_›⟩ hl
      · rfl
    simp [hmember, haccessed]
  obtain ⟨computed,hl⟩ := hl
  have hmember : t.member? n = ((n.child? .object).bind identifierName?).bind fun name =>
      n.memberName?.bind fun key => t.lookup name key := by
    rw [ProxyTable.member?, hl]
    rfl
  have haccessed : n.accessed? q = (n.index? .object).bind fun i =>
      ((n.child? .object).bind identifierName?).bind fun name => some ⟨name,q ++ [i],false⟩ := by
    rw [Node.accessed?, hl]
    rfl
  rw [hmember, haccessed]
  constructor
  · intro h
    obtain ⟨name,hname,h⟩ := Option.bind_eq_some_iff.mp h
    obtain ⟨key,hkey,h⟩ := Option.bind_eq_some_iff.mp h
    obtain ⟨object,hobject,-⟩ := Option.bind_eq_some_iff.mp hname
    obtain ⟨i,hi⟩ := exists_index? hobject
    exact ⟨⟨name,q ++ [i],false⟩,key,by rw [hi, hname]; rfl,hkey,h⟩
  · rintro ⟨o,key,ho,hkey,hop⟩
    obtain ⟨i,-,ho⟩ := Option.bind_eq_some_iff.mp ho
    obtain ⟨name,hname,ho⟩ := Option.bind_eq_some_iff.mp ho
    obtain rfl := Option.some.inj ho
    rw [hname, hkey]
    exact hop

theorem applied?_cases {op : Operation} {args : List Node} {r : Node}
    (h : op.applied? args = some r) :
    (∃ o a b, r = .binary o a b) ∨ ∃ f rest, r = .call f rest := by
  unfold Operation.applied? at h
  split at h
  · cases h
  · split at h
    · exact .inl ⟨_,_,_,(Option.some.inj (Option.ite_none_left_eq_some.mp h).2).symm⟩
    · cases h
  · split at h
    · exact .inl ⟨_,_,_,(Option.some.inj (Option.ite_none_left_eq_some.mp h).2).symm⟩
    · cases h
  · split at h
    · exact .inr ⟨_,_,(Option.some.inj (Option.ite_none_left_eq_some.mp h).2).symm⟩
    · cases h

/-- No identifier and no access comes of an operation. -/
theorem label_outcome? {op : Operation} {n r : Node} (h : op.outcome? n = some r) :
    r.identifierName? = none ∧ ∀ computed, r.label ≠ .memberExpression computed := by
  unfold Operation.outcome? at h
  split at h
  · obtain ⟨o,a,b,rfl⟩ | ⟨f,rest,rfl⟩ := applied?_cases h
    · unfold Node.binary
      split <;> exact ⟨rfl,fun _ => nofun⟩
    · exact ⟨rfl,fun _ => nofun⟩
  · split at h
    · obtain rfl := Option.some.inj h
      exact ⟨rfl,fun _ => nofun⟩
    · cases h

theorem Shows.refl (c : Node) : Shows t c c := .inl rfl

theorem showsAll_refl (cs : List (Field × Node)) : ShowsAll t cs cs :=
  List.forall₂_same.mpr fun c _ => ⟨rfl,.refl c.2⟩

/-- Accesses are replaced by single nodes, whatever the place. -/
theorem result_visit (ctx : Context) (c : Node) :
    ∃ d, ((proxyRule t).visit ctx c).result = .node d := by
  obtain ⟨m,l,cs⟩ := c
  rw [Visit.result]
  cases h : ((proxyRule t).visit ctx (.marked m l cs)).replaced with
  | none => exact ⟨_,rfl⟩
  | some e =>
    obtain ⟨_,_,r,-,-,-,rfl⟩ := exists_of_replaced h
    exact ⟨r,rfl⟩

theorem showsAll_visitAll (l : Label) (before cs : List (Field × Node)) :
    ShowsAll t cs ((proxyRule t).visitAll l before cs).1 := by
  induction cs generalizing before with
  | nil => exact .nil
  | cons c cs ih =>
    obtain ⟨f,c⟩ := c
    have hc := fun ctx => result_visit (t := t) ctx c
    rw [Rule.visitAll_cons]
    dsimp only
    split
    · exact .cons ⟨rfl,.refl c⟩ (ih _)
    · obtain ⟨d,hd⟩ := hc _
      rw [hd]
      exact .cons ⟨rfl,.inr ⟨_,hd⟩⟩ (ih _)

/-- A visited node keeps its label and slots, or an operation took the place of an access. -/
theorem Shows.cases {c d : Node} (h : Shows t c d) :
    (d.label = c.label ∧ ShowsAll t c.subtrees d.subtrees) ∨
      c.identifierName? = none ∧ d.identifierName? = none ∧
        ∀ computed, d.label ≠ .memberExpression computed := by
  rcases h with rfl | ⟨ctx,hd⟩
  · exact .inl ⟨rfl,showsAll_refl _⟩
  · obtain ⟨m,l,cs⟩ := c
    cases hr : ((proxyRule t).visit ctx (.marked m l cs)).replaced with
    | none =>
      rw [Visit.result, hr, Option.getD_none, kept_visit] at hd
      cases hd
      exact .inl ⟨rfl,showsAll_visitAll l [] cs⟩
    | some e =>
      obtain ⟨access,op,r,haccess,hop,hout,rfl⟩ := exists_of_replaced hr
      rw [Visit.result, hr, Option.getD_some] at hd
      cases hd
      obtain ⟨hname,hmember⟩ := label_outcome? hout
      refine .inr ⟨?_,hname,hmember⟩
      -- An identifier is no access, so that none was replaced.
      unfold identifierName?
      split
      · rename_i name hl
        obtain rfl : l = .identifier name := hl
        obtain rfl := Option.some.inj haccess
        simp [ProxyTable.member?, label] at hop
      · rfl

theorem Shows.identifierName? {c d : Node} (h : Shows t c d) :
    d.identifierName? = c.identifierName? := by
  obtain ⟨hl,-⟩ | ⟨hc,hd,-⟩ := h.cases
  · rw [Node.identifierName?, hl, ← Node.identifierName?]
  · rw [hc, hd]

theorem ShowsAll.index? {c d : Node} (h : ShowsAll t c.subtrees d.subtrees) (f : Field) :
    d.index? f = c.index? f := by
  rw [Node.index?, Node.index?]
  rw [ShowsAll] at h
  generalize c.subtrees = cs at h ⊢
  generalize d.subtrees = ds at h ⊢
  induction h with
  | nil => rfl
  | cons hxy _ ih => rw [List.findIdx?_cons, List.findIdx?_cons, hxy.1, ih]

theorem ShowsAll.child? {c d : Node} (h : ShowsAll t c.subtrees d.subtrees) (f : Field) :
    (c.child? f = none ∧ d.child? f = none) ∨
      ∃ a b, c.child? f = some a ∧ d.child? f = some b ∧ Shows t a b := by
  rw [Node.child?, Node.child?]
  rw [ShowsAll] at h
  generalize c.subtrees = cs at h ⊢
  generalize d.subtrees = ds at h ⊢
  induction h with
  | nil => exact .inl ⟨rfl,rfl⟩
  | @cons x y _ _ hxy _ ih =>
    rw [List.find?_cons, List.find?_cons, hxy.1]
    cases decide (x.1 = f) with
    | true => exact .inr ⟨x.2,y.2,rfl,rfl,hxy.2⟩
    | false => exact ih

/-- What a node accesses is what it accessed before its subtrees were visited. -/
theorem ShowsAll.accessed? {c d : Node} (h : ShowsAll t c.subtrees d.subtrees)
    (hl : d.label = c.label) (q : Path) : d.accessed? q = c.accessed? q := by
  have hname : (d.child? .object).bind identifierName? = (c.child? .object).bind identifierName? := by
    obtain ⟨hc,hd⟩ | ⟨a,b,hc,hd,hshows⟩ := h.child? .object
    · rw [hc, hd]
    · rw [hc, hd]
      exact hshows.identifierName?
  rw [Node.accessed?, Node.accessed?, hl, h.index? .object, hname]

theorem Shows.accessed? {c d : Node} (h : Shows t c d) {key : Text} (hkey : d.memberName? = some key)
    (q : Path) : d.accessed? q = c.accessed? q := by
  obtain ⟨hl,hall⟩ | ⟨-,-,hmember⟩ := h.cases
  · exact hall.accessed? hl q
  · unfold memberName? at hkey
    split at hkey
    · rename_i computed hl
      exact absurd hl (hmember computed)
    · cases hkey

/-- The operation behind a visited call or read is filed under the identifier that the node went
through before. -/
theorem ShowsAll.access_iff {c d : Node} (h : ShowsAll t c.subtrees d.subtrees)
    (hl : d.label = c.label) {op : Operation} (q : Path) : d.access?.bind t.member? = some op ↔
      ∃ o key, c.through? q = some o ∧ d.access?.bind memberName? = some key ∧
        t.lookup o.name key = some op := by
  by_cases hcall : c.label = .callExpression
  · have haccess : d.access? = d.child? .callee := by rw [access?, hl, hcall]
    have hthrough : c.through? q = (c.index? .callee).bind fun i =>
        (c.child? .callee).bind fun callee => callee.accessed? (q ++ [i]) := by
      rw [through?, hcall]
      rfl
    rw [haccess, hthrough]
    obtain ⟨-,hd⟩ | ⟨a,b,hc,hd,hshows⟩ := h.child? .callee
    · simp [hd]
    · obtain ⟨i,hi⟩ := exists_index? hc
      simp only [hi, hc, hd, Option.bind_some]
      rw [member?_eq_some_iff (q ++ [i])]
      refine exists_congr fun o => exists_congr fun key => and_congr_left fun hkey => ?_
      rw [hshows.accessed? hkey.1]
  · have hthrough : c.through? q = c.accessed? q := by
      unfold through?
      split
      · rename_i hcall'
        exact absurd hcall' hcall
      · rfl
    rw [access?_of_ne (hl ▸ hcall), hthrough, Option.bind_some, Option.bind_some, member?_eq_some_iff q,
      h.accessed? hl]

/-- A visit replaces calls and reads by the names in them, whatever these stand for. -/
theorem replaced_visit_iff (ctx : Context) (c : Node) (e : Replacement) (q : Path) :
    ((proxyRule t).visit ctx c).replaced = some e ↔
      ∃ o key op r, c.through? q = some o ∧
        ((proxyRule t).visit ctx c).kept.access?.bind memberName? = some key ∧
        t.lookup o.name key = some op ∧
        op.outcome? ((proxyRule t).visit ctx c).kept = some r ∧
        (c.label ≠ .callExpression → Context.isTarget ctx = false) ∧ e = .node r := by
  obtain ⟨m,l,cs⟩ := c
  have hall : ShowsAll t (marked m l cs).subtrees
      (marked m l ((proxyRule t).visitAll l [] cs).1).subtrees := showsAll_visitAll l [] cs
  have hreplaced : ((proxyRule t).visit ctx (.marked m l cs)).replaced =
      ((proxyRule t).finish ctx (.marked m l ((proxyRule t).visitAll l [] cs).1)).replaced := rfl
  rw [hreplaced, kept_visit, replaced_finish, Option.ite_none_left_eq_some, Option.map_eq_some_iff]
  constructor
  · rintro ⟨hplace,r,hr,rfl⟩
    obtain ⟨op,hop,hr⟩ := Option.bind_eq_some_iff.mp hr
    obtain ⟨o,key,ho,hkey,hlookup⟩ := (hall.access_iff rfl q).mp hop
    exact ⟨o,key,op,r,ho,hkey,hlookup,hr,fun hl => by simpa [label] using fun h => hplace ⟨hl,h⟩,rfl⟩
  · rintro ⟨o,key,op,r,ho,hkey,hlookup,hr,hplace,rfl⟩
    refine ⟨fun h => ?_,r,?_,rfl⟩
    · rw [hplace h.1] at h
      cases h.2
    · rw [(hall.access_iff rfl q).mpr ⟨o,key,ho,hkey,hlookup⟩]
      exact hr

end Visited

/-! ### Programs -/

/-- The visits of inlining to the nodes of a tree. -/
def proxyVisits (tree : Node) : List Rule.Visited :=
  (proxyRule (proxies [] tree)).visits Rule.top [] tree

/-- A call or read goes through `o`, and becomes `r` by an operation of the object that `d` names: of
the declarators of proxy objects under this name, the last one. -/
structure Inlines (tree : Node) (x : Rule.Visited) (o d : Occurrence) (r : Node) : Prop where
  accessed : ((tree.at? x.place).bind fun c => c.through? x.place) = some o
  /-- A member that is not called is read, not written. -/
  read : tree.labelAt? x.place ≠ some .callExpression → Context.isTarget x.context = false
  named : d.name = o.name
  supplied : ∃ ops key op, tree.Supplies d ops ∧
    x.outcome.kept.access?.bind memberName? = some key ∧
      (ops.find? fun m => m.1 = key).map Prod.snd = some op ∧ op.outcome? x.outcome.kept = some r

theorem replaced_iff {tree : Node} {x : Rule.Visited} (hx : x ∈ proxyVisits tree) (e : Replacement) :
    x.outcome.replaced = some e ↔ ∃ o d r, Inlines tree x o d r ∧ e = .node r := by
  obtain ⟨q,c,hq,hc,hv⟩ := Rule.mem_visits hx
  obtain rfl : x.place = q := hq
  have hlabel : tree.labelAt? x.place = some c.label := by rw [labelAt?, hc, Option.map_some]
  have hiff := replaced_visit_iff (t := proxies [] tree) x.context c e x.place
  rw [← hv] at hiff
  rw [hiff]
  constructor
  · rintro ⟨o,key,op,r,ho,hkey,hlookup,hr,hread,rfl⟩
    rw [lookup_proxies] at hlookup
    obtain ⟨entry,hentry,hop⟩ := Option.bind_eq_some_iff.mp hlookup
    obtain ⟨i,hsupplies⟩ := supplies_of_lastProxy? hentry
    refine ⟨o,⟨o.name,entry.1 ++ [i],false⟩,r,⟨?_,fun hl => hread ?_,rfl,?_⟩,rfl⟩
    · rw [hc]
      exact ho
    · rintro hcall
      exact hl (by rw [hlabel, hcall])
    · exact ⟨_,key,op,hsupplies,hkey,hop,hr⟩
  · rintro ⟨o,d,r,hinlines,rfl⟩
    obtain ⟨ops,key,op,hsupplies,hkey,hop,hr⟩ := hinlines.supplied
    obtain ⟨s,-,-,-,hlast,-⟩ := hsupplies
    have ho := hinlines.accessed
    rw [hc] at ho
    refine ⟨o,key,op,r,ho,hkey,?_,hr,fun hl => hinlines.read ?_,rfl⟩
    · rw [lookup_proxies, ← hinlines.named, hlast]
      exact hop
    · rw [hlabel]
      exact fun h => hl (Option.some.inj h)

/-- The changes that inlining counts are the accesses that it replaces. -/
theorem count_proxyCalls {tree : Node} (hm : tree.hasMarks = false) : (proxyCalls tree).2 =
    (proxyVisits tree).countP fun x => x.outcome.replaced.isSome := by
  have hrun (t : ProxyTable) : ((proxyRule t).run tree).2 =
      ((proxyRule t).visits Rule.top [] tree).countP fun x => x.outcome.replaced.isSome := by
    rw [Rule.run, hm]
    exact proxyRule_counts.visit tree Rule.top []
  rw [proxyCalls]
  split
  · -- An empty table is not applied, and would replace nothing.
    rename_i hnone
    refine (List.countP_eq_zero.mpr fun x hx hsome => ?_).symm
    obtain ⟨e,he⟩ := Option.isSome_iff_exists.mp hsome
    obtain ⟨o,d,r,hinlines,-⟩ := (replaced_iff hx e).mp he
    obtain ⟨ops,key,op,⟨s,-,-,-,hlast,-⟩,-,hop,-⟩ := hinlines.supplied
    have hlookup := lookup_proxies tree d.name key
    rw [hlast, hnone] at hlookup
    exact absurd (hlookup.trans hop) nofun
  · exact hrun _

/-- Calls and reads are rewritten by the names of proxy objects. A rewrite goes through the binding
of the object exactly if the object is declared in the innermost scope around the access that
declares the name. -/
theorem proxyCalls_scope (tree : Node) (h : tree.IsProgram) (hd : tree.DeclaratorsOnly)
    (hm : tree.hasMarks = false) :
    (proxyCalls tree).2 = (proxyVisits tree).countP (fun x => x.outcome.replaced.isSome) ∧
      ∀ x ∈ proxyVisits tree,
        (∀ e, x.outcome.replaced = some e ↔ ∃ o d r, Inlines tree x o d r ∧ e = .node r) ∧
        ∀ o d r, Inlines tree x o d r →
          ((∃ b ∈ tree.scope.allBindings, o ∈ b.references ∧ d ∈ b.declarations) ↔
            ∃ around s kind, tree.RefersAt around o ∧ tree.Innermost around o.name s ∧
              tree.DeclaredIn s kind d) :=
  ⟨count_proxyCalls hm,fun _ hx => ⟨replaced_iff hx,fun _ _ _ hinlines =>
    refers_to_iff h hd hinlines.named⟩⟩

/-- A parameter of the name of an object: `var p = { s: "a" }; function f(p) { return p.s; }
f({ s: "b" });`. -/
def shadowed : Node :=
  let object (value : String) : Node :=
    .mk .objectExpression
      [(.properties, .mk (.property false false false "init")
        [(.key, .identifier "s"), (.value, .ofText (Text.ofString value))])]
  let access : Node :=
    .mk (.memberExpression false) [(.object, .identifier "p"), (.property, .identifier "s")]
  .mk (.program "script")
    [(.body, .mk (.variableDeclaration "var")
      [(.declarations, .mk .variableDeclarator [(.id, .identifier "p"), (.init, object "a")])]),
     (.body, .mk (.functionDeclaration {} none)
       [(.id, .identifier "f"), (.params, .identifier "p"),
        (.body, .block [.mk .returnStatement [(.argument, access)]])]),
     (.body, .mk (.expressionStatement none none)
       [(.expression, .call (.identifier "f") [object "b"])])]

/-- The parameter is read and its string is that of the object of the same name. -/
theorem proxyCalls_scope_shadowed :
    (proxyCalls shadowed).2 = 1 ∧
      ∃ x ∈ proxyVisits shadowed, ∃ o d r, x.outcome.replaced = some (.node r) ∧
        Inlines shadowed x o d r ∧ o = ⟨"p",[1, 2, 0, 0, 0],false⟩ ∧ d = ⟨"p",[0, 0, 0],false⟩ ∧
          ¬∃ around s kind, shadowed.RefersAt around o ∧ shadowed.Innermost around o.name s ∧
            shadowed.DeclaredIn s kind d := by
  have hd : shadowed.DeclaratorsOnly := by
    simp [shadowed, Node.declaratorsOnly_marked, Node.label, Node.identifier, Node.block, Node.call,
      Node.ofText]
  obtain ⟨hcount,hall⟩ := proxyCalls_scope shadowed ⟨"script",rfl⟩ hd rfl
  have hplaces : ((proxyVisits shadowed).filter fun x => x.outcome.replaced.isSome).map
      Rule.Visited.place = [[1, 2, 0, 0]] := by decide +kernel
  obtain ⟨x,hfilter,hplace⟩ := List.map_eq_singleton_iff.mp hplaces
  obtain ⟨hx,hsome⟩ := List.mem_filter.mp (hfilter ▸ List.mem_singleton_self x)
  obtain ⟨e,he⟩ := Option.isSome_iff_exists.mp hsome
  obtain ⟨hreplaced,hscope⟩ := hall x hx
  obtain ⟨o,d,r,hinlines,rfl⟩ := (hreplaced e).mp he
  have ho : o = ⟨"p",[1, 2, 0, 0, 0],false⟩ := by
    have haccessed := hinlines.accessed
    rw [hplace] at haccessed
    exact (Option.some.inj haccessed).symm
  have hdecl : d = ⟨"p",[0, 0, 0],false⟩ := by
    obtain ⟨ops,-,-,⟨s,c,i,-,hlast,hc,-,hi,hpath,htag,-⟩,-⟩ := hinlines.supplied
    have hname : d.name = "p" := hinlines.named.trans (congrArg Occurrence.name ho)
    have hs : (shadowed.lastProxy? "p").map Prod.fst = some [0, 0] := by decide +kernel
    rw [← hname, hlast] at hs
    obtain rfl : s = [0, 0] := Option.some.inj hs
    have hindex : ((shadowed.at? [0, 0]).bind fun c => c.index? .id) = some 0 := rfl
    rw [hc, Option.bind_some, hi] at hindex
    obtain rfl : i = 0 := Option.some.inj hindex
    obtain ⟨name,path,isTag⟩ := d
    obtain rfl := hname
    obtain rfl := hpath
    obtain rfl := htag
    rfl
  refine ⟨?_,x,hx,o,d,r,he,hinlines,ho,hdecl,fun h => ?_⟩
  · rw [hcount, List.countP_eq_length_filter, hfilter]
    rfl
  · have hbound := (hscope o d r hinlines).mpr h
    rw [ho, hdecl] at hbound
    exact absurd hbound (by decide +kernel)

end Simplify
end Unravel
