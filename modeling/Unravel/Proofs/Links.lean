import Mathlib.Data.List.Induction
import Mathlib.Data.List.Nodup
import Mathlib.Logic.Relation
import Unravel.Proofs.Tree

/-! The links from nodes to their parents, while nodes are taken out of a tree one by one. The walk
that sets the links makes them say what the nodes hold, and whenever a member leaves a row its link is
cleared, so that they say it at all times. What is left in the end depends on which nodes were to be taken
out, not on when or how often. -/

namespace Unravel

namespace Node

/-- What an edit makes of a tree depends on which nodes it takes out, not on how they are listed. -/
theorem edit_congr {gone gone' : List Path} (h : ∀ p, p ∈ gone' ↔ p ∈ gone) (put : Path → Option Node)
    (n : Node) (p : Path) : n.edit gone' put p = n.edit gone put p := by
  induction n using inductionOn generalizing p with
  | marked m l cs ih =>
    rw [edit, edit, editAll_eq, editAll_eq]
    have hcs : (cs.zipIdx.flatMap fun c => if gone'.contains (p ++ [c.2]) then []
        else [(c.1.1, c.1.2.edit gone' put (p ++ [c.2]))]) = cs.zipIdx.flatMap fun c =>
          if gone.contains (p ++ [c.2]) then [] else [(c.1.1, c.1.2.edit gone put (p ++ [c.2]))] := by
      apply List.flatMap_congr
      intro c hc
      rw [ih c.1 (List.fst_mem_of_mem_zipIdx hc)]
      simp only [List.contains_iff_mem, h]
    rw [hcs]

end Node

namespace Links
variable {k : Links} {p q : Path}

@[simp]
theorem parent_mk (above : Option Path) (ks : List Links) : (mk above ks).parent = above := rfl

@[simp]
theorem members_mk (above : Option Path) (ks : List Links) : (mk above ks).members = ks := rfl

@[simp]
theorem parentAt?_nil (k : Links) : k.parentAt? [] = k.parent := rfl

@[simp]
theorem parentAt?_cons (k : Links) (i : Nat) (q : Path) :
    k.parentAt? (i :: q) = (k.members[i]?).bind fun c => c.parentAt? q := rfl

/-- Only the link of the node itself is cleared. -/
theorem parentAt?_clear (k : Links) (p q : Path) :
    (k.clear p).parentAt? q = if q = p then none else k.parentAt? q := by
  induction p generalizing k q with
  | nil => cases q <;> simp [clear]
  | cons i p ih =>
    cases q with
    | nil => simp [clear]
    | cons j q =>
      rw [clear, parentAt?_cons, parentAt?_cons]
      simp only [members_mk, List.getElem?_modify, List.cons.injEq]
      by_cases hij : i = j
      · subst hij
        cases k.members[i]? <;> simp [ih]
      · simp [hij, Ne.symm hij]

private theorem getElem?_visitAll (gone : List Path) (p : Path) (i : Nat) (ks : List Links)
    (cs : List (Field × Node)) (j : Nat) : (visitAll gone p i ks cs)[j]? = cs[j]?.map fun c =>
      let k := (ks[j]?).getD unset
      if p ++ [i + j] ∈ gone then k else visit gone (p ++ [i + j]) (.mk (some p) k.members) c.2 := by
  induction cs generalizing i j ks with
  | nil => simp [visitAll]
  | cons c cs ih =>
    rw [visitAll]
    cases j with
    | zero => cases ks <;> simp
    | succ j => simp [ih, Nat.add_right_comm, Nat.add_assoc, List.getElem?_tail]

/-- What the links of a node would say: the node above, unless there is no such node or it is gone. -/
def expected (gone : List Path) (p : Path) (n : Node) (q : Path) : Option Path :=
  if (n.at? q).isSome ∧ p ++ q ∉ gone then some (p ++ q.dropLast) else none

/-- A walk over a tree gives every node the node above for its parent, if the links are so already in
what is gone. -/
theorem parentAt?_visit {gone : List Path} {n : Node}
    (h : ∀ q, (∃ t, t ≠ [] ∧ t <+: q ∧ p ++ t ∈ gone) → k.parentAt? q = expected gone p n q)
    (hq : q ≠ []) : (visit gone p k n).parentAt? q = expected gone p n q := by
  induction q generalizing n p k with
  | nil => exact absurd rfl hq
  | cons i q ih =>
    obtain ⟨m,l,cs⟩ := n
    rw [visit, parentAt?_cons]
    simp only [members_mk, getElem?_visitAll, Nat.zero_add]
    cases hc : cs[i]? with
    | none => simp [expected, hc]
    | some c =>
      have hbelow (q : Path) (hq : q ≠ []) :
          expected gone p (.marked m l cs) (i :: q) = expected gone (p ++ [i]) c.2 q := by
        simp [expected, hc, List.dropLast_cons_of_ne_nil hq]
      have hold (q : Path) : ((k.members[i]?).getD unset).parentAt? q = k.parentAt? (i :: q) := by
        rw [parentAt?_cons]
        cases k.members[i]? with
        | none => cases q <;> simp [unset]
        | some c => rfl
      by_cases hgone : p ++ [i] ∈ gone
      · have hout := h (i :: q) ⟨[i],by simp,by simp,hgone⟩
        simp only [hgone, Option.map_some, Option.bind_some, if_true, hold, hout]
      · simp only [hgone, Option.map_some, Option.bind_some, if_false]
        cases q with
        | nil =>
          obtain ⟨m',l',cs'⟩ := c.2
          simp [expected, hc, hgone, visit]
        | cons j q =>
          rw [hbelow _ (by simp)]
          refine ih (fun q hq => ?_) (by simp)
          obtain ⟨t,hne,htq,ht⟩ := hq
          cases q with
          | nil => exact absurd (List.prefix_nil.mp htq) hne
          | cons a q =>
            rw [← hbelow _ (by simp), ← h (i :: a :: q) ⟨i :: t,by simp,by simpa using htq,by simpa using ht⟩,
              ← hold]
            rfl

end Links

namespace Forest
open Relation

/-- Whether a position is a place in a row of the whole tree. -/
def inRow (f : Forest) (p : Path) : Bool :=
  match f.tree.at? p.dropLast, p.getLast? with
  | some parent, some i =>
    match parent.subtrees[i]? with
    | some (field, _) => parent.label.isRow field
    | none => false
  | _, _ => false


variable {f g : Forest} {p q : Path}

/-! ### What nodes hold -/

/-- The node at one place holds the node at another in one of its slots. -/
def Holds (f : Forest) (p q : Path) : Prop := ∃ field, (field, q) ∈ f.held p

theorem mem_held {field : Field} : (field, q) ∈ f.held p ↔
    ∃ n i c, f.tree.at? p = some n ∧ n.subtrees[i]? = some (field, c) ∧ q = p ++ [i] ∧
      q ∉ f.detached := by
  unfold held
  cases hn : f.tree.at? p with
  | none => simp
  | some n =>
    simp only [Option.map_some, Option.getD_some, List.mem_map, List.mem_filter, Prod.exists,
      List.mem_zipIdx_iff_getElem?, Prod.mk.injEq, Option.some.injEq]
    constructor
    · rintro ⟨_,c,i,⟨hc,hout⟩,rfl,rfl⟩
      exact ⟨n,i,c,rfl,hc,rfl,by simpa using hout⟩
    · rintro ⟨_,i,c,rfl,hc,rfl,hout⟩
      exact ⟨field,c,i,⟨hc,by simpa using hout⟩,rfl,rfl⟩

private theorem map_filter_eq_flatMap {α β : Type} (test : α → Bool) (F : α → β) (xs : List α) :
    (xs.filter test).map F = xs.flatMap fun x => if test x then [F x] else [] := by
  induction xs with
  | nil => rfl
  | cons x xs ih => cases h : test x <;> simp [h, ih]

/-- A node consists of what it holds. -/
theorem node?_eq {n : Node} (h : f.tree.at? p = some n) : f.node? p =
    some (n.update n.label ((f.held p).map fun m => (m.1, (f.node? m.2).getD default))) := by
  obtain ⟨m,l,cs⟩ := n
  have hmember (c : (Field × Node) × Nat) (hc : c ∈ cs.zipIdx) :
      f.node? (p ++ [c.2]) = some (c.1.2.edit f.detached (fun _ => none) (p ++ [c.2])) := by
    have hat : f.tree.at? (p ++ [c.2]) = some c.1.2 := by
      rw [Node.at?_append, h, Option.bind_some, Node.at?_cons, List.mem_zipIdx_iff_getElem?.mp hc]
      rfl
    rw [node?, hat, Option.map_some]
  have hcs : (cs.zipIdx.flatMap fun c => if f.detached.contains (p ++ [c.2]) then []
      else [(c.1.1, c.1.2.edit f.detached (fun _ => none) (p ++ [c.2]))]) =
        (f.held p).map fun m => (m.1, (f.node? m.2).getD default) := by
    simp only [held, h, Option.map_some, Option.getD_some, List.map_map, Node.subtrees]
    rw [map_filter_eq_flatMap]
    apply List.flatMap_congr
    intro c hc
    cases hd : f.detached.contains (p ++ [c.2]) with
    | true => simp
    | false => simp [hmember c hc]
  rw [node?, h, Option.map_some, Node.edit, Node.editAll_eq]
  exact congrArg some (congrArg (Node.marked m l) hcs)

/-- What is held at a place is held once. -/
theorem held_nodup (f : Forest) (p : Path) : ((f.held p).map Prod.snd).Nodup := by
  unfold held
  cases f.tree.at? p with
  | none => simp
  | some n =>
    simp only [Option.map_some, Option.getD_some, List.map_map]
    have hindices : (n.subtrees.zipIdx.map Prod.snd).Nodup := by
      rw [List.zipIdx_map_snd]
      exact List.nodup_range'
    have hkept := hindices.sublist (List.filter_sublist.map Prod.snd :
      ((n.subtrees.zipIdx.filter fun c => !f.detached.contains (p ++ [c.2])).map Prod.snd).Sublist _)
    have hplaces := hkept.map (f := fun i => p ++ [i]) fun i j hij => by simpa using hij
    rwa [List.map_map] at hplaces

theorem holds_concat {i : Nat} : f.Holds p (q ++ [i]) ↔
    p = q ∧ q ++ [i] ∉ f.detached ∧ ∃ n, f.tree.at? (q ++ [i]) = some n := by
  simp only [Holds, mem_held]
  constructor
  · rintro ⟨field,n,j,c,hn,hc,heq,hout⟩
    obtain ⟨rfl,hij⟩ := List.append_inj' heq rfl
    obtain rfl : i = j := by simpa using hij
    refine ⟨rfl,hout,c,?_⟩
    rw [Node.at?_append, hn]
    simp [Node.at?, hc]
  · rintro ⟨rfl,hout,n,hn⟩
    rw [Node.at?_append] at hn
    obtain ⟨parent,hparent,hn⟩ := Option.bind_eq_some_iff.mp hn
    obtain ⟨e,he,-⟩ := Option.bind_eq_some_iff.mp hn
    exact ⟨e.1,parent,i,e.2,hparent,he,rfl,hout⟩

theorem not_holds_nil : ¬ f.Holds p [] := by
  rintro ⟨field,h⟩
  obtain ⟨n,i,c,-,-,heq,-⟩ := mem_held.mp h
  simp at heq

/-! ### Links -/

/-- The links say what the nodes hold: the parent of a node is the one that holds it. -/
def Linked (f : Forest) : Prop := ∀ q p, f.parent? q = some p ↔ f.Holds p q

/-- The links of nodes, by places. -/
theorem linked_iff : f.Linked ↔ f.links.parent = none ∧
    ∀ q, q ≠ [] → f.parent? q = Links.expected f.detached [] f.tree q := by
  have hexpected (q : Path) (i : Nat) (p : Path) :
      Links.expected f.detached [] f.tree (q ++ [i]) = some p ↔ f.Holds p (q ++ [i]) := by
    rw [holds_concat, Links.expected]
    simp only [List.nil_append, List.dropLast_concat]
    split
    · rename_i h
      rw [Option.some.injEq, eq_comm, and_iff_left ⟨h.2,Option.isSome_iff_exists.mp h.1⟩]
    · rename_i h
      simp only [reduceCtorEq, false_iff]
      exact fun hall => h ⟨Option.isSome_iff_exists.mpr hall.2.2,hall.2.1⟩
  constructor
  · intro h
    refine ⟨Option.eq_none_iff_forall_ne_some.mpr fun p hp => not_holds_nil ((h [] p).mp hp),
      fun q hq => ?_⟩
    obtain ⟨r,i,rfl⟩ := (List.eq_nil_or_concat' q).resolve_left hq
    exact Option.ext fun p => (h _ p).trans (hexpected r i p).symm
  · rintro ⟨hroot,h⟩ q p
    rcases List.eq_nil_or_concat' q with rfl | ⟨r,i,rfl⟩
    · rw [parent?, Links.parentAt?_nil, hroot]
      simp [not_holds_nil]
    · rw [h _ (by simp)]
      exact hexpected r i p

/-- The walk over a tree links it. -/
theorem linked_link (tree : Node) : (link { tree := tree }).Linked := by
  refine linked_iff.mpr ⟨?_,fun q hq => Links.parentAt?_visit (fun q ⟨t,_,_,ht⟩ => ?_) hq⟩
  · obtain ⟨m,l,cs⟩ := tree
    rfl
  · cases ht

/-- Another walk leaves a linked tree linked, also where nodes are gone. -/
theorem Linked.link (h : f.Linked) : f.link.Linked := by
  obtain ⟨hroot,h⟩ := linked_iff.mp h
  refine linked_iff.mpr ⟨?_,fun q hq => Links.parentAt?_visit (fun q ⟨t,hne,ht,_⟩ => h q ?_) hq⟩
  · obtain ⟨⟨m,l,cs⟩,detached,links⟩ := f
    exact hroot
  · rintro rfl
    exact hne (List.prefix_nil.mp ht)

section Linked
variable (hl : f.Linked)
include hl

theorem parent?_concat (q : Path) (i : Nat) : f.parent? (q ++ [i]) =
    if (f.tree.at? (q ++ [i])).isSome ∧ q ++ [i] ∉ f.detached then some q else none := by
  rw [(linked_iff.mp hl).2 _ (by simp), Links.expected]
  simp only [List.nil_append, List.dropLast_concat]

theorem eq_of_parent? (h : f.parent? p = some q) : q = p.dropLast := by
  rcases List.eq_nil_or_concat' p with rfl | ⟨r,i,rfl⟩
  · exact absurd ((hl [] q).mp h) not_holds_nil
  · rw [parent?_concat hl] at h
    split at h
    · rw [List.dropLast_concat]
      exact (Option.some.inj h).symm
    · cases h

theorem ancestors_concat {n : Node} (hn : f.tree.at? (q ++ [i]) = some n) : f.ancestors (q ++ [i]) =
    if q ++ [i] ∈ f.detached then [] else q :: f.ancestors q := by
  rw [ancestors, List.length_append, List.length_singleton, ancestorsFrom, parent?_concat hl, hn]
  by_cases hout : q ++ [i] ∈ f.detached
  · simp [hout]
  · simp [hout, ancestors]

/-- The chain of parents of a node leads through the nodes above it. -/
theorem mem_ancestors_iff {a : Path} {n : Node} (hn : f.tree.at? q = some n) :
    a ∈ f.ancestors q ↔ TransGen f.Holds a q := by
  induction q using List.reverseRecOn generalizing n with
  | nil =>
    constructor
    · intro h
      simp [ancestors, ancestorsFrom] at h
    · intro h
      obtain ⟨b,-,hb⟩ := TransGen.tail'_iff.mp h
      exact absurd hb not_holds_nil
  | append_singleton q i ih =>
    obtain ⟨c,hc,-⟩ := Option.bind_eq_some_iff.mp ((Node.at?_append _ q [i]).symm.trans hn)
    rw [ancestors_concat hl hn, TransGen.tail'_iff]
    simp only [holds_concat, hn]
    by_cases hout : q ++ [i] ∈ f.detached
    · simp [hout]
    · simp only [hout, if_false, List.mem_cons, ih hc, reflTransGen_iff_eq_or_transGen]
      constructor
      · rintro (rfl | h)
        · exact ⟨_,.inl rfl,rfl,not_false,n,rfl⟩
        · exact ⟨_,.inr h,rfl,not_false,n,rfl⟩
      · rintro ⟨b,h,rfl,-⟩
        exact h.imp_left Eq.symm

/-- A node is inside one of some nodes if that is above it. -/
theorem isInside_iff {among : List Path} {n : Node} (hn : f.tree.at? q = some n) :
    f.isInside q among = true ↔ ∃ a ∈ among, TransGen f.Holds a q := by
  simp only [isInside, List.any_eq_true, List.contains_iff_mem, mem_ancestors_iff hl hn]
  exact exists_congr fun a => and_comm

/-- A node is attached if it can be reached from the root. -/
theorem isAttached_iff {n : Node} (hn : f.tree.at? q = some n) :
    f.isAttached q = true ↔ ReflTransGen f.Holds [] q := by
  rw [isAttached, Bool.or_eq_true, List.isEmpty_iff, List.contains_iff_mem, mem_ancestors_iff hl hn,
    reflTransGen_iff_eq_or_transGen]

end Linked

/-! ### Attempts to take nodes out -/

theorem inRow_iff : f.inRow q = true ↔ ∃ p n i field c, f.tree.at? p = some n ∧
    n.subtrees[i]? = some (field, c) ∧ q = p ++ [i] ∧ n.label.isRow field = true := by
  rcases List.eq_nil_or_concat' q with rfl | ⟨r,i,rfl⟩
  · simp [inRow]
  · simp only [inRow, List.dropLast_concat, List.getLast?_concat]
    constructor
    · intro h
      cases hn : f.tree.at? r with
      | none => simp [hn] at h
      | some n =>
        cases hc : n.subtrees[i]? with
        | none => simp [hn, hc] at h
        | some c => exact ⟨r,n,i,c.1,c.2,hn,hc,rfl,by simpa [hn, hc] using h⟩
    · rintro ⟨p,n,j,field,c,hn,hc,heq,hrow⟩
      obtain ⟨rfl,hij⟩ := List.append_inj' heq rfl
      obtain rfl : i = j := by simpa using hij
      simpa [hn, hc] using hrow

theorem isSome_rowOf? : (f.rowOf? p q).isSome = true ↔
    ∃ field, (field, q) ∈ f.held p ∧ (f.label p).isRow field = true := by
  simp only [rowOf?, Option.isSome_map, List.find?_isSome, Prod.exists, Bool.and_eq_true,
    decide_eq_true_eq]
  constructor
  · rintro ⟨field,_,h,hrow,rfl⟩
    exact ⟨field,h,hrow⟩
  · rintro ⟨field,h,hrow⟩
    exact ⟨field,q,h,hrow,rfl⟩

/-- What is taken out leaves the row that the parent named by the link holds it in, and its link goes
with it. -/
theorem detach_eq_ok_iff : f.detach q = .ok g ↔
    (∃ p, f.parent? q = some p ∧ ∃ field, (field, q) ∈ f.held p ∧ (f.label p).isRow field = true) ∧
      { f with detached := q :: f.detached, links := f.links.clear q } = g := by
  unfold detach
  cases f.parent? q with
  | none => simp
  | some p =>
    simp only [← isSome_rowOf?]
    cases hrow : f.rowOf? p q <;> simp [hrow]

theorem parent?_of_detach (h : f.detach q = .ok g) (r : Path) :
    g.parent? r = if r = q then none else f.parent? r := by
  obtain ⟨-,rfl⟩ := detach_eq_ok_iff.mp h
  exact Links.parentAt?_clear f.links q r

theorem held_of_detach (h : f.detach q = .ok g) (p : Path) :
    g.held p = (f.held p).filter fun m => m.2 ≠ q := by
  obtain ⟨-,rfl⟩ := detach_eq_ok_iff.mp h
  unfold held
  cases f.tree.at? p with
  | none => rfl
  | some n =>
    simp only [Option.map_some, Option.getD_some, List.filter_map, List.filter_filter]
    congr 1
    apply List.filter_congr
    intro c hc
    by_cases heq : p ++ [c.2] = q <;> simp [heq]

/-- The node leaves its row and loses its link at once, so the links stay right. -/
theorem Linked.detach (hl : f.Linked) (h : f.detach q = .ok g) : g.Linked := by
  intro r p
  have hheld : g.Holds p r ↔ r ≠ q ∧ f.Holds p r := by
    simp only [Holds, held_of_detach h, List.mem_filter, decide_eq_true_eq, exists_and_right]
    exact and_comm
  rw [parent?_of_detach h, hheld, ← hl]
  split <;> simp_all

/-- A node can be taken out if a row of its parent holds it. -/
theorem exists_detach_iff (hl : f.Linked) : (∃ g, f.detach q = .ok g) ↔
    ∃ p field, (field, q) ∈ f.held p ∧ (f.label p).isRow field = true := by
  simp only [detach_eq_ok_iff, exists_and_left, exists_eq', and_true]
  refine exists_congr fun p => ⟨And.right,fun h => ⟨(hl q p).mpr ?_,h⟩⟩
  exact h.imp fun field h => h.1

theorem exists_detach_iff_inRow (hl : f.Linked) :
    (∃ g, f.detach q = .ok g) ↔ q ∉ f.detached ∧ f.inRow q = true := by
  rw [exists_detach_iff hl, inRow_iff]
  constructor
  · rintro ⟨p,field,hheld,hrow⟩
    obtain ⟨n,i,c,hn,hc,rfl,hout⟩ := mem_held.mp hheld
    exact ⟨hout,p,n,i,field,c,hn,hc,rfl,by simpa [label, hn] using hrow⟩
  · rintro ⟨hout,p,n,i,field,c,hn,hc,rfl,hrow⟩
    exact ⟨p,field,mem_held.mpr ⟨n,i,c,hn,hc,rfl,hout⟩,by simpa [label, hn] using hrow⟩

/-- Taking a node out of a linked tree fails for the root, for a node that is out already and for
one in no row; otherwise the node is taken out. -/
theorem detach_cases (hl : f.Linked) (p : Path) :
    (f.detach p = .ok { f with detached := p :: f.detached, links := f.links.clear p } ∧ p ≠ [] ∧
        f.inRow p = true) ∨
      ((∃ e, f.detach p = .error e) ∧ (p = [] ∨ p ∈ f.detached ∨ f.inRow p = false)) := by
  cases hd : f.detach p with
  | ok g =>
    obtain ⟨-,hrow⟩ := (exists_detach_iff_inRow hl).mp ⟨g,hd⟩
    obtain ⟨-,rfl⟩ := detach_eq_ok_iff.mp hd
    refine .inl ⟨rfl,?_,hrow⟩
    rintro rfl
    simp [inRow] at hrow
  | error e =>
    refine .inr ⟨⟨e,rfl⟩,.inr ?_⟩
    by_contra! h
    obtain ⟨g,hg⟩ := (exists_detach_iff_inRow hl).mpr ⟨h.1,by simpa using h.2⟩
    rw [hd] at hg
    cases hg

/-- Only the node itself leaves the row that held it. -/
theorem held_detach (h : f.detach q = .ok g) {field : Field}
    (hheld : (field, q) ∈ f.held p) :
    g.held p = (f.held p).erase (field, q) ∧ ∀ r, r ≠ p → g.held r = f.held r := by
  have hplaces := f.held_nodup p
  constructor
  · rw [held_of_detach h, (List.Nodup.of_map _ hplaces).erase_eq_filter]
    apply List.filter_congr
    intro m hm
    by_cases heq : m.2 = q
    · have hsame : m = (field, q) := List.inj_on_of_nodup_map hplaces hm hheld heq
      simp [hsame]
    · have hother : m ≠ (field, q) := fun hm => heq (congrArg Prod.snd hm)
      simp [heq, hother]
  · intro r hr
    rw [held_of_detach h, List.filter_eq_self]
    intro m hm
    rw [decide_eq_true_eq]
    rintro rfl
    obtain ⟨n,i,c,-,-,heq,-⟩ := mem_held.mp hheld
    obtain ⟨n',j,c',-,-,heq',-⟩ := mem_held.mp hm
    exact hr (List.append_inj' (heq'.symm.trans heq) rfl).1

/-- Tries to take a node out. A failure leaves everything as it is. -/
def attempt (f : Forest) (p : Path) : Forest := (f.detach p).toOption.getD f

/-- A tree, once it is linked, after attempts to take nodes out. -/
def afterAttempts (tree : Node) (calls : List Path) : Forest :=
  calls.foldl attempt (link { tree := tree })

theorem attempt_spec (hl : f.Linked) (p : Path) :
    (f.attempt p).tree = f.tree ∧ (f.attempt p).Linked ∧
      ∀ q, q ∈ (f.attempt p).detached ↔ q ∈ f.detached ∨ q = p ∧ f.inRow p = true := by
  unfold attempt
  rcases detach_cases hl p with ⟨hd,-,hr⟩ | ⟨⟨e,hd⟩,hp⟩
  · have hlinked := hl.detach hd
    rw [hd]
    refine ⟨rfl,hlinked,fun q => ?_⟩
    simp [Except.toOption, hr, or_comm]
  · rw [hd]
    refine ⟨rfl,hl,fun q => ⟨.inl,?_⟩⟩
    rintro (hq | ⟨rfl,hr⟩)
    · exact hq
    · rcases hp with rfl | hp | hp
      · simp [inRow] at hr
      · exact hp
      · simp [hr] at hp

/-- Of the nodes that were to be taken out those in rows are out. -/
theorem afterAttempts_spec (tree : Node) (calls : List Path) :
    (afterAttempts tree calls).tree = tree ∧ (afterAttempts tree calls).Linked ∧
      ∀ q, q ∈ (afterAttempts tree calls).detached ↔
        q ∈ calls ∧ inRow { tree := tree } q = true := by
  have hrun (f : Forest) (hl : f.Linked) : (calls.foldl attempt f).tree = f.tree ∧
      (calls.foldl attempt f).Linked ∧ ∀ q, q ∈ (calls.foldl attempt f).detached ↔
        q ∈ f.detached ∨ q ∈ calls ∧ f.inRow q = true := by
    induction calls generalizing f with
    | nil => simp [hl]
    | cons p calls ih =>
      obtain ⟨htree,hlinked,hout⟩ := attempt_spec hl p
      obtain ⟨htree',hlinked',hout'⟩ := ih (f.attempt p) hlinked
      refine ⟨htree'.trans htree,hlinked',fun q => ?_⟩
      have hrow : (f.attempt p).inRow q = f.inRow q := by simp only [inRow, htree]
      rw [List.foldl_cons, hout', hout, hrow, List.mem_cons]
      grind
  obtain ⟨htree,hlinked,hout⟩ := hrun (link { tree := tree }) (linked_link tree)
  refine ⟨htree,hlinked,fun q => ?_⟩
  rw [afterAttempts, hout]
  simp [link, inRow]

/-! ### Forests -/

/-- The links of a forest say what its nodes hold. -/
structure LinksHeld (f : Forest) : Prop where
  whole : ∀ p n, f.tree.at? p = some n → f.node? p =
    some (n.update n.label ((f.held p).map fun m => (m.1, (f.node? m.2).getD default)))
  parent : ∀ q n, f.tree.at? q = some n → ∀ p, f.parent? q = some p ↔ f.Holds p q
  inside : ∀ q n, f.tree.at? q = some n → ∀ among,
    f.isInside q among = true ↔ ∃ a ∈ among, TransGen f.Holds a q
  attached : ∀ q n, f.tree.at? q = some n → (f.isAttached q = true ↔ ReflTransGen f.Holds [] q)

/-- What comes of an attempt to take a node out. -/
structure Attempted (f : Forest) (q : Path) : Prop where
  success : (∃ g, f.detach q = .ok g) ↔
    ∃ p field, (field, q) ∈ f.held p ∧ (f.label p).isRow field = true
  removal : ∀ g, f.detach q = .ok g → f.attempt q = g ∧ g.tree = f.tree ∧
    (∀ p field, (field, q) ∈ f.held p →
      g.held p = (f.held p).erase (field, q) ∧ ∀ r, r ≠ p → g.held r = f.held r) ∧
    ∀ r, g.parent? r = if r = q then none else f.parent? r
  failure : (∀ g, f.detach q ≠ .ok g) → f.attempt q = f

theorem Linked.linksHeld (hl : f.Linked) : f.LinksHeld :=
  ⟨fun _ _ => node?_eq,fun q _ _ p => hl q p,fun _ _ hn _ => isInside_iff hl hn,
    fun _ _ => isAttached_iff hl⟩

theorem Linked.attempted (hl : f.Linked) (q : Path) : f.Attempted q := by
  refine ⟨exists_detach_iff hl,fun g h => ⟨?_,?_,fun p field => held_detach h,parent?_of_detach h⟩,
    fun h => ?_⟩
  · rw [attempt, h]
    rfl
  · obtain ⟨-,rfl⟩ := detach_eq_ok_iff.mp h
    rfl
  · rw [attempt]
    cases hd : f.detach q with
    | ok g => exact absurd hd (h g)
    | error e => rfl

/-- After any attempts to take nodes out of a linked tree the links say what the nodes hold, and a
further attempt takes out one member of a row or nothing. Attempts on the same nodes, in whatever order
and however often, leave the same forest. -/
theorem links_exact (tree : Node) (calls : List Path) :
    (afterAttempts tree calls).LinksHeld ∧ (∀ q, (afterAttempts tree calls).Attempted q) ∧
      ∀ calls', (∀ p, p ∈ calls' ↔ p ∈ calls) →
        (afterAttempts tree calls').current = (afterAttempts tree calls).current ∧
          ∀ p, (afterAttempts tree calls').node? p = (afterAttempts tree calls).node? p := by
  obtain ⟨htree,hl,hout⟩ := afterAttempts_spec tree calls
  refine ⟨hl.linksHeld,hl.attempted,fun calls' hsame => ?_⟩
  obtain ⟨htree',-,hout'⟩ := afterAttempts_spec tree calls'
  have hdetached (p : Path) :
      p ∈ (afterAttempts tree calls').detached ↔ p ∈ (afterAttempts tree calls).detached := by
    rw [hout, hout', hsame]
  constructor
  · rw [current, current, htree, htree']
    exact Node.edit_congr hdetached _ tree []
  · intro p
    rw [node?, node?, htree, htree']
    exact congrArg (Option.map · (tree.at? p)) (funext fun n => Node.edit_congr hdetached _ n p)

/-- The program `{ a; b; } if (c) d;`. -/
def nested : Node :=
  let use (name : String) : Node :=
    .mk (.expressionStatement none none) [(.expression, .identifier name)]
  .mk (.program "script")
    [(.body, .block [use "a", use "b"]),
     (.body, .mk .ifStatement [(.test, .identifier "c"), (.consequent, use "d")])]

/-- A statement goes out of a block and then the block out of the program; the statement `d;` is in no
row. What is left in the block is not attached, and the order does not matter. -/
theorem links_exact_nested :
    let f := afterAttempts nested [[0, 0], [0], [1, 1], [0]]
    ¬ReflTransGen f.Holds [] [0, 1] ∧ TransGen f.Holds [0] [0, 1] ∧ f.attempt [1, 1] = f ∧
      (afterAttempts nested [[1, 1], [0], [0, 0]]).current = f.current := by
  obtain ⟨hlinks,hattempts,hsame⟩ := links_exact nested [[0, 0], [0], [1, 1], [0]]
  refine ⟨?_,?_,?_,(hsame [[1, 1], [0], [0, 0]] ?_).1⟩
  · rw [← hlinks.attached [0, 1] _ rfl]
    decide
  · obtain ⟨a,ha,habove⟩ := (hlinks.inside [0, 1] _ rfl [[0]]).mp (by decide)
    rwa [List.mem_singleton.mp ha] at habove
  · apply (hattempts [1, 1]).failure
    intro g hg
    obtain ⟨p,field,hheld,hrow⟩ := (hattempts [1, 1]).success.mp ⟨g,hg⟩
    obtain rfl : [1] = p := Option.some.inj ((hlinks.parent [1, 1] _ rfl p).mpr ⟨field,hheld⟩)
    have hslots : ∀ m ∈ (afterAttempts nested [[0, 0], [0], [1, 1], [0]]).held [1],
        ¬((afterAttempts nested [[0, 0], [0], [1, 1], [0]]).label [1]).isRow m.1 := by decide
    exact hslots _ hheld hrow
  · intro p
    simp only [List.mem_cons, List.not_mem_nil, or_false]
    grind

end Forest
end Unravel
