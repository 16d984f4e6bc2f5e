import Unravel.Proofs.Links
import Unravel.Strings.Names

/-! What is left of a tree when nodes are taken out of it or others put in their place: the nodes
that stand at or below none of these, in the order in which they stood. -/

namespace Unravel

namespace Node

mutual
/-- The nodes that an edit keeps: the labels with the positions they had before. -/
def survivors (gone : List Path) (put : Path → Option Node) (p : Path) : Node → List (Path × Label)
  | .marked _ l cs => if (put p).isSome then [] else (p, l) :: survivorsAll gone put p 0 cs
def survivorsAll (gone : List Path) (put : Path → Option Node) (p : Path) (i : Nat) :
    List (Field × Node) → List (Path × Label)
  | [] => []
  | (_, n) :: rest =>
    if gone.contains (p ++ [i]) then survivorsAll gone put p (i + 1) rest
    else n.survivors gone put (p ++ [i]) ++ survivorsAll gone put p (i + 1) rest
end

variable {gone : List Path} {put : Path → Option Node}

private theorem survivorsAll_eq (p : Path) (i : Nat) (cs : List (Field × Node)) :
    survivorsAll gone put p i cs = (cs.zipIdx i).flatMap fun c =>
      if gone.contains (p ++ [c.2]) then [] else c.1.2.survivors gone put (p ++ [c.2]) := by
  induction cs generalizing i with
  | nil => rfl
  | cons c cs ih =>
    rw [survivorsAll, ih, List.zipIdx_cons, List.flatMap_cons]
    split <;> rfl

theorem survivors_marked (p : Path) (m : Option Nat) (l : Label) (cs : List (Field × Node)) :
    (marked m l cs).survivors gone put p =
      if (put p).isSome then []
      else (p, l) :: cs.zipIdx.flatMap fun c =>
        if gone.contains (p ++ [c.2]) then [] else c.1.2.survivors gone put (p ++ [c.2]) := by
  rw [survivors, survivorsAll_eq]

/-- A node survives if nothing at or above its position is put in, and nothing there below the root
is taken out. -/
theorem mem_survivors {n : Node} {p r : Path} {l : Label} :
    (r, l) ∈ n.survivors gone put p ↔ ∃ q, r = p ++ q ∧ n.labelAt? q = some l ∧
      ∀ t, t <+: q → put (p ++ t) = none ∧ (t ≠ [] → p ++ t ∉ gone) := by
  induction n using inductionOn generalizing p with
  | marked m l' cs ih =>
    rw [survivors_marked]
    constructor
    · intro h
      split at h
      · simp at h
      rename_i hput
      have hput : put p = none := by simpa using hput
      rcases List.mem_cons.mp h with h | h
      · obtain ⟨rfl,rfl⟩ := Prod.mk.inj h
        refine ⟨[],by simp,rfl,fun t ht => ?_⟩
        obtain rfl := List.prefix_nil.mp ht
        exact ⟨by simpa using hput,by simp⟩
      · obtain ⟨⟨c,i⟩,hc,h⟩ := List.mem_flatMap.mp h
        have hc := List.mem_zipIdx_iff_getElem?.mp hc
        split at h
        · simp at h
        rename_i hgone
        obtain ⟨q,rfl,hl,hq⟩ := (ih c (List.mem_of_getElem? hc)).mp h
        refine ⟨i :: q,by simp,by rw [labelAt?_cons, hc]; exact hl,fun t ht => ?_⟩
        cases t with
        | nil => exact ⟨by simpa using hput,by simp⟩
        | cons j t =>
          obtain ⟨rfl,htq⟩ := List.cons_prefix_cons.mp ht
          obtain ⟨hnone,hnot⟩ := hq t htq
          rw [List.append_assoc, List.singleton_append] at hnone hnot
          refine ⟨hnone,fun _ => ?_⟩
          cases t with
          | nil => simpa using hgone
          | cons k t => exact hnot (by simp)
    · rintro ⟨q,rfl,hl,hq⟩
      have hput : put p = none := by simpa using (hq [] List.nil_prefix).1
      rw [hput]
      simp only [Option.isSome_none, Bool.false_eq_true, if_false]
      cases q with
      | nil => exact List.mem_cons.mpr (.inl (by simpa using hl.symm))
      | cons i q =>
        rw [labelAt?_cons] at hl
        obtain ⟨c,hc,hl⟩ := Option.bind_eq_some_iff.mp hl
        refine List.mem_cons_of_mem _ (List.mem_flatMap.mpr
          ⟨(c, i),List.mem_zipIdx_iff_getElem?.mpr hc,?_⟩)
        have hgone : gone.contains (p ++ [i]) = false := by
          have := (hq [i] (by simp)).2 (by simp)
          simpa using this
        rw [hgone]
        simp only [Bool.false_eq_true, if_false]
        refine (ih c (List.mem_of_getElem? hc)).mpr ⟨q,by simp,hl,fun t ht => ?_⟩
        obtain ⟨hnone,hnot⟩ := hq (i :: t) (List.cons_prefix_cons.mpr ⟨rfl,ht⟩)
        rw [List.append_assoc, List.singleton_append]
        exact ⟨hnone,fun _ => hnot (by simp)⟩

/-- What is found in the labels of a tree, in visiting order. -/
def found {α : Type} (find : Label → Option α) (n : Node) : List α :=
  (n.positions []).filterMap fun e => find e.2

section Found
variable {α : Type} {find : Label → Option α}

theorem found_marked (m : Option Nat) (l : Label) (cs : List (Field × Node)) :
    found find (marked m l cs) = (find l).toList ++ cs.flatMap fun c => found find c.2 := by
  have hmoved (p q : Path) (n : Node) : (n.positions p).filterMap (fun e => find e.2) =
      (n.positions q).filterMap fun e => find e.2 := by
    induction n using inductionOn generalizing p q with
    | marked m l cs ih =>
      simp only [positions_marked, List.filterMap_cons, List.filterMap_flatMap]
      rw [List.flatMap_congr fun c hc => ih c.1 (List.fst_mem_of_mem_zipIdx hc) (p ++ [c.2]) (q ++ [c.2])]
  have hall (k : Nat) : ((cs.zipIdx k).flatMap fun c => (c.1.2.positions ([] ++ [c.2])).filterMap
      fun e => find e.2) = cs.flatMap fun c => found find c.2 := by
    induction cs generalizing k with
    | nil => rfl
    | cons c cs ih =>
      rw [List.zipIdx_cons, List.flatMap_cons, List.flatMap_cons, ih]
      congr 1
      exact hmoved _ _ _
  rw [found, positions_marked]
  simp only [List.filterMap_cons, List.filterMap_flatMap]
  rw [hall 0]
  cases find l <;> rfl

/-- What is found in an edited tree is what the survivors show, if nothing is found in what is put
in. -/
theorem found_edit (hput : ∀ t c, put t = some c → found find c = []) (n : Node) (p : Path) :
    found find (n.edit gone put p) = (n.survivors gone put p).filterMap fun e => find e.2 := by
  induction n using inductionOn generalizing p with
  | marked m l cs ih =>
    rw [survivors_marked, edit]
    cases hp : put p with
    | some c => exact hput p c hp
    | none =>
      simp only [Option.isSome_none, Bool.false_eq_true, if_false]
      rw [found_marked, editAll_eq, List.filterMap_cons, List.filterMap_flatMap, List.flatMap_assoc]
      have hchildren : (cs.zipIdx.flatMap fun c => (if gone.contains (p ++ [c.2]) then []
          else [(c.1.1, c.1.2.edit gone put (p ++ [c.2]))]).flatMap fun c => found find c.2) =
          cs.zipIdx.flatMap fun c => (if gone.contains (p ++ [c.2]) then []
            else c.1.2.survivors gone put (p ++ [c.2])).filterMap fun e => find e.2 := by
        refine List.flatMap_congr fun c hc => ?_
        split
        · rfl
        · simpa using ih c.1 (List.fst_mem_of_mem_zipIdx hc) (p ++ [c.2])
      rw [hchildren]
      cases find l <;> rfl

end Found

/-- Taking nodes out leaves the label of the root. -/
theorem label_edit_none (n : Node) (p : Path) :
    (n.edit gone (fun _ => none) p).label = n.label := by
  obtain ⟨m,l,cs⟩ := n
  rw [edit]
  rfl

/-- Taking nodes out adds none. -/
theorem mem_edit_none {n : Node} {p : Path} {c : Field × Node}
    (h : c ∈ (n.edit gone (fun _ => none) p).subtrees) : ∃ d ∈ n.subtrees, d.1 = c.1 := by
  obtain ⟨m,l,cs⟩ := n
  rw [edit] at h
  change c ∈ editAll gone _ p 0 cs at h
  rw [editAll_eq] at h
  obtain ⟨⟨d,i⟩,hd,hc⟩ := List.mem_flatMap.mp h
  refine ⟨d,List.fst_mem_of_mem_zipIdx hd,?_⟩
  split at hc
  · simp at hc
  · rw [List.mem_singleton.mp hc]

private theorem locatedAll_eq (p : Path) (i : Nat) (cs : List (Field × Node)) :
    locatedAll p i cs = (cs.zipIdx i).flatMap fun c => c.1.2.located (p ++ [c.2]) := by
  induction cs generalizing i with
  | nil => rfl
  | cons c cs ih => simp only [locatedAll, ih, List.zipIdx_cons, List.flatMap_cons]

/-- A tree lists the trees below it with the positions at which they stand. -/
theorem mem_located {n c : Node} {p r : Path} :
    (r, c) ∈ n.located p ↔ ∃ q, r = p ++ q ∧ n.at? q = some c := by
  induction n using inductionOn generalizing p with
  | marked m l cs ih =>
    rw [located, locatedAll_eq, List.mem_cons, List.mem_flatMap]
    constructor
    · rintro (h | ⟨⟨e,i⟩,he,h⟩)
      · obtain ⟨rfl,rfl⟩ := Prod.mk.inj h
        exact ⟨[],by simp,rfl⟩
      · have he := List.mem_zipIdx_iff_getElem?.mp he
        obtain ⟨q,rfl,hq⟩ := (ih e (List.mem_of_getElem? he)).mp h
        exact ⟨i :: q,by simp,by rw [at?_cons, he]; exact hq⟩
    · rintro ⟨q,rfl,hq⟩
      cases q with
      | nil => exact .inl (by simpa using (Option.some.inj hq).symm)
      | cons i q =>
        rw [at?_cons] at hq
        obtain ⟨e,he,hq⟩ := Option.bind_eq_some_iff.mp hq
        exact .inr ⟨(e, i),List.mem_zipIdx_iff_getElem?.mpr he,
          (ih e (List.mem_of_getElem? he)).mpr ⟨q,by simp,hq⟩⟩

/-- Every position is listed once. -/
theorem located_pairwise (n : Node) (p : Path) : (n.located p).Pairwise fun a b => a.1 ≠ b.1 := by
  induction n using inductionOn generalizing p with
  | marked m l cs ih =>
    rw [located, locatedAll_eq, List.pairwise_cons]
    constructor
    · intro e he heq
      obtain ⟨c,-,he⟩ := List.mem_flatMap.mp he
      obtain ⟨q,hq,-⟩ := mem_located.mp he
      simpa using congrArg List.length (heq.trans hq)
    · refine List.pairwise_flatMap.mpr ⟨fun c hc => ih c.1 (List.fst_mem_of_mem_zipIdx hc) _,?_⟩
      have hindices : cs.zipIdx.Pairwise fun a b => a.2 ≠ b.2 := by
        refine List.pairwise_map.mp (?_ : (cs.zipIdx.map Prod.snd).Nodup)
        rw [List.zipIdx_map_snd]
        exact List.nodup_range'
      refine hindices.imp fun hne x hx y hy heq => hne ?_
      obtain ⟨q,hq,-⟩ := mem_located.mp hx
      obtain ⟨r,hr,-⟩ := mem_located.mp hy
      have hpaths := (hq.symm.trans heq).trans hr
      rw [List.append_assoc, List.append_assoc] at hpaths
      exact (List.cons.inj (List.append_cancel_left hpaths)).1

end Node

namespace Forest
variable {f : Forest} {p : Path}

/-- A position in a node that was taken out. -/
def Removed (f : Forest) (p : Path) : Prop := ∃ g ∈ f.detached, g <+: p

instance (f : Forest) (p : Path) : Decidable (f.Removed p) :=
  inferInstanceAs (Decidable (∃ g ∈ f.detached, g <+: p))

theorem Removed.below {q : Path} (h : f.Removed p) (hq : p <+: q) : f.Removed q := by
  obtain ⟨g,hg,hp⟩ := h
  exact ⟨g,hg,hp.trans hq⟩

section Linked
variable (hl : f.Linked)
include hl

theorem prefix_of_mem_ancestors {q : Path} (h : q ∈ f.ancestors p) : q <+: p := by
  unfold ancestors at h
  generalize p.length = fuel at h
  induction fuel generalizing p with
  | zero => simp [ancestorsFrom] at h
  | succ fuel ih =>
    rw [ancestorsFrom] at h
    split at h
    · simp at h
    · rename_i parent hp
      obtain rfl := eq_of_parent? hl hp
      rcases List.mem_cons.mp h with rfl | h
      · exact List.dropLast_prefix p
      · exact (ih h).trans (List.dropLast_prefix p)

/-- A node that is inside one of some nodes stands below it. -/
theorem prefix_of_isInside {among : List Path} (h : f.isInside p among = true) :
    ∃ q ∈ among, q <+: p := by
  obtain ⟨q,hq,hmem⟩ := List.any_eq_true.mp h
  exact ⟨q,by simpa using hmem,prefix_of_mem_ancestors hl hq⟩

/-- A node is attached if it stands in no node taken out. -/
theorem isAttached_iff_not_removed (hroot : [] ∉ f.detached) {n : Node} (hn : f.tree.at? p = some n) :
    f.isAttached p = true ↔ ¬ f.Removed p := by
  induction p using List.reverseRecOn generalizing n with
  | nil => simpa [isAttached, Removed] using hroot
  | append_singleton q i ih =>
    obtain ⟨c,hc,-⟩ := Option.bind_eq_some_iff.mp ((Node.at?_append _ q [i]).symm.trans hn)
    have hattached : f.isAttached (q ++ [i]) = true ↔
        q ++ [i] ∉ f.detached ∧ f.isAttached q = true := by
      simp only [isAttached, ancestors_concat hl hn]
      by_cases hout : q ++ [i] ∈ f.detached
      · simp [hout]
      · cases q <;> simp
    rw [hattached, ih hc, Removed, Removed]
    simp only [List.prefix_concat_iff]
    grind

/-- In a linked tree only what stands in a node taken out is not attached. -/
theorem removed_of_not_isAttached {n : Node} (hn : f.tree.at? p = some n)
    (h : f.isAttached p = false) : f.Removed p := by
  by_cases hroot : [] ∈ f.detached
  · exact ⟨[],hroot,List.nil_prefix⟩
  · by_contra hr
    rw [(isAttached_iff_not_removed hl hroot hn).mpr hr] at h
    cases h

end Linked

end Forest
end Unravel
