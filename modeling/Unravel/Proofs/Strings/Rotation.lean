import Unravel.Proofs.Strings.Rounds

/-! The statement that rotates a table, found again after nodes were taken out of the tree. Taking
nodes out of rows gives no statement a name, a call or a form that it did not have before, so a
rotation is lost only with nodes at it, above it or in it. -/

namespace Unravel

namespace Node
variable {gone : List Path} {p : Path}

/-- What is left of a tree at a position when nodes are taken out. -/
abbrev without (gone : List Path) (p : Path) (n : Node) : Node := n.edit gone (fun _ => none) p

theorem without_marked (m : Option Nat) (l : Label) (cs : List (Field × Node)) :
    without gone p (marked m l cs) = marked m l (cs.zipIdx.flatMap fun c =>
      if gone.contains (p ++ [c.2]) then [] else [(c.1.1, without gone (p ++ [c.2]) c.1.2)]) := by
  rw [without, edit, editAll_eq]

/-- Nothing changes where nothing below is taken out. -/
theorem without_eq_self (n : Node) (h : ∀ g ∈ gone, ¬ p <+: g) : without gone p n = n := by
  induction n using inductionOn generalizing p with
  | marked m l cs ih =>
    have hkept : ∀ c ∈ cs.zipIdx, (if gone.contains (p ++ [c.2]) then []
        else [(c.1.1, without gone (p ++ [c.2]) c.1.2)]) = [c.1] := by
      intro c hc
      have hnot : (p ++ [c.2]) ∉ gone := fun hmem => h _ hmem (List.prefix_append p [c.2])
      rw [ih c.1 (List.fst_mem_of_mem_zipIdx hc) fun g hg hpg =>
        h g hg ((List.prefix_append p [c.2]).trans hpg)]
      simp [hnot]
    rw [without_marked, List.flatMap_congr hkept]
    simp [← List.map_eq_flatMap]

/-- The nodes taken out of a tree at a position stand in rows. -/
def RowsOnly (gone : List Path) (p : Path) (n : Node) : Prop :=
  ∀ q c i e, n.at? q = some c → c.subtrees[i]? = some e → p ++ q ++ [i] ∈ gone →
    c.label.isRow e.1 = true

theorem RowsOnly.subtree {m : Option Nat} {l : Label} {cs : List (Field × Node)} {i : Nat}
    {e : Field × Node} (h : RowsOnly gone p (marked m l cs)) (he : cs[i]? = some e) :
    RowsOnly gone (p ++ [i]) e.2 := by
  intro q c j d hc hd hgone
  refine h (i :: q) c j d ?_ hd (by simpa using hgone)
  rw [at?_cons, he]
  exact hc

private theorem find?_without {f : Field} {cs : List (Field × Node)} {k : Nat} {e : Field × Node}
    (hkept : ∀ i d, cs[i]? = some (f, d) → p ++ [k + i] ∉ gone)
    (he : ((cs.zipIdx k).flatMap fun c => if gone.contains (p ++ [c.2]) then []
      else [(c.1.1, without gone (p ++ [c.2]) c.1.2)]).find? (fun c => c.1 = f) = some e) :
    ∃ i d, cs[i]? = some (f, d) ∧ cs.find? (fun c => c.1 = f) = some (f, d) ∧
      e.2 = without gone (p ++ [k + i]) d := by
  induction cs generalizing k with
  | nil => cases he
  | cons c cs ih =>
    obtain ⟨g,c⟩ := c
    rw [List.zipIdx_cons, List.flatMap_cons] at he
    by_cases hg : g = f
    · subst hg
      have hnot : gone.contains (p ++ [k]) = false := by simpa using hkept 0 c rfl
      simp only [hnot, Bool.false_eq_true, if_false, List.singleton_append, decide_true,
        List.find?_cons_of_pos, Option.some.injEq] at he
      subst he
      exact ⟨0,c,rfl,by simp,rfl⟩
    · have hrest : ((cs.zipIdx (k + 1)).flatMap fun c => if gone.contains (p ++ [c.2]) then []
          else [(c.1.1, without gone (p ++ [c.2]) c.1.2)]).find? (fun c => c.1 = f) = some e := by
        split at he
        · exact he
        · simpa [hg] using he
      have hshift (i : Nat) : k + 1 + i = k + (i + 1) := by omega
      obtain ⟨i,d,hi,hfind,hd⟩ := ih (fun i d hi => hshift i ▸ hkept (i + 1) d hi) hrest
      exact ⟨i + 1,d,hi,by simpa [hg] using hfind,hshift i ▸ hd⟩

/-- A subtree in a slot that is no row is what is left of the subtree there. -/
theorem RowsOnly.child?_without {n c : Node} {f : Field} (h : RowsOnly gone p n)
    (hf : n.label.isRow f = false) (hc : (without gone p n).child? f = some c) :
    ∃ i d, RowsOnly gone (p ++ [i]) d ∧ n.child? f = some d ∧ c = without gone (p ++ [i]) d := by
  obtain ⟨m,l,cs⟩ := n
  have hkept : ∀ i d, cs[i]? = some (f, d) → p ++ [0 + i] ∉ gone := by
    intro i d hi hgone
    have hrow := h [] _ i (f, d) (at?_nil _) hi (by simpa using hgone)
    rw [hf] at hrow
    cases hrow
  rw [without_marked] at hc
  obtain ⟨e,he,rfl⟩ := Option.map_eq_some_iff.mp hc
  obtain ⟨i,d,hi,hfind,hd⟩ := find?_without hkept he
  rw [Nat.zero_add] at hd
  exact ⟨i,d,h.subtree hi,by simp [child?, subtrees, hfind],hd⟩

theorem label_without (n : Node) : (without gone p n).label = n.label := label_edit_none n p

theorem staticKey?_without (n : Node) (computed : Bool) :
    (without gone p n).staticKey? computed = n.staticKey? computed := by
  simp only [staticKey?, stringValue?, identifierName?, label_without]

theorem RowsOnly.memberName?_of_without {n : Node} {t : Text} (h : RowsOnly gone p n)
    (ht : (without gone p n).memberName? = some t) : n.memberName? = some t := by
  unfold memberName? at ht ⊢
  rw [label_without] at ht
  split at ht
  · rename_i computed hl
    obtain ⟨c,hc,ht⟩ := Option.bind_eq_some_iff.mp ht
    obtain ⟨i,d,-,hd,rfl⟩ := h.child?_without (by rw [hl]; rfl) hc
    rw [staticKey?_without] at ht
    exact Option.bind_eq_some_iff.mpr ⟨d,hd,ht⟩
  · cases ht

theorem isIifeStatement_iff {n : Node} : n.isIifeStatement = true ↔
    (∃ a b, n.label = .expressionStatement a b) ∧ ∃ e c, n.child? .expression = some e ∧
      e.label = .callExpression ∧ e.child? .callee = some c ∧
        ((∃ a, c.label = .functionExpression a) ∨ ∃ a, c.label = .arrowFunctionExpression a) := by
  constructor
  · intro h
    unfold isIifeStatement at h
    split at h
    · rename_i a b e hl he
      refine ⟨⟨a,b,hl⟩,e,?_⟩
      split at h
      · rename_i f hcall hcallee
        obtain ⟨c,hc,hf⟩ := Option.map_eq_some_iff.mp hcallee
        exact ⟨c,he,hcall,hc,.inl ⟨f,hf⟩⟩
      · rename_i f hcall hcallee
        obtain ⟨c,hc,hf⟩ := Option.map_eq_some_iff.mp hcallee
        exact ⟨c,he,hcall,hc,.inr ⟨f,hf⟩⟩
      · cases h
    · cases h
  · rintro ⟨⟨a,b,hl⟩,e,c,he,hcall,hc,⟨f,hf⟩ | ⟨f,hf⟩⟩
    · simp [isIifeStatement, hl, he, hcall, hc, hf]
    · simp [isIifeStatement, hl, he, hcall, hc, hf]

theorem RowsOnly.isIifeStatement_of_without {n : Node} (h : RowsOnly gone p n)
    (hn : (without gone p n).isIifeStatement = true) : n.isIifeStatement = true := by
  obtain ⟨⟨a,b,hl⟩,e,c,he,hcall,hc,hf⟩ := isIifeStatement_iff.mp hn
  rw [label_without] at hl
  obtain ⟨i,e,hrows,he',rfl⟩ := h.child?_without (by rw [hl]; rfl) he
  rw [label_without] at hcall
  obtain ⟨j,c,-,hc',rfl⟩ := hrows.child?_without (by rw [hcall]; rfl) hc
  rw [label_without] at hf
  exact isIifeStatement_iff.mpr ⟨⟨a,b,hl⟩,e,c,he',hcall,hc',hf⟩

theorem mem_referencedNames {n : Node} {s : String} : s ∈ n.referencedNames ↔
    n.label = .identifier s ∨ (∀ name, n.label ≠ .identifier name) ∧
      ∃ c ∈ n.subtrees, namesUsed n.label c.1 = true ∧ s ∈ c.2.referencedNames := by
  obtain ⟨m,l,cs⟩ := n
  simp only [label, subtrees]
  conv_lhs => rw [referencedNames, fold_marked]
  split
  · rename_i name
    constructor
    · intro h
      exact .inl (congrArg Label.identifier (List.mem_singleton.mp h).symm)
    · rintro (h | ⟨h,-⟩)
      · exact List.mem_singleton.mpr (Label.identifier.inj h).symm
      · exact absurd rfl (h name)
  · rename_i hl
    simp only [List.mem_flatMap, List.mem_map]
    constructor
    · rintro ⟨_,⟨c,hc,rfl⟩,hs⟩
      split at hs
      · rename_i hused
        exact .inr ⟨fun name h => hl name h,c,hc,hused,hs⟩
      · cases hs
    · rintro (rfl | ⟨-,c,hc,hused,hs⟩)
      · exact absurd rfl (hl s)
      · exact ⟨_,⟨c,hc,rfl⟩,by rw [if_pos hused]; exact hs⟩

theorem memberCalls_eq (n : Node) : n.memberCalls =
    (if n.label = .callExpression then ((n.child? .callee).bind memberName?).toList else []) ++
      n.subtrees.flatMap fun c => c.2.memberCalls := by
  obtain ⟨m,l,cs⟩ := n
  change _ = (if l = .callExpression then
    (((cs.find? fun c => c.1 = .callee).map Prod.snd).bind memberName?).toList else []) ++
      cs.flatMap fun c => c.2.memberCalls
  rw [memberCalls, fold_marked]
  simp only [List.find?_map, List.flatMap_map, Function.comp_def]
  split
  · rw [if_pos rfl]
    cases cs.find? fun c => c.1 = .callee <;> rfl
  · rename_i hl
    rw [if_neg hl]
    rfl

theorem mem_of_mem_without {n : Node} {c : Field × Node} (h : c ∈ (without gone p n).subtrees) :
    ∃ i d, n.subtrees[i]? = some (c.1, d) ∧ c.2 = without gone (p ++ [i]) d := by
  obtain ⟨m,l,cs⟩ := n
  rw [without_marked] at h
  obtain ⟨⟨⟨f,d⟩,i⟩,hd,hc⟩ := List.mem_flatMap.mp h
  have hd := List.mem_zipIdx_iff_getElem?.mp hd
  split at hc
  · cases hc
  · obtain rfl := List.mem_singleton.mp hc
    exact ⟨i,d,hd,rfl⟩

/-- No name comes of taking nodes out. -/
theorem referencedNames_without {s : String} (n : Node) (h : s ∈ (without gone p n).referencedNames) :
    s ∈ n.referencedNames := by
  induction n using inductionOn generalizing p with
  | marked m l cs ih =>
    have hnames := mem_referencedNames.mp h
    rw [label_without] at hnames
    refine mem_referencedNames.mpr (hnames.imp_right ?_)
    rintro ⟨hl,c,hc,hused,hs⟩
    obtain ⟨i,d,hd,hcd⟩ := mem_of_mem_without hc
    have hmem := List.mem_of_getElem? hd
    exact ⟨hl,_,hmem,hused,ih _ hmem (hcd ▸ hs)⟩

/-- No call of a method comes of taking nodes out of rows. -/
theorem RowsOnly.memberCalls_without {t : Text} {n : Node} (hrows : RowsOnly gone p n)
    (h : t ∈ (without gone p n).memberCalls) : t ∈ n.memberCalls := by
  induction n using inductionOn generalizing p with
  | marked m l cs ih =>
    rw [memberCalls_eq, List.mem_append] at h ⊢
    rw [label_without] at h
    rcases h with h | h
    · refine .inl ?_
      split at h
      · rename_i hl
        obtain ⟨c,hc,ht⟩ := Option.bind_eq_some_iff.mp (Option.mem_toList.mp h)
        obtain ⟨i,d,hdrows,hd,rfl⟩ := hrows.child?_without (by rw [hl]; rfl) hc
        rw [if_pos hl, hd]
        simpa using hdrows.memberName?_of_without ht
      · cases h
    · obtain ⟨c,hc,ht⟩ := List.mem_flatMap.mp h
      obtain ⟨i,d,hd,hcd⟩ := mem_of_mem_without hc
      have hmem := List.mem_of_getElem? hd
      exact .inr (List.mem_flatMap.mpr ⟨_,hmem,ih _ hmem (hrows.subtree hd) (hcd ▸ ht)⟩)

end Node

/-! ### The rotation of a provider -/

namespace Forest

/-- Whether a statement of the program rotates the table of a provider. -/
def rotates (f : Forest) (name : String) (p : Path) : Bool :=
  !f.detached.contains p &&
    match f.node? p with
    | some s => s.isIifeStatement && s.referencedNames.contains name
        && Strings.rotationCalls.all s.memberCalls.contains
    | none => false

theorem rotates_iff {f : Forest} {name : String} {p : Path} : f.rotates name p = true ↔
    p ∉ f.detached ∧ ∃ s, f.tree.at? p = some s ∧
      let s := Node.without f.detached p s
      s.isIifeStatement = true ∧ name ∈ s.referencedNames ∧
        ∀ t ∈ Strings.rotationCalls, t ∈ s.memberCalls := by
  unfold rotates node?
  cases f.tree.at? p with
  | none => simp
  | some s => simp [Node.without, and_assoc]

/-- Nodes taken out of rows of the whole tree are taken out of rows of a node in it. -/
theorem rowsOnly {f : Forest} (hrows : ∀ g ∈ f.detached, f.inRow g = true) {p : Path} {n : Node}
    (hn : f.tree.at? p = some n) : Node.RowsOnly f.detached p n := by
  intro q c i e hc he hgone
  have hrow := hrows _ hgone
  have hat : f.tree.at? (p ++ q) = some c := by rw [Node.at?_append, hn]; exact hc
  simpa [inRow, hat, he] using hrow

variable {f g : Forest} {name : String}

/-- What rotates a table after nodes were taken out of rows did so before. -/
theorem rotates_of_detached (htree : g.tree = f.tree) (hf : f.detached = [])
    (hrows : ∀ p ∈ g.detached, g.inRow p = true) {p : Path} (h : g.rotates name p = true) :
    f.rotates name p = true := by
  obtain ⟨-,s,hs,hiife,hname,hcalls⟩ := rotates_iff.mp h
  have hsrows := rowsOnly hrows hs
  refine rotates_iff.mpr ⟨by simp [hf],s,htree ▸ hs,?_⟩
  rw [hf, Node.without_eq_self s (by simp)]
  exact ⟨hsrows.isIifeStatement_of_without hiife,Node.referencedNames_without s hname,
    fun t ht => hsrows.memberCalls_without (hcalls t ht)⟩

/-- What rotates a table still does so if nothing at it, above it or in it was taken out. -/
theorem rotates_detached (htree : g.tree = f.tree) (hf : f.detached = []) {p : Path}
    (hout : ∀ q ∈ g.detached, ¬ p <+: q) (h : f.rotates name p = true) :
    g.rotates name p = true := by
  obtain ⟨-,s,hs,hiife,hname,hcalls⟩ := rotates_iff.mp h
  rw [hf, Node.without_eq_self s (by simp)] at hiife hname hcalls
  refine rotates_iff.mpr ⟨fun hp => hout p hp (List.prefix_refl p),s,htree ▸ hs,?_⟩
  rw [Node.without_eq_self s hout]
  exact ⟨hiife,hname,hcalls⟩

end Forest

private theorem find?_eq_of_imp {α : Type} {p q : α → Bool} {xs : List α}
    (himp : ∀ x ∈ xs, q x = true → p x = true) (hfirst : ∀ x, xs.find? p = some x → q x = true) :
    xs.find? q = xs.find? p := by
  cases hp : xs.find? p with
  | none =>
    refine List.find?_eq_none.mpr fun x hx hq => ?_
    exact List.find?_eq_none.mp hp x hx (himp x hx hq)
  | some x =>
    obtain ⟨hpx,as,bs,rfl,hbefore⟩ := List.find?_eq_some_iff_append.mp hp
    refine List.find?_eq_some_iff_append.mpr ⟨hfirst x hp,as,bs,rfl,fun a ha => ?_⟩
    cases hq : q a with
    | false => rfl
    | true =>
      have hnot := hbefore a ha
      rw [himp a (by simp [ha]) hq] at hnot
      cases hnot

/-- The statement that rotates the table of a provider in a program as it is written. -/
def Node.rotation? (tree : Node) (name : String) : Option Path :=
  ({ forest := Forest.link { tree := tree }, machine := () } : Strings.State Unit).rotation? name

namespace Strings

/-- A rotation is found again if nothing at it, above it or in it was taken out. -/
theorem State.rotation?_eq {σ : Type} {st : State σ} {tree : Node} (h : st.Sound tree) {name : String}
    (hout : ∀ r, tree.rotation? name = some r → ∀ q ∈ st.forest.detached, ¬ r <+: q) :
    st.rotation? name = tree.rotation? name := by
  have hst : st.rotation? name = ((List.range st.forest.tree.subtrees.length).map fun i => [i]).find?
      (st.forest.rotates name) := rfl
  have htree : tree.rotation? name = ((List.range tree.subtrees.length).map fun i => [i]).find?
      (Forest.rotates { tree := tree } name) := rfl
  rw [hst, htree, h.whole]
  refine find?_eq_of_imp (fun p _ => ?_) fun p hp => ?_
  · exact Forest.rotates_of_detached h.whole rfl h.rows
  · exact Forest.rotates_detached h.whole rfl (hout p hp) (List.find?_some hp)

end Strings

end Unravel
