import Unravel.Proofs.Scope.Marks

/-! What a pass may do to a program without a change to what its names stand for: take nodes away,
and let statements out of the blocks around them. -/

namespace Unravel

/-- The scopes around a place before and after a pass. Nodes with the given marks are kept. Another
scope goes, and it is not that of a function. -/
inductive Chain.Thins (ks : List Nat) : Chain → Chain → Prop
  | nil : Chain.Thins ks [] []
  | keep {m : Option Nat} {f : Bool} {c d : Chain} (hm : ∀ k, m = some k → k ∈ ks)
    (h : Chain.Thins ks c d) : Chain.Thins ks ((m, f) :: c) ((m, f) :: d)
  | drop {m : Option Nat} {c d : Chain} (hm : ∀ k ∈ ks, m ≠ some k) (h : Chain.Thins ks c d) :
    Chain.Thins ks ((m, false) :: c) d

namespace Chain.Thins
variable {ks ks' : List Nat} {c d e : Chain}

theorem refl (h : ∀ s ∈ c, ∀ k, s.1 = some k → k ∈ ks) : c.Thins ks c := by
  induction c with
  | nil => exact .nil
  | cons s c ih =>
    obtain ⟨hs,hc⟩ := List.forall_mem_cons.mp h
    exact .keep hs (ih hc)

theorem trans (h : c.Thins ks d) (h' : d.Thins ks' e) (hks : ∀ k ∈ ks', k ∈ ks) :
    c.Thins ks' e := by
  induction h generalizing e with
  | nil => exact h'
  | keep hm _ ih =>
    cases h' with
    | keep hm' h' => exact .keep hm' (ih h')
    | drop hm' h' => exact .drop hm' (ih h')
  | drop hm _ ih => exact .drop (fun k hk => hm k (hks k hk)) (ih h')

/-- Only the marks of the scopes before count. -/
theorem congr (h : c.Thins ks d) (hks : ∀ s ∈ c, ∀ k, s.1 = some k → (k ∈ ks ↔ k ∈ ks')) :
    c.Thins ks' d := by
  induction h with
  | nil => exact .nil
  | keep hm _ ih =>
    obtain ⟨hs,hc⟩ := List.forall_mem_cons.mp hks
    exact .keep (fun k hk => (hs k hk).mp (hm k hk)) (ih hc)
  | drop hm _ ih =>
    obtain ⟨hs,hc⟩ := List.forall_mem_cons.mp hks
    exact .drop (fun k hk heq => hm k ((hs k heq).mpr hk) heq) (ih hc)

theorem append {c' d' : Chain} (h : c.Thins ks d) (h' : c'.Thins ks d') :
    (c ++ c').Thins ks (d ++ d') := by
  induction h with
  | nil => exact h'
  | keep hm _ ih => exact .keep hm ih
  | drop hm _ ih => exact .drop hm ih

theorem split {c' : Chain} (h : (c ++ c').Thins ks e) :
    ∃ d d', e = d ++ d' ∧ c.Thins ks d ∧ c'.Thins ks d' := by
  induction c generalizing e with
  | nil => exact ⟨[],e,rfl,.nil,h⟩
  | cons s c ih =>
    cases h with
    | keep hm h =>
      obtain ⟨d,d',rfl,hd,hd'⟩ := ih h
      exact ⟨_,d',rfl,.keep hm hd,hd'⟩
    | drop hm h =>
      obtain ⟨d,d',rfl,hd,hd'⟩ := ih h
      exact ⟨d,d',rfl,.drop hm hd,hd'⟩

theorem subset (h : c.Thins ks d) : d ⊆ c := by
  induction h with
  | nil => exact List.Subset.refl _
  | keep _ _ ih => exact List.cons_subset_cons _ ih
  | drop _ _ ih => exact List.subset_cons_of_subset _ ih

/-- Which scopes go is told by their marks. -/
theorem eq (h : c.Thins ks d) (h' : c.Thins ks e) (hc : ∀ s ∈ c, s.1.isSome) : d = e := by
  induction h generalizing e with
  | nil =>
    cases h'
    rfl
  | keep hm _ ih =>
    obtain ⟨hs,hc⟩ := List.forall_mem_cons.mp hc
    cases h' with
    | keep _ h' => rw [ih h' hc]
    | drop hm' _ =>
      obtain ⟨k,hk⟩ := Option.isSome_iff_exists.mp hs
      exact absurd hk (hm' k (hm k hk))
  | drop hm _ ih =>
    obtain ⟨hs,hc⟩ := List.forall_mem_cons.mp hc
    cases h' with
    | keep hm' _ =>
      obtain ⟨k,hk⟩ := Option.isSome_iff_exists.mp hs
      exact absurd hk (hm k (hm' k hk))
    | drop _ h' => exact ih h' hc

/-- A scope that is kept stays the innermost one. -/
theorem cons {s : Option Nat × Bool} (h : Chain.Thins ks (s :: c) d)
    (hs : s.2 = true ∨ ∃ k ∈ ks, s.1 = some k) : ∃ e, d = s :: e := by
  cases h with
  | keep hm h => exact ⟨_,rfl⟩
  | drop hm h =>
    rcases hs with hs | ⟨k,hk,hs⟩
    · cases hs
    · exact absurd hs (hm k hk)

section Target
variable (h : c.Thins ks d) {reach : Reach}
include h

/-- A declaration lands in the innermost scope that is left of those from its own on. The outermost
scope is kept. -/
theorem target? (hroot : ∀ s, c.getLast? = some s → s.2 = true) {m : Option Nat}
    (ht : reach.target? c = some m) : ∃ a s b e m', c = a ++ s :: b ∧ s.1 = m ∧
      Chain.Thins ks (s :: b) e ∧ e.head?.map Prod.fst = some m' ∧ reach.target? d = some m' := by
  -- A function's scope is left where it was.
  have hkept {a b : Chain} {s : Option Nat × Bool} (hc : c = a ++ s :: b) (hs : s.2 = true) :
      ∃ d₁ d₂, d = d₁ ++ s :: d₂ ∧ a.Thins ks d₁ ∧ Chain.Thins ks (s :: b) (s :: d₂) := by
    subst hc
    obtain ⟨d₁,e,rfl,hd₁,he⟩ := h.split
    obtain ⟨d₂,rfl⟩ := he.cons (.inl hs)
    exact ⟨d₁,d₂,rfl,hd₁,he⟩
  cases reach with
  | here =>
    obtain ⟨s,hs,rfl⟩ := Option.map_eq_some_iff.mp ht
    obtain ⟨b,rfl⟩ := List.head?_eq_some_iff.mp hs
    obtain ⟨t,hlast⟩ : ∃ t, (s :: b).getLast? = some t := ⟨_,List.getLast?_cons⟩
    obtain ⟨a,hat⟩ := List.getLast?_eq_some_iff.mp hlast
    obtain ⟨d₁,d₂,rfl,-,-⟩ := hkept hat (hroot t hlast)
    obtain ⟨u,hu⟩ : ∃ u, (d₁ ++ t :: d₂).head? = some u := by cases d₁ <;> exact ⟨_,rfl⟩
    exact ⟨[],s,b,_,u.1,rfl,rfl,h,by simp [hu],by simp [Reach.target?, hu]⟩
  | function =>
    obtain ⟨s,hs,rfl⟩ := Option.map_eq_some_iff.mp ht
    obtain ⟨hfun,a,b,hc,ha⟩ := List.find?_eq_some_iff_append.mp hs
    obtain ⟨d₁,d₂,rfl,hd₁,he⟩ := hkept hc hfun
    have hnone : d₁.find? Prod.snd = none :=
      List.find?_eq_none.mpr fun t ht => by simpa using ha t (hd₁.subset ht)
    exact ⟨a,s,b,_,s.1,hc,rfl,he,rfl,by simp [Reach.target?, hnone, hfun]⟩
  | root =>
    obtain ⟨s,hs,rfl⟩ := Option.map_eq_some_iff.mp ht
    obtain ⟨a,hc⟩ := List.getLast?_eq_some_iff.mp hs
    obtain ⟨d₁,d₂,rfl,-,he⟩ := hkept hc (hroot s hs)
    have hs₂ : s.2 = true := hroot s hs
    obtain rfl : d₂ = [] := by
      cases he with
      | keep _ h =>
        cases h
        rfl
      | drop => cases hs₂
    exact ⟨a,s,[],_,s.1,hc,rfl,he,rfl,by simp [Reach.target?]⟩

/-- A declaration that lands somewhere did so before. -/
theorem exists_target {m : Option Nat} (ht : reach.target? d = some m) :
    ∃ m', reach.target? c = some m' := by
  obtain ⟨s,hs,-⟩ := Reach.mem_of_target? ht
  have hne : c ≠ [] := List.ne_nil_of_mem (h.subset hs)
  cases reach with
  | here =>
    obtain ⟨t,b,rfl⟩ := List.exists_cons_of_ne_nil hne
    exact ⟨_,rfl⟩
  | root => exact ⟨_,by rw [Reach.target?, List.getLast?_eq_some_getLast hne]; rfl⟩
  | function =>
    obtain ⟨t,ht,-⟩ := Option.map_eq_some_iff.mp ht
    have hsome : (c.find? Prod.snd).isSome :=
      List.find?_isSome.mpr ⟨t,h.subset (List.mem_of_find?_eq_some ht),List.find?_some ht⟩
    obtain ⟨u,hu⟩ := Option.isSome_iff_exists.mp hsome
    exact ⟨u.1,by simp [Reach.target?, hu]⟩

end Target

section Nearest
variable {P Q : Option Nat → Prop} {m : Option Nat}

/-- The innermost scope with a property goes over to the innermost one left from there on, unless
another one that is kept comes to have the property. -/
theorem nearest (h : c.Thins ks d) (hc : ∀ s ∈ c, s.1.isSome) (hnear : c.Nearest P m) :
    ∃ a s b e, c = a ++ s :: b ∧ s.1 = m ∧ Chain.Thins ks (s :: b) e ∧
      ∀ m', e.head?.map Prod.fst = some m' → Q m' →
        d.Nearest Q m' ∨ ∃ k ∈ ks, d.Nearest Q (some k) ∧ ¬P (some k) := by
  induction h with
  | nil => cases hnear
  | @keep t f c d hm h ih =>
    obtain ⟨ht,hc⟩ := List.forall_mem_cons.mp hc
    rcases hnear with ⟨-,rfl⟩ | ⟨hne,hnear⟩
    · refine ⟨[],_,c,_,rfl,rfl,.keep hm h,fun m' hm' hQ => .inl (.inl ?_)⟩
      obtain rfl := Option.some.inj hm'
      exact ⟨hQ,rfl⟩
    · obtain ⟨a,s,b,e,rfl,hs,he,hnext⟩ := ih hc hnear
      refine ⟨_ :: a,s,b,e,rfl,hs,he,fun m' hm' hQ => ?_⟩
      by_cases hPt : Q t
      · obtain ⟨k,rfl⟩ := Option.isSome_iff_exists.mp ht
        exact .inr ⟨k,hm k rfl,.inl ⟨hPt,rfl⟩,hne⟩
      · exact (hnext m' hm' hQ).imp (fun h => .inr ⟨hPt,h⟩) fun ⟨k,hk,h,hP⟩ => ⟨k,hk,.inr ⟨hPt,h⟩,hP⟩
  | @drop t c d hm h ih =>
    rcases hnear with ⟨-,rfl⟩ | ⟨-,hnear⟩
    · refine ⟨[],_,c,d,rfl,rfl,.drop hm h,fun m' hm' hQ => .inl ?_⟩
      obtain ⟨u,hu,rfl⟩ := Option.map_eq_some_iff.mp hm'
      obtain ⟨d,rfl⟩ := List.head?_eq_some_iff.mp hu
      exact .inl ⟨hQ,rfl⟩
    · obtain ⟨a,s,b,e,rfl,hs,he,hnext⟩ := ih (List.forall_mem_cons.mp hc).2 hnear
      exact ⟨_ :: a,s,b,e,rfl,hs,he,hnext⟩

/-- Back again: the innermost scope with a property before is the same one, or it is kept and has lost
the property, or it is gone and was inside. -/
theorem nearest_before (h : c.Thins ks d) (hc : ∀ s ∈ c, s.1.isSome) (hnear : d.Nearest Q m)
    (hP : P m) : ∃ m₀, c.Nearest P m₀ ∧ (m₀ = m ∨ (∃ k ∈ ks, m₀ = some k ∧ ¬Q m₀) ∨
      (∀ k ∈ ks, m₀ ≠ some k) ∧ ∃ a s b e, c = a ++ s :: b ∧ s.1 = m₀ ∧ Chain.Thins ks (s :: b) e ∧
        ∀ m', e.head?.map Prod.fst = some m' → Q m' → m' = m) := by
  induction h with
  | nil => cases hnear
  | @keep t f c d hm h ih =>
    obtain ⟨ht,hc⟩ := List.forall_mem_cons.mp hc
    rcases hnear with ⟨-,rfl⟩ | ⟨hne,hnear⟩
    · exact ⟨t,.inl ⟨hP,rfl⟩,.inl rfl⟩
    · by_cases hPt : P t
      · obtain ⟨k,rfl⟩ := Option.isSome_iff_exists.mp ht
        exact ⟨_,.inl ⟨hPt,rfl⟩,.inr (.inl ⟨k,hm k rfl,rfl,hne⟩)⟩
      · obtain ⟨m₀,hm₀,hcases⟩ := ih hc hnear
        refine ⟨m₀,.inr ⟨hPt,hm₀⟩,hcases.imp_right (Or.imp_right fun ⟨hout,a,s,b,e,hc,hrest⟩ => ?_)⟩
        exact ⟨hout,_ :: a,s,b,e,by rw [hc]; rfl,hrest⟩
  | @drop t c d hm h ih =>
    by_cases hPt : P t
    · refine ⟨t,.inl ⟨hPt,rfl⟩,.inr (.inr ⟨hm,[],_,c,d,rfl,rfl,.drop hm h,fun m' hm' hQ => ?_⟩)⟩
      obtain ⟨u,hu,rfl⟩ := Option.map_eq_some_iff.mp hm'
      obtain ⟨d,rfl⟩ := List.head?_eq_some_iff.mp hu
      have hhead : Chain.Nearest Q (u :: d) u.1 := .inl ⟨hQ,rfl⟩
      exact hhead.eq hnear
    · obtain ⟨m₀,hm₀,hcases⟩ := ih (List.forall_mem_cons.mp hc).2 hnear
      refine ⟨m₀,.inr ⟨hPt,hm₀⟩,hcases.imp_right (Or.imp_right fun ⟨hout,a,s,b,e,hc,hrest⟩ => ?_)⟩
      exact ⟨hout,_ :: a,s,b,e,by rw [hc]; rfl,hrest⟩

end Nearest

end Chain.Thins

namespace Node
variable {f : Field} {n : Node} {cs ds : List (Field × Node)}

theorem mem_marksAll {k : Nat} : k ∈ marksAll cs ↔ ∃ c ∈ cs, k ∈ c.2.marks := by
  rw [marksAll_eq, List.mem_flatMap]

theorem marksAll_append : marksAll (cs ++ ds) = marksAll cs ++ marksAll ds := by
  simp only [marksAll_eq, List.flatMap_append]

theorem marksAll_singleton : marksAll [(f, n)] = n.marks := by
  simp [marksAll_eq]

theorem nodup_marksAll (h : n.marks.Nodup) : (marksAll n.subtrees).Nodup := by
  obtain ⟨m,l,cs⟩ := n
  exact (List.nodup_append.mp h).2.1

theorem nodup_of_mem (h : (marksAll cs).Nodup) {c : Field × Node} (hc : c ∈ cs) :
    c.2.marks.Nodup := by
  rw [marksAll_eq] at h
  exact (List.nodup_flatMap.mp h).1 c hc

/-- Subtrees with a mark in common are the same one. -/
theorem eq_of_mem_marks (h : (marksAll cs).Nodup) {c d : Field × Node} (hc : c ∈ cs) (hd : d ∈ cs)
    {k : Nat} (hkc : k ∈ c.2.marks) (hkd : k ∈ d.2.marks) : c = d := by
  rw [marksAll_eq] at h
  exact eq_of_mem_flatMap h hc hd hkc hkd

/-- A row, with its slot. -/
theorem map_row : ((n.row f).map fun c => (f, c)) = n.subtrees.filter fun c => c.1 = f := by
  rw [row, List.map_map]
  refine (List.map_congr_left fun c hc => ?_).trans (List.map_id _)
  exact Prod.ext (of_decide_eq_true (List.mem_filter.mp hc).2).symm rfl

theorem mem_subtrees_of_row {c : Node} (h : c ∈ n.row f) : (f, c) ∈ n.subtrees := by
  have hmem : (f, c) ∈ (n.row f).map fun c => (f, c) := List.mem_map_of_mem h
  rw [map_row] at hmem
  exact (List.mem_filter.mp hmem).1

/-! ### The subtrees in one slot, under another slot -/

private theorem marksAll_moved {g : Field} : marksAll ((n.row g).map fun c => (f, c)) =
    marksAll ((n.row g).map fun c => (g, c)) := by
  simp only [marksAll_eq, List.flatMap_map]

private theorem mem_marksAll_moved {g : Field} {k : Nat} :
    k ∈ marksAll ((n.row g).map fun c => (f, c)) ↔ ∃ c ∈ n.row g, k ∈ c.marks := by
  simp only [marksAll_eq, List.flatMap_map, List.mem_flatMap]

private theorem nodup_moved {g : Field} (h : n.marks.Nodup) :
    (marksAll ((n.row g).map fun c => (f, c))).Nodup := by
  have hsubtrees := nodup_marksAll h
  rw [marksAll_moved, map_row, marksAll_eq]
  rw [marksAll_eq] at hsubtrees
  exact hsubtrees.sublist (List.filter_sublist.flatMap _)

private theorem marks_row {g : Field} {c : Node} (hc : c ∈ n.row g) {k : Nat} (hk : k ∈ c.marks) :
    k ∈ n.marks := by
  obtain ⟨i,hi⟩ := exists_at?_of_mem (mem_subtrees_of_row hc)
  exact marks_at? hi hk

private theorem mark_ne_of_row (h : n.marks.Nodup) {g : Field} {c : Node} (hc : c ∈ n.row g)
    {k : Nat} (hk : k ∈ c.marks) : n.mark? ≠ some k := by
  obtain ⟨m,l,cs⟩ := n
  obtain ⟨-,-,hapart⟩ := List.nodup_append.mp h
  exact fun heq => hapart k (Option.mem_toList.mpr heq) k
    (mem_marksAll.mpr ⟨_,mem_subtrees_of_row hc,hk⟩) rfl

/-- Where the node itself tells nothing, a part with a mark in one of these subtrees is told by that
subtree. -/
private theorem Tells.inRow (hn : n.marks.Nodup) (hown : n.ownParts = []) {isBody : Bool}
    {chain : Chain} {part : Part} (ht : Tells isBody n chain part) {k : Nat}
    (hpart : part.mark? = some k) {g : Field}
    (hk : k ∈ marksAll ((n.row g).map fun c => (f, c))) :
    ∃ c ∈ n.row g, ∃ inner, chain = inner ++ n.scopeAs isBody ∧
      Tells (n.label.isBody g c) c inner part := by
  cases ht with
  | own h =>
    rw [hown] at h
    cases h
  | @inside _ _ e inner _ he _ h =>
    obtain ⟨c,hc,hkc⟩ := mem_marksAll_moved.mp hk
    obtain rfl := eq_of_mem_marks (nodup_marksAll hn) he (mem_subtrees_of_row hc)
      ((h.every (everyMark_mem e.2)).1 k hpart) hkc
    exact ⟨c,hc,inner,rfl,h⟩

end Node

namespace Label

/-- What a subtree in its slot tells. -/
def Tells (l : Label) (c : Field × Node) (chain : Chain) (part : Part) : Prop :=
  l.walks c.1 = true ∧ Node.Tells (l.isBody c.1 c.2) c.2 chain part

theorem Tells.marks {l : Label} {c : Field × Node} {chain : Chain} {part : Part}
    (h : l.Tells c chain part) : (∀ k, part.mark? = some k → k ∈ c.2.marks) ∧
      ∀ s ∈ chain, ∀ k, s.1 = some k → k ∈ c.2.marks := h.2.every (Node.everyMark_mem c.2)

/-- Other subtrees come in the place of subtrees. They tell, of the nodes that they still hold, what
was told before, and nothing else. -/
structure Pruned (l : Label) (cs ds : List (Field × Node)) : Prop where
  marks : ∀ k ∈ Node.marksAll ds, k ∈ Node.marksAll cs
  nodup : (Node.marksAll ds).Nodup
  sound : ∀ d ∈ ds, ∀ chain' part, l.Tells d chain' part → ∃ c ∈ cs, ∃ chain, l.Tells c chain part ∧
    chain.Thins (Node.marksAll ds) chain'
  complete : ∀ c ∈ cs, ∀ chain part k, l.Tells c chain part → part.mark? = some k →
    k ∈ Node.marksAll ds → ∃ d ∈ ds, ∃ chain', l.Tells d chain' part ∧
      chain.Thins (Node.marksAll ds) chain'

namespace Pruned
open Node
variable {l l' : Label} {f g : Field} {cs ds es cs' ds' : List (Field × Node)}
  {m m' : Option Nat} {n : Node}

/-- A node that alone is left holds no mark twice. -/
theorem nodup_left (h : l.Pruned cs [(f, n)]) : n.marks.Nodup := by
  rw [← marksAll_singleton]
  exact h.nodup

private theorem thins_refl {d : Field × Node} (hd : d ∈ ds) {chain : Chain} {part : Part}
    (h : l.Tells d chain part) : chain.Thins (marksAll ds) chain :=
  .refl fun s hs k hk => mem_marksAll.mpr ⟨d,hd,h.marks.2 s hs k hk⟩

/-- Some of the subtrees, in any order. -/
theorem pick (hcs : (marksAll cs).Nodup) (hds : (marksAll ds).Nodup) (h : ∀ d ∈ ds, d ∈ cs) :
    l.Pruned cs ds where
  marks k hk := by
    obtain ⟨d,hd,hk⟩ := mem_marksAll.mp hk
    exact mem_marksAll.mpr ⟨d,h d hd,hk⟩
  nodup := hds
  sound d hd chain part ht := ⟨d,h d hd,chain,ht,thins_refl hd ht⟩
  complete c hc chain part k ht hpart hk := by
    obtain ⟨d,hd,hk⟩ := mem_marksAll.mp hk
    obtain rfl := eq_of_mem_marks hcs hc (h d hd) (ht.marks.1 k hpart) hk
    exact ⟨c,hd,chain,ht,thins_refl hd ht⟩

theorem refl (h : (marksAll cs).Nodup) : l.Pruned cs cs := .pick h h fun _ => id

theorem sublist (hcs : (marksAll cs).Nodup) (h : ds.Sublist cs) : l.Pruned cs ds := by
  refine .pick hcs ?_ fun d hd => h.subset hd
  rw [marksAll_eq] at hcs ⊢
  exact hcs.sublist (h.flatMap _)

/-- Different subtrees have different marks. -/
theorem choose (hcs : (marksAll cs).Nodup) (hds : ds.Nodup) (h : ∀ d ∈ ds, d ∈ cs) :
    l.Pruned cs ds := by
  refine .pick hcs ?_ h
  rw [marksAll_eq]
  refine List.nodup_flatMap.mpr ⟨fun d hd => ?_,?_⟩
  · exact nodup_of_mem hcs (h d hd)
  · refine hds.pairwise_of_forall_ne fun d hd e he hne k hkd hke => hne ?_
    exact eq_of_mem_marks hcs (h d hd) (h e he) hkd hke

theorem trans (h : l.Pruned cs ds) (h' : l.Pruned ds es) : l.Pruned cs es where
  marks k hk := h.marks k (h'.marks k hk)
  nodup := h'.nodup
  sound e he chain part ht := by
    obtain ⟨d,hd,chain₁,hd',hthins'⟩ := h'.sound e he chain part ht
    obtain ⟨c,hc,chain₂,hc',hthins⟩ := h.sound d hd chain₁ part hd'
    exact ⟨c,hc,chain₂,hc',hthins.trans hthins' h'.marks⟩
  complete c hc chain part k ht hpart hk := by
    obtain ⟨d,hd,chain₁,hd',hthins⟩ := h.complete c hc chain part k ht hpart (h'.marks k hk)
    obtain ⟨e,he,chain₂,he',hthins'⟩ := h'.complete d hd chain₁ part k hd' hpart hk
    exact ⟨e,he,chain₂,he',hthins.trans hthins' h'.marks⟩

/-- Where the marks on both sides are apart, what happens on one does not matter to the other. -/
theorem append (h : l.Pruned cs ds) (h' : l.Pruned cs' ds')
    (hn : (marksAll (cs ++ cs')).Nodup) : l.Pruned (cs ++ cs') (ds ++ ds') := by
  rw [marksAll_append] at hn
  obtain ⟨-,-,hapart⟩ := List.nodup_append.mp hn
  have hleft {k : Nat} (hk : k ∈ marksAll cs) : k ∈ marksAll ds ↔ k ∈ marksAll (ds ++ ds') := by
    rw [marksAll_append, List.mem_append, or_iff_left]
    exact fun hk' => hapart k hk k (h'.marks k hk') rfl
  have hright {k : Nat} (hk : k ∈ marksAll cs') : k ∈ marksAll ds' ↔ k ∈ marksAll (ds ++ ds') := by
    rw [marksAll_append, List.mem_append, or_iff_right]
    exact fun hk' => hapart k (h.marks k hk') k hk rfl
  have htold {c : Field × Node} {bs : List (Field × Node)} (hc : c ∈ bs) {chain : Chain}
      {part : Part} (ht : l.Tells c chain part) {s : Option Nat × Bool} (hs : s ∈ chain) {k : Nat}
      (hk : s.1 = some k) : k ∈ marksAll bs := mem_marksAll.mpr ⟨c,hc,ht.marks.2 s hs k hk⟩
  refine ⟨fun k hk => ?_,?_,fun d hd chain part ht => ?_,fun c hc chain part k ht hpart hk => ?_⟩
  · rw [marksAll_append, List.mem_append] at hk ⊢
    exact hk.imp (h.marks k) (h'.marks k)
  · rw [marksAll_append]
    exact List.nodup_append.mpr ⟨h.nodup,h'.nodup,fun k hk j hj heq =>
      hapart k (h.marks k hk) j (h'.marks j hj) heq⟩
  · rcases List.mem_append.mp hd with hd | hd
    · obtain ⟨c,hc,chain,hc',hthins⟩ := h.sound d hd chain part ht
      exact ⟨c,List.mem_append_left _ hc,chain,hc',
        hthins.congr fun s hs k hk => hleft (htold hc hc' hs hk)⟩
    · obtain ⟨c,hc,chain,hc',hthins⟩ := h'.sound d hd chain part ht
      exact ⟨c,List.mem_append_right _ hc,chain,hc',
        hthins.congr fun s hs k hk => hright (htold hc hc' hs hk)⟩
  · rcases List.mem_append.mp hc with hc | hc
    · have hmem := mem_marksAll.mpr ⟨c,hc,ht.marks.1 k hpart⟩
      obtain ⟨d,hd,chain',hd',hthins⟩ := h.complete c hc chain part k ht hpart ((hleft hmem).mpr hk)
      exact ⟨d,List.mem_append_left _ hd,chain',hd',
        hthins.congr fun s hs k hk => hleft (htold hc ht hs hk)⟩
    · have hmem := mem_marksAll.mpr ⟨c,hc,ht.marks.1 k hpart⟩
      obtain ⟨d,hd,chain',hd',hthins⟩ :=
        h'.complete c hc chain part k ht hpart ((hright hmem).mpr hk)
      exact ⟨d,List.mem_append_right _ hd,chain',hd',
        hthins.congr fun s hs k hk => hright (htold hc ht hs hk)⟩

theorem flatMap {F : Field × Node → List (Field × Node)} (h : ∀ c ∈ cs, l.Pruned [c] (F c))
    (hn : (marksAll cs).Nodup) : l.Pruned cs (cs.flatMap F) := by
  induction cs with
  | nil => exact .refl hn
  | cons c cs ih =>
    obtain ⟨hc,hcs⟩ := List.forall_mem_cons.mp h
    have hrest : (marksAll cs).Nodup := by
      rw [marksAll] at hn
      exact (List.nodup_append.mp hn).2.1
    exact hc.append (ih hcs hrest) hn

/-- Nothing but what tells nothing. -/
theorem silent (hmarks : marksAll ds = []) (h : ∀ d ∈ ds, ∀ chain part, ¬l.Tells d chain part) :
    l.Pruned cs ds where
  marks k hk := by
    rw [hmarks] at hk
    cases hk
  nodup := by
    rw [hmarks]
    exact List.nodup_nil
  sound d hd chain part ht := absurd ht (h d hd chain part)
  complete c hc chain part k _ _ hk := by
    rw [hmarks] at hk
    cases hk

/-- The scope of a node that is no function goes with the node. -/
private theorem thins_scope (hn : n.marks.Nodup) (hopens : n.label.opens ≠ some true) :
    (n.scopeAs false).Thins (marksAll ((n.row g).map fun c => (f, c))) [] := by
  unfold scopeAs
  cases ho : n.label.opens with
  | none => exact .nil
  | some isFunction =>
    cases isFunction with
    | true => exact absurd ho hopens
    | false =>
      refine .drop (fun k hk => ?_) .nil
      obtain ⟨c,hc,hk⟩ := mem_marksAll_moved.mp hk
      exact mark_ne_of_row hn hc hk

/-- A node that has nothing to tell itself gives way to the subtrees in a slot. -/
theorem release (hn : n.marks.Nodup) (hown : n.ownParts = []) (hopens : n.label.opens ≠ some true)
    (hw : n.label.walks g = true) (hbody : l.isBody f n = false)
    (hrow : ∀ c ∈ n.row g, l.isBody f c = n.label.isBody g c) :
    l.Pruned [(f, n)] ((n.row g).map fun c => (f, c)) := by
  have hthins {c : Node} (hc : c ∈ n.row g) {chain : Chain} {part : Part}
      (ht : l.Tells (f, c) chain part) :
      (chain ++ n.scopeAs false).Thins (marksAll ((n.row g).map fun c => (f, c))) chain := by
    have happend := (thins_refl (List.mem_map_of_mem hc) ht).append (thins_scope hn hopens)
    rwa [List.append_nil] at happend
  refine ⟨fun k hk => ?_,nodup_moved hn,?_,?_⟩
  · obtain ⟨c,hc,hk⟩ := mem_marksAll_moved.mp hk
    rw [marksAll_singleton]
    exact marks_row hc hk
  · intro d hd chain part ht
    obtain ⟨c,hc,rfl⟩ := List.mem_map.mp hd
    have htold := ht.2
    rw [hrow c hc] at htold
    exact ⟨(f, n),List.mem_singleton_self _,_,
      ⟨ht.1,by rw [hbody]; exact .inside (mem_subtrees_of_row hc) hw htold⟩,hthins hc ht⟩
  · intro _ hc chain part k ht hpart hk
    obtain rfl := List.mem_singleton.mp hc
    obtain ⟨hwalks,ht⟩ := ht
    rw [hbody] at ht
    obtain ⟨c,hc,inner,rfl,h⟩ := ht.inRow hn hown hpart hk
    have htold : l.Tells (f, c) inner part := ⟨hwalks,by rw [hrow c hc]; exact h⟩
    exact ⟨(f, c),List.mem_map_of_mem hc,inner,htold,hthins hc htold⟩

/-- A node of which the subtrees are pruned, but none from which it takes names. -/
theorem node (h : l'.Pruned cs ds) (hn : (marked m l' cs).marks.Nodup)
    (hown : (marked m l' ds).ownParts = (marked m l' cs).ownParts) :
    l.Pruned [(f, marked m l' cs)] [(f, marked m l' ds)] := by
  obtain ⟨-,-,hapart⟩ := List.nodup_append.mp hn
  -- Below, a mark is kept if it is kept in the whole.
  have hbelow {k : Nat} (hk : k ∈ marksAll cs) :
      k ∈ marksAll ds ↔ k ∈ marksAll [(f, marked m l' ds)] := by
    rw [marksAll_singleton, Node.marks, List.mem_append, or_iff_right]
    exact fun hk' => hapart k hk' k hk rfl
  have hscope : (marked m l' ds).scopeAs (l.isBody f (marked m l' ds)) =
      (marked m l' cs).scopeAs (l.isBody f (marked m l' cs)) := rfl
  have hthins {c : Field × Node} (hc : c ∈ cs) {chain chain' : Chain} {part : Part}
      (ht : l'.Tells c chain part) (hthins : chain.Thins (marksAll ds) chain') :
      (chain ++ (marked m l' cs).scopeAs (l.isBody f (marked m l' cs))).Thins
        (marksAll [(f, marked m l' ds)])
        (chain' ++ (marked m l' ds).scopeAs (l.isBody f (marked m l' ds))) := by
    refine (hthins.congr fun s hs k hk => hbelow ?_).append (.refl fun s hs k hk => ?_)
    · exact mem_marksAll.mpr ⟨c,hc,ht.marks.2 s hs k hk⟩
    · rw [← (mem_scopeAs hs).1] at hk
      rw [marksAll_singleton]
      exact mark_mem_marks (n := marked m l' ds) hk
  refine ⟨fun k hk => ?_,?_,?_,?_⟩
  · rw [marksAll_singleton, Node.marks, List.mem_append] at hk ⊢
    exact hk.imp_right (h.marks k)
  · rw [marksAll_singleton, Node.marks]
    refine List.nodup_append.mpr ⟨?_,h.nodup,fun k hk j hj => hapart k hk j (h.marks j hj)⟩
    cases m <;> simp
  · intro d hd chain part ht
    obtain rfl := List.mem_singleton.mp hd
    refine ⟨_,List.mem_singleton_self _,?_⟩
    have hkept := thins_refl hd ht
    obtain ⟨hw,ht⟩ := ht
    cases ht with
    | own hx =>
      rw [hown] at hx
      exact ⟨chain,⟨hw,.own hx⟩,hkept⟩
    | inside hd hwd ht =>
      obtain ⟨c,hc,chain,hc',hchain⟩ := h.sound _ hd _ _ ⟨hwd,ht⟩
      exact ⟨_,⟨hw,.inside hc hc'.1 hc'.2⟩,hthins hc hc' hchain⟩
  · intro c hc chain part k ht hpart hk
    obtain rfl := List.mem_singleton.mp hc
    refine ⟨_,List.mem_singleton_self _,?_⟩
    obtain ⟨hw,ht⟩ := ht
    cases ht with
    | own hx =>
      have hx' : (chain, part) ∈ (marked m l' ds).ownParts := by rwa [hown]
      have ht : l.Tells (f, marked m l' ds) chain part := ⟨hw,.own hx'⟩
      exact ⟨chain,ht,thins_refl (List.mem_singleton_self _) ht⟩
    | @inside _ _ c chain _ hc hwc ht =>
      have htold : l'.Tells c chain part := ⟨hwc,ht⟩
      have hmem := mem_marksAll.mpr ⟨c,hc,htold.marks.1 k hpart⟩
      obtain ⟨d,hd,chain',hd',hchain⟩ :=
        h.complete c hc chain part k htold hpart ((hbelow hmem).mpr hk)
      exact ⟨_,⟨hw,.inside hd hd'.1 hd'.2⟩,hthins hc htold hchain⟩

/-- A block of statements stands for a node that opens a block scope around them. -/
theorem block {ss : List Node} (hn : (marked m l' (ss.map fun d => (g, d))).marks.Nodup)
    (hown : (marked m l' (ss.map fun d => (g, d))).ownParts = []) (hopens : l'.opens = some false)
    (hw : l'.walks g = true) (hinside : ∀ d, l'.isBody g d = false)
    (hbody : ∀ d, l.isBody f d = false) :
    l.Pruned [(f, marked m l' (ss.map fun d => (g, d)))]
      [(f, marked m .blockStatement (ss.map fun d => (.body, d)))] := by
  have hmarks : marksAll [(f, marked m .blockStatement (ss.map fun d => (Field.body, d)))] =
      marksAll [(f, marked m l' (ss.map fun d => (g, d)))] := by
    simp only [marksAll_singleton, marks_marked, List.flatMap_map]
  have hscope (l'' : Label) (h : l''.opens = some false) (cs : List (Field × Node)) :
      (marked m l'' cs).scopeAs false = [(m, false)] := by
    simp only [scopeAs, label, h]
    rfl
  refine ⟨fun k hk => hmarks ▸ hk,?_,?_,?_⟩
  · rw [hmarks, marksAll_singleton]
    exact hn
  · intro d hd chain part ht
    obtain rfl := List.mem_singleton.mp hd
    refine ⟨_,List.mem_singleton_self _,chain,?_,thins_refl hd ht⟩
    obtain ⟨hwd,ht⟩ := ht
    refine ⟨hwd,?_⟩
    rw [hbody] at ht ⊢
    cases ht with
    | own hx => cases hx
    | inside he hwe ht =>
      obtain ⟨d,hd,rfl⟩ := List.mem_map.mp he
      rw [hscope _ rfl, ← hscope l' hopens (ss.map fun d => (g, d))]
      exact .inside (List.mem_map_of_mem hd) hw (by
        show Node.Tells (l'.isBody g d) d _ _
        rw [hinside d]
        exact ht)
  · intro c hc chain part k ht hpart hk
    obtain rfl := List.mem_singleton.mp hc
    have htold : l.Tells (f, marked m .blockStatement (ss.map fun d => (Field.body, d))) chain part := by
      obtain ⟨hwd,ht⟩ := ht
      refine ⟨hwd,?_⟩
      rw [hbody] at ht ⊢
      cases ht with
      | own hx =>
        rw [hown] at hx
        cases hx
      | inside he hwe ht =>
        obtain ⟨d,hd,rfl⟩ := List.mem_map.mp he
        rw [hscope _ hopens, ← hscope .blockStatement rfl (ss.map fun d => (.body, d))]
        change Node.Tells (l'.isBody g d) d _ _ at ht
        rw [hinside d] at ht
        exact .inside (List.mem_map_of_mem hd) rfl ht
    exact ⟨_,List.mem_singleton_self _,chain,htold,thins_refl (List.mem_singleton_self _) htold⟩

end Pruned
end Label

end Unravel
