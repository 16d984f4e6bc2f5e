import Unravel.Proofs.Scope.Pruning

/-! What the names of a program stand for when nodes are taken away from it. A declaration of which the
scope goes comes to stand in the next scope out. A use that is still there stands for what it stood
for, exactly if a declaration of that is still there and no declaration has come in between. -/

namespace Unravel.Node

/-- The node at a place of a tree is the node at a place of another tree. -/
def Stays (n n' : Node) (q q' : Path) : Prop := ∃ k, n.markAt q = some k ∧ n'.markAt q' = some k

theorem exists_stays_iff {n n' : Node} {q : Path} :
    (∃ q', n.Stays n' q q') ↔ ∃ k ∈ n'.marks, n.markAt q = some k := by
  constructor
  · rintro ⟨q',k,hq,hq'⟩
    exact ⟨k,markAt_mem hq',hq⟩
  · rintro ⟨k,hk,hq⟩
    obtain ⟨q',hq'⟩ := exists_markAt hk
    exact ⟨q',k,hq,hq'⟩

/-- An identifier belongs to a binding in both trees or in none, and to one binding with each of
some other identifiers in both or in none. -/
def Undisturbed (stays : Path → Path → Prop) (others : Path → Prop) (n n' : Node)
    (q q' : Path) : Prop :=
  (n.IsBound q ↔ n'.IsBound q') ∧
    ∀ r r', stays r r' → others r → (n.SameBinding q r ↔ n'.SameBinding q' r')

/-- The binding of an identifier, if it has one, keeps a declaration. -/
def KeepsDeclaration (kept : Path → Prop) (n : Node) (q : Path) : Prop :=
  ∀ b ∈ n.scope.allBindings, (∃ o ∈ b.occurrences, o.path = q) → ∃ d ∈ b.declarations, kept d.path

/-- A declaration stands in a scope that is not kept. -/
def Leaves (kept : Path → Prop) (n : Node) (e : Path) : Prop :=
  ∃ σ ∈ n.scope.walk, ¬kept σ.path ∧ ∃ b ∈ σ.bindings, ∃ d ∈ b.declarations, d.path = e

/-- A declaration comes to share a binding with an identifier with which it had none in common. One
of the two belonged to what an identifier stood for. -/
def Intrudes (stays : Path → Path → Prop) (n n' : Node) (e q : Path) : Prop :=
  ∃ e' r r', stays e e' ∧ stays r r' ∧ n.KeepsDeclaration (fun q => ∃ q', stays q q') r ∧
    ¬n.SameBinding r e ∧ n'.SameBinding r' e' ∧ (r = q ∨ n.SameBinding q r ∨ n.SameBinding q e)

section Scopes
variable {n n' m m' : Node} {stays : Path → Path → Prop} {kept : Path → Prop}
  (h : n.scope = m.scope)
include h

/-- What names stand for is told by the scopes. -/
theorem undisturbed_congr (h' : n'.scope = m'.scope) {q q' : Path} :
    Undisturbed stays kept n n' q q' ↔ Undisturbed stays kept m m' q q' := by
  simp only [Undisturbed, IsBound, SameBinding, h, h']

theorem keepsDeclaration_congr : n.KeepsDeclaration kept = m.KeepsDeclaration kept := by
  unfold KeepsDeclaration
  rw [h]

theorem leaves_congr {e : Path} : n.Leaves kept e ↔ m.Leaves kept e := by simp only [Leaves, h]

theorem intrudes_congr (h' : n'.scope = m'.scope) {e q : Path} :
    Intrudes stays n n' e q ↔ Intrudes stays m m' e q := by
  simp only [Intrudes, SameBinding, KeepsDeclaration, h, h']

end Scopes

/-! ### Scopes and what is around them -/

private theorem scopeAs_eq_append {n : Node} {isBody : Bool} {a b : Chain} {s : Option Nat × Bool}
    (h : n.scopeAs isBody = a ++ s :: b) : n.mark? = s.1 ∧ b = [] := by
  have hs : s ∈ n.scopeAs isBody := by simp [h]
  refine ⟨(mem_scopeAs hs).1,?_⟩
  have hlength := congrArg List.length h
  have hle : (n.scopeAs isBody).length ≤ 1 := by
    unfold scopeAs
    split
    · exact Nat.zero_le 1
    · exact Option.length_toList_le
  rw [hlength, List.length_append, List.length_cons] at hle
  exact List.length_eq_zero_iff.mp (by omega)

/-- A scope around what a node tells is its own or stands in a subtree. -/
private theorem Tells.scope_cases {isBody : Bool} {n : Node} {part : Part} {a b : Chain}
    {s : Option Nat × Bool} (h : Tells isBody n (a ++ s :: b) part) : (n.mark? = s.1 ∧ b = []) ∨
      ∃ c ∈ n.subtrees, ∃ b₀, Tells (n.label.isBody c.1 c.2) c.2 (a ++ s :: b₀) part ∧
        b = b₀ ++ n.scopeAs isBody := by
  generalize hchain : a ++ s :: b = chain at h
  cases h with
  | own h =>
    simp only [ownParts, List.mem_append, List.mem_map, Prod.mk.injEq] at h
    have hne : ([] : Chain) ≠ chain := by simp [← hchain]
    rcases h with (⟨_,-,hnil,-⟩ | ⟨_,-,hnil,-⟩) | ⟨_,-,hscope,-⟩
    · exact absurd hnil hne
    · exact absurd hnil hne
    · exact .inl (scopeAs_eq_append (hscope.trans hchain.symm))
  | @inside _ _ c inner _ hc _ h =>
    obtain ⟨a',rfl,hscope⟩ | ⟨inner',rfl,hscope⟩ := List.append_eq_append_iff.mp hchain
    · cases a' with
      | nil => exact .inl (scopeAs_eq_append (a := []) hscope.symm)
      | cons t b₀ =>
        obtain ⟨rfl,rfl⟩ := List.cons_eq_cons.mp hscope
        exact .inr ⟨c,hc,b₀,h,rfl⟩
    · exact .inl (scopeAs_eq_append hscope)

/-- What is around a scope is told by its mark. -/
private theorem Tells.outer_eq {isBody : Bool} {n : Node} (hn : n.marks.Nodup) {part part' : Part}
    {a b a' b' : Chain} {s t : Option Nat × Bool} {k : Nat} (hs : s.1 = some k) (ht : t.1 = some k)
    (h : Tells isBody n (a ++ s :: b) part) (h' : Tells isBody n (a' ++ t :: b') part') : b = b' := by
  induction n using inductionOn generalizing isBody b b' with
  | marked m l cs ih =>
    have hinside {c : Field × Node} (hc : c ∈ cs) {isBody : Bool} {a b : Chain} {part : Part}
        {s : Option Nat × Bool} (hs : s.1 = some k) (h : Tells isBody c.2 (a ++ s :: b) part) :
        k ∈ c.2.marks ∧ (marked m l cs).mark? ≠ some k := by
      have hk := (h.every (everyMark_mem c.2)).2 s (by simp) k hs
      obtain ⟨-,-,hapart⟩ := List.nodup_append.mp hn
      exact ⟨hk,fun heq => hapart k (Option.mem_toList.mpr heq) k (mem_marksAll.mpr ⟨c,hc,hk⟩) rfl⟩
    obtain ⟨hm,rfl⟩ | ⟨c,hc,b₀,hbelow,rfl⟩ := h.scope_cases <;>
      obtain ⟨hm',rfl⟩ | ⟨d,hd,b₁,hbelow',rfl⟩ := h'.scope_cases
    · rfl
    · exact absurd (hm.trans hs) (hinside hd ht hbelow').2
    · exact absurd (hm'.trans ht) (hinside hc hs hbelow).2
    · obtain rfl := eq_of_mem_marks (nodup_marksAll hn) hc hd (hinside hc hs hbelow).1
        (hinside hd ht hbelow').1
      rw [ih c hc (nodup_of_mem (nodup_marksAll hn) hc) hbelow hbelow']

/-- From a scope on, the innermost one that is left. -/
def Moves (n n' : Node) (m m' : Option Nat) : Prop :=
  ∃ part a s b e, Tells false n (a ++ s :: b) part ∧ s.1 = m ∧ Chain.Thins n'.marks (s :: b) e ∧
    e.head?.map Prod.fst = some m'

/-- A scope from which one moves on is gone. -/
theorem Moves.gone {n n' : Node} {m m' : Option Nat} (h : n.Moves n' m m') (hne : m ≠ m') :
    ∀ k ∈ n'.marks, m ≠ some k := by
  obtain ⟨_,_,_,_,_,-,rfl,hthins,hhead⟩ := h
  cases hthins with
  | keep => exact absurd (Option.some.inj hhead) hne
  | drop hm => exact hm

/-- A program from which nodes were taken away. -/
structure PrunedTo (n n' : Node) : Prop where
  program : n.IsProgram
  declarators : n.DeclaratorsOnly
  program' : n'.IsProgram
  declarators' : n'.DeclaratorsOnly
  marked : n.AllMarked
  nodup : n.marks.Nodup
  pruned : Label.blockStatement.Pruned [(.body, n)] [(.body, n')]

namespace PrunedTo
variable {n n' : Node} (h : n.PrunedTo n')
include h

theorem nodup' : n'.marks.Nodup := by
  rw [← marksAll_singleton]
  exact h.pruned.nodup

theorem sound {chain' : Chain} {part : Part} (ht : Tells false n' chain' part) :
    ∃ chain, Tells false n chain part ∧ chain.Thins n'.marks chain' := by
  obtain ⟨c,hc,chain,ht,hthins⟩ := h.pruned.sound _ (List.mem_singleton_self _) _ _ ⟨rfl,ht⟩
  obtain rfl := List.mem_singleton.mp hc
  rw [marksAll_singleton] at hthins
  exact ⟨chain,ht.2,hthins⟩

theorem complete {chain : Chain} {part : Part} {k : Nat} (ht : Tells false n chain part)
    (hpart : part.mark? = some k) (hk : k ∈ n'.marks) :
    ∃ chain', Tells false n' chain' part ∧ chain.Thins n'.marks chain' := by
  rw [← marksAll_singleton] at hk ⊢
  obtain ⟨d,hd,chain',ht,hthins⟩ :=
    h.pruned.complete _ (List.mem_singleton_self _) _ _ k ⟨rfl,ht⟩ hpart hk
  obtain rfl := List.mem_singleton.mp hd
  exact ⟨chain',ht.2,hthins⟩

/-- What is left tells of nodes that are left. -/
theorem exists_mark {chain' : Chain} {part : Part} (ht : Tells false n' chain' part) :
    ∃ k ∈ n'.marks, part.mark? = some k := by
  obtain ⟨chain,hbefore,-⟩ := h.sound ht
  obtain ⟨k,hk⟩ := Option.isSome_iff_exists.mp (hbefore.every (Q := fun m => m.isSome) h.marked).1
  exact ⟨k,(ht.every (everyMark_mem n')).1 k hk,hk⟩

private theorem exists_place {k : Nat} (hk : k ∈ n'.marks) : ∃ q, n.markAt q = some k := by
  have hk' := h.pruned.marks k (by rwa [marksAll_singleton])
  rw [marksAll_singleton] at hk'
  exact exists_markAt hk'

private theorem isSome {chain : Chain} {part : Part} (ht : Tells false n chain part) :
    ∀ s ∈ chain, s.1.isSome := (ht.every (Q := fun m => m.isSome) h.marked).2

private theorem isSome' {chain' : Chain} {part : Part} (ht : Tells false n' chain' part) :
    ∀ s ∈ chain', s.1.isSome := by
  obtain ⟨chain,hbefore,hthins⟩ := h.sound ht
  exact fun s hs => h.isSome hbefore s (hthins.subset hs)

private theorem lands_isSome {name : String} {k m : Option Nat} (hl : n.Lands name k m) :
    m.isSome := by
  obtain ⟨chain,reach,ht,htarget⟩ := hl
  obtain ⟨s,hs,rfl⟩ := Reach.mem_of_target? htarget
  exact h.isSome ht s hs

private theorem lands_isSome' {name : String} {k m : Option Nat} (hl : n'.Lands name k m) :
    m.isSome := by
  obtain ⟨chain,reach,ht,htarget⟩ := hl
  obtain ⟨s,hs,rfl⟩ := Reach.mem_of_target? htarget
  exact h.isSome' ht s hs

omit h in
/-- The outermost scope is that of the program. -/
private theorem outermost (hn : n.IsProgram) {chain : Chain} {part : Part}
    (ht : Tells false n chain part) {s : Option Nat × Bool} (hs : chain.getLast? = some s) :
    s.2 = true := by
  obtain ⟨sourceType,hl⟩ := hn
  obtain ⟨m,_,cs⟩ := n
  obtain rfl := hl
  cases ht with
  | own h => cases h
  | inside _ _ h =>
    have hscope : (Node.marked m (.program sourceType) cs).scopeAs false = [(m, true)] := rfl
    rw [hscope, List.getLast?_append, List.getLast?_singleton, Option.some_or] at hs
    obtain rfl := Option.some.inj hs
    rfl

/-! ### Where declarations come to stand -/

/-- Wherever a scope is around something, what is left from there on begins alike. -/
theorem head_of_moves {m m' : Option Nat} (hmoves : n.Moves n' m m') {part : Part} {a b e : Chain}
    {s : Option Nat × Bool} (ht : Tells false n (a ++ s :: b) part) (hs : s.1 = m)
    (hthins : Chain.Thins n'.marks (s :: b) e) : e.head?.map Prod.fst = some m' := by
  obtain ⟨_,a₀,s₀,b₀,e₀,ht₀,rfl,hthins₀,hhead⟩ := hmoves
  have hsome := h.isSome ht
  obtain ⟨k,hk⟩ := Option.isSome_iff_exists.mp (hsome s (by simp))
  obtain rfl := ht.outer_eq h.nodup hk (hs.symm.trans hk) ht₀
  rw [← hhead]
  cases hthins with
  | keep hm _ =>
    cases hthins₀ with
    | keep _ _ => exact congrArg some hs
    | drop hm₀ _ => exact absurd (hs.symm.trans hk) (hm₀ k (hm k hk))
  | drop hm hd =>
    cases hthins₀ with
    | keep hm₀ _ => exact absurd hk (hm k (hm₀ k (hs.symm.trans hk)))
    | drop _ hd₀ => rw [hd.eq hd₀ fun t ht => hsome t (by simp [ht])]

theorem moves_eq {m m₁ m₂ : Option Nat} (h₁ : n.Moves n' m m₁) (h₂ : n.Moves n' m m₂) : m₁ = m₂ := by
  obtain ⟨_,_,_,_,_,ht,hs,hthins,hhead⟩ := h₁
  exact Option.some.inj (hhead.symm.trans (h.head_of_moves h₂ ht hs hthins))

/-- A scope that is left is where it was. -/
theorem moves_self {chain' : Chain} {part : Part} (ht : Tells false n' chain' part)
    {s : Option Nat × Bool} (hs : s ∈ chain') : n.Moves n' s.1 s.1 := by
  obtain ⟨k,hk⟩ := Option.isSome_iff_exists.mp (h.isSome' ht s hs)
  have hmem := (ht.every (everyMark_mem n')).2 s hs k hk
  obtain ⟨chain,hbefore,hthins⟩ := h.sound ht
  obtain ⟨a,b,rfl⟩ := List.append_of_mem (hthins.subset hs)
  obtain ⟨_,e,rfl,-,he⟩ := hthins.split
  obtain ⟨e,rfl⟩ := he.cons (.inr ⟨k,hmem,hk⟩)
  exact ⟨part,a,s,b,_,hbefore,rfl,he,rfl⟩

/-- What a declaration that is left declares comes to stand in the next scope left. -/
theorem lands_after {name : String} {k : Nat} {m : Option Nat} (hk : k ∈ n'.marks)
    (hl : n.Lands name (some k) m) : ∃ m', n.Moves n' m m' ∧ n'.Lands name (some k) m' := by
  obtain ⟨chain,reach,ht,htarget⟩ := hl
  obtain ⟨chain',ht',hthins⟩ := h.complete ht rfl hk
  obtain ⟨a,s,b,e,m',rfl,hs,he,hhead,htarget'⟩ :=
    hthins.target? (fun s => outermost h.program ht) htarget
  exact ⟨m',⟨_,a,s,b,e,ht,hs,he,hhead⟩,chain',reach,ht',htarget'⟩

theorem lands_before {name : String} {k m' : Option Nat} (hl : n'.Lands name k m') :
    ∃ i ∈ n'.marks, k = some i ∧ ∃ m, n.Lands name (some i) m ∧ n.Moves n' m m' := by
  obtain ⟨chain',reach,ht',htarget'⟩ := hl
  obtain ⟨i,hi,rfl : k = some i⟩ := h.exists_mark ht'
  obtain ⟨chain,ht,hthins⟩ := h.sound ht'
  obtain ⟨m,htarget⟩ := hthins.exists_target htarget'
  obtain ⟨a,s,b,e,m'',rfl,hs,he,hhead,htarget''⟩ :=
    hthins.target? (fun s => outermost h.program ht) htarget
  obtain rfl := Option.some.inj (htarget''.symm.trans htarget')
  exact ⟨i,hi,rfl,m,⟨_,reach,ht,htarget⟩,_,a,s,b,e,ht,hs,he,hhead⟩

/-! ### Where names are looked up -/

section Kept
variable {name : String} {k : Nat} (hk : k ∈ n'.marks)
include hk

private theorem undeclared_iff : (∀ name m, ¬n.Lands name (some k) m) ↔
    ∀ name m, ¬n'.Lands name (some k) m := by
  constructor
  · intro hnone name m' hl
    obtain ⟨_,-,heq,m,hl,-⟩ := h.lands_before hl
    obtain rfl := Option.some.inj heq
    exact hnone name m hl
  · intro hnone name m hl
    obtain ⟨m',-,hl⟩ := h.lands_after hk hl
    exact hnone name m' hl

/-- A name is found where what it stood for has come to, or where a declaration has come in between.
A declaration of what it stood for is left. -/
theorem resolves_after {m : Option Nat} (hr : n.Resolves (some k) name m)
    (hdecl : ∃ j ∈ n'.marks, n.Lands name (some j) m) :
    ∃ m', n.Moves n' m m' ∧ (n'.Resolves (some k) name m' ∨
      ∃ j ∈ n'.marks, ∃ m₀ m₁, n.Lands name (some j) m₀ ∧ m₀ ≠ m ∧ n.Moves n' m₀ m₁ ∧ m₀ ≠ m₁ ∧
        n'.Lands name (some j) m₁ ∧ n'.Resolves (some k) name m₁) := by
  obtain hl | ⟨hnone,chain,ht,hnear⟩ := hr
  · obtain ⟨m',hmoves,hl⟩ := h.lands_after hk hl
    exact ⟨m',hmoves,.inl (.inl hl)⟩
  obtain ⟨i,hi,hli⟩ := hdecl
  obtain ⟨m',hmoves,hli'⟩ := h.lands_after hi hli
  refine ⟨m',hmoves,?_⟩
  obtain ⟨chain',ht',hthins⟩ := h.complete ht rfl hk
  have hnone' := (h.undeclared_iff hk).mp hnone
  obtain ⟨a,s,b,e,rfl,hs,he,hnext⟩ := hthins.nearest (Q := n'.Lists name) (h.isSome ht) hnear
  rcases hnext m' (h.head_of_moves hmoves ht hs he) ⟨_,hli'⟩ with hnear' | ⟨i',-,hnear',hnot⟩
  · exact .inl (.inr ⟨hnone',chain',ht',hnear'⟩)
  -- Another declaration has come to a scope that did not declare the name.
  have hr' : n'.Resolves (some k) name (some i') := .inr ⟨hnone',chain',ht',hnear'⟩
  obtain ⟨⟨_,hl₁⟩,-⟩ := hnear'.mem
  obtain ⟨j,hj,rfl,m₀,hl₀,hmoves₀⟩ := h.lands_before hl₁
  by_cases hm : m₀ = m
  · obtain rfl := hm
    obtain rfl := h.moves_eq hmoves hmoves₀
    exact .inl hr'
  · exact .inr ⟨j,hj,m₀,_,hl₀,hm,hmoves₀,fun heq => hnot ⟨_,heq ▸ hl₀⟩,hl₁,hr'⟩

omit hk in
/-- What a name is found to stand for is what it stood for, or a declaration has come to where none of
the name was. -/
theorem resolves_before {m' : Option Nat} (hr : n'.Resolves (some k) name m')
    (hdecl : ∀ m, n.Resolves (some k) name m → ∃ j ∈ n'.marks, n.Lands name (some j) m) :
    (∃ m, n.Resolves (some k) name m ∧ n.Moves n' m m') ∨ ¬n.Lists name m' ∧
      ∃ j ∈ n'.marks, ∃ m₀, n.Lands name (some j) m₀ ∧ n.Moves n' m₀ m' ∧
        ¬n.Resolves (some k) name m₀ ∧ n'.Lands name (some j) m' := by
  obtain hl | ⟨hnone',chain',ht',hnear'⟩ := hr
  · obtain ⟨_,-,heq,m,hl,hmoves⟩ := h.lands_before hl
    obtain rfl := Option.some.inj heq
    exact .inl ⟨m,.inl hl,hmoves⟩
  obtain ⟨_,hk,hmark⟩ := h.exists_mark ht'
  obtain rfl : k = _ := Option.some.inj hmark
  have hnone := (h.undeclared_iff hk).mpr hnone'
  obtain ⟨chain,ht,hthins⟩ := h.sound ht'
  obtain ⟨⟨_,hl'⟩,t,ht₁,rfl⟩ := hnear'.mem
  obtain ⟨j,hj,rfl,m₀,hl₀,hmoves₀⟩ := h.lands_before hl'
  by_cases hlists : n.Lists name t.1
  case neg =>
    by_cases hr₀ : n.Resolves (some k) name m₀
    · exact .inl ⟨m₀,hr₀,hmoves₀⟩
    · exact .inr ⟨hlists,j,hj,m₀,hl₀,hmoves₀,hr₀,hl'⟩
  -- The scope declared the name before.
  obtain ⟨m,hnear,hcases⟩ := hthins.nearest_before (h.isSome ht) hnear' hlists
  have hr : n.Resolves (some k) name m := .inr ⟨hnone,chain,ht,hnear⟩
  obtain ⟨i,hi,hl⟩ := hdecl m hr
  obtain ⟨m'',hmoves,hl''⟩ := h.lands_after hi hl
  refine .inl ⟨m,hr,?_⟩
  rcases hcases with rfl | ⟨i',hi',rfl,hlost⟩ | ⟨-,a,s,b,e,rfl,hs,he,hnext⟩
  · exact h.moves_self ht' ht₁
  · by_cases heq : some i' = m''
    · exact absurd ⟨_,heq ▸ hl''⟩ hlost
    · exact absurd rfl (hmoves.gone heq i' hi')
  · rw [← hnext m'' (h.head_of_moves hmoves ht hs he) ⟨_,hl''⟩]
    exact hmoves

end Kept

/-! ### Bindings by places -/

private theorem sameBinding_iff {q r : Path} {k j : Nat} (hq : n.markAt q = some k)
    (hr : n.markAt r = some j) : n.SameBinding q r ↔
      ∃ name m, n.Resolves (some k) name m ∧ n.Resolves (some j) name m :=
  sameBinding_iff_resolves h.program h.nodup (fun _ _ _ => h.lands_isSome) h.declarators hq hr

private theorem sameBinding_iff' {q r : Path} {k j : Nat} (hq : n'.markAt q = some k)
    (hr : n'.markAt r = some j) : n'.SameBinding q r ↔
      ∃ name m, n'.Resolves (some k) name m ∧ n'.Resolves (some j) name m :=
  sameBinding_iff_resolves h.program' h.nodup' (fun _ _ _ => h.lands_isSome') h.declarators' hq hr

private theorem resolves_eq {q : Path} {k : Nat} (hq : n.markAt q = some k) {name name' : String}
    {m m' : Option Nat} (hr : n.Resolves (some k) name m) (hr' : n.Resolves (some k) name' m') :
    name = name' ∧ m = m' :=
  hr.eq h.program h.nodup (fun _ _ _ => h.lands_isSome) h.declarators hq hr'

private theorem decl_kept {q : Path} (hdecl : n.KeepsDeclaration (fun q => ∃ q', n.Stays n' q q') q)
    {k : Nat} (hq : n.markAt q = some k) (name : String) (m : Option Nat)
    (hr : n.Resolves (some k) name m) : ∃ j ∈ n'.marks, n.Lands name (some j) m := by
  obtain ⟨s,hbelongs,rfl⟩ :=
    (Node.resolves_iff h.program h.nodup (fun _ _ => h.lands_isSome) hq).mp hr
  obtain ⟨σ,hσ,b,hb,rfl,rfl⟩ := hbelongs.declares h.program h.declarators
  obtain ⟨o,ho,rfl⟩ := (belongsTo_iff h.program h.declarators hσ hb).mp hbelongs
  obtain ⟨d,hd,q',j,hj,hq'⟩ := hdecl b (mem_allBindings.mpr ⟨σ,hσ,hb⟩) ⟨o,ho,rfl⟩
  obtain ⟨hname,kind,hdecl⟩ := (mem_declarations_iff h.program hσ hb h.declarators).mp hd
  exact ⟨j,markAt_mem hq',(lands_iff h.program).mpr ⟨σ.path,kind,d,hdecl,hname,hj,rfl⟩⟩

/-- A declaration in a scope that is gone. -/
private theorem leaves_of_lands {name : String} {j : Nat} {m : Option Nat}
    (hl : n.Lands name (some j) m) (hgone : ∀ k ∈ n'.marks, m ≠ some k) :
    ∃ e, n.markAt e = some j ∧ n.Leaves (fun q => ∃ q', n.Stays n' q q') e := by
  obtain ⟨s,kind,o,ho,rfl,hj,rfl⟩ := (lands_iff h.program).mp hl
  obtain ⟨σ,hσ,rfl,b,hb,hname⟩ := (declares_iff_bound h.program h.declarators).mp ⟨kind,o,ho,rfl⟩
  have hdecl := (mem_declarations_iff h.program hσ hb h.declarators).mpr ⟨hname.symm,kind,ho⟩
  refine ⟨o.path,hj,σ,hσ,?_,b,hb,o,hdecl,rfl⟩
  intro hkept
  obtain ⟨k,hk,hmark⟩ := exists_stays_iff.mp hkept
  exact hgone k hk hmark

/-- A declaration that has come to where a name is looked up intrudes on the name. -/
private theorem intrudes_of_lands {name : String} {i j : Nat} {m₀ m' : Option Nat} {q r r' : Path}
    (hi : i ∈ n'.marks) (hl : n.Lands name (some i) m₀) (hmoves : n.Moves n' m₀ m') (hne : m₀ ≠ m')
    (hl' : n'.Lands name (some i) m') (hr : n.markAt r = some j) (hr' : n'.markAt r' = some j)
    (hdecl : n.KeepsDeclaration (fun q => ∃ q', n.Stays n' q q') r)
    (hnot : ¬n.Resolves (some j) name m₀) (hfound : n'.Resolves (some j) name m')
    (hof : r = q ∨ n.SameBinding q r ∨
      ∃ k, n.markAt q = some k ∧ n.Resolves (some k) name m₀) :
    ∃ e, n.Leaves (fun q => ∃ q', n.Stays n' q q') e ∧ Intrudes (n.Stays n') n n' e q := by
  obtain ⟨e,he,hleaves⟩ := h.leaves_of_lands hl (hmoves.gone hne)
  obtain ⟨e',he'⟩ := exists_markAt hi
  refine ⟨e,hleaves,e',r,r',⟨i,he,he'⟩,⟨j,hr,hr'⟩,hdecl,fun hsame => ?_,?_,?_⟩
  · obtain ⟨name',m,hrm,hem⟩ := (h.sameBinding_iff hr he).mp hsame
    obtain ⟨rfl,rfl⟩ := h.resolves_eq he hem (.inl hl)
    exact hnot hrm
  · exact (h.sameBinding_iff' hr' he').mpr ⟨name,m',hfound,.inl hl'⟩
  · refine hof.imp_right (Or.imp_right fun ⟨k,hk,hqm⟩ => ?_)
    exact (h.sameBinding_iff hk he).mpr ⟨name,m₀,hqm,.inl hl⟩

section Apart
variable {q q' r r' : Path} (hq : n.Stays n' q q') (hr : n.Stays n' r r')
  (hqdecl : n.KeepsDeclaration (fun q => ∃ q', n.Stays n' q q') q)
  (hrdecl : n.KeepsDeclaration (fun q => ∃ q', n.Stays n' q q') r)
  (hnone : ∀ e, n.Leaves (fun q => ∃ q', n.Stays n' q q') e → ¬Intrudes (n.Stays n') n n' e q)
include hq hr hqdecl hrdecl hnone

/-- Where nothing intrudes, what stood for the same still does. -/
private theorem sameBinding_after (hsame : n.SameBinding q r) : n'.SameBinding q' r' := by
  obtain ⟨k,hk,hk'⟩ := hq
  obtain ⟨j,hj,hj'⟩ := hr
  obtain ⟨name,m,hqm,hrm⟩ := (h.sameBinding_iff hk hj).mp hsame
  have hdecl := h.decl_kept hqdecl hk name m hqm
  obtain ⟨m₁,hm₁,hq₁⟩ := h.resolves_after (markAt_mem hk') hqm hdecl
  obtain ⟨m₂,hm₂,hr₂⟩ := h.resolves_after (markAt_mem hj') hrm hdecl
  obtain rfl := h.moves_eq hm₁ hm₂
  rcases hq₁ with hq₁ | ⟨i,hi,m₀,m',hl,hne,hmoves,hgone,hl',hfound⟩
  case inr =>
    obtain ⟨e,hleaves,hintrudes⟩ := h.intrudes_of_lands hi hl hmoves hgone hl' hk hk' hqdecl
      (fun hq₀ => hne (h.resolves_eq hk hq₀ hqm).2) hfound (.inl rfl)
    exact absurd hintrudes (hnone e hleaves)
  rcases hr₂ with hr₂ | ⟨i,hi,m₀,m',hl,hne,hmoves,hgone,hl',hfound⟩
  case inr =>
    obtain ⟨e,hleaves,hintrudes⟩ := h.intrudes_of_lands hi hl hmoves hgone hl' hj hj' hrdecl
      (fun hr₀ => hne (h.resolves_eq hj hr₀ hrm).2) hfound (.inr (.inl hsame))
    exact absurd hintrudes (hnone e hleaves)
  exact (h.sameBinding_iff' hk' hj').mpr ⟨name,m₁,hq₁,hr₂⟩

/-- Where nothing intrudes, what stands for the same did so before. -/
private theorem sameBinding_before (hsame : n'.SameBinding q' r') : n.SameBinding q r := by
  obtain ⟨k,hk,hk'⟩ := hq
  obtain ⟨j,hj,hj'⟩ := hr
  obtain ⟨name,m',hqm',hrm'⟩ := (h.sameBinding_iff' hk' hj').mp hsame
  rcases h.resolves_before hqm' (h.decl_kept hqdecl hk name) with
    ⟨m,hqm,hm⟩ | ⟨hlists,i,hi,m₀,hl,hmoves,hnot,hl'⟩
  case inr =>
    obtain ⟨e,hleaves,hintrudes⟩ := h.intrudes_of_lands hi hl hmoves
      (fun heq => hlists ⟨_,heq ▸ hl⟩) hl' hk hk' hqdecl hnot hqm' (.inl rfl)
    exact absurd hintrudes (hnone e hleaves)
  obtain ⟨d,hd,hld⟩ := h.decl_kept hqdecl hk name m hqm
  obtain ⟨m'',hmoves,hld'⟩ := h.lands_after hd hld
  obtain rfl := h.moves_eq hm hmoves
  by_contra hdiffer
  have hnot : ¬n.Resolves (some j) name m := fun hrm =>
    hdiffer ((h.sameBinding_iff hk hj).mpr ⟨name,m,hqm,hrm⟩)
  -- Of the two that have come together, the declaration that has left its scope intrudes.
  by_cases hgone : m = m'
  case neg =>
    obtain ⟨e,hleaves,hintrudes⟩ := h.intrudes_of_lands hd hld hmoves hgone hld' hj hj' hrdecl
      hnot hrm' (.inr (.inr ⟨k,hk,hqm⟩))
    exact hnone e hleaves hintrudes
  obtain rfl := hgone
  rcases h.resolves_before hrm' (h.decl_kept hrdecl hj name) with
    ⟨mr,hrm,hmr⟩ | ⟨hlists,-⟩
  case inr => exact hlists ⟨_,hld⟩
  have hne : mr ≠ m := fun heq => hnot (heq ▸ hrm)
  obtain ⟨d,hd,hld⟩ := h.decl_kept hrdecl hj name mr hrm
  obtain ⟨m'',hmoves,hld'⟩ := h.lands_after hd hld
  obtain rfl := h.moves_eq hmr hmoves
  obtain ⟨e,hleaves,hintrudes⟩ := h.intrudes_of_lands hd hld hmr hne hld' hk hk' hqdecl
    (fun hq₀ => hne (h.resolves_eq hk hq₀ hqm).2) hqm' (.inl rfl)
  exact hnone e hleaves hintrudes

end Apart

/-- A scope of which a declaration is kept has a node that the declaration stands in. -/
theorem exists_scope {σ : Scope} (hσ : σ ∈ n.scope.walk) {b : Binding} (hb : b ∈ σ.bindings)
    {d : Occurrence} (hd : d ∈ b.declarations) {j : Nat} (hj : n.markAt d.path = some j) :
    ∃ c, n.at? σ.path = some c ∧ c.label.opens.isSome ∧ j ∈ c.marks := by
  obtain ⟨-,kind,hdecl⟩ := (mem_declarations_iff h.program hσ hb h.declarators).mp hd
  obtain ⟨chain,reach,ht,htarget⟩ := (lands_iff h.program).mpr ⟨σ.path,kind,d,hdecl,rfl,hj,rfl⟩
  obtain ⟨s,hs,hmark⟩ := Reach.mem_of_target? htarget
  obtain ⟨q,c,hc,hcmark,hopens,hmem⟩ := ht.exists_scope hs rfl
  obtain ⟨k,hk⟩ := Option.isSome_iff_exists.mp (h.marked q c hc)
  have hq : n.markAt q = some k := by rw [markAt, hc, Option.bind_some, hk]
  obtain rfl := markAt_inj h.nodup hq (by rw [← hmark, ← hcmark, hk])
  exact ⟨c,hc,by rw [hopens]; rfl,hmem⟩

/-- Of what a name stands for as before a declaration is left. -/
theorem keepsDeclaration {q q' : Path} (hstays : n.Stays n' q q')
    (hsame : Undisturbed (n.Stays n') (n.KeepsDeclaration fun q => ∃ q', n.Stays n' q q') n n' q q') :
    n.KeepsDeclaration (fun q => ∃ q', n.Stays n' q q') q := by
  rintro b hb ⟨o,ho,rfl⟩
  -- A declaration of the binding that the identifier belongs to afterwards.
  obtain ⟨b',hb',o',ho',rfl⟩ := hsame.1.mp ⟨b,hb,o,ho,rfl⟩
  obtain ⟨hne,-⟩ := declarations_listed h.program' hb'
  obtain ⟨d',hd'⟩ := List.exists_mem_of_ne_nil _ hne
  obtain ⟨σ',hσ',hbσ'⟩ := mem_allBindings.mp hb'
  obtain ⟨-,kind,hdecl'⟩ := (mem_declarations_iff h.program' hσ' hbσ' h.declarators').mp hd'
  obtain ⟨chain',reach,ht',htarget'⟩ := (lands_iff h.program').mpr ⟨_,kind,d',hdecl',rfl,rfl,rfl⟩
  obtain ⟨k,hk,hmark : n'.markAt d'.path = some k⟩ := h.exists_mark ht'
  obtain ⟨p,hp⟩ := h.exists_place hk
  -- It was a declaration before.
  obtain ⟨chain,ht,hthins⟩ := h.sound ht'
  obtain ⟨m,htarget⟩ := hthins.exists_target htarget'
  obtain ⟨s,kind,d,hdecl,-,hdmark,-⟩ := (lands_iff h.program).mp ⟨chain,reach,ht,htarget⟩
  obtain rfl := markAt_inj h.nodup (hdmark.trans hmark) hp
  have hstays' : n.Stays n' d.path d'.path := ⟨k,hp,hmark⟩
  have hlexical := scope_lexical h.program h.declarators
  have hdeclared {c : Binding} (hc : c ∈ n.scope.allBindings) {v : Occurrence}
      (hv : v ∈ c.occurrences) (hv' : v.path = d.path) :
      ∃ v ∈ c.declarations, ∃ q', n.Stays n' v.path q' := by
    refine ⟨v,?_,d'.path,hv' ▸ hstays'⟩
    refine (List.mem_append.mp hv).resolve_right fun href => ?_
    obtain ⟨around,hrefers⟩ := hlexical.used c hc v href
    exact hrefers.2 s kind d hdecl hv'.symm
  -- The identifier belonged to the binding of this declaration before.
  obtain ⟨c,hc,⟨u,hu,hu'⟩,v,hv,hv'⟩ :=
    (hsame.2 _ _ hstays' fun c hc ⟨v,hv,hv'⟩ => hdeclared hc hv hv').mpr
      ⟨b',hb',⟨o',ho',rfl⟩,d',List.mem_append_left _ hd',rfl⟩
  obtain rfl := eq_of_mem_occurrences h.program h.declarators hb hc ho hu hu'.symm
  exact hdeclared hb hv hv'

/-- A declaration that is left is one of what it declares. -/
private theorem keepsDeclaration_of_leaves {kept : Path → Prop} {e e' : Path}
    (hleaves : n.Leaves kept e) (he : n.Stays n' e e') :
    n.KeepsDeclaration (fun q => ∃ q', n.Stays n' q q') e := by
  rintro b hb ⟨o,ho,rfl⟩
  obtain ⟨σ,hσ,-,c,hc,d,hd,hpath⟩ := hleaves
  obtain rfl := eq_of_mem_occurrences h.program h.declarators hb (mem_allBindings.mpr ⟨σ,hσ,hc⟩) ho
    (List.mem_append_left _ hd) hpath.symm
  exact ⟨d,hd,e',hpath ▸ he⟩

/-- An identifier that is left stands for what it stood for, exactly if a declaration of that is left
and no declaration that leaves its scope intrudes. More declarations may be counted among these than
those of which the scope is gone. -/
theorem undisturbed_iff {kept : Path → Prop} (hkept : ∀ q, kept q → ∃ q', n.Stays n' q q') {q q' : Path}
    (hq : n.Stays n' q q') :
    Undisturbed (n.Stays n') (n.KeepsDeclaration fun q => ∃ q', n.Stays n' q q') n n' q q' ↔
      n.KeepsDeclaration (fun q => ∃ q', n.Stays n' q q') q ∧
        ∀ e, n.Leaves kept e → ¬Intrudes (n.Stays n') n n' e q := by
  constructor
  · intro hsame
    have hother {r r' : Path} := hsame.2 r r'
    refine ⟨h.keepsDeclaration hq hsame,fun e hleaves ⟨e',r,r',he,hr,hrdecl,hnot,hcome,hof⟩ => ?_⟩
    have hqe := hother he (h.keepsDeclaration_of_leaves hleaves he)
    have hqr := hother hr hrdecl
    have hdiffer : ¬(n.SameBinding q r ∧ n.SameBinding q e) := fun ⟨hqr,hqe⟩ =>
      hnot (hqr.symm.trans h.program h.declarators hqe)
    have hcome' {s : Path} (hs : n'.SameBinding s r') : n'.SameBinding s e' :=
      hs.trans h.program' h.declarators' hcome
    rcases hof with rfl | hsame | hsame
    · obtain ⟨k,hk,hk'⟩ := hq
      obtain ⟨j,hj,hj'⟩ := hr
      obtain rfl := Option.some.inj (hk.symm.trans hj)
      obtain rfl := markAt_inj h.nodup' hk' hj'
      exact hnot (hqe.mpr hcome)
    · exact hdiffer ⟨hsame,hqe.mpr (hcome' (hqr.mp hsame))⟩
    · refine hdiffer ⟨hqr.mpr ?_,hsame⟩
      exact (hqe.mp hsame).trans h.program' h.declarators' hcome.symm
  · rintro ⟨hdecl,hnone⟩
    have hnone (e : Path) (hleaves : n.Leaves (fun q => ∃ q', n.Stays n' q q') e) :
        ¬Intrudes (n.Stays n') n n' e q := by
      obtain ⟨σ,hσ,hgone,hdeclared⟩ := hleaves
      exact hnone e ⟨σ,hσ,fun hkeeps => hgone (hkept _ hkeeps),hdeclared⟩
    have hsame {r r' : Path} (hr : n.Stays n' r r')
        (hrdecl : n.KeepsDeclaration (fun q => ∃ q', n.Stays n' q q') r) :
        n.SameBinding q r ↔ n'.SameBinding q' r' :=
      ⟨h.sameBinding_after hq hr hdecl hrdecl hnone,h.sameBinding_before hq hr hdecl hrdecl hnone⟩
    refine ⟨?_,fun r r' => hsame⟩
    rw [isBound_iff, isBound_iff]
    exact hsame hq hdecl

/-! ### Marks of nodes that are no identifiers -/

/-- An identifier that is left has the name that it had. -/
private theorem nameAt?_of_stays {q q' : Path} (hq : n.Stays n' q q')
    (hbound : n.IsBound q ∨ n'.IsBound q') : n'.nameAt? q' = n.nameAt? q := by
  obtain ⟨k,hk,hk'⟩ := hq
  have htold {n : Node} {name : String} {m : Option Nat} (hr : n.Resolves (some k) name m) :
      ∃ chain part, Tells false n chain part ∧ part.mark? = some k := by
    obtain ⟨chain,reach,ht,-⟩ | ⟨-,chain,ht,-⟩ := hr
    · exact ⟨chain,_,ht,rfl⟩
    · exact ⟨chain,_,ht,rfl⟩
  have hboth : ∃ part, part.mark? = some k ∧ (∃ chain, Tells false n chain part) ∧
      ∃ chain, Tells false n' chain part := by
    rcases hbound with hbound | hbound
    · obtain ⟨_,_,hr,-⟩ := (h.sameBinding_iff hk hk).mp (isBound_iff.mp hbound)
      obtain ⟨chain,part,ht,hpart⟩ := htold hr
      obtain ⟨chain',ht',-⟩ := h.complete ht hpart (markAt_mem hk')
      exact ⟨part,hpart,⟨chain,ht⟩,chain',ht'⟩
    · obtain ⟨_,_,hr,-⟩ := (h.sameBinding_iff' hk' hk').mp (isBound_iff.mp hbound)
      obtain ⟨chain',part,ht',hpart⟩ := htold hr
      obtain ⟨chain,ht,-⟩ := h.sound ht'
      exact ⟨part,hpart,⟨chain,ht⟩,chain',ht'⟩
  obtain ⟨part,hpart,⟨_,ht⟩,_,ht'⟩ := hboth
  rw [ht.nameAt? h.program h.nodup hpart hk, ht'.nameAt? h.program' h.nodup' hpart hk']

section Fewer
variable {m : Node} (hscope : m.scope = n'.scope)
  (hfewer : ∀ q k, m.markAt q = some k → n'.markAt q = some k)
include hscope hfewer

/-- Only a declaration of a name intrudes on it. -/
theorem nameAt?_of_intrudes {e q : Path} (he : Intrudes (n.Stays m) n m e q) :
    n.nameAt? e = n.nameAt? q := by
  obtain ⟨e',r,r',⟨j,hj,hj'⟩,⟨i,hi,hi'⟩,-,-,hcome,hof⟩ := he
  have hcome' : n'.SameBinding r' e' := by rwa [SameBinding, ← hscope]
  have hstayse : n.Stays n' e e' := ⟨j,hj,hfewer _ _ hj'⟩
  have hstaysr : n.Stays n' r r' := ⟨i,hi,hfewer _ _ hi'⟩
  have hname : n.nameAt? e = n.nameAt? r := by
    rw [← h.nameAt?_of_stays hstayse (.inr hcome'.symm.isBound),
      ← h.nameAt?_of_stays hstaysr (.inr hcome'.isBound), hcome'.nameAt?_eq h.program']
  rcases hof with rfl | hsame | hsame
  · exact hname
  · rw [hname, hsame.nameAt?_eq h.program]
  · rw [hsame.nameAt?_eq h.program]

/-- What `undisturbed_iff` says of the same tree with fewer marks, but all those of identifiers. -/
theorem undisturbed_iff_of_fewer (hnames : ∀ q, (n'.nameAt? q).isSome → m.markAt q = n'.markAt q)
    {q q' : Path} (hq : n.Stays m q q') :
    Undisturbed (n.Stays m) (n.KeepsDeclaration fun q => ∃ q', n.Stays m q q') n m q q' ↔
      n.KeepsDeclaration (fun q => ∃ q', n.Stays m q q') q ∧
        ∀ e, n.Leaves (fun q => ∃ q', n.Stays m q q') e → ¬Intrudes (n.Stays m) n m e q := by
  have hmore {r r' : Path} : n.Stays m r r' → n.Stays n' r r' := fun ⟨k,hk,hk'⟩ =>
    ⟨k,hk,hfewer _ _ hk'⟩
  have hback {r r' : Path} (hr : n.Stays n' r r') (hbound : n.IsBound r ∨ n'.IsBound r') :
      n.Stays m r r' := by
    have hname : (n'.nameAt? r').isSome := by
      have hsame := h.nameAt?_of_stays hr hbound
      rcases hbound with ⟨b,hb,o,ho,rfl⟩ | ⟨b,hb,o,ho,rfl⟩
      · rw [hsame, nameAt?_of_mem h.program hb ho]
        rfl
      · rw [nameAt?_of_mem h.program' hb ho]
        rfl
    obtain ⟨k,hk,hk'⟩ := hr
    exact ⟨k,hk,(hnames _ hname).trans hk'⟩
  have hdecl : n.KeepsDeclaration (fun q => ∃ q', n.Stays m q q') =
      n.KeepsDeclaration fun q => ∃ q', n.Stays n' q q' := by
    funext r
    refine propext (forall₃_congr fun b hb _ => exists_congr fun d => and_congr_right fun hd => ?_)
    exact exists_congr fun r' =>
      ⟨hmore,fun hr => hback hr (.inl ⟨b,hb,d,List.mem_append_left _ hd,rfl⟩)⟩
  have hsame : m.SameBinding = n'.SameBinding := by
    funext r s
    simp only [SameBinding, hscope]
  have hleft := h.undisturbed_iff
    (fun r (hr : ∃ r', n.Stays m r r') => hr.imp fun _ hr => hmore hr) (hmore hq)
  rw [← hdecl] at hleft
  have hundisturbed : Undisturbed (n.Stays m) (n.KeepsDeclaration fun q => ∃ q', n.Stays m q q') n m
      q q' ↔ Undisturbed (n.Stays n') (n.KeepsDeclaration fun q => ∃ q', n.Stays m q q') n n'
        q q' := by
    simp only [Undisturbed, isBound_iff, hsame]
    refine and_congr_right fun _ => ⟨fun hall r r' hr hrdecl => ?_,fun hall r r' hr => hall r r' (hmore hr)⟩
    by_cases hbound : n.IsBound r ∨ n'.IsBound r'
    · exact hall r r' (hback hr hbound) hrdecl
    · obtain ⟨hr,hr'⟩ := not_or.mp hbound
      exact iff_of_false (fun hsame => hr hsame.symm.isBound) fun hsame => hr' hsame.symm.isBound
  have hintrudes (e : Path) : Intrudes (n.Stays m) n m e q ↔ Intrudes (n.Stays n') n n' e q := by
    simp only [Intrudes, hsame, hdecl]
    refine exists_congr fun e' => exists_congr fun r => exists_congr fun r' => ?_
    constructor
    · rintro ⟨he,hr,hrest⟩
      exact ⟨hmore he,hmore hr,hrest⟩
    · rintro ⟨he,hr,hrdecl,hnot,hcome,hof⟩
      exact ⟨hback he (.inr hcome.symm.isBound),hback hr (.inr hcome.isBound),hrdecl,hnot,hcome,hof⟩
  simp only [hundisturbed, hintrudes, hleft]

end Fewer

end PrunedTo

end Unravel.Node
