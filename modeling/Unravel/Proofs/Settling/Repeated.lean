import Unravel.Proofs.Settling.Tables
import Unravel.Proofs.Settling.Visits

/-! Runs of rules that are done in one run, over trees whose nodes may stand at several places. A table
has the nodes that are finished: a visit that meets a finished node leaves it as it is. -/

namespace Unravel

namespace Repeats
variable {table : Nat → Option Node} {s s' s'' : Repeats}

/-- What is held for the marks of a table is what the table has. -/
def Holds (table : Nat → Option Node) (s : Repeats) : Prop :=
  ∀ k a, table k = some a → s.current.getD k none = none ∨ s.current.getD k none = some a

/-- What visits to finished nodes do to what is held: they note what the table has. -/
structure Confirms (table : Nat → Option Node) (s s' : Repeats) : Prop where
  size : s'.current.size = s.current.size
  current : ∀ k, s'.current.getD k none = s.current.getD k none ∨
    ∃ a, table k = some a ∧ s'.current.getD k none = some a

theorem Confirms.refl (s : Repeats) : Confirms table s s := ⟨rfl,fun _ => .inl rfl⟩

theorem Confirms.trans (h : Confirms table s s') (h' : Confirms table s' s'') :
    Confirms table s s'' := by
  refine ⟨h'.size.trans h.size,fun k => ?_⟩
  rcases h'.current k with hk | hk
  · rw [hk]
    exact h.current k
  · exact .inr hk

theorem Holds.confirms (h : s.Holds table) (hs : Confirms table s s') : s'.Holds table := by
  intro k a ha
  rcases hs.current k with hk | ⟨b,hb,hk⟩
  · rw [hk]
    exact h k a ha
  · rw [hb] at ha
    obtain rfl := Option.some.inj ha
    exact .inr hk

theorem Holds.latest {n : Node} (h : s.Holds table) (hn : n.Filed table) : s.latest n = n := by
  unfold Repeats.latest
  split
  · rfl
  · rename_i k hk
    rcases h k n (hn [] n k rfl hk).1 with hcur | hcur
    · rw [hcur]
      rfl
    · rw [hcur]
      rfl

theorem Holds.upholds {n : Node} (h : s.Holds table) (hn : n.Filed table) : s.Upholds n :=
  fun _ _ ha => h.latest (hn.at? ha)

theorem claim_eq_of_filed {n : Node} (hn : n.Filed table) : s.claim n n.subtrees = (n.subtrees, s) := by
  apply claim_eq_self
  intro hm
  obtain ⟨k,hk⟩ := Option.isSome_iff_exists.mp hm
  have hall := (hn [] n k rfl hk).2
  obtain ⟨m,l,cs⟩ := n
  exact (Node.allMarked_marked.mp hall).2

/-- To note a finished node as it stands confirms it. -/
theorem note_of_filed {n : Node} (hn : n.Filed table) :
    (s.note n).1 = n ∧ Confirms table s (s.note n).2 := by
  unfold Repeats.note
  split
  · exact ⟨rfl,.refl s⟩
  · rename_i k hk
    rw [claim_eq_of_filed hn]
    simp only [Node.update_self, true_and]
    refine ⟨by simp,fun j => ?_⟩
    rcases getD_set! s.current j k (some n) with ⟨hset,rfl⟩ | hsame
    · exact .inr ⟨n,(hn [] n j rfl hk).1,hset⟩
    · exact .inl hsame

end Repeats

namespace Rule
variable {r : Rule} {table : Nat → Option Node}

/-- A visit that leaves a finished node as it is. -/
structure Passes (r : Rule) (table : Nat → Option Node) (fuel : Nat) (n : Node) (s : Repeats)
    (done : Visit × Repeats) : Prop where
  kept : done.1.kept = n
  replaced : done.1.replaced = none
  count : n.size ≤ fuel → done.1.count = r.idle n
  most : done.1.count ≤ r.idle n
  confirms : Repeats.Confirms table s done.2

private theorem visitAllRepeated_passes {fuel : Nat} {l : Label}
    (hvisit : ∀ ctx n (s : Repeats), r.Rests n → n.Filed table → s.Holds table →
      r.Passes table fuel n s (r.visitRepeated fuel ctx n s))
    (before : List (Field × Node)) {cs : List (Field × Node)} {s : Repeats}
    (hcs : ∀ c ∈ cs, r.Rests c.2) (hfiled : ∀ c ∈ cs, c.2.Filed table) (hs : s.Holds table) :
    (r.visitAllRepeated fuel l before cs s).1.1 = cs ∧
      ((∀ c ∈ cs, c.2.size ≤ fuel) → (r.visitAllRepeated fuel l before cs s).1.2 = r.idleAll cs) ∧
        (r.visitAllRepeated fuel l before cs s).1.2 ≤ r.idleAll cs ∧
          Repeats.Confirms table s (r.visitAllRepeated fuel l before cs s).2 := by
  induction cs generalizing before s with
  | nil =>
    rw [visitAllRepeated_nil]
    exact ⟨rfl,fun _ => rfl,Nat.le_refl _,.refl s⟩
  | cons c cs ih =>
    obtain ⟨f,n⟩ := c
    obtain ⟨hn,hcs⟩ := List.forall_mem_cons.mp hcs
    obtain ⟨hfn,hfiled⟩ := List.forall_mem_cons.mp hfiled
    cases hhole : n.isHole with
    | true =>
      rw [visitAllRepeated_hole _ _ _ _ _ hhole]
      obtain ⟨hmore,hcount,hmost,hs'⟩ := ih (before ++ [(f, n)]) hcs hfiled hs
      refine ⟨by simp only [hmore, List.singleton_append],fun hsize => ?_,?_,hs'⟩
      · simp only [idleAll_cons, hhole, if_true, hcount (List.forall_mem_cons.mp hsize).2]
      · simpa only [idleAll_cons, hhole, if_true, Nat.zero_add] using hmost
    | false =>
      rw [visitAllRepeated_node _ _ _ _ _ hhole]
      have hv := hvisit ⟨some l,f,membersBefore before f n⟩ n s hn hfn hs
      generalize r.visitRepeated fuel ⟨some l,f,membersBefore before f n⟩ n s = v at hv
      obtain ⟨hmore,hcount,hmost,hs'⟩ := ih (before ++ [(f, n)]) hcs hfiled (hs.confirms hv.confirms)
      refine ⟨?_,fun hsize => ?_,?_,hv.confirms.trans hs'⟩
      · simp only [Visit.result, hv.replaced, hv.kept, Option.getD_none, place, hmore,
          List.singleton_append]
      · obtain ⟨hn,hsize⟩ := List.forall_mem_cons.mp hsize
        simp only [idleAll_cons, hhole, Bool.false_eq_true, if_false, hv.count hn, hcount hsize]
      · simp only [idleAll_cons, hhole, Bool.false_eq_true, if_false]
        exact Nat.add_le_add hv.most hmost

namespace Settles
variable (hr : r.Settles)
include hr

/-- A visit that meets a node whose subtrees are left as they are finishes it as at the first time. -/
private theorem visitRepeated_met {fuel : Nat}
    (hvisit : ∀ ctx n (s : Repeats), r.Rests n → n.Filed table → s.Holds table →
      r.Passes table fuel n s (r.visitRepeated fuel ctx n s))
    (ctx : Context) {o n : Node} {s : Repeats} (hlatest : s.latest o = n) (hearly : r.early n = none)
    (hcs : ∀ c ∈ n.subtrees, r.Rests c.2) (hkept : (r.finish top n).kept = n) (hn : n.Filed table)
    (hs : s.Holds table) :
    let done := r.visitRepeated (fuel + 1) ctx o s
    done.1.kept = n ∧ done.1.replaced = (r.finish top n).replaced ∧
      (n.size ≤ fuel + 1 → done.1.count = r.idle n) ∧ done.1.count ≤ r.idle n ∧
        Repeats.Confirms table s done.2 := by
  rw [visitRepeated_finish (by rw [hlatest]; exact hearly), hlatest]
  obtain ⟨hsame,hcount,hmost,hs₁⟩ := visitAllRepeated_passes (l := n.label) hvisit [] hcs
    (fun c hc => hn.subtree hc) hs
  have hclaim (s : Repeats) := Repeats.claim_eq_of_filed (s := s) hn
  simp only [hsame, hclaim, Node.update_self, hr.context ctx, hkept]
  obtain ⟨hnote,hs₂⟩ := Repeats.note_of_filed
    (s := (r.visitAllRepeated fuel n.label [] n.subtrees s).2) hn
  refine ⟨hnote,trivial,fun hsize => ?_,?_,hs₁.trans hs₂⟩
  · obtain ⟨m,l,cs⟩ := n
    rw [Node.size] at hsize
    have hbelow : ∀ c ∈ cs, c.2.size ≤ fuel := by
      intro c hc
      have := Node.size_le_sizeAll hc
      omega
    rw [idle_marked]
    exact congrArg (· + _) (hcount hbelow)
  · obtain ⟨m,l,cs⟩ := n
    rw [idle_marked]
    exact Nat.add_le_add_right hmost _

/-- Visits of finished nodes leave them as they are, however deep they may go. -/
theorem visitRepeated_passes (fuel : Nat) (ctx : Context) (n : Node) (s : Repeats) (h : r.Rests n)
    (hn : n.Filed table) (hs : s.Holds table) :
    r.Passes table fuel n s (r.visitRepeated fuel ctx n s) := by
  induction fuel generalizing ctx n s with
  | zero =>
    rw [visitRepeated_zero]
    refine ⟨rfl,rfl,fun hsize => ?_,Nat.zero_le _,.refl s⟩
    obtain ⟨m,l,cs⟩ := n
    rw [Node.size] at hsize
    omega
  | succ fuel ih =>
    have htop := h [] n rfl
    obtain ⟨hkept,hreplaced,hcount,hmost,hconfirms⟩ := hr.visitRepeated_met ih ctx (hs.latest hn)
      htop.early (fun c hc => h.subtree hc) (htop.kept top) hn hs
    exact ⟨hkept,hreplaced.trans (htop.replaced top),hcount,hmost,hconfirms⟩

/-- A visit that meets a node when its subtrees are finished. -/
theorem visitRepeated_finished (fuel : Nat) (ctx : Context) {o n : Node} {s : Repeats}
    (hlatest : s.latest o = n) (hearly : r.early n = none) (hcs : ∀ c ∈ n.subtrees, r.Rests c.2)
    (hkept : (r.finish top n).kept = n) (hn : n.Filed table) (hs : s.Holds table) :
    (r.visitRepeated (fuel + 1) ctx o s).1.kept = n ∧
      (r.visitRepeated (fuel + 1) ctx o s).1.replaced = (r.finish top n).replaced ∧
        Repeats.Confirms table s (r.visitRepeated (fuel + 1) ctx o s).2 := by
  obtain ⟨hsame,hreplaced,-,-,hconfirms⟩ :=
    hr.visitRepeated_met (hr.visitRepeated_passes fuel) ctx hlatest hearly hcs hkept hn hs
  exact ⟨hsame,hreplaced,hconfirms⟩

/-- A run leaves as it is a tree that the rule leaves as it is. -/
theorem run_rests {tree : Node} (h : tree.Coherent) (hrests : r.Rests tree) :
    r.run tree = (tree, r.idle tree) := by
  unfold Rule.run
  split
  · obtain ⟨table,hfiled⟩ := h.exists_filed
    have hs : (Repeats.ofTree tree).Holds table := fun k _ _ => .inl (Repeats.getD_ofTree tree k)
    have hv := hr.visitRepeated_passes (2 * tree.size + 2) top tree _ hrests hfiled hs
    simp only [Rule.runRepeated, StateT.run]
    generalize r.visitRepeated (2 * tree.size + 2) top tree (.ofTree tree) = done at hv
    have hrefresh := ((hs.confirms hv.confirms).upholds hfiled).refresh (2 * tree.size + 2)
    apply Prod.ext
    · exact (congrArg _ hv.kept).trans hrefresh
    · exact hv.count (by omega)
  · rw [Rule.runOnce, hr.visit_rests hrests]

end Settles
end Rule
end Unravel
