import Unravel.Proofs.Settling.Origins

/-! Runs that find nothing, over trees whose nodes may stand at several places. A visit that comes to a node
again in its row is told the same as at the first place, so that it is enough that the rule leaves every node
where it stands. -/

namespace Unravel

namespace Node

theorem contextAt_append {n a : Node} {p : Path} (ha : n.at? p = some a) (ctx : Context) (q : Path) :
    n.contextAt ctx (p ++ q) = a.contextAt (n.contextAt ctx p) q := by
  induction p generalizing n ctx with
  | nil =>
    obtain rfl := Option.some.inj ha
    rfl
  | cons i p ih =>
    obtain ⟨m,l,cs⟩ := n
    obtain ⟨⟨f,c⟩,hc,ha⟩ := Option.bind_eq_some_iff.mp ha
    have hc : cs[i]? = some (f, c) := hc
    rw [List.cons_append, contextAt_cons ctx hc, contextAt_cons ctx hc]
    exact ih ha _

end Node

namespace Rule
variable {r : Rule} {root : Node}

/-- The members before a node are those before one place of its row, at which it stands or a node with the
same mark does. -/
theorem exists_membersBefore (before rest : List (Field × Node)) (f : Field) (n : Node) :
    ∃ (i : Nat) (b : Node), (before ++ (f, n) :: rest)[i]? = some (f, b) ∧
      (b = n ∨ b.mark?.isSome ∧ b.mark? = n.mark?) ∧
        membersBefore before f n =
          (((before ++ (f, n) :: rest).take i).filter fun c => c.1 = f).map Prod.snd := by
  induction before with
  | nil => exact ⟨0,n,rfl,.inl rfl,rfl⟩
  | cons c before ih =>
    obtain ⟨g,c⟩ := c
    obtain ⟨i,b,hi,hb,hbefore⟩ := ih
    unfold membersBefore at hbefore ⊢
    by_cases hg : g = f
    · subst hg
      by_cases hsame : (n.mark?.isNone || c.mark? != n.mark?) = true
      · refine ⟨i + 1,b,hi,hb,?_⟩
        simp only [List.cons_append, List.take_succ_cons, List.filter_cons, decide_true, if_true,
          List.map_cons, List.takeWhile_cons, hsame, hbefore]
      · refine ⟨0,c,rfl,.inr ?_,?_⟩
        · rw [Bool.not_eq_true, Bool.or_eq_false_iff, Option.isNone_eq_false_iff, bne_eq_false_iff_eq] at hsame
          rw [hsame.2]
          exact ⟨hsame.1,rfl⟩
        · simp only [List.filter_cons, decide_true, if_true, List.map_cons, List.takeWhile_cons, hsame,
            List.take_zero, List.filter_nil, List.map_nil]
          rfl
    · refine ⟨i + 1,b,hi,hb,?_⟩
      simp only [List.cons_append, List.take_succ_cons, List.filter_cons, hg, decide_false,
        Bool.false_eq_true, if_false, hbefore]

/-- A rule leaves every node of a tree as it is where it stands. -/
def Stands (r : Rule) (root : Node) : Prop := ∀ p o, root.at? p = some o →
  r.early o = none ∧ r.finish (root.contextAt top p) o = .keep o

/-- Whether a rule leaves a node where it stands does not depend on marks. -/
theorem stands_of_plain (hi : r.IgnoresMarks) (ht : r.Tells) (hc : r.CountsRewrites)
    (h : ∀ p a, root.plain.at? p = some a → r.StaysAt top root.plain p a) : r.Stands root := by
  intro p o ho
  have hstays := h p o.plain (by rw [Node.at?_plain, ho]; rfl)
  have hcontext := Node.contextAt_plain top root p
  change root.plain.contextAt top p = _ at hcontext
  rw [StaysAt, hcontext, hi.plain, Visit.plain, Option.map_eq_none_iff] at hstays
  have hcount := hc.finish (root.contextAt top p) o
  rw [hstays] at hcount
  exact ⟨hi.early o,(ht.finish _ o).resolve_left (not_not.mpr hcount)⟩

variable (hroot : root.Coherent)
include hroot

/-- Visits of a row of the tree, of which some members are visited already. -/
private theorem visitAllRepeated_stands {fuel : Nat} {p : Path} {m : Option Nat} {l : Label}
    {cs : List (Field × Node)} (hp : root.at? p = some (.marked m l cs))
    (hvisit : ∀ p (n : Node) (s : Repeats), root.at? p = some n → s.Upholds root →
      (r.visitRepeated fuel (root.contextAt top p) n s).1 = .keep n ∧
        (r.visitRepeated fuel (root.contextAt top p) n s).2.Upholds root)
    (before : List (Field × Node)) {rest : List (Field × Node)} (hcs : before ++ rest = cs) {s : Repeats}
    (hs : s.Upholds root) :
    (r.visitAllRepeated fuel l before rest s).1 = (rest, 0) ∧
      (r.visitAllRepeated fuel l before rest s).2.Upholds root := by
  induction rest generalizing before s with
  | nil =>
    rw [visitAllRepeated_nil]
    exact ⟨rfl,hs⟩
  | cons c rest ih =>
    obtain ⟨f,n⟩ := c
    have hmore (s : Repeats) (hs : s.Upholds root) := ih (before ++ [(f, n)]) (by simpa using hcs) hs
    cases hhole : n.isHole with
    | true =>
      rw [visitAllRepeated_hole _ _ _ _ _ hhole]
      obtain ⟨hrest,hs⟩ := hmore s hs
      dsimp only
      rw [hrest]
      exact ⟨rfl,hs⟩
    | false =>
      rw [visitAllRepeated_node _ _ _ _ _ hhole]
      have hplace (i : Nat) (b : Node) (hi : cs[i]? = some (f, b)) : root.at? (p ++ [i]) = some b := by
        rw [Node.at?_append, hp, Option.bind_some, Node.at?_cons, hi]
        rfl
      have hn : root.at? (p ++ [before.length]) = some n := hplace _ n (by rw [← hcs]; simp)
      obtain ⟨i,b,hi,hb,hbefore⟩ := exists_membersBefore before rest f n
      rw [hcs] at hi hbefore
      -- At the first place of its row stands the same node, as it has the same mark.
      obtain rfl : b = n := by
        rcases hb with rfl | ⟨hm,hmark⟩
        · rfl
        · exact hroot.same _ _ b n (hplace i b hi) hn hm hmark
      have hcontext : root.contextAt top (p ++ [i]) = ⟨some l,f,membersBefore before f b⟩ := by
        rw [Node.contextAt_append hp, Node.contextAt_cons _ hi, hbefore]
        rfl
      obtain ⟨hkeep,hs⟩ := hvisit (p ++ [i]) b s (hplace i b hi) hs
      rw [hcontext] at hkeep hs
      obtain ⟨hrest,hs⟩ := hmore _ hs
      dsimp only
      rw [hkeep, hrest]
      exact ⟨rfl,hs⟩

private theorem visitRepeated_stands (h : r.Stands root) (fuel : Nat) (p : Path) (n : Node) (s : Repeats)
    (hn : root.at? p = some n) (hs : s.Upholds root) :
    (r.visitRepeated fuel (root.contextAt top p) n s).1 = .keep n ∧
      (r.visitRepeated fuel (root.contextAt top p) n s).2.Upholds root := by
  induction fuel generalizing p n s with
  | zero =>
    rw [visitRepeated_zero]
    exact ⟨rfl,hs⟩
  | succ fuel ih =>
    have hlatest := hs p n hn
    obtain ⟨hearly,hfinish⟩ := h p n hn
    rw [visitRepeated_finish (by rw [hlatest]; exact hearly), hlatest]
    obtain ⟨m,l,cs⟩ := n
    obtain ⟨hsame,hs⟩ := visitAllRepeated_stands hroot hn ih [] (List.nil_append cs) hs
    have hclaim := Repeats.claim_eq_of_coherent
      (s := (r.visitAllRepeated fuel l [] cs s).2) hroot hn
    simp only [Node.label, Node.subtrees] at hsame hs hclaim ⊢
    simp only [hsame, hclaim, Node.update, Node.mark?, hfinish]
    obtain ⟨hnote,hs⟩ := hs.note hroot hn
    exact ⟨by simp only [Visit.keep, hnote],hs⟩

/-- A run over a tree that the rule leaves as it is changes nothing. -/
theorem Stands.runRepeated (h : r.Stands root) : r.runRepeated root = (root, 0) := by
  obtain ⟨hkeep,hs⟩ := visitRepeated_stands hroot h (2 * root.size + 2) [] root _ rfl
    (Repeats.upholds_ofTree root)
  simp only [Rule.runRepeated, StateT.run]
  apply Prod.ext
  · have hkept := congrArg Visit.kept hkeep
    exact (congrArg _ hkept).trans (hs.refresh _)
  · exact congrArg Visit.count hkeep

end Rule
end Unravel
