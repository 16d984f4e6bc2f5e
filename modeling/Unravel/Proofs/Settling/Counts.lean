import Mathlib.Data.Finset.Card
import Unravel.Proofs.Settling.Shared
import Unravel.Proofs.Simplify.Work

/-! What a run counts in a tree of shared nodes. A rule that changes nodes where they are counts each of
them once, at the visit that finishes it. -/

namespace Unravel

namespace Node
variable (test : Node → Bool)

/-- How many nodes without a mark satisfy a test. -/
def countLoose (n : Node) : Nat := n.count fun c => test c && c.mark?.isNone

/-- The marks of the nodes that satisfy a test. -/
def markedBy (n : Node) : Finset Nat :=
  ((n.located []).filterMap fun e => if test e.2 then e.2.mark? else none).toFinset

/-- How many nodes of a tree satisfy a test. A node that stands at several places is one. -/
def countOnce (n : Node) : Nat := n.countLoose test + (n.markedBy test).card

variable {test}

theorem mem_markedBy {n : Node} {k : Nat} :
    k ∈ n.markedBy test ↔ ∃ q a, n.at? q = some a ∧ test a = true ∧ a.mark? = some k := by
  simp [markedBy, mem_located]

theorem mem_markedBy_marked {m : Option Nat} {l : Label} {cs : List (Field × Node)} {k : Nat} :
    k ∈ (marked m l cs).markedBy test ↔
      test (.marked m l cs) = true ∧ m = some k ∨ ∃ c ∈ cs, k ∈ c.2.markedBy test := by
  simp only [mem_markedBy]
  constructor
  · rintro ⟨q,a,ha,htest,hk⟩
    cases q with
    | nil =>
      obtain rfl := Option.some.inj ha
      exact .inl ⟨htest,hk⟩
    | cons i q =>
      obtain ⟨c,hc,ha⟩ := Option.bind_eq_some_iff.mp ha
      exact .inr ⟨c,List.mem_of_getElem? hc,q,a,ha,htest,hk⟩
  · rintro (⟨htest,hk⟩ | ⟨c,hc,q,a,ha,htest,hk⟩)
    · exact ⟨[],_,rfl,htest,hk⟩
    · obtain ⟨i,hi⟩ := List.mem_iff_getElem?.mp hc
      exact ⟨i :: q,a,by rw [at?_cons, hi]; exact ha,htest,hk⟩

theorem countLoose_marked (m : Option Nat) (l : Label) (cs : List (Field × Node)) :
    (marked m l cs).countLoose test = (test (.marked m l cs) && m.isNone).toNat +
      (cs.map fun c => c.2.countLoose test).sum := by
  rw [countLoose, count, countAll_eq]
  rfl

theorem countLoose_of_allMarked {n : Node} (h : n.AllMarked) : n.countLoose test = 0 := by
  induction n using inductionOn with
  | marked m l cs ih =>
    obtain ⟨hm,hcs⟩ := allMarked_marked.mp h
    have hall : cs.map (fun c => c.2.countLoose test) = cs.map fun _ => 0 :=
      List.map_congr_left fun c hc => ih c hc (hcs c hc)
    obtain ⟨k,rfl⟩ := Option.isSome_iff_exists.mp hm
    rw [countLoose_marked, hall]
    simp

/-- Without marks every place counts. -/
theorem countOnce_of_marks {n : Node} (h : n.marks = []) : n.countOnce test = n.count test := by
  have hnone : n.markedBy test = ∅ := by
    apply Finset.eq_empty_of_forall_notMem
    intro k hk
    obtain ⟨q,a,ha,-,hk⟩ := mem_markedBy.mp hk
    rw [mark?_of_marks h ha] at hk
    cases hk
  rw [countOnce, hnone, Finset.card_empty, Nat.add_zero]
  clear hnone
  induction n using inductionOn with
  | marked m l cs ih =>
    obtain ⟨rfl,hcs⟩ := marks_eq_nil.mp h
    have hall : cs.map (fun c => c.2.countLoose test) = cs.map fun c => c.2.count test :=
      List.map_congr_left fun c hc => ih c hc (hcs c hc)
    rw [countLoose_marked, hall, count, countAll_eq, Option.isNone_none, Bool.and_true]

end Node

namespace Rule
variable {r : Rule} {test : Node → Bool} {root : Node} {table : Nat → Option Node} {s : Repeats}

/-- A rule that changes nodes where they are, and in a tree those that satisfy a test. It counts them and
nothing else. -/
structure CountsOnce (r : Rule) (test : Node → Bool) (root : Node) : Prop where
  early : ∀ n, r.early n = none
  stays : ∀ ctx n, (r.finish ctx n).replaced = none
  idle : ∀ n, r.LeavesBe n → (r.finish top n).count = 0
  hole : ∀ n : Node, n.isHole = true → test n = false
  own : ∀ q o, root.at? q = some o → (r.finish top (.mk o.label
    (r.visitAll o.label [] (o.subtrees.map fun c => (c.1, c.2.plain))).1)).count = (test o).toNat

/-- The marks that satisfy the test and whose nodes have been visited. -/
def known (test : Node → Bool) (root : Node) (s : Repeats) : Finset Nat :=
  (root.markedBy test).filter fun k => (s.current.getD k none).isSome

/-- Where a node has been visited, so has what is inside it. -/
def Met (test : Node → Bool) (root : Node) (s : Repeats) : Prop :=
  ∀ q o k, root.at? q = some o → o.isHole = false → o.mark? = some k →
    (s.current.getD k none).isSome → ∀ j ∈ o.markedBy test, (s.current.getD j none).isSome

/-- A visit counts the nodes without marks, and those whose marks come to be known. -/
structure Counted (test : Node → Bool) (root : Node) (s : Repeats) (loose count : Nat)
    (within : Nat → Prop) (s' : Repeats) : Prop where
  count : count + (known test root s).card = loose + (known test root s').card
  keeps : ∀ k, (s.current.getD k none).isSome → (s'.current.getD k none).isSome
  covers : ∀ k, within k → (s'.current.getD k none).isSome
  met : Met test root s'

variable (hr : r.Settles) (hc : r.CountsOnce test root) (hroot : root.Coherent)

include hc hroot in
/-- What has been visited is finished. -/
theorem Finished.isSome_iff (hs : r.Finished root table s) {q : Path} {o : Node} {k : Nat}
    (ho : root.at? q = some o) (hhole : o.isHole = false) (hk : o.mark? = some k) :
    (s.current.getD k none).isSome ↔ (table k).isSome := by
  constructor
  · intro h
    obtain ⟨a,ha⟩ := Option.isSome_iff_exists.mp h
    rcases hs.known k a ha with hk | ⟨-,-,hearly⟩
    · rw [hk]
      rfl
    · rw [hc.early] at hearly
      cases hearly
  · intro h
    obtain ⟨a,ha⟩ := Option.isSome_iff_exists.mp h
    rw [hs.current hroot ho hhole hk ha]
    rfl

include hc hroot in
/-- Later visits to finished nodes make nothing known. -/
private theorem counted_again {s' : Repeats} {o : Node} {q : Path} {k : Nat} {v : Visit}
    (hs : r.Finished root table s) (hs' : r.Finished root table s') (hmet : Met test root s)
    (ho : root.at? q = some o) (hhole : o.isHole = false) (hk : o.mark? = some k)
    (hdone : (table k).isSome) (hconfirms : Repeats.Confirms table s s') (hv : v.count = 0)
    (hmarked : o.AllMarked) :
    Counted test root s (o.countLoose test) v.count (· ∈ o.markedBy test) s' := by
  have hkeeps : ∀ k, (s.current.getD k none).isSome → (s'.current.getD k none).isSome := by
    intro j hj
    rcases hconfirms.current j with hsame | ⟨a,-,ha⟩
    · rwa [hsame]
    · rw [ha]
      rfl
  have hsame {p : Path} {a : Node} {j : Nat} (ha : root.at? p = some a) (hhole : a.isHole = false)
      (hj : a.mark? = some j) : (s'.current.getD j none).isSome ↔ (s.current.getD j none).isSome := by
    rw [hs.isSome_iff hc hroot ha hhole hj, hs'.isSome_iff hc hroot ha hhole hj]
  have hknown : known test root s' = known test root s := by
    refine Finset.filter_congr fun j hj => ?_
    obtain ⟨p,a,ha,htest,hj⟩ := Node.mem_markedBy.mp hj
    refine hsame ha ?_ hj
    rw [← Bool.not_eq_true]
    intro hhole
    rw [hc.hole a hhole] at htest
    cases htest
  refine ⟨?_,hkeeps,fun j hj => ?_,fun p a j ha hhole hj hcur i hi => ?_⟩
  · rw [hknown, hv, Node.countLoose_of_allMarked hmarked]
  · apply hkeeps
    exact hmet q o k ho hhole hk ((hs.isSome_iff hc hroot ho hhole hk).mpr hdone) j hj
  · apply hkeeps
    exact hmet p a j ha hhole hj ((hsame ha hhole hj).mp hcur) i hi

include hr hc hroot in
private theorem visitAllRepeated_counted (hholes : root.EmptyHoles) {fuel : Nat} {l : Label}
    (hvisit : ∀ ctx (q : Path) (o : Node) (table : Nat → Option Node) (s : Repeats),
      root.at? q = some o → o.isHole = false → o.size ≤ fuel → r.Finished root table s →
        Met test root s → Counted test root s (o.countLoose test) (r.visitRepeated fuel ctx o s).1.count
          (· ∈ o.markedBy test) (r.visitRepeated fuel ctx o s).2)
    (before : List (Field × Node)) {cs : List (Field × Node)}
    (hplaces : ∀ c ∈ cs, ∃ q, root.at? q = some c.2) (hsize : ∀ c ∈ cs, c.2.size ≤ fuel)
    (hs : r.Finished root table s) (hmet : Met test root s) :
    Counted test root s (cs.map fun c => c.2.countLoose test).sum
      (r.visitAllRepeated fuel l before cs s).1.2 (fun k => ∃ c ∈ cs, k ∈ c.2.markedBy test)
        (r.visitAllRepeated fuel l before cs s).2 := by
  induction cs generalizing before table s with
  | nil =>
    rw [visitAllRepeated_nil]
    exact ⟨rfl,fun _ => id,by simp,hmet⟩
  | cons c cs ih =>
    obtain ⟨f,n⟩ := c
    obtain ⟨⟨q,hq⟩,hplaces⟩ := List.forall_mem_cons.mp hplaces
    obtain ⟨hsn,hsize⟩ := List.forall_mem_cons.mp hsize
    cases hhole : n.isHole with
    | true =>
      rw [visitAllRepeated_hole _ _ _ _ _ hhole]
      have hrest := ih (before ++ [(f, n)]) hplaces hsize hs hmet
      have hempty : n.countLoose test = 0 ∧ ∀ k, k ∉ n.markedBy test := by
        have hnone := hc.hole n hhole
        have hleaf := hholes q n hq hhole
        obtain ⟨m,l',cs'⟩ := n
        obtain rfl : cs' = [] := hleaf
        refine ⟨by rw [Node.countLoose_marked, hnone]; rfl,fun k hk => ?_⟩
        simp [Node.mem_markedBy_marked, hnone] at hk
      refine ⟨?_,hrest.keeps,?_,hrest.met⟩
      · simpa [hempty.1] using hrest.count
      · rintro k ⟨c,hmem,hk⟩
        rcases List.mem_cons.mp hmem with rfl | hmem
        · exact absurd hk (hempty.2 k)
        · exact hrest.covers k ⟨c,hmem,hk⟩
    | false =>
      rw [visitAllRepeated_node _ _ _ _ _ hhole]
      have hfirst := hvisit ⟨some l,f,membersBefore before f n⟩ q n table s hq hhole hsn hs hmet
      obtain ⟨table₁,hmakes⟩ := hr.visitRepeated_makes hroot hholes fuel
        ⟨some l,f,membersBefore before f n⟩ q n table s hq hhole hsn hs
      generalize r.visitRepeated fuel ⟨some l,f,membersBefore before f n⟩ n s = v at hfirst hmakes
      have hrest := ih (before ++ [(f, n)]) hplaces hsize hmakes.finished hfirst.met
      refine ⟨?_,fun k hk => hrest.keeps k (hfirst.keeps k hk),?_,hrest.met⟩
      · have h₁ := hfirst.count
        have h₂ := hrest.count
        simp only [List.map_cons, List.sum_cons]
        omega
      · rintro k ⟨c,hmem,hk⟩
        rcases List.mem_cons.mp hmem with rfl | hmem
        · exact hrest.keeps k (hfirst.covers k hk)
        · exact hrest.covers k ⟨c,hmem,hk⟩

include hr hc hroot in
/-- A visit to a finished node counts nothing. -/
private theorem count_again (hholes : root.EmptyHoles) (fuel : Nat) (ctx : Context) {o : Node} {q : Path}
    {k : Nat} (hs : r.Finished root table s) (ho : root.at? q = some o) (hhole : o.isHole = false)
    (hk : o.mark? = some k) (hdone : (table k).isSome) :
    (r.visitRepeated (fuel + 1) ctx o s).1.count = 0 ∧
      Repeats.Confirms table s (r.visitRepeated (fuel + 1) ctx o s).2 := by
  obtain ⟨a,ha⟩ := Option.isSome_iff_exists.mp hdone
  obtain ⟨hlatest,-,hsub,hkept,-⟩ := hr.visitRepeated_meets hroot ho hhole (hholes.at? ho) hs hk ha
  have hfiled := (hs.filed k a ha).2
  have hleaves : r.LeavesBe a := by
    refine ⟨hc.early a,fun ctx => ?_,fun ctx => hc.stays ctx a⟩
    rw [hr.context, hkept]
  have hrests : r.Rests a := by
    obtain ⟨m,l,cs⟩ := a
    exact rests_marked.mpr ⟨hleaves,hsub⟩
  have hidle : r.idle a = 0 := idle_eq_zero fun p b hb => hc.idle b (hrests p b hb)
  have hsame : r.visitRepeated (fuel + 1) ctx o s = r.visitRepeated (fuel + 1) ctx a s := by
    have hlatest' := hs.holds.latest hfiled
    rw [visitRepeated_finish (hc.early _), visitRepeated_finish (hc.early _), hlatest, hlatest']
  have hpasses := hr.visitRepeated_passes (fuel + 1) ctx a s hrests hfiled hs.holds
  rw [hsame]
  exact ⟨Nat.le_zero.mp (hidle ▸ hpasses.most),hpasses.confirms⟩

/-- Noting a node makes its mark known. -/
private theorem isSome_note {n : Node} (hsize : ∀ k, n.mark? = some k → k < s.current.size) (j : Nat) :
    ((s.note n).2.current.getD j none).isSome ↔
      (s.current.getD j none).isSome ∨ n.mark? = some j := by
  unfold Repeats.note
  cases hk : n.mark? with
  | none => simp
  | some k =>
    have hlt : k < (s.claim n n.subtrees).2.current.size := by
      refine Nat.lt_of_lt_of_le (hsize k hk) ?_
      unfold Repeats.claim
      split
      · exact Nat.le_refl _
      · simp
    have hgetD := s.getD_claim n n.subtrees
    generalize s.claim n n.subtrees = claimed at hlt hgetD
    rw [← hgetD]
    by_cases hj : j = k
    · subst hj
      simp [Array.getD_eq_getD_getElem?, hlt]
    · have hsame := (Repeats.getD_set! claimed.2.current j k (some (n.update n.label claimed.1))).resolve_left
        fun he => hj he.2
      simp only [hsame, Option.some.injEq, Ne.symm hj, or_false]

variable (test) in
include hroot in
/-- The mark of a node that satisfies the test is one more that is known. -/
private theorem card_known {s' : Repeats} {o : Node} {q : Path} (ho : root.at? q = some o)
    (hnew : ∀ k, o.mark? = some k → ¬(s.current.getD k none).isSome)
    (hstate : ∀ j, (s'.current.getD j none).isSome ↔
      (s.current.getD j none).isSome ∨ o.mark? = some j) :
    (known test root s').card = (known test root s).card + (test o && o.mark?.isSome).toNat := by
  cases hk : o.mark? with
  | none =>
    have hsame : known test root s' = known test root s :=
      Finset.filter_congr fun j _ => by rw [hstate, hk]; simp
    rw [hsame, Option.isSome_none, Bool.and_false]
    rfl
  | some k =>
    have hmem : k ∈ root.markedBy test ↔ test o = true := by
      rw [Node.mem_markedBy]
      constructor
      · rintro ⟨p,a,ha,htest,hka⟩
        rwa [hroot.same q p o a ho ha (by rw [hk]; rfl) (hk.trans hka.symm)]
      · intro htest
        exact ⟨q,o,ho,htest,hk⟩
    cases htest : test o with
    | false =>
      have hsame : known test root s' = known test root s := by
        refine Finset.filter_congr fun j hj => ?_
        rw [hstate, hk, Option.some.injEq]
        refine or_iff_left fun he => ?_
        rw [← he, hmem, htest] at hj
        cases hj
      rw [hsame]
      rfl
    | true =>
      have hinsert : known test root s' = insert k (known test root s) := by
        ext j
        simp only [known, Finset.mem_filter, Finset.mem_insert, hstate, hk, Option.some.injEq]
        constructor
        · rintro ⟨hj,hcur | rfl⟩
          · exact .inr ⟨hj,hcur⟩
          · exact .inl rfl
        · rintro (rfl | ⟨hj,hcur⟩)
          · exact ⟨hmem.mpr htest,.inr rfl⟩
          · exact ⟨hj,.inl hcur⟩
      have hnot : k ∉ known test root s := fun h => hnew k hk (Finset.mem_filter.mp h).2
      rw [hinsert, Finset.card_insert_of_notMem hnot]
      rfl

include hroot in
/-- Once the mark of a node is noted as well, the node is counted with what is inside it. -/
private theorem Counted.node {s₁ s' : Repeats} {o : Node} {q : Path} {inside : Nat}
    (h : Counted test root s (o.subtrees.map fun c => c.2.countLoose test).sum inside
      (fun k => ∃ c ∈ o.subtrees, k ∈ c.2.markedBy test) s₁) (ho : root.at? q = some o)
    (hnew : ∀ k, o.mark? = some k → ¬(s₁.current.getD k none).isSome)
    (hstate : ∀ j, (s'.current.getD j none).isSome ↔
      (s₁.current.getD j none).isSome ∨ o.mark? = some j) :
    Counted test root s (o.countLoose test) (inside + (test o).toNat) (· ∈ o.markedBy test) s' := by
  have hcovers : ∀ k ∈ o.markedBy test, (s'.current.getD k none).isSome := by
    intro k hk
    rw [hstate]
    obtain ⟨m,l,cs⟩ := o
    rcases Node.mem_markedBy_marked.mp hk with ⟨-,rfl⟩ | hk
    · exact .inr rfl
    · exact .inl (h.covers k hk)
  refine ⟨?_,fun k hk => (hstate k).mpr (.inl (h.keeps k hk)),hcovers,?_⟩
  · have hloose : o.countLoose test = (test o && o.mark?.isNone).toNat +
        (o.subtrees.map fun c => c.2.countLoose test).sum := by
      obtain ⟨m,l,cs⟩ := o
      exact Node.countLoose_marked m l cs
    have hsplit : (test o).toNat = (test o && o.mark?.isNone).toNat + (test o && o.mark?.isSome).toNat := by
      cases test o <;> cases o.mark? <;> rfl
    have hcard := card_known test hroot ho hnew hstate
    have hcount := h.count
    omega
  · intro p a j ha hhole hj hcur i hi
    rcases (hstate j).mp hcur with hold | hmine
    · exact (hstate i).mpr (.inl (h.met p a j ha hhole hj hold i hi))
    · obtain rfl := hroot.same p q a o ha ho (by rw [hj]; rfl) (hj.trans hmine.symm)
      exact hcovers i hi

include hr hc hroot in
/-- The first visit of a node counts what is inside it and the node itself. -/
private theorem counted_first (hholes : root.EmptyHoles) {fuel : Nat}
    (hvisit : ∀ ctx (q : Path) (o : Node) (table : Nat → Option Node) (s : Repeats),
      root.at? q = some o → o.isHole = false → o.size ≤ fuel → r.Finished root table s →
        Met test root s → Counted test root s (o.countLoose test) (r.visitRepeated fuel ctx o s).1.count
          (· ∈ o.markedBy test) (r.visitRepeated fuel ctx o s).2)
    (ctx : Context) {o : Node} {q : Path} (ho : root.at? q = some o) (hhole : o.isHole = false)
    (hsize : o.size ≤ fuel + 1) (hs : r.Finished root table s) (hmet : Met test root s)
    (hnew : ∀ k, o.mark? = some k → table k = none) :
    Counted test root s (o.countLoose test) (r.visitRepeated (fuel + 1) ctx o s).1.count
      (· ∈ o.markedBy test) (r.visitRepeated (fuel + 1) ctx o s).2 := by
  have hlatest := hs.latest hroot ho hnew
  rw [visitRepeated_finish (hc.early _), hlatest]
  obtain ⟨hplaces,hsizes⟩ := Node.subtrees_within ho hsize
  have hall := visitAllRepeated_counted hr hc hroot hholes (l := o.label) hvisit [] hplaces hsizes hs hmet
  obtain ⟨table₁,-,hothers₁,hs₁,hplain₁,hfiled₁⟩ := hr.visitAllRepeated_makes (l := o.label)
    (fun ctx q o table s => hr.visitRepeated_makes hroot hholes fuel ctx q o table s) [] hplaces hsizes
    (fun c hc => (hholes.at? ho).subtree hc) hs
  dsimp only
  generalize r.visitAllRepeated fuel o.label [] o.subtrees s = visited at hall hs₁ hplain₁ hfiled₁
  obtain ⟨table₂,-,-,hs₂,hplain₂,-⟩ := hs₁.claim o hfiled₁
  have hclaim := visited.2.getD_claim o visited.1.1
  generalize visited.2.claim o visited.1.1 = claimed at hs₂ hplain₂ hclaim
  have hown : (r.finish ctx (o.update o.label claimed.1)).count = (test o).toNat := by
    have hplain : (o.update o.label claimed.1).plain = .mk o.label
        (r.visitAll o.label [] (o.subtrees.map fun c => (c.1, c.2.plain))).1 := by
      rw [Node.update, Node.plain_marked, hplain₂, hplain₁]
    have hfinish := congrArg Visit.count (hr.plain_finish (o.update o.label claimed.1))
    rw [hplain, hc.own q o ho] at hfinish
    rw [hr.context]
    exact hfinish.symm
  have hmark := (hr.reshapes (o.update o.label claimed.1)).mark
  rw [← hr.context ctx] at hmark
  have hlt {k : Nat} (hk : o.mark? = some k) := Node.mark_lt_nextMark ho hk
  have hstate := isSome_note (s := claimed.2) (n := (r.finish ctx (o.update o.label claimed.1)).kept)
    fun k hk => Nat.lt_of_lt_of_le (hlt (hmark.symm.trans hk)) hs₂.size
  rw [hmark] at hstate
  simp only [hclaim] at hstate
  have hnot : ∀ k, o.mark? = some k → ¬(visited.2.current.getD k none).isSome := by
    intro k hk h
    rw [hs₁.isSome_iff hc hroot ho hhole hk, hothers₁ k (hlt hk)
      fun c hc => hroot.mark_not_inside ho hk hc, hnew k hk] at h
    cases h
  rw [hown]
  exact hall.node hroot ho hnot hstate

include hr hc hroot in
/-- A visit counts the nodes inside that no visit has counted before. -/
theorem visitRepeated_counted (hholes : root.EmptyHoles) (fuel : Nat) (ctx : Context) (q : Path)
    (o : Node) (table : Nat → Option Node) (s : Repeats) (ho : root.at? q = some o)
    (hhole : o.isHole = false) (hsize : o.size ≤ fuel) (hs : r.Finished root table s)
    (hmet : Met test root s) :
    Counted test root s (o.countLoose test) (r.visitRepeated fuel ctx o s).1.count
      (· ∈ o.markedBy test) (r.visitRepeated fuel ctx o s).2 := by
  induction fuel generalizing ctx q o table s with
  | zero =>
    obtain ⟨m,l,cs⟩ := o
    rw [Node.size] at hsize
    omega
  | succ fuel ih =>
    by_cases hdone : ∃ k, o.mark? = some k ∧ (table k).isSome
    · obtain ⟨k,hk,hdone⟩ := hdone
      obtain ⟨hcount,hconfirms⟩ := count_again hr hc hroot hholes fuel ctx hs ho hhole hk hdone
      exact counted_again hc hroot hs (hs.confirms hconfirms) hmet ho hhole hk hdone hconfirms hcount
        (hroot.allMarked ho (by rw [hk]; rfl))
    · apply counted_first hr hc hroot hholes ih ctx ho hhole hsize hs hmet
      intro k hk
      by_contra h
      exact hdone ⟨k,hk,Option.isSome_iff_ne_none.mpr h⟩

include hr hc hroot in
/-- A run counts each node that satisfies the test once. -/
theorem run_counts (hholes : root.EmptyHoles) (hhole : root.isHole = false)
    (hplain : root.marks = [] → (r.visit top root).count = root.count test) :
    (r.run root).2 = root.countOnce test := by
  unfold Rule.run
  split
  · obtain ⟨table,hs⟩ := Finished.ofTree r hroot hholes
    have hnone (k : Nat) : ¬((Repeats.ofTree root).current.getD k none).isSome := by
      rw [Repeats.getD_ofTree]
      exact Bool.false_ne_true
    have hmet : Met test root (.ofTree root) := fun q o k _ _ _ h => absurd h (hnone k)
    have hv := visitRepeated_counted hr hc hroot hholes (2 * root.size + 2) top [] root table _ rfl
      hhole (by omega) hs hmet
    have hknown : known test root (.ofTree root) = ∅ :=
      Finset.filter_eq_empty_iff.mpr fun k _ => hnone k
    have hcount := hv.count
    have hcovers : known test root
        (r.visitRepeated (2 * root.size + 2) top root (.ofTree root)).2 = root.markedBy test :=
      Finset.filter_eq_self.mpr hv.covers
    rw [hknown, hcovers, Finset.card_empty, Nat.add_zero] at hcount
    exact hcount
  · rename_i hmarks
    rw [Bool.not_eq_true, Node.hasMarks_eq_false] at hmarks
    rw [Node.countOnce_of_marks hmarks]
    exact hplain hmarks

end Rule

end Unravel
