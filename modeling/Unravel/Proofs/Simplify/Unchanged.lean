import Unravel.Deobfuscation
import Unravel.Proofs.Literals.Respelling
import Unravel.Proofs.Passes.History
import Unravel.Proofs.Simplify.ProxyScope
import Unravel.Proofs.Simplify.Sharing

/-! No simplification changes a tree in silence: where it counts nothing, the tree is as before. A
pass whose counts are all zero may be discarded, and nothing is lost. -/

namespace Unravel

namespace Node

/-- Marks stand for shared nodes and for nothing else: the places of a mark hold one node, and
there is more than one of them. -/
structure MarksShared (n : Node) : Prop where
  coherent : n.Coherent
  several : n.dropSingleMarks = n

theorem marksShared_of_marks {n : Node} (h : n.marks = []) : n.MarksShared :=
  ⟨coherent_of_marks h,unmark_eq_self (by simp [h])⟩

/-- Everything inside a marked node is marked. -/
theorem Coherent.allMarked {n a : Node} {q : Path} (h : n.Coherent) (ha : n.at? q = some a)
    (hm : a.mark?.isSome) : a.AllMarked := by
  intro p b hb
  induction p using List.reverseRecOn generalizing b with
  | nil =>
    obtain rfl := Option.some.inj hb
    exact hm
  | append_singleton p i ih =>
    rw [at?_append] at hb
    obtain ⟨c,hc,hb⟩ := Option.bind_eq_some_iff.mp hb
    have hplace : n.at? (q ++ p) = some c := by rw [at?_append, ha]; exact hc
    have hinside := h.inside _ c hplace (ih c hc)
    obtain ⟨m,l,cs⟩ := c
    obtain ⟨d,hd,hb⟩ := Option.bind_eq_some_iff.mp hb
    obtain rfl := Option.some.inj hb
    exact hinside d (List.mem_of_getElem? hd)

/-! ### Numbers beside marks -/

/-- The numbers that are given go on one by one, past all marks there were. -/
private theorem number_fresh {n : Node} {base : Nat} (h : ∀ k ∈ n.marks, k < base) {next : Nat}
    (hnext : base ≤ next) :
    ∃ len, (n.number next).1.marks.filter (base ≤ ·) = List.range' next len ∧
      (n.number next).2 = next + len := by
  induction n using inductionOn generalizing next with
  | marked m l cs ih =>
    have hall {k : Nat} (hk : base ≤ k) : ∃ len,
        ((numberAll k cs).1.flatMap fun c => c.2.marks).filter (base ≤ ·) = List.range' k len ∧
          (numberAll k cs).2 = k + len := by
      have hcs : ∀ c ∈ cs, ∀ k ∈ c.2.marks, k < base := fun c hc k hk =>
        h k (by rw [marks_marked]; exact List.mem_append_right _ (List.mem_flatMap.mpr ⟨c,hc,hk⟩))
      clear h
      induction cs generalizing k with
      | nil => exact ⟨0,rfl,rfl⟩
      | cons c cs ihcs =>
        obtain ⟨hc,hcs⟩ := List.forall_mem_cons.mp hcs
        obtain ⟨ihc,ih⟩ := List.forall_mem_cons.mp ih
        obtain ⟨len,hmarks,hlast⟩ := ihc hc hk
        obtain ⟨more,hmore,hend⟩ := ihcs ih (k := k + len) (by omega) hcs
        refine ⟨len + more,?_,?_⟩
        · rw [numberAll_cons, List.flatMap_cons, List.filter_append, hmarks, hlast, hmore,
            List.range'_append_1]
        · rw [numberAll_cons, hlast, hend, Nat.add_assoc]
    rw [number_marked, marks_marked, List.filter_append]
    cases m with
    | none =>
      obtain ⟨len,hmarks,hlast⟩ := hall (k := next + 1) (by omega)
      refine ⟨len + 1,?_,?_⟩
      · simp [hmarks, hnext, List.range'_succ]
      · simp only [Option.isNone_none, if_true, hlast]
        omega
    | some k =>
      obtain ⟨len,hmarks,hlast⟩ := hall hnext
      have hk := h k (by simp [marks_marked])
      refine ⟨len,?_,?_⟩
      · simp [hmarks, Nat.not_le.mpr hk]
      · simpa using hlast

theorem le_number (n : Node) (next : Nat) : next ≤ (n.number next).2 := by
  induction n using inductionOn generalizing next with
  | marked m l cs ih =>
    have hall (k : Nat) : k ≤ (numberAll k cs).2 := by
      induction cs generalizing k with
      | nil => exact Nat.le_refl _
      | cons c cs ihcs =>
        obtain ⟨ihc,ih⟩ := List.forall_mem_cons.mp ih
        rw [numberAll_cons]
        exact Nat.le_trans (ihc k) (ihcs ih _)
    rw [number_marked]
    refine Nat.le_trans ?_ (hall _)
    split <;> omega

/-- A list of subtrees is numbered one by one. -/
private theorem numberAll_getElem? {cs : List (Field × Node)} {next i : Nat} {d : Field × Node}
    (h : (numberAll next cs).1[i]? = some d) :
    ∃ c k, cs[i]? = some c ∧ next ≤ k ∧ d = (c.1, (c.2.number k).1) := by
  induction cs generalizing next i with
  | nil => simp [numberAll] at h
  | cons c cs ih =>
    rw [numberAll_cons] at h
    cases i with
    | zero => exact ⟨c,next,rfl,Nat.le_refl _,(Option.some.inj h).symm⟩
    | succ i =>
      obtain ⟨c',k,hc,hk,rfl⟩ := ih h
      exact ⟨c',k,hc,Nat.le_trans (le_number c.2 next) hk,rfl⟩

/-- What stands at a place of the numbered tree is the numbered node of that place. -/
private theorem number_at? {n b : Node} {next : Nat} {q : Path}
    (h : (n.number next).1.at? q = some b) :
    ∃ a k, n.at? q = some a ∧ next ≤ k ∧ b = (a.number k).1 := by
  induction q generalizing n next with
  | nil => exact ⟨n,next,rfl,Nat.le_refl _,(Option.some.inj h).symm⟩
  | cons i q ih =>
    obtain ⟨m,l,cs⟩ := n
    rw [number_marked, at?_cons] at h
    obtain ⟨d,hd,h⟩ := Option.bind_eq_some_iff.mp h
    obtain ⟨c,k,hc,hk,rfl⟩ := numberAll_getElem? hd
    obtain ⟨a,j,ha,hj,rfl⟩ := ih h
    refine ⟨a,j,?_,?_,rfl⟩
    · rw [at?_cons, hc]
      exact ha
    · refine Nat.le_trans ?_ (Nat.le_trans hk hj)
      split <;> omega

/-- Taking the numbers away again leaves the tree as it was. -/
private theorem unmark_number {n : Node} (base : Nat) {test : Nat → Bool}
    (hold : ∀ k ∈ n.marks, test k = true) (hnew : ∀ k, base ≤ k → test k = false) {next : Nat}
    (hnext : base ≤ next) : (n.number next).1.unmark test = n := by
  induction n using inductionOn generalizing next with
  | marked m l cs ih =>
    have hall {k : Nat} (hk : base ≤ k) :
        (numberAll k cs).1.map (fun c => (c.1, c.2.unmark test)) = cs := by
      have hcs : ∀ c ∈ cs, ∀ k ∈ c.2.marks, test k = true := fun c hc k hk => hold k (by
        rw [marks_marked]; exact List.mem_append_right _ (List.mem_flatMap.mpr ⟨c,hc,hk⟩))
      clear hold
      induction cs generalizing k with
      | nil => rfl
      | cons c cs ihcs =>
        obtain ⟨hc,hcs⟩ := List.forall_mem_cons.mp hcs
        obtain ⟨ihc,ih⟩ := List.forall_mem_cons.mp ih
        rw [numberAll_cons, List.map_cons, ihc hc hk,
          ihcs ih (Nat.le_trans hk (le_number c.2 k)) hcs]
    rw [number_marked, unmark_marked, hall (by split <;> omega)]
    cases m with
    | none => simp [hnew next hnext]
    | some k => simp [hold k (by simp [marks_marked])]

/-- Where marks stand for shared nodes, they still do once the other nodes are numbered. -/
theorem Coherent.number {n : Node} (h : n.Coherent) :
    (n.number n.nextMark).1.Coherent := by
  obtain ⟨len,hfresh,-⟩ := number_fresh (fun k hk => lt_nextMark hk) (Nat.le_refl n.nextMark)
  have hnodup : ((n.number n.nextMark).1.marks.filter (n.nextMark ≤ ·)).Nodup := by
    rw [hfresh]
    exact List.nodup_range'
  -- A node under an old mark is what it was.
  have hold {q : Path} {b : Node} {k : Nat} (hb : (n.number n.nextMark).1.at? q = some b)
      (hk : b.mark? = some k) (hlt : k < n.nextMark) : n.at? q = some b := by
    obtain ⟨a,j,ha,hj,rfl⟩ := number_at? hb
    have hm : a.mark?.isSome := by
      obtain ⟨m,l,cs⟩ := a
      cases m with
      | none =>
        obtain rfl := by simpa [number_marked, mark?] using hk
        omega
      | some _ => rfl
    rw [ha, (h.allMarked ha hm).number]
  constructor
  · intro p q a b ha hb hm hab
    obtain ⟨k,hk⟩ := Option.isSome_iff_exists.mp hm
    have hkb := hab.symm.trans hk
    by_cases hlt : k < n.nextMark
    · exact h.same p q a b (hold ha hk hlt) (hold hb hkb hlt) hm hab
    · obtain rfl := eq_of_mark hnodup ha hb hk hkb (by simpa using hlt)
      exact Option.some.inj (ha.symm.trans hb)
  · intro p a ha _ c hc
    obtain ⟨i,hi⟩ := exists_at?_of_mem hc
    refine number_allMarked n n.nextMark (p ++ [i]) c.2 ?_
    rw [at?_append, ha, Option.bind_some, hi]

private theorem getD_foldl_modify (ms : List Nat) (counts : Array Nat) {k : Nat}
    (hk : k < counts.size) :
    (ms.foldl (fun counts m => counts.modify m (· + 1)) counts).getD k 0 =
      counts.getD k 0 + ms.count k := by
  induction ms generalizing counts with
  | nil => simp
  | cons m ms ih =>
    rw [List.foldl_cons, ih _ (by simpa using hk), List.count_cons]
    simp only [Array.getD_eq_getD_getElem?, Array.getElem?_modify]
    by_cases h : m = k
    · subst h
      simp [hk]
      omega
    · simp [h]

theorem places_eq (n : Node) (k : Nat) : n.places.getD k 0 = n.marks.count k := by
  by_cases hk : k < n.nextMark
  · rw [places, getD_foldl_modify _ _ (by simpa using hk)]
    simp [hk]
  · have hsize (ms : List Nat) (counts : Array Nat) :
        (ms.foldl (fun counts m => counts.modify m (· + 1)) counts).size = counts.size := by
      induction ms generalizing counts with
      | nil => rfl
      | cons m ms ih => rw [List.foldl_cons, ih, Array.size_modify]
    have hout : ¬ k < n.places.size := by
      rw [places, hsize]
      simpa using hk
    rw [List.count_eq_zero_of_not_mem fun hmem => hk (lt_nextMark hmem)]
    simp [hout]

theorem marks_unmark (test : Nat → Bool) (n : Node) :
    (n.unmark test).marks = n.marks.filter test := by
  induction n using inductionOn with
  | marked m l cs ih =>
    rw [unmark_marked, marks_marked, marks_marked, List.filter_append, List.filter_flatMap,
      List.flatMap_map, List.flatMap_congr ih]
    cases m with
    | none => rfl
    | some k => cases h : test k <;> simp [Option.filter, h]

theorem marks_plain (n : Node) : n.plain.marks = [] := by
  rw [plain, marks_unmark, List.filter_eq_nil_iff]
  simp

/-- Numbering a tree and then dropping the marks of single places leads back to it. -/
theorem MarksShared.number {n : Node} (h : n.MarksShared) :
    (n.number n.nextMark).1.dropSingleMarks = n := by
  have hold : n.marks = (n.number n.nextMark).1.marks.filter fun k => k < n.nextMark := by
    rw [← marks_unmark, unmark_number n.nextMark _ _ (Nat.le_refl _)]
    · simpa using fun k hk => lt_nextMark hk
    · simp
  obtain ⟨len,hfresh,-⟩ := number_fresh (fun k hk => lt_nextMark hk) (Nat.le_refl n.nextMark)
  refine unmark_number n.nextMark (fun k hk => ?_) (fun k hk => ?_) (Nat.le_refl _)
  · have hseveral : n.marks.count k > 1 := by
      have hmarks := congrArg Node.marks h.several
      rw [dropSingleMarks, marks_unmark, List.filter_eq_self] at hmarks
      have hk := hmarks k hk
      rwa [places_eq, decide_eq_true_eq] at hk
    have hcount : n.marks.count k ≤ (n.number n.nextMark).1.marks.count k := by
      have hsub := (List.filter_sublist (p := fun k => decide (k < n.nextMark))
        (l := (n.number n.nextMark).1.marks)).count_le k
      rwa [← hold] at hsub
    simp only [places_eq, decide_eq_true_eq]
    omega
  · have hcount : (n.number n.nextMark).1.marks.count k ≤ 1 := by
      rw [← List.count_filter (p := fun k => decide (n.nextMark ≤ k)) (by simpa using hk), hfresh]
      exact List.nodup_iff_count_le_one.mp List.nodup_range' k
    rw [places_eq, decide_eq_false_iff_not]
    omega

end Node

/-- A rule that counts whatever it changes. -/
structure Rule.Tells (r : Rule) : Prop where
  early : ∀ n v, r.early n = some v → v.count ≠ 0
  finish : ∀ ctx n, (r.finish ctx n).count ≠ 0 ∨ r.finish ctx n = .keep n

namespace Rule
variable {r : Rule}

/-- Where visits that count nothing keep each node, visits of a row that count nothing keep the row. -/
theorem visitAll_eq_self {l : Label} {before cs : List (Field × Node)}
    (hcs : ∀ c ∈ cs, ∀ ctx, (r.visit ctx c.2).count = 0 → r.visit ctx c.2 = .keep c.2)
    (h : (r.visitAll l before cs).2 = 0) : (r.visitAll l before cs).1 = cs := by
  induction cs generalizing before with
  | nil => rfl
  | cons c cs ih =>
    obtain ⟨f,n⟩ := c
    obtain ⟨hn,hcs⟩ := List.forall_mem_cons.mp hcs
    rw [visitAll_cons] at h ⊢
    obtain ⟨hhere,hmore⟩ := Nat.add_eq_zero_iff.mp h
    dsimp only
    rw [ih hcs hmore]
    split
    · rfl
    · rename_i hhole
      rw [if_neg hhole] at hhere
      rw [hn _ hhere]
      rfl

theorem Tells.visit (hr : r.Tells) (n : Node) (ctx : Context) (h : (r.visit ctx n).count = 0) :
    r.visit ctx n = .keep n := by
  induction n using Node.inductionOn generalizing ctx with
  | marked m l cs ih =>
    rw [Rule.visit] at h ⊢
    cases hearly : r.early (.marked m l cs) with
    | some v =>
      rw [hearly] at h
      exact absurd h (hr.early _ v hearly)
    | none =>
      simp only [hearly] at h ⊢
      obtain ⟨hcount,hfinish⟩ := Nat.add_eq_zero_iff.mp h
      rw [visitAll_eq_self ih hcount] at hfinish ⊢
      rw [hcount, (hr.finish ctx _).resolve_left (not_not.mpr hfinish)]
      rfl

end Rule

namespace Repeats

variable {s : Repeats} {root n : Node} {p : Path}

theorem upholds_ofTree (n : Node) : (ofTree n).Upholds n := by
  intro q a _
  unfold latest
  split
  · rfl
  · rw [getD_ofTree]
    rfl

/-- Nothing inside a node of the tree has to be marked any more. -/
theorem claim_eq_of_coherent (hroot : root.Coherent) (hn : root.at? p = some n) :
    s.claim n n.subtrees = (n.subtrees, s) := by
  refine claim_eq_self fun hm => ?_
  have hall := hroot.allMarked hn hm
  obtain ⟨m,l,cs⟩ := n
  exact (Node.allMarked_marked.mp hall).2

/-- To note a node of the tree as it stands changes nothing of what visits meet. -/
theorem Upholds.note (h : s.Upholds root) (hroot : root.Coherent) (hn : root.at? p = some n) :
    (s.note n).1 = n ∧ (s.note n).2.Upholds root := by
  unfold Repeats.note
  split
  · exact ⟨rfl,h⟩
  · rename_i k hk
    rw [claim_eq_of_coherent hroot hn]
    simp only [Node.update_self, true_and]
    intro q a ha
    have hlatest := h q a ha
    unfold latest at hlatest ⊢
    split
    · rfl
    · rename_i j hj
      simp only [hj] at hlatest
      rcases getD_set! s.current j k (some n) with ⟨heq,rfl⟩ | heq
      · rw [heq]
        exact hroot.same p q n a hn ha (by rw [hk]; rfl) (hk.trans hj.symm)
      · rw [heq, hlatest]

end Repeats

namespace Rule
variable {r : Rule} {root : Node}

private theorem Tells.visitAllRepeated {fuel : Nat} {l : Label}
    (hvisit : ∀ ctx p (n : Node) (s : Repeats), root.at? p = some n → s.Upholds root →
      (r.visitRepeated fuel ctx n s).1.count = 0 →
        (r.visitRepeated fuel ctx n s).1 = .keep n ∧ (r.visitRepeated fuel ctx n s).2.Upholds root)
    (before : List (Field × Node)) {cs : List (Field × Node)} {s : Repeats}
    (hcs : ∀ c ∈ cs, ∃ p, root.at? p = some c.2) (hs : s.Upholds root)
    (h : (r.visitAllRepeated fuel l before cs s).1.2 = 0) :
    (r.visitAllRepeated fuel l before cs s).1.1 = cs ∧
      (r.visitAllRepeated fuel l before cs s).2.Upholds root := by
  induction cs generalizing before s with
  | nil =>
    rw [visitAllRepeated_nil]
    exact ⟨rfl,hs⟩
  | cons c cs ih =>
    obtain ⟨f,n⟩ := c
    obtain ⟨⟨p,hn⟩,hcs⟩ := List.forall_mem_cons.mp hcs
    cases hhole : n.isHole with
    | true =>
      rw [visitAllRepeated_hole _ _ _ _ _ hhole] at h ⊢
      obtain ⟨hmore,hs⟩ := ih _ hcs hs (Nat.add_eq_zero_iff.mp h).2
      refine ⟨?_,hs⟩
      dsimp only
      rw [hmore]
      rfl
    | false =>
      rw [visitAllRepeated_node _ _ _ _ _ hhole] at h ⊢
      obtain ⟨hhere,hmore⟩ := Nat.add_eq_zero_iff.mp h
      obtain ⟨hkeep,hs⟩ := hvisit _ p n s hn hs hhere
      obtain ⟨hmore,hs⟩ := ih _ hcs hs hmore
      refine ⟨?_,hs⟩
      dsimp only
      rw [hkeep, hmore]
      rfl

theorem Tells.visitRepeated (hr : r.Tells) (hroot : root.Coherent) {fuel : Nat} (ctx : Context)
    (p : Path) (n : Node) (s : Repeats) (hn : root.at? p = some n) (hs : s.Upholds root)
    (h : (r.visitRepeated fuel ctx n s).1.count = 0) :
    (r.visitRepeated fuel ctx n s).1 = .keep n ∧ (r.visitRepeated fuel ctx n s).2.Upholds root := by
  induction fuel generalizing ctx p n s with
  | zero =>
    rw [visitRepeated_zero]
    exact ⟨rfl,hs⟩
  | succ fuel ih =>
    have hlatest := hs p n hn
    cases hearly : r.early n with
    | some v =>
      rw [visitRepeated_early (by rw [hlatest]; exact hearly)] at h
      exact absurd h (hr.early n v hearly)
    | none =>
      rw [visitRepeated_finish (by rw [hlatest]; exact hearly), hlatest] at h ⊢
      obtain ⟨hcount,hfinish⟩ := Nat.add_eq_zero_iff.mp h
      have hplaces : ∀ c ∈ n.subtrees, ∃ q, root.at? q = some c.2 := by
        intro c hc
        obtain ⟨i,hi⟩ := Node.exists_at?_of_mem hc
        exact ⟨p ++ [i],by rw [Node.at?_append, hn, Option.bind_some, hi]⟩
      obtain ⟨hsame,hs⟩ := Tells.visitAllRepeated ih [] hplaces hs hcount
      simp only [hsame, Repeats.claim_eq_of_coherent hroot hn, Node.update_self] at hfinish ⊢
      rw [hcount, (hr.finish ctx n).resolve_left (not_not.mpr hfinish)]
      obtain ⟨hnote,hs⟩ := hs.note hroot hn
      exact ⟨by simp only [Visit.keep, hnote],hs⟩

theorem Tells.runRepeated (hr : r.Tells) {tree : Node} (h : tree.Coherent)
    (hcount : (r.runRepeated tree).2 = 0) : (r.runRepeated tree).1 = tree := by
  obtain ⟨hkeep,hs⟩ := hr.visitRepeated h top [] tree _ rfl (Repeats.upholds_ofTree tree) hcount
  have hkept := congrArg Visit.kept hkeep
  simp only [Rule.runRepeated, StateT.run]
  exact (congrArg _ hkept).trans (hs.refresh _)

/-- A run that counts nothing changes nothing. -/
theorem Tells.run (hr : r.Tells) {tree : Node} (h : tree.Coherent) (hcount : (r.run tree).2 = 0) :
    (r.run tree).1 = tree := by
  unfold Rule.run at hcount ⊢
  split at hcount
  · rename_i hmarks
    rw [if_pos hmarks]
    exact hr.runRepeated h hcount
  · rename_i hmarks
    rw [if_neg hmarks, Rule.runOnce, hr.visit tree top hcount]
    rfl

end Rule
namespace Simplify

theorem expressionRule_tells : expressionRule.Tells := by
  constructor
  · intro n v hv
    obtain ⟨-,rfl⟩ := expressionRule_early hv
    exact Nat.one_ne_zero
  · intro ctx n
    have hfolding := expressionRule_folding ctx n
    generalize expressionRule.finish ctx n = v at hfolding ⊢
    cases hfolding with
    | keep => exact .inr rfl
    | _ => exact .inl Nat.one_ne_zero

theorem proxyRule_tells (t : ProxyTable) : (proxyRule t).Tells := by
  refine ⟨by simp [proxyRule],fun ctx n => ?_⟩
  obtain h | ⟨e,h⟩ := finish_cases (t := t) ctx n
  · exact .inr h
  · rw [h]
    exact .inl Nat.one_ne_zero

theorem deadCodeRule_tells : deadCodeRule.Tells := by
  refine ⟨by simp [deadCodeRule],fun ctx n => ?_⟩
  have hdeciding := deadCodeRule_deciding ctx n
  generalize deadCodeRule.finish ctx n = v at hdeciding ⊢
  cases hdeciding with
  | keep => exact .inr rfl
  | _ => exact .inl Nat.one_ne_zero

theorem flatteningRule_tells : flatteningRule.Tells := by
  refine ⟨by simp [flatteningRule],fun ctx n => ?_⟩
  obtain ⟨h,-⟩ | ⟨ss,-,-,h⟩ := flatteningRule_cases ctx n
  · exact .inr h
  · rw [h]
    exact .inl Nat.one_ne_zero

theorem accessRule_tells : accessRule.Tells := by
  refine ⟨by simp [accessRule],fun ctx n => ?_⟩
  obtain h | ⟨_,_,_,-,-,-,-,-,h⟩ := accessRule_cases ctx n
  · exact .inr h
  · rw [h]
    exact .inl Nat.one_ne_zero

theorem escapeRule_tells : escapeRule.Tells := by
  refine ⟨by simp [escapeRule],fun ctx n => ?_⟩
  obtain h | ⟨_,_,-,-,h⟩ := escapeRule_cases ctx n
  · exact .inr h
  · rw [h]
    exact .inl Nat.one_ne_zero

variable {tree : Node}

theorem proxyCalls_eq_self (h : tree.Coherent) (hcount : (proxyCalls tree).2 = 0) :
    (proxyCalls tree).1 = tree := by
  unfold proxyCalls at hcount ⊢
  split at hcount
  · rfl
  · exact (proxyRule_tells _).run h hcount

/-- Where all nodes are marked first, the marks are taken away again. -/
theorem flattening_eq_self (h : tree.MarksShared) (hcount : (flattening tree).2 = 0) :
    (flattening tree).1 = tree := by
  unfold flattening at hcount ⊢
  split at hcount
  · rename_i hrepeats
    rw [if_pos hrepeats]
    have hsame := flatteningRule_tells.runRepeated h.coherent.number hcount
    exact (congrArg Node.dropSingleMarks hsame).trans h.number
  · rename_i hrepeats
    rw [if_neg hrepeats]
    exact flatteningRule_tells.run h.coherent hcount

end Simplify

/-- Whether a simplification hands every tree back as it is when it counts nothing. -/
def Matcher.Tells (m : Matcher Unit) : Prop :=
  ∀ tree tree' : Node, tree.MarksShared → (m.run tree).run () = (.ok (tree', 0), ()) → tree' = tree

section
variable {setting : Setting} {label : String} {report : Nat → String} {isTooLong : Node → Bool}
  {pass : Node → Node × Nat}

theorem Matcher.Tells.ofPass
    (h : ∀ tree : Node, tree.MarksShared → (pass tree).2 = 0 → (pass tree).1 = tree) :
    (Matcher.ofPass setting label report pass).Tells := by
  intro tree tree' htree hrun
  have hpass : pass tree = (tree', 0) := Except.ok.inj (Prod.mk.inj hrun).1
  have hsame := h tree htree (by rw [hpass])
  rwa [hpass] at hsame

theorem Matcher.Tells.ofWriter
    (h : ∀ tree : Node, tree.MarksShared → (pass tree).2 = 0 → (pass tree).1 = tree) :
    (Matcher.ofWriter setting label report isTooLong pass).Tells := by
  intro tree tree' htree hrun
  cases hlong : isTooLong tree with
  | true =>
    simp only [Matcher.ofWriter, hlong, if_true] at hrun
    cases hrun
  | false =>
    simp only [Matcher.ofWriter, hlong, Bool.false_eq_true, if_false] at hrun
    have hpass : pass tree = (tree', 0) := Except.ok.inj (Prod.mk.inj hrun).1
    have hsame := h tree htree (by rw [hpass])
    rwa [hpass] at hsame

end

theorem matchers_tell : ∀ m ∈ matchers, m.Tells := by
  simp only [matchers, List.forall_mem_cons, List.not_mem_nil, false_implies, implies_true,
    and_true]
  exact ⟨.ofWriter fun _ h => Simplify.expressionRule_tells.run h.coherent,
    .ofPass fun _ h => Simplify.proxyCalls_eq_self h.coherent,
    .ofPass fun _ h => Simplify.deadCodeRule_tells.run h.coherent,
    .ofWriter fun _ h => Simplify.flattening_eq_self h,
    .ofPass fun _ h => Simplify.accessRule_tells.run h.coherent,
    .ofPass fun _ h => Simplify.escapeRule_tells.run h.coherent⟩

namespace Passes

/-- What is counted stays counted. -/
private theorem counts_subset {ms before : List (Matcher Unit)} {tree tree' : Node}
    {counts counts' : Counts}
    (h : (runAll before ms tree counts).run () = (.done tree' counts', ())) : counts ⊆ counts' := by
  induction ms generalizing before tree counts with
  | nil =>
    obtain ⟨-,rfl⟩ := Outcome.done.inj (Prod.mk.inj h).1
    exact List.Subset.refl _
  | cons m ms ih =>
    rw [runAll_cons] at h
    rcases hm : (m.run tree).run () with ⟨e | ⟨tree₁,n⟩,⟨⟩⟩
    · rw [hm] at h
      cases h
    · rw [hm] at h
      exact fun c hc => ih h (List.mem_append_left _ hc)

/-- As long as nothing is counted, the simplifications of a pass meet the tree they started from. -/
theorem runAll_eq_self {ms before : List (Matcher Unit)} {tree tree' : Node}
    {counts counts' : Counts} (hms : ∀ m ∈ ms, m.Tells) (htree : tree.MarksShared)
    (h : (runAll before ms tree counts).run () = (.done tree' counts', ()))
    (hzero : ∀ c ∈ counts', c.2 = 0) : tree' = tree := by
  induction ms generalizing before tree counts with
  | nil =>
    obtain ⟨rfl,-⟩ := Outcome.done.inj (Prod.mk.inj h).1
    rfl
  | cons m ms ih =>
    obtain ⟨hm,hms⟩ := List.forall_mem_cons.mp hms
    rw [runAll_cons] at h
    rcases hrun : (m.run tree).run () with ⟨e | ⟨tree₁,n⟩,⟨⟩⟩
    · rw [hrun] at h
      cases h
    · rw [hrun] at h
      obtain rfl : n = 0 := hzero (m.setting, n) (counts_subset h (by simp))
      obtain rfl := hm tree tree₁ htree hrun
      exact ih hms htree h

/-- No simplification changes a tree in silence. Where one of the pipeline counts nothing, it
hands the tree back as it is; and where all that run in a pass count nothing, the pass does. -/
theorem unchanged_of_counts_zero {tree : Node} (htree : tree.MarksShared) :
    (∀ m ∈ matchers, ∀ tree', (m.run tree).run () = (.ok (tree', 0), ()) → tree' = tree) ∧
      ∀ ms : List (Matcher Unit), (∀ m ∈ ms, m ∈ matchers) → ∀ tree' counts,
        (runAll [] ms tree []).run () = (.done tree' counts, ()) → (∀ c ∈ counts, c.2 = 0) →
          tree' = tree :=
  ⟨fun m hm tree' hrun => matchers_tell m hm tree tree' htree hrun,fun _ hms _ _ hrun hzero =>
    runAll_eq_self (fun m hm => matchers_tell m (hms m hm)) htree hrun hzero⟩

/-- A loop whose order names one label twice and has no case for it:
`while (true) { switch ('0|0'.split('|')[i++]) {} }`. -/
def caselessLoop : Node :=
  let text (s : String) : Node := .ofText (Text.ofString s)
  let order : Node := .call (.mk (.memberExpression false)
    [(.object, text "0|0"), (.property, .identifier "split")]) [text "|"]
  let next : Node := .mk (.updateExpression "++" false) [(.argument, .identifier "i")]
  .mk (.program "script") [(.body, .mk .whileStatement [(.test, .ofBool true), (.body, .block [
    .mk .switchStatement [
      (.discriminant, .mk (.memberExpression true) [(.object, order), (.property, next)])]])])]

theorem unchanged_of_counts_zero_caselessLoop :
    caselessLoop.MarksShared ∧ ∃ m ∈ matchers, m.setting = .undoControlFlowFlattening ∧
      ∃ tree', (m.run caselessLoop).run () = (.ok (tree', 0), ()) ∧ tree' = caselessLoop := by
  have hmarks : caselessLoop.marks = [] := by decide
  have h := Node.marksShared_of_marks hmarks
  have hm := List.getElem_mem (l := matchers) (n := 3) (by decide)
  have hzero : (Simplify.flattening caselessLoop).2 = 0 := by
    rw [Simplify.flattening, if_pos (by decide)]
    exact (Simplify.flatteningRule_selects.runRepeated_number hmarks).2.trans (by decide)
  have hrun : (matchers[3].run caselessLoop).run () =
      (.ok ((Simplify.flattening caselessLoop).1, 0), ()) := by
    rw [← hzero]
    rfl
  exact ⟨h,_,hm,rfl,_,hrun,(unchanged_of_counts_zero h).1 _ hm _ hrun⟩

end Passes
end Unravel
