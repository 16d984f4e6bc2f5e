import Unravel.Proofs.Settling.Shared

/-! Rules that put statements from inside a node in its place, over a tree that is numbered first. What comes
to stand at several places is one node at all of them, and stays so once the numbers of single places are
dropped. -/

namespace Unravel

namespace Node

/-! ### Marks at one place -/

@[simp]
theorem mark?_unmark (test : Nat → Bool) (n : Node) : (n.unmark test).mark? = n.mark?.filter test := by
  obtain ⟨m,l,cs⟩ := n
  rw [unmark_marked]
  rfl

@[simp]
theorem subtrees_unmark (test : Nat → Bool) (n : Node) :
    (n.unmark test).subtrees = n.subtrees.map fun c => (c.1, c.2.unmark test) := by
  obtain ⟨m,l,cs⟩ := n
  rw [unmark_marked]
  rfl

theorem at?_unmark (test : Nat → Bool) (n : Node) (q : Path) :
    (n.unmark test).at? q = (n.at? q).map (unmark test) := by
  induction q generalizing n with
  | nil => rfl
  | cons i q ih =>
    obtain ⟨m,l,cs⟩ := n
    rw [unmark_marked, at?_cons, at?_cons, List.getElem?_map]
    cases cs[i]? with
    | none => rfl
    | some c => exact ih c.2

/-- A mark has at least as many places as one whose nodes hold it inside, and that is not inside these
nodes itself. -/
theorem count_marks_le {n : Node} {j k : Nat} (h : ∀ q a, n.at? q = some a → a.mark? = some k →
    j ∈ a.marks ∧ ∀ c ∈ a.subtrees, k ∉ c.2.marks) : n.marks.count k ≤ n.marks.count j := by
  induction n using inductionOn with
  | marked m l cs ih =>
    have hcs : ∀ c ∈ cs, c.2.marks.count k ≤ c.2.marks.count j := by
      intro c hc
      obtain ⟨i,hi⟩ := exists_at?_of_mem (n := .marked m l cs) hc
      apply ih c hc
      intro q a ha
      apply h ([i] ++ q) a
      rw [at?_append, hi, Option.bind_some, ha]
    by_cases hm : m = some k
    · obtain ⟨hj,hk⟩ := h [] _ rfl hm
      have hnone : (cs.flatMap fun c => c.2.marks).count k = 0 := by
        rw [List.count_eq_zero, List.mem_flatMap]
        rintro ⟨c,hc,hmem⟩
        exact hk c hc hmem
      have hone : (marked m l cs).marks.count k = 1 := by
        rw [marks_marked, List.count_append, hnone, hm]
        simp
      rw [hone]
      exact List.one_le_count_iff.mpr hj
    · have hsum : (cs.flatMap fun c => c.2.marks).count k ≤ (cs.flatMap fun c => c.2.marks).count j := by
        clear h ih
        induction cs with
        | nil => exact Nat.le_refl _
        | cons c cs ihs =>
          obtain ⟨hc,hcs⟩ := List.forall_mem_cons.mp hcs
          rw [List.flatMap_cons, List.count_append, List.count_append]
          exact Nat.add_le_add hc (ihs hcs)
      have htop : m.toList.count k = 0 := by
        rw [List.count_eq_zero, Option.mem_toList]
        exact hm
      rw [marks_marked, List.count_append, List.count_append, htop]
      omega

/-- Where the places of each mark hold one node, they still do once marks of single places are gone. -/
theorem Coherent.dropSingleMarks {n : Node} (h : n.Coherent) : n.dropSingleMarks.MarksShared := by
  have htest (k : Nat) : (decide (n.places.getD k 0 > 1)) = decide (n.marks.count k > 1) := by
    rw [places_eq]
  have hdrop : n.dropSingleMarks = n.unmark fun k => decide (n.marks.count k > 1) := by
    unfold Node.dropSingleMarks
    simp only [htest]
  rw [hdrop]
  refine ⟨⟨fun p q a b ha hb hm hab => ?_,fun p a ha hm c hc => ?_⟩,?_⟩
  · rw [at?_unmark, Option.map_eq_some_iff] at ha hb
    obtain ⟨a,hpa,rfl⟩ := ha
    obtain ⟨b,hpb,rfl⟩ := hb
    obtain ⟨k,hk⟩ := Option.isSome_iff_exists.mp hm
    have hkb := hab.symm.trans hk
    rw [mark?_unmark, Option.filter_eq_some_iff] at hk hkb
    rw [h.same p q a b hpa hpb (by rw [hk.1]; rfl) (hk.1.trans hkb.1.symm)]
  · rw [at?_unmark, Option.map_eq_some_iff] at ha
    obtain ⟨a,hpa,rfl⟩ := ha
    rw [subtrees_unmark, List.mem_map] at hc
    obtain ⟨c,hmem,rfl⟩ := hc
    obtain ⟨k,hk⟩ := Option.isSome_iff_exists.mp hm
    rw [mark?_unmark, Option.filter_eq_some_iff, decide_eq_true_iff] at hk
    obtain ⟨hka,hseveral⟩ := hk
    have hsome : a.mark?.isSome := by rw [hka]; rfl
    obtain ⟨j,hj⟩ := Option.isSome_iff_exists.mp (h.inside p a hpa hsome c hmem)
    have hcount : n.marks.count k ≤ n.marks.count j := by
      apply count_marks_le
      intro q b hb hkb
      obtain rfl := h.same p q a b hpa hb hsome (hka.trans hkb.symm)
      refine ⟨?_,fun d hd => h.mark_not_inside hb hkb hd⟩
      obtain ⟨i,hi⟩ := exists_at?_of_mem hmem
      exact marks_at? hi (mark_mem_marks hj)
    rw [mark?_unmark, hj, Option.filter_some, if_pos (decide_eq_true (Nat.lt_of_lt_of_le hseveral hcount))]
    rfl
  · apply unmark_eq_self
    intro k hk
    rw [marks_unmark, List.mem_filter] at hk
    rw [places_eq, marks_unmark, List.count_filter (p := fun j => decide (n.marks.count j > 1)) hk.2]
    exact hk.2

end Node

namespace Rule
variable {r : Rule} {base : Nat} {ks ks' : List Nat} {table table' table'' : Nat → Option Node}
  {s s' s'' : Repeats}

/-- What visits to nodes of given marks do to a table: they enter these marks, and new ones. -/
structure Enters (base : Nat) (ks : List Nat) (table table' : Nat → Option Node) (s s' : Repeats) : Prop where
  keeps : Node.Extends table table'
  others : ∀ k < base, k ∉ ks → table' k = table k
  below : Node.Below table' s'.current.size
  leads : Repeats.Leads ks s s'

theorem Enters.trans (h : Enters base ks table table' s s') (h' : Enters base ks' table' table'' s' s'') :
    Enters base (ks ++ ks') table table'' s s'' := by
  refine ⟨fun k a ha => h'.keeps k a (h.keeps k a ha),fun k hk hnot => ?_,h'.below,
    h.leads.trans h'.leads⟩
  rw [List.mem_append, not_or] at hnot
  rw [h'.others k hk hnot.2, h.others k hk hnot.1]

namespace Selects

private theorem visitAllRepeated_enters {fuel : Nat} {l : Label}
    (hvisit : ∀ ctx (n : Node) (s : Repeats) (table : Nat → Option Node), s.Unvisited n → n.EmptyHoles →
      n.marks.Nodup → n.size ≤ fuel → base ≤ s.current.size → (∀ k ∈ n.marks, k < base ∧ table k = none) →
        Node.Below table s.current.size →
          ∃ table', Enters base n.marks table table' s (r.visitRepeated fuel ctx n s).2 ∧
            ∀ d ∈ (r.visitRepeated fuel ctx n s).1.result.nodes, d.Filed table')
    (before : List (Field × Node)) {cs : List (Field × Node)} (hcs : s.Fresh base fuel cs)
    (hholes : ∀ c ∈ cs, c.2.EmptyHoles) (hnew : ∀ c ∈ cs, ∀ k ∈ c.2.marks, table k = none)
    (hbelow : Node.Below table s.current.size) :
    ∃ table', Enters base (cs.flatMap fun c => c.2.marks) table table' s
        (r.visitAllRepeated fuel l before cs s).2 ∧
      ∀ c ∈ (r.visitAllRepeated fuel l before cs s).1.1, c.2.Filed table' := by
  induction cs generalizing before s table with
  | nil =>
    rw [visitAllRepeated_nil]
    exact ⟨table,⟨fun _ _ => id,fun _ _ _ => rfl,hbelow,.refl s⟩,by simp⟩
  | cons c cs ih =>
    obtain ⟨f,n⟩ := c
    obtain ⟨hn,hnodup,hsize,hbn⟩ := hcs.head
    obtain ⟨hhn,hholes⟩ := List.forall_mem_cons.mp hholes
    obtain ⟨hnn,hnew⟩ := List.forall_mem_cons.mp hnew
    rw [List.flatMap_cons]
    -- The later subtrees have no entries yet once this one is done.
    have hrest {table₁ : Nat → Option Node} {s₁ : Repeats} (h : Enters base n.marks table table₁ s s₁) :=
      ih (before ++ [(f, n)]) (s := s₁) (hcs.tail h.leads) hholes (fun c hc k hk => by
        rw [h.others k (hcs.below c (List.mem_cons_of_mem _ hc) k hk) (hcs.apart hc hk),
          hnew c hc k hk]) h.below
    cases hhole : n.isHole with
    | true =>
      rw [visitAllRepeated_hole _ _ _ _ _ hhole]
      obtain ⟨k,hk⟩ := Option.isSome_iff_exists.mp (hn.marked [] n rfl)
      obtain ⟨m,l',cs'⟩ := n
      obtain rfl : m = some k := hk
      obtain rfl : cs' = [] := hhn [] _ rfl hhole
      have hkb := hbn k (Node.mark_mem_marks rfl)
      have hnone := hnn k (Node.mark_mem_marks rfl)
      have hhere : Enters base (Node.marked (some k) l' []).marks table
          (Function.update table k (some (.marked (some k) l' []))) s s := by
        refine ⟨Node.extends_update hnone,fun j _ hj => Function.update_of_ne ?_ ..,
          hbelow.update (Nat.lt_of_lt_of_le hkb hcs.free) _,⟨Nat.le_refl _,fun _ _ => rfl⟩⟩
        rintro rfl
        exact hj (Node.mark_mem_marks rfl)
      obtain ⟨table₂,hmore,hfiled⟩ := hrest hhere
      refine ⟨table₂,hhere.trans hmore,List.forall_mem_append.mpr ⟨?_,hfiled⟩⟩
      simp only [List.mem_singleton, forall_eq]
      exact (Node.filed_update hnone (by simp) (Node.allMarked_marked.mpr ⟨rfl,by simp⟩)).mono hmore.keeps
    | false =>
      rw [visitAllRepeated_node _ _ _ _ _ hhole]
      obtain ⟨table₁,hhere,hnodes⟩ := hvisit ⟨some l,f,membersBefore before f n⟩ n s table hn hhn hnodup
        hsize hcs.free (fun k hk => ⟨hbn k hk,hnn k hk⟩) hbelow
      obtain ⟨table₂,hmore,hfiled⟩ := hrest hhere
      refine ⟨table₂,hhere.trans hmore,List.forall_mem_append.mpr ⟨fun c hc => ?_,hfiled⟩⟩
      exact (place_filed hnodes c hc).mono hmore.keeps

/-- A visit of new nodes leaves nodes that are filed. -/
theorem visitRepeated_enters (hr : r.Selects) (fuel : Nat) (ctx : Context) (n : Node) (s : Repeats)
    (table : Nat → Option Node) (hn : s.Unvisited n) (hholes : n.EmptyHoles) (hnodup : n.marks.Nodup)
    (hsize : n.size ≤ fuel) (hbase : base ≤ s.current.size) (hnew : ∀ k ∈ n.marks, k < base ∧ table k = none)
    (hbelow : Node.Below table s.current.size) :
    ∃ table', Enters base n.marks table table' s (r.visitRepeated fuel ctx n s).2 ∧
      (r.visitRepeated fuel ctx n s).1.kept.Filed table' ∧
        ∀ d ∈ (r.visitRepeated fuel ctx n s).1.result.nodes, d.Filed table' := by
  induction fuel generalizing ctx n s table with
  | zero =>
    obtain ⟨m,l,cs⟩ := n
    rw [Node.size] at hsize
    omega
  | succ fuel ih =>
    have hleads := (hr.visitRepeated ctx hn hnodup hsize hbase fun k hk => (hnew k hk).1).leads
    obtain ⟨m,l,cs⟩ := n
    obtain ⟨k,rfl⟩ := Option.isSome_iff_exists.mp (Node.allMarked_marked.mp hn.marked).1
    have hlatest := hn.settled.2 [] _ rfl
    rw [visitRepeated_finish (hr.early _), hlatest] at hleads ⊢
    obtain ⟨hkb,hk,hfresh⟩ := hn.fresh hnodup hsize hbase fun j hj => (hnew j hj).1
    have hmarks : (Node.marked (some k) l cs).marks = k :: cs.flatMap fun c => c.2.marks := by
      simp [Node.marks_marked]
    rw [hmarks] at hnew hleads ⊢
    obtain ⟨⟨-,hnone⟩,hnew⟩ := List.forall_mem_cons.mp hnew
    obtain ⟨table₁,henters,hfiled⟩ := visitAllRepeated_enters (l := l)
      (fun ctx n s table hn hholes hnodup hsize hbase hnew hbelow =>
        (ih ctx n s table hn hholes hnodup hsize hbase hnew hbelow).imp fun _ h => ⟨h.1,h.2.2⟩)
      [] hfresh (fun c hc => hholes.subtree hc)
      (fun c hc j hj => (hnew j (List.mem_flatMap.mpr ⟨c,hc,hj⟩)).2) hbelow
    simp only [Node.label, Node.subtrees, Node.update, Node.mark?, hr.kept] at hleads ⊢
    generalize r.visitAllRepeated fuel l [] cs s = visited at henters hfiled hleads
    obtain ⟨table₂,hgrows,hclaimed⟩ :=
      visited.2.claim_filed (.marked (some k) l cs) hfiled henters.below
    generalize visited.2.claim (.marked (some k) l cs) visited.1.1 = claimed at hgrows hclaimed hleads
    have hmarked : ∀ c ∈ claimed.1, c.2.AllMarked := fun c hc => (hclaimed c hc).2 rfl
    have hbase₁ := Nat.le_trans hbase henters.leads.size
    have hnone₂ : table₂ k = none := by
      rw [hgrows.old k (Nat.lt_of_lt_of_le hkb hbase₁), henters.others k hkb hk, hnone]
    have hext := Node.extends_update (a := .marked (some k) l claimed.1) hnone₂
    have hnode := Node.filed_update (l := l) hnone₂ (fun c hc => (hclaimed c hc).1)
      (Node.allMarked_marked.mpr ⟨rfl,hmarked⟩)
    rw [claimed.2.note_marked k l hmarked] at hleads ⊢
    refine ⟨_,⟨fun j a ha => hext j a (hgrows.extends henters.below j a (henters.keeps j a ha)),
      fun j hj hnot => ?_,?_,hleads⟩,hnode,?_⟩
    · rw [List.mem_cons, not_or] at hnot
      rw [Function.update_of_ne hnot.1, hgrows.old j (Nat.lt_of_lt_of_le hj hbase₁),
        henters.others j hj hnot.2]
    · simp only [Array.set!_eq_setIfInBounds, Array.size_setIfInBounds]
      refine (hgrows.below henters.below).update (Nat.lt_of_lt_of_le hkb ?_) _
      exact Nat.le_trans hbase₁ hgrows.le
    · rcases hr.replaced ctx (.marked (some k) l claimed.1) with hreplaced | ⟨ss,hss,hinside⟩
      · simp only [Visit.result, hreplaced, Option.getD_none, Replacement.nodes, List.mem_singleton,
          forall_eq]
        exact hnode
      · simp only [Visit.result, hss, Option.getD_some, Replacement.nodes]
        intro d hd
        obtain ⟨q,hq⟩ := hinside d hd
        exact hnode.at? hq

/-- After a run over a tree that is numbered first, what stands at several places is one node. -/
theorem runRepeated_coherent (hr : r.Selects) {tree : Node} (hm : tree.marks = [])
    (hholes : tree.EmptyHoles) : (r.runRepeated (tree.number tree.nextMark).1).1.Coherent := by
  have hmarked := Node.number_allMarked tree tree.nextMark
  have hnodup := Node.nodup_number hm tree.nextMark
  have hnumbered : (tree.number tree.nextMark).1.EmptyHoles := by
    rwa [← Node.emptyHoles_plain, Node.plain_number, Node.emptyHoles_plain]
  generalize (tree.number tree.nextMark).1 = n at hmarked hnodup hnumbered
  have hsize := Repeats.size_ofTree n
  have hfresh := Repeats.unvisited_ofTree hmarked
  have hkept := (hr.visitRepeated top hfresh hnodup (by omega : n.size ≤ 2 * n.size + 2)
    (Nat.le_of_eq hsize.symm) fun k hk => Node.lt_nextMark hk).kept
  have hbelow : Node.Below (fun _ => none) (Repeats.ofTree n).current.size := by
    intro k a ha
    cases ha
  obtain ⟨table,-,hfiled,-⟩ := hr.visitRepeated_enters (2 * n.size + 2) top n _ (fun _ => none) hfresh
    hnumbered hnodup (by omega) (Nat.le_of_eq hsize.symm) (fun k hk => ⟨Node.lt_nextMark hk,rfl⟩) hbelow
  have hrun : (r.runRepeated n).1 = (r.visitRepeated (2 * n.size + 2) top n (.ofTree n)).1.kept :=
    hkept.settled.refresh (2 * n.size + 2)
  rw [hrun]
  exact hfiled.coherent

end Selects
end Rule
end Unravel
