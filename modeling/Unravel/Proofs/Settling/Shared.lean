import Unravel.Proofs.Settling.Repeated

/-! What a first run makes of shared nodes. Each of them is finished by one visit, as if it stood at one
place only, and later visits meet it finished. -/

namespace Unravel

/-- What is held in the middle of a run over a tree, when a table has the nodes that are finished. A node
that something is put in the place of before its subtrees are visited is held as it was, and what arrays
leave empty is not visited. -/
structure Rule.Finished (r : Rule) (root : Node) (table : Nat → Option Node) (s : Repeats) : Prop where
  size : root.nextMark ≤ s.current.size
  below : Node.Below table s.current.size
  filed : ∀ k a, table k = some a → a.mark? = some k ∧ a.Filed table
  held : ∀ k a, table k = some a → s.current.getD k none = some a ∨
    s.current.getD k none = none ∧ (root.nextMark ≤ k ∨ (∃ q, root.at? q = some a) ∧ a.isHole = true)
  known : ∀ k a, s.current.getD k none = some a →
    table k = some a ∨ (∃ q, root.at? q = some a) ∧ a.mark? = some k ∧ (r.early a).isSome
  origin : ∀ q o k a, root.at? q = some o → o.isHole = false → o.mark? = some k → table k = some a →
    r.early o = none ∧ a.plain = (r.visit top o.plain).kept
  holes : ∀ q o k, root.at? q = some o → o.isHole = true → o.mark? = some k → table k = some o

namespace Rule
variable {r : Rule} {root : Node} {table table' : Nat → Option Node} {s s' : Repeats}

namespace Finished

/-- At first nothing is finished but what is not visited. -/
theorem ofTree (r : Rule) {root : Node} (h : root.Coherent) (hholes : root.EmptyHoles) :
    ∃ table, r.Finished root table (.ofTree root) := by
  obtain ⟨table,hfiled⟩ := h.exists_filed
  have hnone := Repeats.getD_ofTree root
  let holes (k : Nat) : Option Node := if k ∈ root.marks then (table k).filter Node.isHole else none
  have hat {k : Nat} {a : Node} (ha : holes k = some a) :
      k ∈ root.marks ∧ a.isHole = true ∧ a.mark? = some k ∧ ∃ q, root.at? q = some a := by
    obtain ⟨hk,ha⟩ := Option.ite_none_right_eq_some.mp ha
    obtain ⟨ha,hhole⟩ := Option.filter_eq_some_iff.mp ha
    obtain ⟨q,b,hb,hmark⟩ := Node.exists_at?_of_marks hk
    rw [(hfiled q b k hb hmark).1] at ha
    obtain rfl := Option.some.inj ha
    exact ⟨hk,hhole,hmark,q,hb⟩
  have hhas {q : Path} {o : Node} {k : Nat} (ho : root.at? q = some o) (hhole : o.isHole = true)
      (hk : o.mark? = some k) : holes k = some o := by
    refine Option.ite_none_right_eq_some.mpr ⟨Node.marks_at? ho (Node.mark_mem_marks hk),?_⟩
    exact Option.filter_eq_some_iff.mpr ⟨(hfiled q o k ho hk).1,hhole⟩
  refine ⟨holes,?_,fun k a ha => ?_,fun k a ha => ?_,fun k a ha => ?_,fun k a ha => ?_,
    fun q o k a ho hhole hk ha => ?_,fun q o k ho hhole hk => hhas ho hhole hk⟩
  · rw [Repeats.size_ofTree]
  · rw [Repeats.size_ofTree]
    exact Node.lt_nextMark (hat ha).1
  · obtain ⟨-,hhole,hmark,q,hq⟩ := hat ha
    refine ⟨hmark,fun p b j hb hj => ?_⟩
    have hempty := hholes q a hq hhole
    cases p with
    | nil =>
      obtain rfl := Option.some.inj hb
      exact ⟨hhas hq hhole hj,(hfiled q a j hq hj).2⟩
    | cons i p =>
      obtain ⟨m,l,cs⟩ := a
      obtain rfl : cs = [] := hempty
      simp at hb
  · obtain ⟨-,hhole,-,hq⟩ := hat ha
    exact .inr ⟨hnone k,.inr ⟨hq,hhole⟩⟩
  · rw [hnone] at ha
    cases ha
  · obtain ⟨-,hhole',hmark,p,hp⟩ := hat ha
    obtain rfl := h.same q p o a ho hp (by rw [hk]; rfl) (hk.trans hmark.symm)
    rw [hhole] at hhole'
    cases hhole'

theorem holds (h : r.Finished root table s) : s.Holds table := by
  intro k a ha
  rcases h.held k a ha with hk | ⟨hk,-⟩
  · exact .inr hk
  · exact .inl hk

theorem filed_hole (h : r.Finished root table s) {o : Node} {q : Path} (ho : root.at? q = some o)
    (hhole : o.isHole = true) (hempty : o.subtrees = []) : o.Filed table := by
  obtain ⟨m,l,cs⟩ := o
  obtain rfl : cs = [] := hempty
  refine Node.filed_marked.mpr ⟨fun k hk => ⟨h.holes q _ k ho hhole hk,?_⟩,by simp⟩
  exact Node.allMarked_marked.mpr ⟨by rw [hk]; rfl,by simp⟩

theorem confirms (h : r.Finished root table s) (hs : Repeats.Confirms table s s') :
    r.Finished root table s' := by
  refine ⟨by rw [hs.size]; exact h.size,by rw [hs.size]; exact h.below,h.filed,fun k a ha => ?_,
    fun k a ha => ?_,h.origin,h.holes⟩
  · rcases hs.current k with hk | ⟨b,hb,hk⟩
    · rw [hk]
      exact h.held k a ha
    · rw [hb] at ha
      obtain rfl := Option.some.inj ha
      exact .inl hk
  · rcases hs.current k with hk | ⟨b,hb,hk⟩
    · rw [hk] at ha
      exact h.known k a ha
    · rw [hk] at ha
      obtain rfl := Option.some.inj ha
      exact .inl hb

/-- A finished node that is visited is held. -/
theorem current (h : r.Finished root table s) (hroot : root.Coherent) {o a : Node} {q : Path} {k : Nat}
    (ho : root.at? q = some o) (hhole : o.isHole = false) (hk : o.mark? = some k)
    (ha : table k = some a) : s.current.getD k none = some a := by
  rcases h.held k a ha with hcur | ⟨-,hlow | ⟨⟨p,hp⟩,hhole'⟩⟩
  · exact hcur
  · have := Node.mark_lt_nextMark ho hk
    omega
  · obtain rfl := hroot.same q p o a ho hp (by rw [hk]; rfl) (hk.trans (h.filed k a ha).1.symm)
    rw [hhole] at hhole'
    cases hhole'

/-- A visit that comes to a node before it is finished meets the node as it was in the tree. -/
theorem latest (h : r.Finished root table s) (hroot : root.Coherent) {o : Node} {q : Path}
    (ho : root.at? q = some o) (hnew : ∀ k, o.mark? = some k → table k = none) : s.latest o = o := by
  unfold Repeats.latest
  split
  · rfl
  · rename_i k hk
    cases hcur : s.current.getD k none with
    | none => rfl
    | some a =>
      rcases h.known k a hcur with ha | ⟨⟨p,ha⟩,hmark,-⟩
      · rw [hnew k hk] at ha
        cases ha
      · exact hroot.same p q a o ha ho (by rw [hmark]; rfl) (hmark.trans hk.symm)

/-- A node that something is put in the place of before its subtrees are visited is noted as it was. -/
theorem note_early (h : r.Finished root table s) (hroot : root.Coherent) {o : Node} {q : Path}
    (ho : root.at? q = some o) (hnew : ∀ k, o.mark? = some k → table k = none)
    (hearly : (r.early o).isSome) : r.Finished root table (s.note o).2 := by
  unfold Repeats.note
  split
  · exact h
  · rename_i k hk
    rw [Repeats.claim_eq_of_coherent hroot ho]
    simp only [Node.update_self]
    refine ⟨by simpa using h.size,?_,h.filed,fun j a ha => ?_,fun j a ha => ?_,h.origin,
      h.holes⟩
    · simpa [Node.Below] using h.below
    · rcases Repeats.getD_set! s.current j k (some o) with ⟨-,rfl⟩ | hsame
      · rw [hnew j hk] at ha
        cases ha
      · rw [hsame]
        exact h.held j a ha
    · rcases Repeats.getD_set! s.current j k (some o) with ⟨hset,rfl⟩ | hsame
      · rw [hset] at ha
        obtain rfl := Option.some.inj ha
        exact .inr ⟨⟨q,ho⟩,hk,hearly⟩
      · rw [hsame] at ha
        exact h.known j a ha

/-- What is new among the subtrees of a marked node is finished. -/
theorem claim (h : r.Finished root table s) (n : Node) {cs : List (Field × Node)}
    (hcs : ∀ c ∈ cs, c.2.Filed table) :
    ∃ table', Node.Extends table table' ∧ (∀ k < root.nextMark, table' k = table k) ∧
      r.Finished root table' (s.claim n cs).2 ∧
        (s.claim n cs).1.map (fun c => (c.1, c.2.plain)) = cs.map (fun c => (c.1, c.2.plain)) ∧
          ∀ c ∈ (s.claim n cs).1, c.2.Filed table' ∧ (n.mark?.isSome → c.2.AllMarked) := by
  obtain ⟨table',hgrows,hdone⟩ := s.claim_filed n hcs h.below
  have hplain := s.claim_plain n cs
  have hext := hgrows.extends h.below
  have hgetD := s.getD_claim n cs
  generalize s.claim n cs = claimed at hgrows hdone hplain hgetD
  have hold (k : Nat) (hk : k < root.nextMark) : table' k = table k :=
    hgrows.old k (Nat.lt_of_lt_of_le hk h.size)
  refine ⟨table',hext,hold,⟨?_,hgrows.below h.below,?_,?_,?_,?_,?_⟩,hplain,hdone⟩
  · exact Nat.le_trans h.size hgrows.le
  · intro k a ha
    rcases hgrows.new k a ha with ha | ⟨-,-,hnew⟩
    · exact ⟨(h.filed k a ha).1,(h.filed k a ha).2.mono hext⟩
    · exact hnew
  · intro k a ha
    rw [hgetD]
    rcases hgrows.new k a ha with ha | ⟨hk,-⟩
    · exact h.held k a ha
    · refine .inr ⟨?_,.inl (Nat.le_trans h.size hk)⟩
      simp [Array.getD_eq_getD_getElem?, hk]
  · intro k a ha
    rw [hgetD] at ha
    exact (h.known k a ha).imp_left (hext k a)
  · intro q o k a ho hhole hk ha
    rw [hold k (Node.mark_lt_nextMark ho hk)] at ha
    exact h.origin q o k a ho hhole hk ha
  · intro q o k ho hhole hk
    exact hext k o (h.holes q o k ho hhole hk)

/-- A node is finished once it is noted with its subtrees finished. -/
theorem note (h : r.Finished root table s) (hroot : root.Coherent) {o a : Node} {q : Path}
    (ho : root.at? q = some o) (hmark : a.mark? = o.mark?)
    (hnew : ∀ k, o.mark? = some k → table k = none) (hearly : r.early o = none)
    (hplain : a.plain = (r.visit top o.plain).kept)
    (hfiled : ∀ c ∈ a.subtrees, c.2.Filed table ∧ (a.mark?.isSome → c.2.AllMarked)) :
    ∃ table', Node.Extends table table' ∧ (∀ k, o.mark? ≠ some k → table' k = table k) ∧
      r.Finished root table' (s.note a).2 ∧ (s.note a).1 = a ∧ a.Filed table' := by
  obtain ⟨m,l,cs⟩ := a
  obtain rfl : m = o.mark? := hmark
  cases hk : o.mark? with
  | none =>
    refine ⟨table,fun _ _ => id,fun _ _ => rfl,h,rfl,Node.filed_marked.mpr ⟨by simp,fun c hc => ?_⟩⟩
    exact (hfiled c hc).1
  | some k =>
    have hmarked : ∀ c ∈ cs, c.2.AllMarked := fun c hc => (hfiled c hc).2 (by rw [hk]; rfl)
    have hlt := Node.mark_lt_nextMark ho hk
    have hext := Node.extends_update (a := .marked (some k) l cs) (hnew k hk)
    have hnode := Node.filed_update (l := l) (hnew k hk) (fun c hc => (hfiled c hc).1)
      (Node.allMarked_marked.mpr ⟨rfl,hmarked⟩)
    rw [s.note_marked k l hmarked]
    refine ⟨_,hext,fun j hj => Function.update_of_ne (fun he => hj (by rw [he])) ..,
      ⟨?_,fun j b hb => ?_,fun j b hb => ?_,fun j b hb => ?_,fun j b hb => ?_,fun p o' j b ho' hhole hj hb => ?_,
        fun p o' j ho' hhole hj => hext j o' (h.holes p o' j ho' hhole hj)⟩,rfl,hnode⟩
    · simpa using h.size
    · simp only [Array.set!_eq_setIfInBounds, Array.size_setIfInBounds]
      exact h.below.update (Nat.lt_of_lt_of_le hlt h.size) _ j b hb
    · rcases Node.update_eq_some_iff.mp hb with ⟨rfl,rfl⟩ | ⟨-,hb⟩
      · exact ⟨rfl,hnode⟩
      · exact ⟨(h.filed j b hb).1,(h.filed j b hb).2.mono hext⟩
    · rcases Node.update_eq_some_iff.mp hb with ⟨rfl,rfl⟩ | ⟨hjk,hb⟩
      · have hsize := Nat.lt_of_lt_of_le hlt h.size
        exact .inl (by simp [Array.getD_eq_getD_getElem?, hsize])
      · have hsame := (Repeats.getD_set! s.current j k (some (.marked (some k) l cs))).resolve_left
          fun he => hjk he.2
        rw [hsame]
        exact h.held j b hb
    · rcases Repeats.getD_set! s.current j k (some (.marked (some k) l cs)) with ⟨hset,rfl⟩ | hsame
      · rw [hset] at hb
        exact .inl (by rw [Function.update_self, hb])
      · rw [hsame] at hb
        exact (h.known j b hb).imp_left (hext j b)
    · rcases Node.update_eq_some_iff.mp hb with ⟨rfl,rfl⟩ | ⟨-,hb⟩
      · obtain rfl := hroot.same p q o' o ho' ho (by rw [hj]; rfl) (hj.trans hk.symm)
        rw [hk] at hplain
        exact ⟨hearly,hplain⟩
      · exact h.origin p o' j b ho' hhole hj hb

/-- A node is finished once it is noted, with what is new among its subtrees. -/
theorem note_new (h : r.Finished root table s) (hroot : root.Coherent) {o a : Node} {q : Path}
    (ho : root.at? q = some o) (hmark : a.mark? = o.mark?)
    (hnew : ∀ k, o.mark? = some k → table k = none) (hearly : r.early o = none)
    (hplain : a.plain = (r.visit top o.plain).kept) (hfiled : ∀ c ∈ a.subtrees, c.2.Filed table) :
    ∃ table', Node.Extends table table' ∧
      (∀ k < root.nextMark, o.mark? ≠ some k → table' k = table k) ∧
        r.Finished root table' (s.note a).2 ∧ (s.note a).1.plain = a.plain ∧ (s.note a).1.Filed table' := by
  obtain ⟨table₁,hgrows₁,hold₁,hs₁,hplain₁,hfiled₁⟩ := h.claim a hfiled
  have hnote : s.note a = (s.claim a a.subtrees).2.note (a.update a.label (s.claim a a.subtrees).1) := by
    obtain ⟨m,l,cs⟩ := a
    cases m with
    | none => rfl
    | some k =>
      simp only [Node.update, Node.mark?, Node.label, Repeats.note_marked _ _ _ fun c hc =>
        (hfiled₁ c hc).2 rfl]
      rfl
  rw [hnote]
  generalize s.claim a a.subtrees = claimed at hs₁ hplain₁ hfiled₁ ⊢
  have hsame : (a.update a.label claimed.1).plain = a.plain := by
    obtain ⟨m,l,cs⟩ := a
    rw [Node.update, Node.plain_marked, hplain₁]
    exact (Node.plain_marked m l cs).symm
  obtain ⟨table₂,hgrows₂,hold₂,hs₂,hnoted,hfiled₂⟩ := hs₁.note hroot ho
    (a := a.update a.label claimed.1) hmark
    (fun k hk => by rw [hold₁ k (Node.mark_lt_nextMark ho hk), hnew k hk])
    hearly (hsame.trans hplain) hfiled₁
  refine ⟨table₂,fun k b hb => hgrows₂ k b (hgrows₁ k b hb),fun k hlt hk => ?_,hs₂,?_,?_⟩
  · rw [hold₂ k hk, hold₁ k hlt]
  · rw [hnoted, hsame]
  · rwa [hnoted]

end Finished

/-- What a visit makes of a node of the tree: what a visit makes of the node without marks, finished. -/
structure Makes (r : Rule) (root : Node) (table table' : Nat → Option Node) (o : Node)
    (done : Visit × Repeats) : Prop where
  grows : Node.Extends table table'
  others : ∀ k < root.nextMark, k ∉ o.marks → table' k = table k
  finished : r.Finished root table' done.2
  kept : done.1.kept.plain = (r.visit top o.plain).kept
  replaced : done.1.replaced.map Replacement.plain = (r.visit top o.plain).replaced
  nodes : ∀ d ∈ done.1.result.nodes, d.Filed table'

/-- What fits finished nodes into a slot is new and has no mark. -/
theorem place_filed {l : Label} {f : Field} {old : Node} {rep : Replacement}
    (h : ∀ d ∈ rep.nodes, d.Filed table) : ∀ c ∈ place l f old rep, c.2.Filed table := by
  refine forall_mem_place (fun ns hns => ?_) (Node.filed_of_marks rfl) h
  exact Node.filed_marked.mpr ⟨by simp,List.forall_mem_map.mpr hns⟩

namespace Settles
variable (hr : r.Settles) (hroot : root.Coherent) {o : Node} {q : Path}

include hr in
theorem visitAllRepeated_makes {fuel : Nat} {l : Label}
    (hvisit : ∀ ctx (q : Path) (o : Node) (table : Nat → Option Node) (s : Repeats),
      root.at? q = some o → o.isHole = false → o.size ≤ fuel → r.Finished root table s →
        ∃ table', r.Makes root table table' o (r.visitRepeated fuel ctx o s))
    (before : List (Field × Node)) {cs : List (Field × Node)}
    (hplaces : ∀ c ∈ cs, ∃ q, root.at? q = some c.2) (hsize : ∀ c ∈ cs, c.2.size ≤ fuel)
    (hholes : ∀ c ∈ cs, c.2.EmptyHoles) (hs : r.Finished root table s) :
    ∃ table', Node.Extends table table' ∧
      (∀ k < root.nextMark, (∀ c ∈ cs, k ∉ c.2.marks) → table' k = table k) ∧
        r.Finished root table' (r.visitAllRepeated fuel l before cs s).2 ∧
          (r.visitAllRepeated fuel l before cs s).1.1.map (fun c => (c.1, c.2.plain)) =
            (r.visitAll l [] (cs.map fun c => (c.1, c.2.plain))).1 ∧
            ∀ c ∈ (r.visitAllRepeated fuel l before cs s).1.1, c.2.Filed table' := by
  induction cs generalizing before table s with
  | nil =>
    rw [visitAllRepeated_nil]
    exact ⟨table,fun _ _ => id,fun _ _ _ => rfl,hs,rfl,by simp⟩
  | cons c cs ih =>
    obtain ⟨f,n⟩ := c
    obtain ⟨⟨q,hq⟩,hplaces⟩ := List.forall_mem_cons.mp hplaces
    obtain ⟨hsn,hsize⟩ := List.forall_mem_cons.mp hsize
    obtain ⟨hhn,hholes⟩ := List.forall_mem_cons.mp hholes
    simp only [List.map_cons, visitAll_cons, Node.isHole_plain, hr.visitAll_before l _ [],
      List.filter_nil, List.map_nil]
    cases hhole : n.isHole with
    | true =>
      rw [visitAllRepeated_hole _ _ _ _ _ hhole]
      obtain ⟨table',hext,hothers,hs',hplain,hfiled⟩ := ih (before ++ [(f, n)]) hplaces hsize hholes hs
      refine ⟨table',hext,fun k hk hnot => hothers k hk (List.forall_mem_cons.mp hnot).2,hs',?_,?_⟩
      · simp only [List.map_append, hplain, if_true, List.map_cons, List.map_nil]
      · refine List.forall_mem_append.mpr ⟨?_,hfiled⟩
        simp only [List.mem_singleton, forall_eq]
        exact (hs.filed_hole hq hhole (hhn [] n rfl hhole)).mono hext
    | false =>
      rw [visitAllRepeated_node _ _ _ _ _ hhole]
      obtain ⟨table₁,hv⟩ := hvisit ⟨some l,f,membersBefore before f n⟩ q n table s hq hhole hsn hs
      generalize r.visitRepeated fuel ⟨some l,f,membersBefore before f n⟩ n s = v at hv
      obtain ⟨table₂,hext,hothers,hs',hplain,hfiled⟩ :=
        ih (before ++ [(f, n)]) hplaces hsize hholes hv.finished
      refine ⟨table₂,fun k a ha => hext k a (hv.grows k a ha),fun k hk hnot => ?_,hs',?_,?_⟩
      · obtain ⟨hn,hnot⟩ := List.forall_mem_cons.mp hnot
        rw [hothers k hk hnot, hv.others k hk hn]
      · have hresult : v.1.plain.result = (r.visit ⟨some l,f,[]⟩ n.plain).result := by
          rw [hr.visit_context n.plain ⟨some l,f,[]⟩ top, Visit.result, Visit.result, ← hv.kept,
            ← hv.replaced]
          rfl
        simp only [List.map_append, hplain, place_plain, hresult, Bool.false_eq_true, if_false]
      · refine List.forall_mem_append.mpr ⟨fun c hc => ?_,hfiled⟩
        exact (place_filed hv.nodes c hc).mono hext

include hr in
/-- What a rule puts in the place of a node is finished if the subtrees are. -/
private theorem finish_filed {n : Node} (hrests : ∀ c ∈ n.subtrees, r.Rests c.2)
    (hfiled : ∀ c ∈ n.subtrees, c.2.Filed table) {rep : Replacement}
    (h : (r.finish top n).replaced = some rep) : ∀ d ∈ rep.nodes, d.Filed table := by
  have hfinish := hr.finish n hrests
  generalize r.finish top n = v at h hfinish
  cases hfinish with
  | stays l k hstays => cases h
  | yields rep' k hyields =>
    obtain rfl := Option.some.inj h
    intro d hd
    rcases (hyields d hd).2 with hmarks | ⟨c,hc,p,hp⟩
    · exact Node.filed_of_marks hmarks
    · exact (hfiled c hc).at? hp

include hr hroot in
/-- A visit that comes to a node once more meets it as the first visit left it. -/
theorem visitRepeated_meets (ho : root.at? q = some o) (hhole : o.isHole = false)
    (hholes : o.EmptyHoles) (hs : r.Finished root table s) {k : Nat} {a : Node}
    (hk : o.mark? = some k) (ha : table k = some a) :
    s.latest o = a ∧ a.plain = (r.visit top o.plain).kept ∧ (∀ c ∈ a.subtrees, r.Rests c.2) ∧
      (r.finish top a).kept = a ∧
        (r.finish top a).replaced.map Replacement.plain = (r.visit top o.plain).replaced := by
  obtain ⟨hearly,hplain⟩ := hs.origin q o k a ho hhole hk ha
  have hlatest : s.latest o = a := by
    simp [Repeats.latest, hk, hs.current hroot ho hhole hk ha]
  have hearly' : r.early o.plain = none := by
    rw [hr.plain_early, hearly]
    rfl
  have hsettled := hr.visit_settled o.plain hholes.plain top
  have hinside := hsettled.inside hearly'
  obtain ⟨hkept,hreplaced⟩ := hsettled.again hearly'
  rw [← hplain, Node.subtrees_plain] at hinside
  rw [← hplain, hr.plain_finish] at hkept hreplaced
  exact ⟨hlatest,hplain,fun c hc => hr.rests_plain.mp (List.forall_mem_map.mp hinside c hc),
    hr.kept_eq_self hkept,hreplaced⟩

include hr hroot in
/-- A visit that comes to a node once more. -/
private theorem visitRepeated_again (fuel : Nat) (ctx : Context) (ho : root.at? q = some o)
    (hhole : o.isHole = false) (hholes : o.EmptyHoles) (hs : r.Finished root table s) {k : Nat}
    {a : Node} (hk : o.mark? = some k) (ha : table k = some a) :
    r.Makes root table table o (r.visitRepeated (fuel + 1) ctx o s) := by
  obtain ⟨hlatest,hplain,hrests,hkept,hreplaced⟩ :=
    hr.visitRepeated_meets hroot ho hhole hholes hs hk ha
  have hfiled := (hs.filed k a ha).2
  obtain ⟨hdone,hrep,hconfirms⟩ := hr.visitRepeated_finished fuel ctx hlatest (hr.late a hrests) hrests
    hkept hfiled hs.holds
  refine ⟨fun _ _ => id,fun _ _ _ => rfl,hs.confirms hconfirms,by rw [hdone, hplain],?_,?_⟩
  · rw [hrep]
    exact hreplaced
  · rw [Visit.result, hdone, hrep]
    cases hrep' : (r.finish top a).replaced with
    | none =>
      simp only [Option.getD_none, Replacement.nodes, List.mem_singleton, forall_eq]
      exact hfiled
    | some rep => exact hr.finish_filed hrests (fun c hc => hfiled.subtree hc) hrep'

include hr hroot in
/-- A visit that comes to a node which something is put in the place of before its subtrees are
visited. -/
private theorem visitRepeated_put (fuel : Nat) (ctx : Context) (ho : root.at? q = some o)
    (hs : r.Finished root table s) (hnew : ∀ k, o.mark? = some k → table k = none) {v : Visit}
    (hearly : r.early o = some v) :
    r.Makes root table table o (r.visitRepeated (fuel + 1) ctx o s) := by
  obtain ⟨hkept,c,hc,hmarks,-⟩ := hr.early o v hearly
  have hlatest := hs.latest hroot ho hnew
  rw [visitRepeated_early (by rw [hlatest]; exact hearly), hkept]
  have hnote : (s.note o).1 = o := by
    unfold Repeats.note
    split
    · rfl
    · simp only [Repeats.claim_eq_of_coherent hroot ho, Node.update_self]
  have hvisit : r.visit top o.plain = v.plain := by
    obtain ⟨m,l,cs⟩ := o
    have hplain := hr.plain_early (.marked m l cs)
    rw [Node.plain_marked] at hplain ⊢
    rw [Rule.visit, hplain, hearly]
    rfl
  refine ⟨fun _ _ => id,fun _ _ _ => rfl,?_,?_,?_,?_⟩
  · exact hs.note_early hroot ho hnew (by rw [hearly]; rfl)
  · rw [hvisit, Visit.plain, hkept]
    exact congrArg Node.plain hnote
  · rw [hvisit]
    rfl
  · simp only [Visit.result, hc, Option.getD_some, Replacement.nodes, List.mem_singleton, forall_eq]
    exact Node.filed_of_marks hmarks

include hr in
/-- What a rule makes of a node without marks, once the subtrees are visited, is what it makes of the
node with the visited subtrees. -/
private theorem visit_eq_finish {cs : List (Field × Node)} (hearly : r.early o = none)
    (hcs : cs.map (fun c => (c.1, c.2.plain)) =
      (r.visitAll o.label [] (o.subtrees.map fun c => (c.1, c.2.plain))).1) :
    (r.visit top o.plain).kept = (r.finish top (o.update o.label cs)).kept.plain ∧
      (r.visit top o.plain).replaced =
        (r.finish top (o.update o.label cs)).replaced.map Replacement.plain := by
  have hfinish := hr.plain_finish (o.update o.label cs)
  have hearly' : r.early o.plain = none := by
    rw [hr.plain_early, hearly]
    rfl
  obtain ⟨m,l,ds⟩ := o
  rw [Node.plain_marked] at hearly'
  simp only [Node.update, Node.plain_marked, hcs] at hfinish
  simp only [Node.plain_marked, Rule.visit, hearly']
  exact ⟨congrArg Visit.kept hfinish,congrArg Visit.replaced hfinish⟩

include hr in
/-- Visited subtrees are settled, whatever their marks. -/
private theorem visited_rests (hholes : o.EmptyHoles) {cs : List (Field × Node)}
    (hcs : cs.map (fun c => (c.1, c.2.plain)) =
      (r.visitAll o.label [] (o.subtrees.map fun c => (c.1, c.2.plain))).1) :
    ∀ c ∈ cs, r.Rests c.2 := by
  intro c hc
  have hmem : (c.1, c.2.plain) ∈ cs.map fun c => (c.1, c.2.plain) := List.mem_map_of_mem hc
  rw [hcs] at hmem
  have hempty : ∀ c ∈ o.subtrees.map fun c => (c.1, c.2.plain), c.2.EmptyHoles :=
    List.forall_mem_map.mpr fun c hc => (hholes.subtree hc).plain
  apply hr.rests_plain.mp
  exact hr.visitAll_rests hempty
    (fun c hc ctx => (hr.visit_settled c.2 (hempty c hc) ctx).result) [] _ hmem

include hr hroot in
/-- The first visit of a node. -/
private theorem visitRepeated_first {fuel : Nat}
    (hvisit : ∀ ctx (q : Path) (o : Node) (table : Nat → Option Node) (s : Repeats),
      root.at? q = some o → o.isHole = false → o.size ≤ fuel → r.Finished root table s →
        ∃ table', r.Makes root table table' o (r.visitRepeated fuel ctx o s))
    (ctx : Context) (ho : root.at? q = some o) (hholes : o.EmptyHoles) (hsize : o.size ≤ fuel + 1)
    (hs : r.Finished root table s) (hnew : ∀ k, o.mark? = some k → table k = none)
    (hearly : r.early o = none) :
    ∃ table', r.Makes root table table' o (r.visitRepeated (fuel + 1) ctx o s) := by
  have hlatest := hs.latest hroot ho hnew
  rw [visitRepeated_finish (by rw [hlatest]; exact hearly), hlatest]
  obtain ⟨hplaces,hsizes⟩ := Node.subtrees_within ho hsize
  obtain ⟨table₁,hgrows₁,hothers₁,hs₁,hplain₁,hfiled₁⟩ := hr.visitAllRepeated_makes (l := o.label)
    hvisit [] hplaces hsizes (fun c hc => hholes.subtree hc) hs
  dsimp only
  generalize r.visitAllRepeated fuel o.label [] o.subtrees s = visited at hs₁ hplain₁ hfiled₁
  obtain ⟨table₂,hgrows₂,hothers₂,hs₂,hplain₂,hfiled₂⟩ := hs₁.claim o hfiled₁
  generalize visited.2.claim o visited.1.1 = claimed at hs₂ hplain₂ hfiled₂
  have hvisit := hr.visit_eq_finish hearly (hplain₂.trans hplain₁)
  have hreshaped := hr.reshapes (o.update o.label claimed.1)
  have hrests := hr.visited_rests hholes (hplain₂.trans hplain₁)
  have hnew₂ : ∀ k, o.mark? = some k → table₂ k = none := by
    intro k hk
    have hlt := Node.mark_lt_nextMark ho hk
    rw [hothers₂ k hlt, hothers₁ k hlt fun c hc => hroot.mark_not_inside ho hk hc, hnew k hk]
  have hfiledkept : ∀ c ∈ (r.finish top (o.update o.label claimed.1)).kept.subtrees,
      c.2.Filed table₂ := by
    intro c hc
    rcases hreshaped.subtrees c hc with hold | hmarks
    · exact (hfiled₂ c hold).1
    · exact Node.filed_of_marks hmarks
  obtain ⟨table₃,hgrows₃,hothers₃,hs₃,hnote,hfiled₃⟩ := hs₂.note_new hroot ho hreshaped.mark hnew₂
    hearly hvisit.1.symm hfiledkept
  simp only [hr.context ctx]
  refine ⟨table₃,fun k a ha => hgrows₃ k a (hgrows₂ k a (hgrows₁ k a ha)),fun k hk hnot => ?_,hs₃,?_,?_,?_⟩
  · obtain ⟨m,l,cs⟩ := o
    rw [Node.marks_marked, List.mem_append, not_or, List.mem_flatMap] at hnot
    obtain ⟨htop,hcs⟩ := hnot
    rw [hothers₃ k hk (fun hm => htop (Option.mem_toList.mpr hm)), hothers₂ k hk,
      hothers₁ k hk fun c hc hmem => hcs ⟨c,hc,hmem⟩]
  · rw [hvisit.1, hnote]
  · rw [hvisit.2]
  · simp only [Visit.result]
    cases hrep : (r.finish top (o.update o.label claimed.1)).replaced with
    | none =>
      simp only [Option.getD_none, Replacement.nodes, List.mem_singleton, forall_eq]
      exact hfiled₃
    | some rep =>
      refine hr.finish_filed (n := o.update o.label claimed.1) hrests (fun c hc => ?_) hrep
      exact (hfiled₂ c hc).1.mono hgrows₃

include hr hroot in
/-- A visit makes of a node, wherever it stands and whenever the visit comes to it, what a visit makes
of the node without marks. -/
theorem visitRepeated_makes (hholes : root.EmptyHoles) (fuel : Nat) (ctx : Context) (q : Path) (o : Node)
    (table : Nat → Option Node) (s : Repeats) (ho : root.at? q = some o) (hhole : o.isHole = false)
    (hsize : o.size ≤ fuel) (hs : r.Finished root table s) :
    ∃ table', r.Makes root table table' o (r.visitRepeated fuel ctx o s) := by
  induction fuel generalizing ctx q o table s with
  | zero =>
    obtain ⟨m,l,cs⟩ := o
    rw [Node.size] at hsize
    omega
  | succ fuel ih =>
    have hinner := hholes.at? ho
    by_cases hmet : ∃ k a, o.mark? = some k ∧ table k = some a
    · obtain ⟨k,a,hk,ha⟩ := hmet
      exact ⟨table,hr.visitRepeated_again hroot fuel ctx ho hhole hinner hs hk ha⟩
    · have hnew : ∀ k, o.mark? = some k → table k = none := by
        intro k hk
        cases ha : table k with
        | none => rfl
        | some a => exact absurd ⟨k,a,hk,ha⟩ hmet
      cases hearly : r.early o with
      | some v => exact ⟨table,hr.visitRepeated_put hroot fuel ctx ho hs hnew hearly⟩
      | none => exact hr.visitRepeated_first hroot ih ctx ho hinner hsize hs hnew hearly

variable {tree : Node} (hholes : tree.EmptyHoles) (hkeeps : (r.visit top tree).replaced = none)

include hr hholes hkeeps in
private theorem runOnce_plain_rests : r.Rests (r.runOnce tree.plain).1 := by
  apply hr.runOnce_rests hholes.plain
  rw [hr.visit_plain, Visit.plain, hkeeps, Option.map_none]

include hr hholes hkeeps in
/-- A run over a tree of shared nodes comes to a tree of shared nodes, and makes of the tree what a run
makes of the tree without marks. -/
theorem run_plain (h : tree.Coherent) :
    (r.run tree).1.Coherent ∧ (r.run tree).1.plain = (r.runOnce tree.plain).1 := by
  unfold Rule.run
  split
  · cases hhole : tree.isHole with
    | true =>
      have hrests : r.Rests tree := by
        have hempty := hholes [] tree rfl hhole
        obtain ⟨m,l,cs⟩ := tree
        obtain rfl : cs = [] := hempty
        exact rests_marked.mpr ⟨hr.framed _ (.inr (.inr (of_decide_eq_true hhole))),by simp⟩
      have hrun := hr.run_rests h hrests
      rename_i hmarks
      rw [Rule.run, if_pos hmarks] at hrun
      rw [hrun, Rule.runOnce, hr.visit_rests (hr.rests_plain.mpr hrests)]
      exact ⟨h,rfl⟩
    | false =>
      obtain ⟨table,hs⟩ := Finished.ofTree r h hholes
      obtain ⟨table',hv⟩ := hr.visitRepeated_makes h hholes (2 * tree.size + 2) top [] tree table _ rfl
        hhole (by omega) hs
      have hfiled := hv.nodes
      have hreplaced := hv.replaced
      rw [hr.visit_plain, Visit.plain, hkeeps] at hreplaced
      rw [Visit.result, Option.map_eq_none_iff.mp hreplaced] at hfiled
      have hfiled := hfiled _ (List.mem_singleton_self _)
      have hrun : (r.runRepeated tree).1 =
          (r.visitRepeated (2 * tree.size + 2) top tree (.ofTree tree)).1.kept :=
        (hv.finished.holds.upholds hfiled).refresh (2 * tree.size + 2)
      rw [hrun]
      exact ⟨hfiled.coherent,hv.kept⟩
  · rename_i hmarks
    have hplain : tree.plain = tree := by
      apply Node.plain_of_marks
      rwa [Bool.not_eq_true, Node.hasMarks_eq_false] at hmarks
    have hkept : (r.runOnce tree).1 = (r.runOnce tree).1.plain := by
      have hvisit := congrArg Visit.kept (hr.visit_plain tree top)
      rw [hplain] at hvisit
      exact hvisit
    rw [hplain]
    refine ⟨?_,hkept.symm⟩
    rw [hkept]
    exact Node.coherent_of_marks (Node.marks_plain _)

include hr hholes hkeeps in
/-- A rule that is done in one run leaves as it is what it comes to. -/
theorem run_leaves (h : tree.Coherent) : r.Rests (r.run tree).1 := by
  apply hr.rests_plain.mp
  rw [(hr.run_plain hholes hkeeps h).2]
  exact hr.runOnce_plain_rests hholes hkeeps

include hr hholes hkeeps in
/-- A second run over what a run came to changes nothing. -/
theorem run_again (h : tree.Coherent) :
    r.run (r.run tree).1 = ((r.run tree).1, r.idle (r.run tree).1) :=
  hr.run_rests (hr.run_plain hholes hkeeps h).1 (hr.run_leaves hholes hkeeps h)

end Settles
end Rule
end Unravel
