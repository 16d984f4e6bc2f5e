import Unravel.Proofs.Simplify.Unchanged

/-! Tables of shared nodes, one for each mark. A tree is filed in a table that has each marked node of it,
and stays so while the table grows. -/

namespace Unravel

namespace Node

/-- A tree in which each marked node is the one that a table has for the mark, and everything inside it
is marked. -/
def Filed (table : Nat → Option Node) (n : Node) : Prop :=
  ∀ q a k, n.at? q = some a → a.mark? = some k → table k = some a ∧ a.AllMarked

/-- A table that has what another table has. -/
def Extends (table table' : Nat → Option Node) : Prop := ∀ k a, table k = some a → table' k = some a

variable {table table' table'' : Nat → Option Node}

theorem filed_marked {m : Option Nat} {l : Label} {cs : List (Field × Node)} :
    (marked m l cs).Filed table ↔
      (∀ k, m = some k → table k = some (marked m l cs) ∧ (marked m l cs).AllMarked) ∧
        ∀ c ∈ cs, c.2.Filed table := by
  constructor
  · intro h
    refine ⟨fun k hk => h [] _ k rfl hk,fun c hc q a k ha hk => ?_⟩
    obtain ⟨i,hi⟩ := List.mem_iff_getElem?.mp hc
    apply h (i :: q) a k _ hk
    rw [at?_cons, hi]
    exact ha
  · rintro ⟨htop,hcs⟩ q a k ha hk
    cases q with
    | nil =>
      obtain rfl := Option.some.inj ha
      exact htop k hk
    | cons i q =>
      obtain ⟨c,hc,ha⟩ := Option.bind_eq_some_iff.mp ha
      exact hcs c (List.mem_of_getElem? hc) q a k ha hk

theorem Filed.at? {n a : Node} {p : Path} (h : n.Filed table) (ha : n.at? p = some a) :
    a.Filed table := by
  intro q b k hb hk
  apply h (p ++ q) b k _ hk
  rw [at?_append, ha, Option.bind_some, hb]

theorem Filed.subtree {n : Node} (h : n.Filed table) {c : Field × Node} (hc : c ∈ n.subtrees) :
    c.2.Filed table := by
  obtain ⟨i,hi⟩ := exists_at?_of_mem hc
  exact h.at? hi

theorem Filed.mono {n : Node} (h : n.Filed table) (hext : Extends table table') : n.Filed table' := by
  intro q a k ha hk
  obtain ⟨htable,hmarked⟩ := h q a k ha hk
  exact ⟨hext k a htable,hmarked⟩

theorem filed_of_marks {n : Node} (h : n.marks = []) : n.Filed table := by
  intro q a k ha hk
  rw [mark?_of_marks h ha] at hk
  cases hk

/-- A coherent tree has a table. -/
theorem Coherent.exists_filed {n : Node} (h : n.Coherent) : ∃ table, n.Filed table := by
  obtain ⟨table,htable⟩ := h.exists_table
  exact ⟨table,fun q a k ha hk => ⟨htable q a k ha hk,h.allMarked ha (by rw [hk]; rfl)⟩⟩

theorem Filed.coherent {n : Node} (h : n.Filed table) : n.Coherent := by
  constructor
  · intro p q a b ha hb hm hab
    obtain ⟨k,hk⟩ := Option.isSome_iff_exists.mp hm
    have htable := (h p a k ha hk).1
    rw [(h q b k hb (hab.symm.trans hk)).1] at htable
    exact (Option.some.inj htable).symm
  · intro p a ha hm c hc
    obtain ⟨k,hk⟩ := Option.isSome_iff_exists.mp hm
    obtain ⟨i,hi⟩ := exists_at?_of_mem hc
    exact (h p a k ha hk).2 [i] c.2 hi

/-! ### Marks and sizes -/
/-- A node is not inside itself. -/
theorem size_lt_of_mem {n : Node} {c : Field × Node} (h : c ∈ n.subtrees) : c.2.size < n.size := by
  obtain ⟨m,l,cs⟩ := n
  have : c.2.size ≤ sizeAll cs := size_le_sizeAll h
  rw [size]
  omega

theorem size_le_of_at? {n a : Node} {q : Path} (h : n.at? q = some a) : a.size ≤ n.size := by
  induction q generalizing n with
  | nil =>
    obtain rfl := Option.some.inj h
    exact Nat.le_refl _
  | cons i q ih =>
    obtain ⟨m,l,cs⟩ := n
    obtain ⟨c,hc,h⟩ := Option.bind_eq_some_iff.mp h
    have := size_lt_of_mem (n := .marked m l cs) (List.mem_of_getElem? hc)
    have := ih h
    omega

theorem exists_at?_of_marks {n : Node} {k : Nat} (h : k ∈ n.marks) :
    ∃ q a, n.at? q = some a ∧ a.mark? = some k := by
  induction n using inductionOn with
  | marked m l cs ih =>
    rw [marks_marked] at h
    rcases List.mem_append.mp h with h | h
    · exact ⟨[],_,rfl,Option.mem_toList.mp h⟩
    · obtain ⟨c,hc,h⟩ := List.mem_flatMap.mp h
      obtain ⟨q,a,ha,hk⟩ := ih c hc h
      obtain ⟨i,hi⟩ := List.mem_iff_getElem?.mp hc
      exact ⟨i :: q,a,by rw [at?_cons, hi]; exact ha,hk⟩

/-- The mark of a node in a coherent tree is not found inside the node. -/
theorem Coherent.mark_not_inside {root n : Node} {p : Path} (h : root.Coherent)
    (hn : root.at? p = some n) {k : Nat} (hk : n.mark? = some k) {c : Field × Node}
    (hc : c ∈ n.subtrees) : k ∉ c.2.marks := by
  intro hmem
  obtain ⟨q,a,ha,hka⟩ := exists_at?_of_marks hmem
  obtain ⟨i,hi⟩ := exists_at?_of_mem hc
  have hplace : root.at? (p ++ ([i] ++ q)) = some a := by
    rw [at?_append, hn, Option.bind_some, at?_append, hi]
    exact ha
  obtain rfl := h.same _ _ n a hn hplace (by rw [hk]; rfl) (hk.trans hka.symm)
  have := size_le_of_at? ha
  have := size_lt_of_mem hc
  omega

/-- The mark of a node of a tree is below the next free one. -/
theorem mark_lt_nextMark {root n : Node} {p : Path} (hn : root.at? p = some n) {k : Nat}
    (hk : n.mark? = some k) : k < root.nextMark := lt_nextMark (marks_at? hn (mark_mem_marks hk))

/-- What is inside a node of a tree has its place in the tree and is smaller. -/
theorem subtrees_within {root n : Node} {p : Path} (hn : root.at? p = some n) {fuel : Nat}
    (hsize : n.size ≤ fuel + 1) :
    (∀ c ∈ n.subtrees, ∃ q, root.at? q = some c.2) ∧ ∀ c ∈ n.subtrees, c.2.size ≤ fuel := by
  refine ⟨fun c hc => ?_,fun c hc => ?_⟩
  · obtain ⟨i,hi⟩ := exists_at?_of_mem hc
    exact ⟨p ++ [i],by rw [at?_append, hn]; exact hi⟩
  · have := size_lt_of_mem hc
    omega

/-! ### Growth -/

/-- The entries of a table with one more are the earlier ones and the new one. -/
theorem update_eq_some_iff {j k : Nat} {a b : Node} :
    Function.update table k (some a) j = some b ↔ j = k ∧ b = a ∨ j ≠ k ∧ table j = some b := by
  by_cases hj : j = k
  · subst hj
    simp [eq_comm]
  · simp [hj]

theorem extends_update {k : Nat} {a : Node} (h : table k = none) :
    Extends table (Function.update table k (some a)) := by
  intro j b hb
  refine update_eq_some_iff.mpr (.inr ⟨?_,hb⟩)
  rintro rfl
  rw [h] at hb
  cases hb

/-- A table with new entries in a range of marks. -/
structure Grows (table table' : Nat → Option Node) (low high : Nat) : Prop where
  le : low ≤ high
  old : ∀ k, k < low → table' k = table k
  new : ∀ k a, table' k = some a →
    table k = some a ∨ low ≤ k ∧ k < high ∧ a.mark? = some k ∧ a.Filed table'

/-- All entries of a table are for marks below a bound. -/
def Below (table : Nat → Option Node) (bound : Nat) : Prop := ∀ k a, table k = some a → k < bound

theorem Below.update {k bound : Nat} (h : Below table bound) (hk : k < bound) (a : Node) :
    Below (Function.update table k (some a)) bound := by
  intro j b hb
  rcases update_eq_some_iff.mp hb with ⟨rfl,-⟩ | ⟨-,hb⟩
  · exact hk
  · exact h j b hb

/-- A marked node is filed where it has a new entry and its subtrees are filed. -/
theorem filed_update {k : Nat} {l : Label} {cs : List (Field × Node)} (hk : table k = none)
    (hcs : ∀ c ∈ cs, c.2.Filed table) (hmarked : (marked (some k) l cs).AllMarked) :
    (marked (some k) l cs).Filed (Function.update table k (some (.marked (some k) l cs))) := by
  refine filed_marked.mpr ⟨fun j hj => ?_,fun c hc => (hcs c hc).mono (extends_update hk)⟩
  obtain rfl := Option.some.inj hj
  exact ⟨Function.update_self ..,hmarked⟩

theorem Grows.extends {low high : Nat} (h : Grows table table' low high) (hlow : Below table low) :
    Extends table table' := by
  intro k a ha
  rw [h.old k (hlow k a ha), ha]

theorem Grows.below {low high : Nat} (h : Grows table table' low high) (hlow : Below table low) :
    Below table' high := by
  intro k a ha
  rcases h.new k a ha with hold | ⟨-,hhigh,-⟩
  · exact Nat.lt_of_lt_of_le (hlow k a hold) h.le
  · exact hhigh

theorem Grows.trans {low mid high : Nat} (h : Grows table table' low mid)
    (h' : Grows table' table'' mid high) (hlow : Below table low) : Grows table table'' low high := by
  refine ⟨Nat.le_trans h.le h'.le,fun k hk => ?_,fun k a ha => ?_⟩
  · rw [h'.old k (Nat.lt_of_lt_of_le hk h.le), h.old k hk]
  · rcases h'.new k a ha with hold | ⟨hmid,hhigh,hnew⟩
    · rcases h.new k a hold with hold | ⟨hk,hmid,hmark,hfiled⟩
      · exact .inl hold
      · refine .inr ⟨hk,Nat.lt_of_lt_of_le hmid h'.le,hmark,hfiled.mono ?_⟩
        exact h'.extends (h.below hlow)
    · exact .inr ⟨Nat.le_trans h.le hmid,hhigh,hnew⟩

theorem numberAll_filed {cs : List (Field × Node)}
    (ih : ∀ c ∈ cs, ∀ {table : Nat → Option Node} {next : Nat}, c.2.Filed table → Below table next →
      ∃ table', Grows table table' next (c.2.number next).2 ∧ (c.2.number next).1.Filed table')
    (hcs : ∀ c ∈ cs, c.2.Filed table) {next : Nat} (hbelow : Below table next) :
    ∃ table', Grows table table' next (numberAll next cs).2 ∧
      ∀ c ∈ (numberAll next cs).1, c.2.Filed table' := by
  induction cs generalizing table next with
  | nil => exact ⟨table,⟨Nat.le_refl _,fun _ _ => rfl,fun _ _ => .inl⟩,by simp [numberAll]⟩
  | cons c cs ihs =>
    obtain ⟨ihc,ih⟩ := List.forall_mem_cons.mp ih
    obtain ⟨hc,hcs⟩ := List.forall_mem_cons.mp hcs
    obtain ⟨table₁,hgrows,hfiled⟩ := ihc hc hbelow
    have hbelow₁ := hgrows.below hbelow
    obtain ⟨table₂,hgrows₂,hrest⟩ :=
      ihs ih (fun c hc => (hcs c hc).mono (hgrows.extends hbelow)) hbelow₁
    rw [numberAll_cons]
    refine ⟨table₂,hgrows.trans hgrows₂ hbelow,List.forall_mem_cons.mpr ⟨?_,hrest⟩⟩
    exact hfiled.mono (hgrows₂.extends hbelow₁)

theorem numberAll_parts (cs : List (Field × Node)) (next : Nat) :
    (numberAll next cs).1.map (fun c => (c.1, c.2.plain)) = cs.map (fun c => (c.1, c.2.plain)) ∧
      ∀ c ∈ (numberAll next cs).1, c.2.AllMarked := by
  induction cs generalizing next with
  | nil => exact ⟨rfl,by simp [numberAll]⟩
  | cons c cs ih =>
    obtain ⟨hplain,hmarked⟩ := ih (c.2.number next).2
    rw [numberAll_cons, List.map_cons, List.map_cons, plain_number, hplain]
    exact ⟨rfl,List.forall_mem_cons.mpr ⟨number_allMarked c.2 next,hmarked⟩⟩

/-- What is numbered finds its entries in a table with new entries. -/
theorem number_filed {n : Node} (h : n.Filed table) {next : Nat} (hbelow : Below table next) :
    ∃ table', Grows table table' next (n.number next).2 ∧ (n.number next).1.Filed table' := by
  induction n using inductionOn generalizing table next with
  | marked m l cs ih =>
    obtain ⟨htop,hcs⟩ := filed_marked.mp h
    cases m with
    | some k =>
      rw [(htop k rfl).2.number]
      exact ⟨table,⟨Nat.le_refl _,fun _ _ => rfl,fun _ _ => .inl⟩,h⟩
    | none =>
      have hbelow' : Below table (next + 1) := fun k a ha => Nat.lt_succ_of_lt (hbelow k a ha)
      have hmarked := number_allMarked (.marked none l cs) next
      obtain ⟨table₁,hgrows,hdone⟩ :=
        numberAll_filed (fun c hc {_ _} h hb => ih c hc h hb) hcs hbelow'
      rw [number_marked] at hmarked ⊢
      simp only [Option.isNone_none, if_true, Option.getD_none] at hmarked ⊢
      generalize numberAll (next + 1) cs = numbered at hgrows hdone hmarked
      have hnone : table₁ next = none := by
        rw [hgrows.old next (Nat.lt_succ_self _)]
        cases htable : table next with
        | none => rfl
        | some a => exact absurd (hbelow next a htable) (Nat.lt_irrefl _)
      have hext := extends_update (a := .marked (some next) l numbered.1) hnone
      have hnode := filed_update hnone hdone hmarked
      refine ⟨_,⟨?_,fun k hk => ?_,fun k a ha => ?_⟩,hnode⟩
      · exact Nat.le_trans (Nat.le_succ _) hgrows.le
      · rw [Function.update_of_ne (Nat.ne_of_lt hk), hgrows.old k (Nat.lt_succ_of_lt hk)]
      · rcases update_eq_some_iff.mp ha with ⟨rfl,rfl⟩ | ⟨-,ha⟩
        · exact .inr ⟨Nat.le_refl _,hgrows.le,rfl,hnode⟩
        · rcases hgrows.new k a ha with hold | ⟨hlow,hhigh,hmark,hfiled⟩
          · exact .inl hold
          · exact .inr ⟨Nat.le_of_succ_le hlow,hhigh,hmark,hfiled.mono hext⟩

end Node

namespace Repeats
variable {table : Nat → Option Node}

@[simp]
theorem getD_claim (s : Repeats) (n : Node) (cs : List (Field × Node)) (k : Nat) :
    (s.claim n cs).2.current.getD k none = s.current.getD k none := by
  unfold claim
  split
  · rfl
  · exact getD_append_replicate s.current k _

theorem claim_plain (s : Repeats) (n : Node) (cs : List (Field × Node)) :
    (s.claim n cs).1.map (fun c => (c.1, c.2.plain)) = cs.map fun c => (c.1, c.2.plain) := by
  unfold claim
  split
  · rfl
  · exact (Node.numberAll_parts cs s.current.size).1

/-- Among the subtrees of a marked node what is new takes new entries. -/
theorem claim_filed (s : Repeats) (n : Node) {cs : List (Field × Node)}
    (hcs : ∀ c ∈ cs, c.2.Filed table) (hbelow : Node.Below table s.current.size) :
    ∃ table', Node.Grows table table' s.current.size (s.claim n cs).2.current.size ∧
      ∀ c ∈ (s.claim n cs).1, c.2.Filed table' ∧ (n.mark?.isSome → c.2.AllMarked) := by
  unfold claim
  split
  · rename_i hm
    refine ⟨table,⟨Nat.le_refl _,fun _ _ => rfl,fun _ _ => .inl⟩,fun c hc => ⟨hcs c hc,fun hsome => ?_⟩⟩
    rw [Option.isNone_iff_eq_none.mp hm] at hsome
    cases hsome
  · obtain ⟨table',hgrows,hdone⟩ :=
      Node.numberAll_filed (fun c _ {_ _} hc hb => Node.number_filed hc hb) hcs hbelow
    obtain ⟨-,hmarked⟩ := Node.numberAll_parts cs s.current.size
    dsimp only
    generalize Node.numberAll s.current.size cs = numbered at hgrows hdone hmarked
    have hsize : (s.current ++ Array.replicate (numbered.2 - s.current.size) none).size = numbered.2 := by
      have := hgrows.le
      simp only [Array.size_append, Array.size_replicate]
      omega
    rw [hsize]
    exact ⟨table',hgrows,fun c hc => ⟨hdone c hc,fun _ => hmarked c hc⟩⟩

theorem note_marked (s : Repeats) (k : Nat) (l : Label) {cs : List (Field × Node)}
    (hcs : ∀ c ∈ cs, c.2.AllMarked) : s.note (.marked (some k) l cs) =
      (.marked (some k) l cs, ⟨s.current.set! k (some (.marked (some k) l cs))⟩) := by
  have hclaim : s.claim (.marked (some k) l cs) cs = (cs, s) := claim_eq_self fun _ => hcs
  simp only [note, Node.mark?, Node.subtrees, Node.label, Node.update, hclaim]

end Repeats
end Unravel
