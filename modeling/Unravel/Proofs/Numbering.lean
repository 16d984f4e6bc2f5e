import Mathlib.Data.List.Range
import Mathlib.Data.List.TakeWhile
import Unravel.Proofs.Grammar.Passes

/-! Trees that are numbered before a rule runs over them, so that what the rule copies stays one
node. As long as every number has one place, a run with numbers is a run without them. A rule that does
not look at marks does the same to a tree before and after a change to marks alone, so that a run can
also be watched by marks of one's own. -/

namespace Unravel

namespace Node

/-- The tree without its marks. -/
def plain (n : Node) : Node := n.unmark fun _ => false

theorem plain_marked (m : Option Nat) (l : Label) (cs : List (Field × Node)) :
    (marked m l cs).plain = .mk l (cs.map fun c => (c.1, c.2.plain)) := by
  rw [plain, unmark_marked]
  cases m <;> rfl

@[simp]
theorem label_plain (n : Node) : n.plain.label = n.label := by
  obtain ⟨m,l,cs⟩ := n
  rfl

@[simp]
theorem isHole_plain (n : Node) : n.plain.isHole = n.isHole := by simp [isHole]

@[simp]
theorem isStatement_plain (n : Node) : n.plain.isStatement = n.isStatement := by simp [isStatement]

theorem subtrees_plain (n : Node) : n.plain.subtrees = n.subtrees.map fun c => (c.1, c.2.plain) := by
  obtain ⟨m,l,cs⟩ := n
  rw [plain_marked]
  rfl

theorem filter_plain (cs : List (Field × Node)) (f : Field) :
    ((cs.map fun c => (c.1, c.2.plain)).filter fun c => c.1 = f).map Prod.snd =
      ((cs.filter fun c => c.1 = f).map Prod.snd).map plain := by
  simp [List.filter_map, Function.comp_def]

@[simp]
theorem row_plain (n : Node) (f : Field) : n.plain.row f = (n.row f).map plain := by
  rw [row, subtrees_plain, filter_plain, row]

@[simp]
theorem child?_plain (n : Node) (f : Field) : n.plain.child? f = (n.child? f).map plain := by
  simp only [child?, subtrees_plain, List.find?_map, Option.map_map]
  rfl

theorem plain_block (ns : List Node) : (block ns).plain = block (ns.map plain) := by
  simp [block, plain_marked, Function.comp_def]

/-- A tree without marks is as plain as it gets. -/
theorem plain_of_marks {n : Node} (h : n.marks = []) : n.plain = n :=
  unmark_eq_self (by simp [h])

theorem plain_unmark (test : Nat → Bool) (n : Node) : (n.unmark test).plain = n.plain := by
  induction n using inductionOn with
  | marked m l cs ih =>
    rw [unmark_marked, plain_marked, plain_marked, List.map_map]
    congr 1
    exact List.map_congr_left fun c hc => by simp [ih c hc]

/-- Numbering gives numbers and changes nothing else. -/
theorem plain_number (n : Node) (next : Nat) : (n.number next).1.plain = n.plain := by
  induction n using inductionOn generalizing next with
  | marked m l cs ih =>
    rw [number_marked, plain_marked, plain_marked]
    generalize (if m.isNone then next + 1 else next) = k
    congr 1
    induction cs generalizing k with
    | nil => rfl
    | cons c cs ihcs =>
      obtain ⟨ihc,ih⟩ := List.forall_mem_cons.mp ih
      rw [numberAll_cons, List.map_cons, List.map_cons, ihc, ihcs ih]

theorem number_allMarked (n : Node) (next : Nat) : (n.number next).1.AllMarked := by
  induction n using inductionOn generalizing next with
  | marked m l cs ih =>
    rw [number_marked]
    refine allMarked_marked.mpr ⟨rfl,?_⟩
    generalize (if m.isNone then next + 1 else next) = k
    induction cs generalizing k with
    | nil => simp [numberAll]
    | cons c cs ihcs =>
      obtain ⟨ihc,ih⟩ := List.forall_mem_cons.mp ih
      rw [numberAll_cons]
      exact List.forall_mem_cons.mpr ⟨ihc k,ihcs ih _⟩

/-- Without marks before, the numbers go on one by one. -/
theorem number_marks {n : Node} (h : n.marks = []) (next : Nat) :
    (n.number next).1.marks = List.range' next n.size ∧ (n.number next).2 = next + n.size := by
  induction n using inductionOn generalizing next with
  | marked m l cs ih =>
    obtain ⟨rfl,hcs⟩ := marks_eq_nil.mp h
    have hall (k : Nat) : ((numberAll k cs).1.flatMap fun c => c.2.marks) =
        List.range' k (sizeAll cs) ∧ (numberAll k cs).2 = k + sizeAll cs := by
      clear h
      revert hcs ih
      induction cs generalizing k with
      | nil => exact fun _ _ => ⟨rfl,rfl⟩
      | cons c cs ihcs =>
        intro ih hcs
        obtain ⟨hc,hcs⟩ := List.forall_mem_cons.mp hcs
        obtain ⟨ihc,ih⟩ := List.forall_mem_cons.mp ih
        obtain ⟨hmarks,hnext⟩ := ihc hc k
        obtain ⟨hrest,hlast⟩ := ihcs (c.2.number k).2 ih hcs
        rw [numberAll_cons, List.flatMap_cons, hmarks, hrest, hlast, hnext, sizeAll]
        exact ⟨List.range'_append_1,Nat.add_assoc ..⟩
    obtain ⟨hmarks,hnext⟩ := hall (next + 1)
    rw [number_marked, marks_marked, size]
    simp only [Option.isNone_none, if_true, hmarks, hnext, Option.getD_none, Option.toList_some]
    rw [Nat.add_comm 1, List.range'_succ]
    exact ⟨rfl,by omega⟩

theorem nodup_number {n : Node} (h : n.marks = []) (next : Nat) :
    (n.number next).1.marks.Nodup := by
  rw [(number_marks h next).1]
  exact List.nodup_range'

theorem mark_mem_marks {n : Node} {k : Nat} (h : n.mark? = some k) : k ∈ n.marks := by
  obtain ⟨m,l,cs⟩ := n
  obtain rfl : m = some k := h
  simp [marks_marked]

theorem marks_at? {n a : Node} {q : Path} (h : n.at? q = some a) {k : Nat} (hk : k ∈ a.marks) :
    k ∈ n.marks := by
  induction q generalizing n with
  | nil =>
    obtain rfl := Option.some.inj h
    exact hk
  | cons i q ih =>
    obtain ⟨m,l,cs⟩ := n
    obtain ⟨c,hc,h⟩ := Option.bind_eq_some_iff.mp h
    rw [marks_marked]
    exact List.mem_append_right _ (List.mem_flatMap.mpr ⟨c,List.mem_of_getElem? hc,ih h⟩)

/-- A mark that is listed once has one place. -/
theorem eq_of_mark {n : Node} {among : Nat → Bool} (hnodup : (n.marks.filter among).Nodup)
    {p q : Path} {a b : Node} {k : Nat} (hp : n.at? p = some a) (hq : n.at? q = some b)
    (ha : a.mark? = some k) (hb : b.mark? = some k) (hk : among k = true) : p = q := by
  induction n using inductionOn generalizing p q with
  | marked m l cs ih =>
    rw [marks_marked, List.filter_append, List.filter_flatMap] at hnodup
    obtain ⟨-,hnodup,htop⟩ := List.nodup_append.mp hnodup
    obtain ⟨hall,hapart⟩ := List.nodup_flatMap.mp hnodup
    have hmem {c : Field × Node} {r : Path} {e : Node} (hr : c.2.at? r = some e)
        (he : e.mark? = some k) : k ∈ c.2.marks.filter among :=
      List.mem_filter.mpr ⟨marks_at? hr (mark_mem_marks he),hk⟩
    have hbelow {i : Nat} {r : Path} {e : Node} (hr : (marked m l cs).at? (i :: r) = some e)
        (he : e.mark? = some k) : m ≠ some k := by
      rintro rfl
      obtain ⟨c,hc,hr⟩ := Option.bind_eq_some_iff.mp hr
      refine htop k (by simpa using hk) k ?_ rfl
      exact List.mem_flatMap.mpr ⟨c,List.mem_of_getElem? hc,hmem hr he⟩
    cases p with
    | nil =>
      obtain rfl := Option.some.inj hp
      cases q with
      | nil => rfl
      | cons j q => exact absurd ha (hbelow hq hb)
    | cons i p =>
      cases q with
      | nil =>
        obtain rfl := Option.some.inj hq
        exact absurd hb (hbelow hp ha)
      | cons j q =>
        obtain ⟨c,hc,hp⟩ := Option.bind_eq_some_iff.mp hp
        obtain ⟨d,hd,hq⟩ := Option.bind_eq_some_iff.mp hq
        obtain ⟨hi,rfl⟩ := List.getElem?_eq_some_iff.mp hc
        obtain ⟨hj,rfl⟩ := List.getElem?_eq_some_iff.mp hd
        have hne := List.pairwise_iff_getElem.mp hapart
        rcases Nat.lt_trichotomy i j with hlt | rfl | hlt
        · exact absurd (hmem hq hb) fun h => hne i j hi hj hlt (hmem hp ha) h
        · exact congrArg _ (ih _ (List.getElem_mem hi) (hall _ (List.getElem_mem hi)) hp hq)
        · exact absurd (hmem hp ha) fun h => hne j i hj hi hlt (hmem hq hb) h

theorem size_le_sizeAll {cs : List (Field × Node)} {c : Field × Node} (h : c ∈ cs) :
    c.2.size ≤ sizeAll cs := by
  induction cs with
  | nil => cases h
  | cons d cs ih =>
    rw [sizeAll]
    rcases List.mem_cons.mp h with rfl | h
    · omega
    · have := ih h
      omega

end Node

/-- The context without marks. -/
def Context.plain (ctx : Context) : Context := { ctx with earlier := ctx.earlier.map Node.plain }

def Replacement.plain : Replacement → Replacement
  | .node n => .node n.plain
  | .statements ns => .statements (ns.map Node.plain)
  | .nothing => .nothing

/-- The outcome of a visit without marks. -/
def Visit.plain (v : Visit) : Visit := ⟨v.kept.plain,v.replaced.map Replacement.plain,v.count⟩

/-- A rule that leaves every node as it is or puts statements from inside it in its place, and that
does not look at marks. -/
structure Rule.Selects (r : Rule) : Prop where
  early : ∀ n, r.early n = none
  kept : ∀ ctx n, (r.finish ctx n).kept = n
  replaced : ∀ ctx n, (r.finish ctx n).replaced = none ∨
    ∃ ss, (r.finish ctx n).replaced = some (.statements ss) ∧ ∀ s ∈ ss, ∃ q, n.at? q = some s
  plain : ∀ ctx n, r.finish ctx.plain n.plain = (r.finish ctx n).plain

namespace Repeats
variable {s s' : Repeats}

/-- At every place of a tree a visit meets what stands there. -/
def Upholds (s : Repeats) (n : Node) : Prop := ∀ q a, n.at? q = some a → s.latest a = a

/-- What is up to date everywhere stays as it is when brought up to date. -/
theorem Upholds.refresh {n : Node} (h : s.Upholds n) (fuel : Nat) : s.refresh fuel n = n := by
  induction fuel generalizing n with
  | zero => rw [Repeats.refresh]
  | succ fuel ih =>
    rw [Repeats.refresh, h [] n rfl]
    obtain ⟨m,l,cs⟩ := n
    have hall : s.refreshAll fuel cs = cs := by
      rw [refreshAll]
      refine (List.map_congr_left fun c hc => ?_).trans (List.map_id cs)
      obtain ⟨i,hi⟩ := List.mem_iff_getElem?.mp hc
      have hc : s.Upholds c.2 := fun q a ha => h (i :: q) a (by rw [Node.at?_cons, hi]; exact ha)
      simp only [ih hc, id]
    simp only [Node.subtrees, hall]
    rfl

/-- What is held for the marks of a tree, if anything, is what stands there. -/
def Settled (s : Repeats) (n : Node) : Prop :=
  n.AllMarked ∧ ∀ q a, n.at? q = some a → s.latest a = a

theorem settled_marked {m : Option Nat} {l : Label} {cs : List (Field × Node)} :
    s.Settled (.marked m l cs) ↔
      (m.isSome ∧ s.latest (.marked m l cs) = .marked m l cs) ∧ ∀ c ∈ cs, s.Settled c.2 := by
  constructor
  · rintro ⟨hmarked,hlatest⟩
    obtain ⟨hm,hcs⟩ := Node.allMarked_marked.mp hmarked
    refine ⟨⟨hm,hlatest [] _ rfl⟩,fun c hc => ⟨hcs c hc,fun q a ha => ?_⟩⟩
    obtain ⟨i,hi⟩ := List.mem_iff_getElem?.mp hc
    refine hlatest (i :: q) a ?_
    rw [Node.at?_cons, hi]
    exact ha
  · rintro ⟨⟨hm,htop⟩,hcs⟩
    refine ⟨Node.allMarked_marked.mpr ⟨hm,fun c hc => (hcs c hc).1⟩,fun q a ha => ?_⟩
    cases q with
    | nil =>
      obtain rfl := Option.some.inj ha
      exact htop
    | cons i q =>
      obtain ⟨c,hc,ha⟩ := Option.bind_eq_some_iff.mp ha
      exact (hcs c (List.mem_of_getElem? hc)).2 q a ha

theorem Settled.at? {n a : Node} {p : Path} (h : s.Settled n) (hp : n.at? p = some a) :
    s.Settled a := by
  constructor
  · intro q b hb
    exact h.1 (p ++ q) b (by rw [Node.at?_append, hp]; exact hb)
  · intro q b hb
    exact h.2 (p ++ q) b (by rw [Node.at?_append, hp]; exact hb)

theorem latest_congr {n : Node}
    (h : ∀ k ∈ n.marks, s'.current.getD k none = s.current.getD k none) :
    s'.latest n = s.latest n := by
  unfold latest
  split
  · rfl
  · rename_i k hk
    rw [h k (Node.mark_mem_marks hk)]

/-- Nothing is unsettled by what happens to other marks. -/
theorem Settled.congr {n : Node} (h : s.Settled n)
    (hs : ∀ k ∈ n.marks, s'.current.getD k none = s.current.getD k none) : s'.Settled n := by
  refine ⟨h.1,fun q a ha => ?_⟩
  rw [latest_congr fun k hk => hs k (Node.marks_at? ha hk)]
  exact h.2 q a ha

theorem latest_of_none {n : Node} {k : Nat} (hk : n.mark? = some k)
    (h : s.current.getD k none = none) : s.latest n = n := by
  simp [latest, hk, h]

/-- What is settled is up to date everywhere. -/
theorem Settled.refresh {n : Node} (h : s.Settled n) (fuel : Nat) : s.refresh fuel n = n :=
  Upholds.refresh h.2 fuel

/-- What visits to nodes of given marks do to what is held: they change it for these marks, and
may bring new marks in. -/
structure Leads (ks : List Nat) (s s' : Repeats) : Prop where
  size : s.current.size ≤ s'.current.size
  others : ∀ k, k ∉ ks → s'.current.getD k none = s.current.getD k none

theorem Leads.refl (s : Repeats) : s.Leads [] s := ⟨Nat.le_refl _,fun _ _ => rfl⟩

theorem Leads.mono {ks ks' : List Nat} (h : Leads ks s s') (hks : ∀ k ∈ ks, k ∈ ks') :
    Leads ks' s s' := ⟨h.size,fun k hk => h.others k fun hmem => hk (hks k hmem)⟩

theorem Leads.trans {s'' : Repeats} {ks ks' : List Nat} (h : Leads ks s s') (h' : Leads ks' s' s'') :
    Leads (ks ++ ks') s s'' := by
  refine ⟨Nat.le_trans h.size h'.size,fun k hk => ?_⟩
  obtain ⟨hk,hk'⟩ := not_or.mp (fun h => hk (List.mem_append.mpr h))
  rw [h'.others k hk', h.others k hk]

/-- No visit has come to these nodes: nothing is held for their marks. -/
structure Unvisited (s : Repeats) (n : Node) : Prop where
  marked : n.AllMarked
  held : ∀ k ∈ n.marks, k < s.current.size ∧ s.current.getD k none = none

/-- Before the first visit. -/
theorem unvisited_ofTree {n : Node} (h : n.AllMarked) : (ofTree n).Unvisited n := by
  refine ⟨h,fun k hk => ⟨?_,getD_ofTree n k⟩⟩
  rw [size_ofTree]
  exact Node.lt_nextMark hk

theorem Unvisited.settled {n : Node} (h : s.Unvisited n) : s.Settled n := by
  refine ⟨h.marked,fun q a ha => ?_⟩
  obtain ⟨k,hk⟩ := Option.isSome_iff_exists.mp (h.marked q a ha)
  exact latest_of_none hk (h.held k (Node.marks_at? ha (Node.mark_mem_marks hk))).2

theorem Unvisited.subtree {m : Option Nat} {l : Label} {cs : List (Field × Node)}
    (h : s.Unvisited (.marked m l cs)) {c : Field × Node} (hc : c ∈ cs) : s.Unvisited c.2 := by
  refine ⟨(Node.allMarked_marked.mp h.marked).2 c hc,fun k hk => h.held k ?_⟩
  rw [Node.marks_marked]
  exact List.mem_append_right _ (List.mem_flatMap.mpr ⟨c,hc,hk⟩)

theorem Unvisited.leads {n : Node} {ks : List Nat} (h : s.Unvisited n) (hs : Leads ks s s')
    (hdisjoint : ∀ k ∈ n.marks, k ∉ ks) : s'.Unvisited n := by
  refine ⟨h.marked,fun k hk => ?_⟩
  obtain ⟨hlt,hnone⟩ := h.held k hk
  exact ⟨Nat.lt_of_lt_of_le hlt hs.size,by rw [hs.others k (hdisjoint k hk), hnone]⟩

/-- What comes of nodes of given marks: it is settled, and its marks are among these or new. -/
structure Comes (s : Repeats) (ks : List Nat) (base : Nat) (n : Node) : Prop where
  settled : s.Settled n
  marks : ∀ k ∈ n.marks, k ∈ ks ∨ base ≤ k ∧ k < s.current.size

variable {ks ks' : List Nat} {base : Nat}

theorem Unvisited.comes {n : Node} (h : s.Unvisited n) : s.Comes n.marks base n :=
  ⟨h.settled,fun _ hk => .inl hk⟩

theorem Comes.mono {n : Node} (h : s.Comes ks base n) (hks : ∀ k ∈ ks, k ∈ ks') :
    s.Comes ks' base n := ⟨h.settled,fun k hk => (h.marks k hk).imp_left (hks k)⟩

theorem Comes.at? {n a : Node} {q : Path} (h : s.Comes ks base n) (ha : n.at? q = some a) :
    s.Comes ks base a := ⟨h.settled.at? ha,fun k hk => h.marks k (Node.marks_at? ha hk)⟩

/-- Later visits to other nodes, all of them old, leave it as it is. -/
theorem Comes.leads {n : Node} (h : s.Comes ks base n) (hs : Leads ks' s s')
    (hdisjoint : ∀ k ∈ ks, k ∉ ks') (hbelow : ∀ k ∈ ks', k < base) : s'.Comes ks base n := by
  refine ⟨h.settled.congr fun k hk => hs.others k fun hmem => ?_,fun k hk => ?_⟩
  · rcases h.marks k hk with hk | ⟨hge,-⟩
    · exact hdisjoint k hk hmem
    · have := hbelow k hmem
      omega
  · rcases h.marks k hk with hk | ⟨hge,hlt⟩
    · exact .inl hk
    · exact .inr ⟨hge,Nat.lt_of_lt_of_le hlt hs.size⟩

/-- What stands in a slot afterwards: it came of nodes of given marks, or is a new block of such
statements. -/
def Fills (s : Repeats) (ks : List Nat) (base : Nat) (n : Node) : Prop :=
  s.Comes ks base n ∨ ∃ ss, n = .block ss ∧ ∀ c ∈ ss, s.Comes ks base c

theorem Fills.mono {n : Node} (h : s.Fills ks base n) (hks : ∀ k ∈ ks, k ∈ ks') :
    s.Fills ks' base n := by
  rcases h with h | ⟨ss,rfl,h⟩
  · exact .inl (h.mono hks)
  · exact .inr ⟨ss,rfl,fun c hc => (h c hc).mono hks⟩

theorem Fills.leads {n : Node} (h : s.Fills ks base n) (hs : Leads ks' s s')
    (hdisjoint : ∀ k ∈ ks, k ∉ ks') (hbelow : ∀ k ∈ ks', k < base) : s'.Fills ks base n := by
  rcases h with h | ⟨ss,rfl,h⟩
  · exact .inl (h.leads hs hdisjoint hbelow)
  · exact .inr ⟨ss,rfl,fun c hc => (h c hc).leads hs hdisjoint hbelow⟩

/-- Subtrees that no visit has come to. Their marks are different ones below a bound. -/
structure Fresh (s : Repeats) (base fuel : Nat) (cs : List (Field × Node)) : Prop where
  unvisited : ∀ c ∈ cs, s.Unvisited c.2
  nodup : (cs.flatMap fun c => c.2.marks).Nodup
  size : ∀ c ∈ cs, c.2.size ≤ fuel
  free : base ≤ s.current.size
  below : ∀ c ∈ cs, ∀ k ∈ c.2.marks, k < base

namespace Fresh
variable {fuel : Nat} {cs : List (Field × Node)} {c : Field × Node}

private theorem nodup_cons (h : s.Fresh base fuel (c :: cs)) :
    c.2.marks.Nodup ∧ (cs.flatMap fun c => c.2.marks).Nodup ∧
      ∀ k ∈ c.2.marks, ∀ j ∈ cs.flatMap fun c => c.2.marks, k ≠ j := by
  have hnodup := h.nodup
  rw [List.flatMap_cons] at hnodup
  exact List.nodup_append.mp hnodup

theorem head (h : s.Fresh base fuel (c :: cs)) : s.Unvisited c.2 ∧ c.2.marks.Nodup ∧
    c.2.size ≤ fuel ∧ ∀ k ∈ c.2.marks, k < base :=
  ⟨h.unvisited c List.mem_cons_self,h.nodup_cons.1,h.size c List.mem_cons_self,
    h.below c List.mem_cons_self⟩

theorem apart (h : s.Fresh base fuel (c :: cs)) {d : Field × Node} (hd : d ∈ cs) {k : Nat}
    (hk : k ∈ d.2.marks) : k ∉ c.2.marks :=
  fun hmem => h.nodup_cons.2.2 k hmem k (List.mem_flatMap.mpr ⟨d,hd,hk⟩) rfl

theorem mark_ne (h : s.Fresh base fuel (c :: cs)) {d : Field × Node} (hd : d ∈ cs) :
    c.2.mark? ≠ d.2.mark? := by
  intro heq
  obtain ⟨k,hk⟩ := Option.isSome_iff_exists.mp ((h.unvisited c List.mem_cons_self).marked [] c.2 rfl)
  exact h.apart hd (Node.mark_mem_marks (heq.symm.trans hk)) (Node.mark_mem_marks hk)

/-- The later subtrees are still as they were once the first one is done. -/
theorem tail (h : s.Fresh base fuel (c :: cs)) (hs : Leads c.2.marks s s') :
    s'.Fresh base fuel cs where
  unvisited d hd := (h.unvisited d (List.mem_cons_of_mem _ hd)).leads hs fun _ => h.apart hd
  nodup := h.nodup_cons.2.1
  size d hd := h.size d (List.mem_cons_of_mem _ hd)
  free := Nat.le_trans h.free hs.size
  below d hd := h.below d (List.mem_cons_of_mem _ hd)

/-- What comes in the place of the first subtree stays there while the others are visited. -/
theorem fills_append (h : s.Fresh base fuel (c :: cs)) {s'' : Repeats}
    {here more : List (Field × Node)} (hhere : ∀ d ∈ here, s'.Fills c.2.marks base d.2)
    (hmore : ∀ d ∈ more, s''.Fills (cs.flatMap fun c => c.2.marks) base d.2)
    (hleads : Leads (cs.flatMap fun c => c.2.marks) s' s'') :
    ∀ d ∈ here ++ more, s''.Fills ((c :: cs).flatMap fun c => c.2.marks) base d.2 := by
  have hapart : ∀ k ∈ c.2.marks, k ∉ cs.flatMap fun c => c.2.marks :=
    fun k hk hmem => h.nodup_cons.2.2 k hk k hmem rfl
  have hlater : ∀ k ∈ cs.flatMap fun c => c.2.marks, k < base := by
    intro k hk
    obtain ⟨d,hd,hk⟩ := List.mem_flatMap.mp hk
    exact h.below d (List.mem_cons_of_mem _ hd) k hk
  rw [List.flatMap_cons]
  refine List.forall_mem_append.mpr ⟨fun d hd => ?_,fun d hd => ?_⟩
  · refine ((hhere d hd).leads hleads hapart hlater).mono fun k hk => ?_
    exact List.mem_append_left _ hk
  · exact (hmore d hd).mono fun k hk => List.mem_append_right _ hk

end Fresh

/-- The subtrees of a node that no visit has come to. -/
theorem Unvisited.fresh {k fuel : Nat} {l : Label} {cs : List (Field × Node)}
    (h : s.Unvisited (.marked (some k) l cs)) (hnodup : (Node.marked (some k) l cs).marks.Nodup)
    (hsize : (Node.marked (some k) l cs).size ≤ fuel + 1) (hbase : base ≤ s.current.size)
    (hbelow : ∀ j ∈ (Node.marked (some k) l cs).marks, j < base) :
    k < base ∧ (k ∉ cs.flatMap fun c => c.2.marks) ∧ s.Fresh base fuel cs := by
  rw [Node.marks_marked, Option.toList_some, List.singleton_append] at hnodup hbelow
  obtain ⟨hk,hnodup⟩ := List.nodup_cons.mp hnodup
  obtain ⟨hkb,hbelow⟩ := List.forall_mem_cons.mp hbelow
  rw [Node.size] at hsize
  exact ⟨hkb,hk,fun c hc => h.subtree hc,hnodup,
    fun c hc => Nat.le_trans (Node.size_le_sizeAll hc) (by omega),hbase,
    fun c hc j hj => hbelow j (List.mem_flatMap.mpr ⟨c,hc,hj⟩)⟩

/-- A new block takes the next number; everything else is numbered already. -/
private theorem number_fills {n : Node} (h : s.Fills ks base n) (hbase : base ≤ s.current.size)
    {next : Nat} (hnext : s.current.size ≤ next) :
    next ≤ (n.number next).2 ∧ s.Settled (n.number next).1 ∧
      ∀ k ∈ (n.number next).1.marks, k ∈ ks ∨ base ≤ k ∧ k < (n.number next).2 := by
  rcases h with h | ⟨ss,rfl,h⟩
  · rw [h.settled.1.number]
    refine ⟨Nat.le_refl _,h.settled,fun k hk => (h.marks k hk).imp_right fun hk => ?_⟩
    exact ⟨hk.1,Nat.lt_of_lt_of_le hk.2 hnext⟩
  · have hbody : ∀ c ∈ ss.map fun s => (Field.body, s), s.Comes ks base c.2 := by
      simpa using h
    have hnumber : (Node.block ss).number next =
        (.marked (some next) .blockStatement (ss.map fun s => (.body, s)), next + 1) := by
      rw [Node.block, Node.number_marked]
      simp [Node.AllMarked.numberAll fun c hc => (hbody c hc).settled.1]
    rw [hnumber]
    refine ⟨Nat.le_succ _,settled_marked.mpr ⟨⟨rfl,?_⟩,fun c hc => (hbody c hc).settled⟩,?_⟩
    · refine latest_of_none rfl ?_
      simp [Array.getD_eq_getD_getElem?, Array.getElem?_eq_none hnext]
    · intro k hk
      rw [Node.marks_marked] at hk
      rcases List.mem_append.mp hk with hk | hk
      · obtain rfl := by simpa using hk
        exact .inr ⟨Nat.le_trans hbase hnext,Nat.lt_succ_self _⟩
      · obtain ⟨c,hc,hk⟩ := List.mem_flatMap.mp hk
        refine ((hbody c hc).marks k hk).imp_right fun hk => ⟨hk.1,?_⟩
        have := hk.2
        omega

private theorem numberAll_fills {cs : List (Field × Node)} (h : ∀ c ∈ cs, s.Fills ks base c.2)
    (hbase : base ≤ s.current.size) {next : Nat} (hnext : s.current.size ≤ next) :
    next ≤ (Node.numberAll next cs).2 ∧
      (Node.numberAll next cs).1.map (fun c => (c.1, c.2.plain)) =
        cs.map (fun c => (c.1, c.2.plain)) ∧
      ∀ c ∈ (Node.numberAll next cs).1, s.Settled c.2 ∧
        ∀ k ∈ c.2.marks, k ∈ ks ∨ base ≤ k ∧ k < (Node.numberAll next cs).2 := by
  induction cs generalizing next with
  | nil => exact ⟨Nat.le_refl _,rfl,by simp [Node.numberAll]⟩
  | cons c cs ih =>
    obtain ⟨hc,hcs⟩ := List.forall_mem_cons.mp h
    obtain ⟨hle,hsettled,hmarks⟩ := number_fills hc hbase hnext
    obtain ⟨hle',hplain,hrest⟩ := ih hcs (Nat.le_trans hnext hle)
    rw [Node.numberAll_cons]
    refine ⟨Nat.le_trans hle hle',?_,List.forall_mem_cons.mpr ⟨⟨hsettled,fun k hk => ?_⟩,hrest⟩⟩
    · simp only [List.map_cons, Node.plain_number, hplain]
    · exact (hmarks k hk).imp_right fun hk => ⟨hk.1,Nat.lt_of_lt_of_le hk.2 hle'⟩

/-- Among the subtrees of a marked node the new blocks take new marks. -/
theorem claim_fills {n : Node} (hm : n.mark?.isSome) {cs : List (Field × Node)}
    (h : ∀ c ∈ cs, s.Fills ks base c.2) (hbase : base ≤ s.current.size) :
    Leads [] s (s.claim n cs).2 ∧
      (s.claim n cs).1.map (fun c => (c.1, c.2.plain)) = cs.map (fun c => (c.1, c.2.plain)) ∧
        ∀ c ∈ (s.claim n cs).1, (s.claim n cs).2.Comes ks base c.2 := by
  obtain ⟨hle,hplain,hcs⟩ := numberAll_fills h hbase (Nat.le_refl s.current.size)
  obtain ⟨k,hk⟩ := Option.isSome_iff_exists.mp hm
  simp only [claim, hk, Option.isNone_some, Bool.false_eq_true, if_false]
  generalize Node.numberAll s.current.size cs = numbered at hle hplain hcs
  have hgetD (k : Nat) := getD_append_replicate s.current k (numbered.2 - s.current.size)
  refine ⟨⟨by simp,fun k _ => hgetD k⟩,hplain,fun c hc => ?_⟩
  obtain ⟨hsettled,hmarks⟩ := hcs c hc
  refine ⟨hsettled.congr fun k _ => hgetD k,fun k hk => (hmarks k hk).imp_right fun hk => ?_⟩
  refine ⟨hk.1,?_⟩
  simp only [Array.size_append, Array.size_replicate]
  omega

/-- The node that a visit leaves is held for its mark from then on. -/
theorem note_comes {k : Nat} {l : Label} {cs : List (Field × Node)} (hk : k < s.current.size)
    (hcs : ∀ c ∈ cs, s.Comes ks base c.2) (hnew : k ∉ ks) (hold : k < base) :
    (s.note (.marked (some k) l cs)).1 = .marked (some k) l cs ∧
      Leads [k] s (s.note (.marked (some k) l cs)).2 ∧
        (s.note (.marked (some k) l cs)).2.Comes (k :: ks) base (.marked (some k) l cs) := by
  have hclaim : s.claim (.marked (some k) l cs) cs = (cs, s) :=
    claim_eq_self fun _ c hc => (hcs c hc).settled.1
  simp only [note, Node.mark?, Node.subtrees, Node.label, Node.update, hclaim, true_and]
  have hsize (n : Node) : (s.current.set! k (some n)).size = s.current.size := by simp
  have hother (n : Node) (j : Nat) (hj : j ≠ k) :
      (s.current.set! k (some n)).getD j none = s.current.getD j none := by
    rcases getD_set! s.current j k (some n) with ⟨-,rfl⟩ | h
    · exact absurd rfl hj
    · exact h
  refine ⟨⟨(hsize _).ge,fun j hj => hother _ j (by simpa using hj)⟩,
    settled_marked.mpr ⟨⟨rfl,?_⟩,fun c hc => ?_⟩,fun j hj => ?_⟩
  · simp [latest, Node.mark?, Array.getD_eq_getD_getElem?, hk]
  · refine (hcs c hc).settled.congr fun j hj => hother _ j ?_
    rintro rfl
    rcases (hcs c hc).marks j hj with h | h
    · exact hnew h
    · omega
  · rw [Node.marks_marked] at hj
    rcases List.mem_append.mp hj with hj | hj
    · obtain rfl := by simpa using hj
      exact .inl (by simp)
    · obtain ⟨c,hc,hj⟩ := List.mem_flatMap.mp hj
      rw [hsize]
      exact ((hcs c hc).marks j hj).imp_left (List.mem_cons_of_mem _)

end Repeats

namespace Rule

/-- Marks do not matter to how a replacement fits into a slot. -/
theorem place_plain (l : Label) (f : Field) (n : Node) (v : Visit) :
    (place l f n v.result).map (fun c => (c.1, c.2.plain)) = place l f n.plain v.plain.result := by
  obtain ⟨kept,replaced,k⟩ := v
  match replaced with
  | none => rfl
  | some (.node c) => rfl
  | some (.statements ss) =>
    simp only [Visit.result, Visit.plain, Replacement.plain, Option.map_some, Option.getD_some, place]
    split
    · simp
    · simp [Node.plain_block]
  | some .nothing =>
    have hempty : Node.empty.plain = Node.empty := Node.plain_of_marks rfl
    simp only [Visit.result, Visit.plain, Replacement.plain, Option.map_some, Option.getD_some, place,
      Node.isStatement_plain]
    split
    · rfl
    · rw [apply_ite (List.map _), List.map_singleton, List.map_nil, hempty]

/-- Where no two nodes have one mark, all members before a node count as such. -/
theorem membersBefore_eq {before : List (Field × Node)} {f : Field} {n : Node}
    (h : ∀ b ∈ before, b.2.mark? ≠ n.mark?) :
    membersBefore before f n = (before.filter fun c => c.1 = f).map Prod.snd := by
  refine List.takeWhile_eq_self_iff.mpr fun b hb => ?_
  obtain ⟨c,hc,rfl⟩ := List.mem_map.mp hb
  simp [h c (List.mem_filter.mp hc).1]

namespace Selects
variable {r : Rule} (hr : r.Selects) {base : Nat}

/-- What the visit of a node without marks, and the one with marks, have in common. -/
structure Agrees (r : Rule) (base : Nat) (ctx : Context) (n : Node) (s : Repeats) (v : Visit)
    (s' : Repeats) : Prop where
  plain : v.plain = r.visit ctx.plain n.plain
  leads : Repeats.Leads n.marks s s'
  kept : s'.Comes n.marks base v.kept
  replaced : v.replaced = none ∨
    ∃ ss, v.replaced = some (.statements ss) ∧ ∀ c ∈ ss, s'.Comes n.marks base c

theorem Agrees.fills {ctx : Context} {n : Node} {s s' : Repeats} {v : Visit}
    (h : Agrees r base ctx n s v s') (l : Label) (f : Field) :
    ∀ c ∈ place l f n v.result, s'.Fills n.marks base c.2 := by
  rcases h.replaced with hnone | ⟨ss,hss,hcomes⟩
  · simp only [Visit.result, hnone, Option.getD_none, place, List.mem_singleton, forall_eq]
    exact .inl h.kept
  · simp only [Visit.result, hss, Option.getD_some, place]
    split
    · simp only [List.mem_map]
      rintro _ ⟨c,hc,rfl⟩
      exact .inl (hcomes c hc)
    · simp only [List.mem_singleton, forall_eq]
      exact .inr ⟨ss,rfl,hcomes⟩

private theorem visitAllRepeated {fuel : Nat} {l : Label}
    (hvisit : ∀ ctx (n : Node) (s : Repeats), s.Unvisited n → n.marks.Nodup → n.size ≤ fuel →
      base ≤ s.current.size → (∀ k ∈ n.marks, k < base) →
        Agrees r base ctx n s (r.visitRepeated fuel ctx n s).1 (r.visitRepeated fuel ctx n s).2)
    (before : List (Field × Node)) {cs : List (Field × Node)} {s : Repeats}
    (h : s.Fresh base fuel cs) (hbefore : ∀ b ∈ before, ∀ c ∈ cs, b.2.mark? ≠ c.2.mark?) :
    let done := r.visitAllRepeated fuel l before cs s
    (done.1.1.map fun c => (c.1, c.2.plain), done.1.2) =
        r.visitAll l (before.map fun c => (c.1, c.2.plain)) (cs.map fun c => (c.1, c.2.plain)) ∧
      Repeats.Leads (cs.flatMap fun c => c.2.marks) s done.2 ∧
        ∀ c ∈ done.1.1, done.2.Fills (cs.flatMap fun c => c.2.marks) base c.2 := by
  induction cs generalizing before s with
  | nil =>
    simp only [visitAllRepeated_nil]
    exact ⟨rfl,.refl s,by simp⟩
  | cons c cs ih =>
    obtain ⟨f,n⟩ := c
    obtain ⟨hn,hnn,hsn,hbn⟩ := h.head
    have hbefore' : ∀ b ∈ before ++ [(f, n)], ∀ c ∈ cs, b.2.mark? ≠ c.2.mark? :=
      List.forall_mem_append.mpr ⟨fun b hb c hc => hbefore b hb c (List.mem_cons_of_mem _ hc),
        List.forall_mem_singleton.mpr fun c hc => h.mark_ne hc⟩
    cases hhole : n.isHole
    case true =>
      have hself : Repeats.Leads n.marks s s := ⟨Nat.le_refl _,fun _ _ => rfl⟩
      obtain ⟨hplain,hleads,hfills⟩ := ih _ (h.tail hself) hbefore'
      simp only [visitAllRepeated_hole _ _ _ _ _ hhole, List.map_cons, visitAll_cons,
        Node.isHole_plain, hhole, if_true]
      simp only [List.map_append, List.map_cons, List.map_nil] at hplain ⊢
      rw [← hplain]
      refine ⟨rfl,hself.trans hleads,h.fills_append ?_ hfills hleads⟩
      exact List.forall_mem_singleton.mpr (.inl hn.comes)
    case false =>
      simp only [visitAllRepeated_node _ _ _ _ _ hhole, List.map_cons, visitAll_cons,
        Node.isHole_plain, hhole, Bool.false_eq_true, if_false]
      have hv := hvisit ⟨some l,f,membersBefore before f n⟩ n s hn hnn hsn h.free hbn
      generalize r.visitRepeated fuel ⟨some l,f,membersBefore before f n⟩ n s = v at hv
      obtain ⟨hplain,hleads,hfills⟩ := ih _ (h.tail hv.leads) hbefore'
      have hctx : Context.plain ⟨some l,f,membersBefore before f n⟩ = ⟨some l,f,
          ((before.map fun c => (c.1, c.2.plain)).filter fun c => c.1 = f).map Prod.snd⟩ := by
        rw [Context.plain, membersBefore_eq fun b hb => hbefore b hb (f, n) List.mem_cons_self,
          Node.filter_plain]
      have hvisited := hv.plain
      rw [hctx] at hvisited
      simp only [List.map_append, List.map_cons, List.map_nil] at hplain ⊢
      rw [← hplain, ← hvisited, place_plain]
      exact ⟨rfl,hv.leads.trans hleads,h.fills_append (hv.fills l f) hfills hleads⟩

include hr

/-- A visit of freshly numbered nodes makes of them what a visit without numbers makes. -/
theorem visitRepeated {fuel : Nat} (ctx : Context) {n : Node} {s : Repeats} (hn : s.Unvisited n)
    (hnodup : n.marks.Nodup) (hfuel : n.size ≤ fuel) (hbase : base ≤ s.current.size)
    (hbelow : ∀ k ∈ n.marks, k < base) :
    Agrees r base ctx n s (r.visitRepeated fuel ctx n s).1 (r.visitRepeated fuel ctx n s).2 := by
  induction fuel generalizing ctx n s with
  | zero =>
    obtain ⟨m,l,cs⟩ := n
    rw [Node.size] at hfuel
    omega
  | succ fuel ih =>
    obtain ⟨m,l,cs⟩ := n
    obtain ⟨hm,-⟩ := Node.allMarked_marked.mp hn.marked
    obtain ⟨k,rfl⟩ := Option.isSome_iff_exists.mp hm
    have hlatest := hn.settled.2 [] _ rfl
    rw [visitRepeated_finish (hr.early _), hlatest]
    obtain ⟨hkb,hk,hfresh⟩ := hn.fresh hnodup hfuel hbase hbelow
    have hall := visitAllRepeated (l := l) (fun ctx n s => ih ctx) []
      hfresh (by simp)
    simp only [Node.label, Node.subtrees]
    generalize r.visitAllRepeated fuel l [] cs s = visited at hall
    obtain ⟨hplain,hleads,hfills⟩ := hall
    have hbase₁ := Nat.le_trans hbase hleads.size
    obtain ⟨hleads₁,hplain₁,hcomes⟩ :=
      Repeats.claim_fills (n := .marked (some k) l cs) rfl hfills hbase₁
    generalize visited.2.claim (.marked (some k) l cs) visited.1.1 = claimed at hleads₁ hplain₁ hcomes
    have hsize : k < claimed.2.current.size := by
      have := hleads₁.size
      omega
    obtain ⟨hnoted,hleads₂,hkept⟩ := Repeats.note_comes (l := l) hsize hcomes hk hkb
    simp only [Node.update, Node.mark?, hr.kept, hnoted]
    have hmarks : (Node.marked (some k) l cs).marks = k :: cs.flatMap fun c => c.2.marks := by
      simp [Node.marks_marked]
    rw [← hmarks] at hkept
    refine ⟨?_,?_,hkept,?_⟩
    · rw [Node.plain_marked, Rule.visit, hr.early]
      simp only [List.map_nil] at hplain
      rw [← hplain]
      have hfinish := hr.plain ctx (.marked (some k) l claimed.1)
      rw [Node.plain_marked, hplain₁] at hfinish
      simp only [hfinish, Visit.plain, hr.kept]
    · rw [hmarks]
      refine ((hleads.trans hleads₁).trans hleads₂).mono fun j hj => ?_
      simpa [or_comm] using hj
    · rcases hr.replaced ctx (.marked (some k) l claimed.1) with hnone | ⟨ss,hss,hinside⟩
      · exact .inl hnone
      · refine .inr ⟨ss,hss,fun c hc => ?_⟩
        obtain ⟨q,hq⟩ := hinside c hc
        exact hkept.at? hq

/-- A run over a tree that is numbered first comes to what a run over the tree itself comes to. -/
theorem runRepeated_number {tree : Node} (h : tree.marks = []) :
    (r.runRepeated (tree.number tree.nextMark).1).1.plain = (r.runOnce tree).1 ∧
      (r.runRepeated (tree.number tree.nextMark).1).2 = (r.runOnce tree).2 := by
  have hplain := (Node.plain_number tree tree.nextMark).trans (Node.plain_of_marks h)
  have hmarked := Node.number_allMarked tree tree.nextMark
  have hnodup := Node.nodup_number h tree.nextMark
  generalize (tree.number tree.nextMark).1 = n at hplain hmarked hnodup
  have hv := hr.visitRepeated top (Repeats.unvisited_ofTree hmarked) hnodup
    (by omega : n.size ≤ 2 * n.size + 2) (Nat.le_of_eq (Repeats.size_ofTree n).symm)
    fun k hk => Node.lt_nextMark hk
  have hvisit : Visit.plain _ = _ := hv.plain
  rw [hplain] at hvisit
  have hrefresh := hv.kept.settled.refresh (2 * n.size + 2)
  simp only [runRepeated, runOnce, StateT.run]
  constructor
  · exact (congrArg Node.plain hrefresh).trans (congrArg Visit.kept hvisit)
  · have hcount := congrArg Visit.count hvisit
    exact hcount

end Selects
end Rule

/-! ### Changes to marks alone -/

namespace Node

/-- A change to nothing but marks, which gives none to a node that has none. -/
structure Remarks (f : Node → Node) : Prop where
  marked : ∀ m l, ∃ m', (∀ cs, f (.marked m l cs) = .marked m' l (cs.map fun c => (c.1, f c.2))) ∧
    (m = none → m' = none)

namespace Remarks
variable {f : Node → Node} (hf : Remarks f) (n : Node)
include hf

theorem subtrees : (f n).subtrees = n.subtrees.map fun c => (c.1, f c.2) := by
  obtain ⟨m,l,cs⟩ := n
  obtain ⟨m',he,-⟩ := hf.marked m l
  rw [he]
  rfl

theorem label : (f n).label = n.label := by
  obtain ⟨m,l,cs⟩ := n
  obtain ⟨m',he,-⟩ := hf.marked m l
  rw [he]
  rfl

theorem isHole : (f n).isHole = n.isHole := by simp only [Node.isHole, hf.label]

theorem isStatement : (f n).isStatement = n.isStatement := by simp only [Node.isStatement, hf.label]

omit hf in
theorem filter (cs : List (Field × Node)) (g : Field) :
    ((cs.map fun c => (c.1, f c.2)).filter fun c => c.1 = g).map Prod.snd =
      ((cs.filter fun c => c.1 = g).map Prod.snd).map f := by
  simp [List.filter_map, Function.comp_def]

theorem row (g : Field) : (f n).row g = (n.row g).map f := by
  rw [Node.row, hf.subtrees, filter, Node.row]

theorem child? (g : Field) : (f n).child? g = (n.child? g).map f := by
  simp only [Node.child?, hf.subtrees, List.find?_map, Option.map_map]
  rfl

theorem at? (q : Path) : (f n).at? q = (n.at? q).map f := by
  induction q generalizing n with
  | nil => rfl
  | cons i q ih =>
    simp only [Node.at?, hf.subtrees, List.getElem?_map]
    cases n.subtrees[i]? with
    | none => rfl
    | some c => exact ih c.2

/-- A node without a mark stays without. -/
theorem unmarked (l : Label) (cs : List (Field × Node)) :
    f (.mk l cs) = .mk l (cs.map fun c => (c.1, f c.2)) := by
  obtain ⟨m',he,hm⟩ := hf.marked none l
  obtain rfl := hm rfl
  exact he cs

theorem plain : (f n).plain = n.plain := by
  induction n using inductionOn with
  | marked m l cs ih =>
    obtain ⟨m',he,-⟩ := hf.marked m l
    rw [he, plain_marked, plain_marked, List.map_map]
    exact congrArg _ (List.map_congr_left fun c hc => by simp [ih c hc])

end Remarks

theorem plain_remarks : Remarks plain where
  marked m l := ⟨none,plain_marked m l,fun _ => rfl⟩

mutual
/-- The tree with other marks, each read off the node's kind and its old mark. -/
def remark (g : Label → Option Nat → Option Nat) : Node → Node
  | .marked m l cs => .marked (g l m) l (remarkAll g cs)
def remarkAll (g : Label → Option Nat → Option Nat) : List (Field × Node) → List (Field × Node)
  | [] => []
  | (f, n) :: rest => (f, n.remark g) :: remarkAll g rest
end

section Remark
variable (g : Label → Option Nat → Option Nat)

theorem remark_marked (m : Option Nat) (l : Label) (cs : List (Field × Node)) :
    (marked m l cs).remark g = .marked (g l m) l (cs.map fun c => (c.1, c.2.remark g)) := by
  have hall : remarkAll g cs = cs.map fun c => (c.1, c.2.remark g) := by
    induction cs with
    | nil => rfl
    | cons c cs ih => rw [remarkAll, ih, List.map_cons]
  rw [remark, hall]

theorem remark_remarks (hg : ∀ l, g l none = none) : Remarks (remark g) where
  marked m l := ⟨g l m,remark_marked g m l,by rintro rfl; exact hg l⟩

theorem mark?_remark (n : Node) : (n.remark g).mark? = g n.label n.mark? := by
  obtain ⟨m,l,cs⟩ := n
  rw [remark_marked]
  rfl

/-- Where no mark changes, nothing does. -/
theorem remark_eq_self {n : Node} (h : ∀ q a, n.at? q = some a → g a.label a.mark? = a.mark?) :
    n.remark g = n := by
  induction n using inductionOn with
  | marked m l cs ih =>
    have hm : g l m = m := h [] _ rfl
    rw [remark_marked, hm]
    congr 1
    refine (List.map_congr_left fun c hc => ?_).trans (List.map_id cs)
    obtain ⟨i,hi⟩ := List.mem_iff_getElem?.mp hc
    have hc' : c.2.remark g = c.2 := ih c hc fun q a ha => h (i :: q) a (by simp [hi, ha])
    exact congrArg (Prod.mk c.1) hc'

end Remark

end Node

/-- The context with other nodes for those before. -/
def Context.onNodes (f : Node → Node) (ctx : Context) : Context :=
  { ctx with earlier := ctx.earlier.map f }

def Replacement.onNodes (f : Node → Node) : Replacement → Replacement
  | .node n => .node (f n)
  | .statements ns => .statements (ns.map f)
  | .nothing => .nothing

def Visit.onNodes (f : Node → Node) (v : Visit) : Visit :=
  ⟨f v.kept,v.replaced.map (Replacement.onNodes f),v.count⟩

namespace Rule

/-- A rule that does not look at marks. -/
structure IgnoresMarks (r : Rule) : Prop where
  early : ∀ n, r.early n = none
  finish : ∀ {f : Node → Node}, Node.Remarks f → ∀ ctx n,
    r.finish (ctx.onNodes f) (f n) = (r.finish ctx n).onNodes f

theorem IgnoresMarks.plain {r : Rule} (hr : r.IgnoresMarks) (ctx : Context) (n : Node) :
    r.finish ctx.plain n.plain = (r.finish ctx n).plain := hr.finish Node.plain_remarks ctx n

end Rule

end Unravel
