import Unravel.Proofs.Simplify.FlatteningScope
import Unravel.Proofs.Simplify.Landings

/-! Jumps after flattened control flow was undone. The statements of the cases leave the loop and its
switch, and jumps inside them may have nowhere left to land. -/

namespace Unravel

namespace Node

/-- A node that stands in a tree after a visit stood in the one before, below nodes of which those
around it are left. New blocks did not. -/
def Traces (names : List String) (n : Node) (ks : List Nat) (after : List (Option Nat × Stop))
    (x' : Node) : Prop :=
  x'.mark? = none ∧ x'.label = .blockStatement ∨
    ∃ around x, Stands names n around x ∧ Thins ks around after ∧ x.mark? = x'.mark? ∧
      x.label = x'.label ∧ x.labelName? = x'.labelName?

/-- Every node of a tree stood in another. -/
def Brings (names : List String) (n : Node) (ks : List Nat) (d : Node) : Prop :=
  ∀ after x', Stands names d after x' → Traces names n ks after x'

section Brings
variable {names : List String} {n d x y : Node} {ks : List Nat} {a b : List (Option Nat × Stop)}

/-- What has no mark is a new block. -/
theorem Brings.new (h : Brings names n ks d) (hn : n.AllMarked) (hx : Stands names d a x)
    (hnone : x.mark? = none) : x.label = .blockStatement := by
  obtain ⟨-,hl⟩ | ⟨around,y,hy,-,hmark,-⟩ := h a x hx
  · exact hl
  · rw [← hmark] at hnone
    have hsome := hy.isMarked hn
    rw [hnone] at hsome
    cases hsome

theorem Brings.marks (h : Brings names n ks d) {k : Nat} (hk : k ∈ d.marks) : k ∈ n.marks := by
  obtain ⟨after,x',hx',hmark'⟩ := exists_stands names hk
  obtain ⟨hnone,-⟩ | ⟨around,x,hx,-,hmark,-⟩ := h after x' hx'
  · rw [hnone] at hmark'
    cases hmark'
  · exact hx.marks.1 k (mark_mem_marks (hmark.trans hmark'))

/-- Below the same number of marked nodes a mark stands, wherever it does. -/
theorem Brings.depth (h : Brings names n ks d) (hn : n.marks.Nodup) (hx : Stands names d a x)
    (hy : Stands names d b y) {k : Nat} (hxk : x.mark? = some k) (hyk : y.mark? = some k) :
    a.countP (fun s => s.1.isSome) = b.countP fun s => s.1.isSome := by
  have hbefore {c : List (Option Nat × Stop)} {z : Node} (hz : Stands names d c z)
      (hzk : z.mark? = some k) : ∃ around x, Stands names n around x ∧ Thins ks around c ∧
        x.mark? = some k := by
    obtain ⟨hnone,-⟩ | ⟨around,x,hx,hthins,hmark,-⟩ := h c z hz
    · rw [hnone] at hzk
      cases hzk
    · exact ⟨around,x,hx,hthins,hmark.trans hzk⟩
  obtain ⟨around,x₀,hx₀,hthins,hxk₀⟩ := hbefore hx hxk
  obtain ⟨around',y₀,hy₀,hthins',hyk₀⟩ := hbefore hy hyk
  obtain rfl := hx₀.unique hn hy₀ hxk₀ hyk₀
  rw [List.countP_eq_length_filter, List.countP_eq_length_filter, hthins.left, hthins'.left]

/-- A jump has somewhere to land in a visited tree exactly if something is left that it might land at
before. -/
private theorem Brings.landings_iff {n' : Node} (h : Brings [] n n'.marks n') (hn : n.marks.Nodup)
    {q q' : Path} (hx : n.at? q = some x) (hy : n'.at? q' = some y) {k : Nat}
    (hxk : x.mark? = some k) (hyk : y.mark? = some k) : x.label = y.label ∧
      (y.landings (n'.stops [] [] q') ≠ [] ↔
        ∃ a ∈ x.landings (n.stops [] [] q), ∃ p', n.Stays n' a.1 p') := by
  have hstands : Stands [] n _ x := stands_iff_at.mpr ⟨q,hx,rfl⟩
  have hstands' : Stands [] n' _ y := stands_iff_at.mpr ⟨q',hy,rfl⟩
  obtain ⟨hnone,-⟩ | ⟨around,z,hz,hthins,hmark,hl,hname⟩ := h _ y hstands'
  · rw [hnone] at hyk
    cases hyk
  -- The node that stood there before is the one with the mark.
  obtain rfl := hstands.unique hn hz hxk (hmark.trans hyk)
  obtain ⟨r,hr,-⟩ := stands_iff_at.mp hz
  obtain rfl := markAt_inj hn (p := q) (q := r) (k := k) (by rw [markAt, hx]; exact hxk)
    (by rw [markAt, hr]; exact hmark.trans hyk)
  obtain rfl := Option.some.inj (hx.symm.trans hr)
  have hlands := hthins.landings y
  rw [landings_map, ne_eq, List.map_eq_nil_iff, ← ne_eq] at hlands
  refine ⟨hl,hlands.trans ?_⟩
  rw [← landings_congr hl hname, landings_map]
  constructor
  · rintro ⟨s,hs,hleft⟩
    obtain ⟨a,ha,rfl⟩ := List.mem_map.mp hs
    exact ⟨a,ha,exists_stays_iff.mpr (Thins.isLeft_iff.mp hleft)⟩
  · rintro ⟨a,ha,hstays⟩
    exact ⟨_,List.mem_map_of_mem ha,Thins.isLeft_iff.mpr (exists_stays_iff.mp hstays)⟩

theorem Brings.jumpsLegal_iff {n' : Node} (h : Brings [] n n'.marks n') (hm : n.AllMarked)
    (hn : n.marks.Nodup) : n'.JumpsLegal ↔ ∀ q c, n.at? q = some c → Simplify.isJump c = true →
      (∃ q', n.Stays n' q q') →
        ∃ a ∈ c.landings (n.stops [] [] q), ∃ p', n.Stays n' a.1 p' := by
  rw [Node.jumpsLegal_iff]
  constructor
  · rintro hlegal q c hc hjump ⟨q',k,hq,hq'⟩
    obtain ⟨y,hy,hyk⟩ := Option.bind_eq_some_iff.mp hq'
    rw [markAt, hc] at hq
    obtain ⟨hl,hiff⟩ := h.landings_iff hn hc hy hq hyk
    exact hiff.mp (hlegal q' y hy (by rwa [Simplify.isJump, ← hl]))
  · intro hall q' y hy hjump
    have hstands' : Stands [] n' _ y := stands_iff_at.mpr ⟨q',hy,rfl⟩
    obtain ⟨-,hl⟩ | ⟨around,x,hx,-,hmark,hl,-⟩ := h _ y hstands'
    · rw [Simplify.isJump, hl] at hjump
      cases hjump
    · obtain ⟨k,hk⟩ := Option.isSome_iff_exists.mp (hx.isMarked hm)
      obtain ⟨q,hq,-⟩ := stands_iff_at.mp hx
      obtain ⟨-,hiff⟩ := h.landings_iff hn hq hy hk (hmark.symm.trans hk)
      refine hiff.mpr (hall q x hq (by rwa [Simplify.isJump, hl]) ⟨q',k,?_,?_⟩)
      · rw [markAt, hq]
        exact hk
      · rw [markAt, hy]
        exact hmark.symm.trans hk

end Brings

/-- Subtrees in the place of a subtree, in a slot of a kind of node. The labels right above them are
the ones above it; only a labelled statement gives any. -/
structure Follows (l : Label) (c : Field × Node) (ds : List (Field × Node)) : Prop where
  field : ∀ d ∈ ds, d.1 = c.1
  label : c.1 = .label → ∃ d, ds = [(.label, d)] ∧ d.label = c.2.label
  brings : ∀ names, (l ≠ .labeledStatement → names = []) →
    ∀ d ∈ ds, Brings names c.2 (marksAll ds) d.2

theorem Follows.marks {l : Label} {c : Field × Node} {ds : List (Field × Node)} (h : Follows l c ds) :
    ∀ k ∈ marksAll ds, k ∈ c.2.marks := by
  intro k hk
  obtain ⟨d,hd,hk⟩ := mem_marksAll.mp hk
  exact (h.brings [] (fun _ => rfl) d hd).marks hk

section Follows
variable {l : Label} {m : Option Nat} {cs : List (Field × Node)}
  {pieces : List (List (Field × Node))} (h : List.Forall₂ (Follows l) cs pieces)
include h

private theorem labelName?_flatten :
    (marked m l pieces.flatten).labelName? = (marked m l cs).labelName? := by
  simp only [labelName?, child?, subtrees]
  induction h with
  | nil => rfl
  | @cons c ds cs pieces hc _ ih =>
    rw [List.flatten_cons, List.find?_append, List.find?_cons]
    by_cases hf : c.1 = .label
    · obtain ⟨d,rfl,hd⟩ := hc.label hf
      simp [hf, identifierName?, hd]
    · have hnone : ds.find? (fun d => d.1 = .label) = none :=
        List.find?_eq_none.mpr fun d hd => by simpa [hc.field d hd] using hf
      simp only [hnone, hf, decide_false, Option.none_or]
      exact ih

private theorem marks_flatten {k : Nat} (hk : k ∈ marksAll pieces.flatten) : k ∈ marksAll cs := by
  induction h with
  | nil => exact hk
  | @cons c ds cs pieces hc _ ih =>
    rw [List.flatten_cons, marksAll_append, List.mem_append] at hk
    rw [marksAll, List.mem_append]
    exact hk.imp (hc.marks k) ih

/-- Of the marks of a subtree those are left that are left in its own place. -/
private theorem exists_piece (hn : (marksAll cs).Nodup) {d : Field × Node} (hd : d ∈ pieces.flatten) :
    ∃ c ∈ cs, ∃ ds, Follows l c ds ∧ d ∈ ds ∧
      ∀ k ∈ c.2.marks, k ∈ marksAll ds ↔ k ∈ marksAll pieces.flatten := by
  induction h with
  | nil => cases hd
  | @cons c ds cs pieces hc hcs ih =>
    rw [marksAll] at hn
    obtain ⟨-,hn,hapart⟩ := List.nodup_append.mp hn
    simp only [List.flatten_cons, marksAll_append, List.mem_append] at hd ⊢
    rcases hd with hd | hd
    · refine ⟨c,List.mem_cons_self,ds,hc,hd,fun k hk => (or_iff_left fun hk' => ?_).symm⟩
      exact hapart k hk k (marks_flatten hcs hk') rfl
    · obtain ⟨e,he,es,hes,hd,hmarks⟩ := ih hn hd
      refine ⟨e,List.mem_cons_of_mem _ he,es,hes,hd,fun k hk => (hmarks k hk).trans ?_⟩
      refine (or_iff_right fun hk' => ?_).symm
      exact hapart k (hc.marks k hk') k (mem_marksAll.mpr ⟨e,he,hk⟩) rfl

/-- A node whose subtrees were visited stands where it stood. -/
theorem brings_flatten (hm : m.isSome) (hn : (marked m l cs).marks.Nodup) (names : List String) :
    Brings names (marked m l cs) (marked m l pieces.flatten).marks (marked m l pieces.flatten) := by
  have hname := labelName?_flatten (m := m) h
  have hstop : (marked m l pieces.flatten).stop names = (marked m l cs).stop names := by
    rw [stop, stop, hname]
    rfl
  intro after x' hx'
  cases hx' with
  | here => exact .inr ⟨[],_,.here,.refl (by simp),rfl,rfl,hname.symm⟩
  | @inside _ _ _ d after hd hx' =>
    obtain ⟨c,hc,ds,hfollows,hd,hmarks⟩ := exists_piece h (nodup_marksAll hn) hd
    have hbelow : (marked m l pieces.flatten).namesBelow names = (marked m l cs).namesBelow names := by
      rw [namesBelow, namesBelow, hname]
      rfl
    rw [hbelow] at hx'
    obtain hnew | ⟨around,x,hx,hthins,halike⟩ :=
      hfollows.brings _ (fun hl => by simp [namesBelow, label, hl]) d hd after x' hx'
    · exact .inl hnew
    · refine .inr ⟨_,x,.inside hc hx,.append (hthins.congr fun s hs k hk => ?_) ?_,halike⟩
      · have hkc := hx.marks.2 s hs k hk
        have hne : m ≠ some k := by
          rintro rfl
          obtain ⟨-,-,hapart⟩ := List.nodup_append.mp hn
          exact hapart k (by simp) k (mem_marksAll.mpr ⟨c,hc,hkc⟩) rfl
        rw [hmarks k hkc, Node.marks, List.mem_append, Option.mem_toList, or_iff_right hne]
      · rw [hstop]
        refine .refl fun s hs => .inl ?_
        obtain rfl := List.mem_singleton.mp hs
        obtain ⟨k,rfl⟩ := Option.isSome_iff_exists.mp hm
        exact Thins.isLeft_iff.mpr ⟨k,by simp [Node.marks],rfl⟩

end Follows

end Node

namespace Simplify
open Node

/-! ### The statements of a loop -/

/-- The statements that a loop gives up stand in cases, and these below the same nodes. -/
private theorem exists_above {known : Nat → Role → Bool} {r : Role} {earlier ss : List Node} {loop : Node}
    (h : unflatten? earlier loop = some ss) (hfits : loop.fits known r = true)
    (hl : loop.label = .whileStatement) (names : List String) :
    ∃ above, (∀ a ∈ above, a.2.label.isFunction = false) ∧ ∀ s ∈ ss, ∃ c,
      c.label = .switchCase ∧ s ∈ c.row .consequent ∧ Stands names loop above c := by
  obtain ⟨body,switch,order,hbody,hblock,hfirst,hswitchl,-,rfl⟩ := Dispatch.unflatten?_parts h
  have hbody := mem_row_of_child? hbody
  have hswitch := List.mem_of_find?_eq_some hfirst
  obtain ⟨u,-,hbodyfits⟩ := fits_of_mem_row hfits hbody
  obtain ⟨v,-,hswitchfits⟩ := fits_of_mem_row hbodyfits hswitch
  obtain ⟨outer,houter,hstands⟩ : ∃ outer, (∀ a ∈ outer, a.2.label.isFunction = false) ∧
      Stands names loop outer switch := by
    refine ⟨_,?_,(Stands.here.row hbody).row hswitch⟩
    simp [stop, hl, hblock, Label.isFunction]
  refine ⟨(switch.mark?, switch.stop (namesUnder names outer)) :: outer,
    List.forall_mem_cons.mpr ⟨by simp [stop, hswitchl, Label.isFunction],houter⟩,fun s hs => ?_⟩
  obtain ⟨c,hc,hs⟩ := exists_case hs
  exact ⟨c,label_of_case hswitchfits hswitchl hc,hs,hstands.row hc⟩

section Released
variable {names : List String} {n loop : Node} (hn : n.marks.Nodup) (hm : n.AllMarked)
  (h : Brings names n loop.marks loop) {above : List (Option Nat × Stop)}
include hn hm h

/-- Below the cases of a loop no mark stands that stands above or at them. -/
private theorem depth_lt {c s x : Node} {after around : List (Option Nat × Stop)}
    (hc : Stands names loop above c) (hl : c.label = .switchCase) (hs : s ∈ c.row .consequent)
    (hx : Stands [] s after x) {y : Node} (hy : Stands names loop around y)
    (haround : around.countP (fun a => a.1.isSome) ≤ above.countP fun a => a.1.isSome) {k : Nat}
    (hxk : x.mark? = some k) : y.mark? ≠ some k := by
  intro hyk
  have hmarked : c.mark?.isSome := by
    refine Option.isSome_iff_ne_none.mpr fun hnone => ?_
    rw [h.new hm hc hnone] at hl
    cases hl
  have hnames : namesUnder names ((c.mark?, c.stop (namesUnder names above)) :: above) = [] := by
    simp [namesUnder, stop, hl]
  have hdepth := h.depth hn ((hc.row hs).trans (hnames ▸ hx)) hy hxk hyk
  rw [List.countP_append, List.countP_cons, if_pos hmarked] at hdepth
  omega

/-- A statement of a case leaves the loop and what is around it in there. Where it does not stand in
a row it is in a new block. -/
private theorem traces_released {known : Nat → Role → Bool} {r : Role} {earlier ss : List Node}
    (hss : unflatten? earlier loop = some ss) (hfits : loop.fits known r = true)
    (hl : loop.label = .whileStatement) {s : Node} (hs : s ∈ ss)
    {wrap : List (Option Nat × Stop)} (hwrap : ∀ a ∈ wrap, a.1 = none ∧ a.2.label = .blockStatement)
    {after : List (Option Nat × Stop)} {x : Node} (hx : Stands [] s after x) :
    Traces names n (ss.flatMap marks) (after ++ wrap) x := by
  obtain ⟨above,hkinds,hcases⟩ := exists_above hss hfits hl names
  obtain ⟨c,hcl,hcs,hc⟩ := hcases s hs
  have hnames : namesUnder names ((c.mark?, c.stop (namesUnder names above)) :: above) = [] := by
    simp [namesUnder, stop, hcl]
  have hinside {b : List (Option Nat × Stop)} {y : Node} (hy : Stands [] s b y) :
      Stands names loop (b ++ (c.mark?, c.stop (namesUnder names above)) :: above) y :=
    (hc.row hcs).trans (hnames ▸ hy)
  obtain hnew | ⟨around,x₀,hx₀,hthins,halike⟩ := h _ x (hinside hx)
  · exact .inl hnew
  refine .inr ⟨around,x₀,hx₀,hthins.trans (.append (.refl fun a ha => ?_) (.gone (fun a ha => ?_) hwrap))
    fun k hk => ?_,halike⟩
  · -- What is around the node in the statement goes along.
    obtain ⟨_,_,y,-,hy,hmark,hyl⟩ := hx.exists_of_mem ha
    cases hyk : y.mark? with
    | none => exact .inr ⟨hmark ▸ hyk,hyl ▸ h.new hm (hinside hy) hyk⟩
    | some k =>
      exact .inl (Thins.isLeft_iff.mpr
        ⟨k,List.mem_flatMap.mpr ⟨s,hs,hx.marks.2 a ha k (hmark ▸ hyk)⟩,hmark ▸ hyk⟩)
  · -- The case and what is above it does not.
    obtain ⟨inner,outer,y,heq,hy,hmark,hyl⟩ := (hc.row hcs).exists_of_mem ha
    refine ⟨Bool.eq_false_iff.mpr fun hleft => ?_,?_⟩
    · obtain ⟨k,hk,hak⟩ := Thins.isLeft_iff.mp hleft
      obtain ⟨s',hs',hk⟩ := List.mem_flatMap.mp hk
      obtain ⟨c',hcl',hcs',hc'⟩ := hcases s' hs'
      obtain ⟨b,z,hz,hzk⟩ := exists_stands [] hk
      refine depth_lt hn hm h hc' hcl' hcs' hz hy ?_ hzk (hmark.trans hak)
      have hcount := congrArg (List.countP fun a : Option Nat × Stop => a.1.isSome) heq
      rw [List.countP_append, List.countP_cons, List.countP_cons, hak] at hcount
      split at hcount <;> simp at hcount <;> omega
    · rcases List.mem_cons.mp ha with rfl | ha
      · simp [stop, hcl, Label.isFunction]
      · exact hkinds a ha
  · obtain ⟨s',hs',hk⟩ := List.mem_flatMap.mp hk
    obtain ⟨c',-,hcs',hc'⟩ := hcases s' hs'
    exact (hc'.row hcs').marks.1 k hk

end Released

end Simplify

/-! ### Visits -/

/-- What a visit makes of a node stood in it, wherever that stands. -/
structure Visit.Brings (n : Node) (v : Visit) : Prop where
  label : v.kept.label = n.label
  kept : ∀ names, Node.Brings names n v.kept.marks v.kept
  gives : v.replaced.isSome → n.label = .whileStatement
  placed : ∀ l f old, f ≠ .label → Node.Follows l (f, n) (Rule.place l f old v.result)

namespace Simplify
open Node

private theorem follows_kept {n d : Node} (hl : d.label = n.label)
    (h : ∀ names, Brings names n d.marks d) (l : Label) (f : Field) : Follows l (f, n) [(f, d)] where
  field := by simp
  label hf := ⟨d,by rw [show f = .label from hf],hl⟩
  brings names _ e he := by
    obtain rfl := List.mem_singleton.mp he
    rw [marksAll_singleton]
    exact h names

private theorem brings_refl {n : Node} (hm : n.AllMarked) (names : List String) :
    Brings names n n.marks n := by
  intro after x hx
  refine .inr ⟨after,x,hx,.refl fun a ha => .inl ?_,rfl,rfl,rfl⟩
  obtain ⟨_,_,y,-,hy,hmark,-⟩ := hx.exists_of_mem ha
  obtain ⟨k,hk⟩ := Option.isSome_iff_exists.mp (hy.isMarked hm)
  exact Thins.isLeft_iff.mpr ⟨k,hx.marks.2 a ha k (hmark ▸ hk),hmark ▸ hk⟩

/-- The statements of the cases in the place of a loop. -/
private theorem follows_released {known : Nat → Role → Bool} {r : Role} {n loop : Node}
    (hn : n.marks.Nodup) (hm : n.AllMarked) (h : ∀ names, Brings names n loop.marks loop)
    {earlier ss : List Node} (hss : unflatten? earlier loop = some ss)
    (hfits : loop.fits known r = true) (hl : loop.label = .whileStatement) {l : Label} {f : Field}
    (hf : f ≠ .label) (old : Node) : Follows l (f, n) (Rule.place l f old (.statements ss)) where
  field d hd := Rule.field_place hd
  label hlabel := absurd hlabel hf
  brings names hnames d hd := by
    have htraces (wrap : List (Option Nat × Stop))
        (hwrap : ∀ a ∈ wrap, a.1 = none ∧ a.2.label = .blockStatement) {s x : Node} (hs : s ∈ ss)
        {after : List (Option Nat × Stop)} (hx : Stands [] s after x) :
        Traces names n (ss.flatMap marks) (after ++ wrap) x :=
      traces_released hn hm (h names) hss hfits hl hs hwrap hx
    simp only [Rule.place] at hd ⊢
    split at hd
    · rename_i hrow
      have hnames : names = [] := by
        refine hnames fun hlabelled => ?_
        rw [hlabelled] at hrow
        cases f <;> cases hrow
      obtain ⟨s,hs,rfl⟩ := List.mem_map.mp hd
      intro after x hx
      have htraced := htraces [] (by simp) hs (hnames ▸ hx)
      simpa [hrow, marksAll_eq, List.flatMap_map] using htraced
    · rename_i hrow
      obtain rfl := List.mem_singleton.mp hd
      intro after x hx
      cases hx with
      | here => exact .inl ⟨rfl,rfl⟩
      | inside hc hx =>
        obtain ⟨s,hs,rfl⟩ := List.mem_map.mp hc
        have htraced := htraces [(none, (block ss).stop names)] (by simp [block, stop, Node.label]) hs hx
        simpa [hrow, block, mark?, marksAll_eq, marks_marked, List.flatMap_map] using htraced

private theorem ne_while_of_name {l : Label} (h : Role.name.has l = true) : l ≠ .whileStatement := by
  rintro rfl
  cases h

private theorem roles_label {l : Label} {r t : Role} (h : t ∈ l.roles r .label) : t = .name := by
  cases l <;> simp_all [Label.roles, Label.table]

/-- Where the visit of a subtree brings every node from where it stood, so does what is fitted in its
place. Labels stay, which are names and no loops. -/
private theorem follows_fitted {known : Nat → Role → Bool} {l : Label} {c : Field × Node} {r t : Role}
    (hm : c.2.AllMarked) (ht : t ∈ l.roles r c.1) (hfits : c.2.fits known t = true) (ctx : Context)
    (hvisit : (flatteningRule.visit ctx c.2).Brings c.2) :
    Follows l c (flatteningRule.fitted l ctx c) := by
  unfold Rule.fitted
  split
  · exact follows_kept rfl (brings_refl hm) l c.1
  · by_cases hf : c.1 = .label
    · have hnone : (flatteningRule.visit ctx c.2).replaced = none := by
        refine Option.not_isSome_iff_eq_none.mp fun hreplaced => ?_
        obtain rfl := roles_label (hf ▸ ht)
        exact ne_while_of_name (has_of_fits hfits) (hvisit.gives hreplaced)
      rw [Visit.result, hnone]
      exact follows_kept hvisit.label hvisit.kept l c.1
    · exact hvisit.placed l c.1 c.2 hf

/-- Undoing flattened control flow brings every node of a visited tree from where it stood. -/
private theorem visit_brings {known : Nat → Role → Bool} {r : Role} {n : Node}
    (hfits : n.fits known r = true) (hm : n.AllMarked) (hn : n.marks.Nodup) (ctx : Context) :
    (flatteningRule.visit ctx n).Brings n := by
  induction n using inductionOn generalizing r ctx with
  | marked m l cs ih =>
    obtain ⟨-,-,-,hcs⟩ := fits_marked.mp hfits
    obtain ⟨hsome,hmcs⟩ := allMarked_marked.mp hm
    have hnodup := nodup_marksAll hn
    obtain ⟨pieces,heq,hpieces⟩ : ∃ pieces, (flatteningRule.visitAll l [] cs).1 = pieces.flatten ∧
        List.Forall₂ (Follows l) cs pieces :=
      Rule.exists_pieces (p := []) (A := fun _ => True) (fun c hc earlier q _ => by
        obtain ⟨t,ht,hfits⟩ := hcs c hc
        exact follows_fitted (hmcs c hc) ht hfits _
          (ih c hc hfits (hmcs c hc) (nodup_of_mem hnodup hc) _)) fun _ _ => trivial
    have hkept : (flatteningRule.visit ctx (marked m l cs)).kept = marked m l pieces.flatten := by
      rw [← heq]
      exact flatteningRule_finish_kept ..
    have hreplaced : (flatteningRule.visit ctx (marked m l cs)).replaced =
        (flatteningRule.finish ctx (marked m l pieces.flatten)).replaced := by
      rw [← heq]
      rfl
    have hbrings := brings_flatten hpieces hsome hn
    have hgives {rep : Replacement}
        (h : (flatteningRule.visit ctx (marked m l cs)).replaced = some rep) :
        l = .whileStatement ∧ ∃ ss, unflatten? ctx.earlier (marked m l pieces.flatten) = some ss ∧
          rep = .statements ss := by
      rw [hreplaced] at h
      obtain ⟨hkeep,-⟩ | ⟨ss,hl,hss,hput⟩ := flatteningRule_cases ctx (marked m l pieces.flatten)
      · rw [hkeep] at h
        cases h
      · rw [hput] at h
        exact ⟨hl,ss,hss,(Option.some.inj h).symm⟩
    refine ⟨by rw [hkept]; rfl,by rwa [hkept],fun h => ?_,fun l' f old hf => ?_⟩
    · obtain ⟨rep,h⟩ := Option.isSome_iff_exists.mp h
      exact (hgives h).1
    · rw [Visit.result]
      cases hrep : (flatteningRule.visit ctx (marked m l cs)).replaced with
      | none =>
        rw [hkept]
        exact follows_kept (n := marked m l cs) (d := marked m l pieces.flatten) rfl hbrings l' f
      | some rep =>
        obtain ⟨hl,ss,hss,rfl⟩ := hgives hrep
        have hkeptfits := (flatteningRule_roles.visit (marked m l cs) hfits ctx).1
        rw [hkept] at hkeptfits
        exact follows_released hn hm hbrings hss hkeptfits hl hf old

/-! ### Programs -/

/-- Undoing flattened control flow leaves every jump legal exactly if each jump that is left keeps one
of the statements that it may land at. -/
theorem flattening_jumpsLegal_iff {tree : Node} (h : tree.Grammatical) (hm : tree.hasMarks = false) :
    (flattening tree).1.JumpsLegal ↔
      ∀ q c, tree.at? q = some c → isJump c = true → (∃ q', flatteningRule.Carries tree q q') →
        ∃ a ∈ c.landings (tree.stops [] [] q), ∃ p', flatteningRule.Carries tree a.1 p' := by
  have hmarks := hasMarks_eq_false.mp hm
  have hmarked := number_allMarked tree 0
  have hnodup := nodup_number hmarks 0
  have hbrings := (visit_brings (Rule.grammatical_number h hm) hmarked hnodup Rule.top).kept []
  have hafter : (flattening tree).1.plain = (flatteningRule.runOnce (tree.number 0).1).1.plain := by
    rw [flattening_plain hmarks, Rule.runOnce_number flatteningRule_ignoresMarks hm]
  have hbefore : (tree.number 0).1.plain = tree := by rw [plain_number, plain_of_marks hmarks]
  have hat (q : Path) : tree.at? q = ((tree.number 0).1.at? q).map plain := by
    rw [← at?_plain, hbefore]
  have hstops (q : Path) : tree.stops [] [] q = (tree.number 0).1.stops [] [] q := by
    rw [← stops_plain [] [] (tree.number 0).1, hbefore]
  rw [← jumpsLegal_plain, hafter, jumpsLegal_plain]
  refine (hbrings.jumpsLegal_iff hmarked hnodup).trans ?_
  constructor
  · intro hall q c hc hjump hcarried
    rw [hat] at hc
    obtain ⟨d,hd,rfl⟩ := Option.map_eq_some_iff.mp hc
    rw [isJump_plain] at hjump
    rw [landings_plain, hstops]
    exact hall q d hd hjump hcarried
  · intro hall q c hc hjump hcarried
    have hlands := hall q c.plain (by rw [hat, hc]; rfl) (by rwa [isJump_plain]) hcarried
    rwa [landings_plain, hstops] at hlands

namespace Dispatch

/-- `if (x) jump`. -/
def guarded (jump : Node) : Node :=
  .mk .ifStatement [(.test, .identifier "x"), (.consequent, jump)]

/-- `while (true) { switch ('0'.split('|')[i++]) { case '0': if (x) continue; a(); continue; } break; }` -/
def resuming : Node := script
  [dispatching (Text.ofString "0") [] [labelled "0" [guarded resumes, runs "a", resumes]] [leaves]]

/-- `l: while (true) { switch ('0'.split('|')[i++]) { case '0': if (x) break l; continue; } break; }` -/
def leavingLabel : Node := script
  [.mk .labeledStatement [(.label, .identifier "l"),
    (.body, dispatching (Text.ofString "0") []
      [labelled "0" [guarded (.mk .breakStatement [(.label, .identifier "l")]), resumes]] [leaves])]]

end Dispatch

open Dispatch in
/-- A jump in an `if` goes along with it. It is left without the loop, but not without a label. -/
theorem flattening_jumpsLegal_iff_resuming :
    resuming.Grammatical ∧ resuming.hasMarks = false ∧ resuming.JumpsLegal ∧
      ¬(flattening resuming).1.JumpsLegal ∧
        leavingLabel.JumpsLegal ∧ (flattening leavingLabel).2 = 1 ∧
          (flattening leavingLabel).1.JumpsLegal := by
  have h : resuming.Grammatical := by decide +kernel
  have hm : resuming.hasMarks = false := by decide
  refine ⟨h,hm,by decide +kernel,fun hlegal => ?_,by decide +kernel,by decide +kernel,
    by decide +kernel⟩
  have hcarried : flatteningRule.Carries resuming [0, 1, 0, 1, 1, 1] [0, 1] :=
    ⟨17,by decide +kernel,by decide +kernel⟩
  obtain ⟨a,ha,hstays⟩ :=
    (flattening_jumpsLegal_iff h hm).mp hlegal [0, 1, 0, 1, 1, 1] resumes rfl rfl ⟨_,hcarried⟩
  rw [Rule.Carries, exists_stays_iff] at hstays
  revert a
  decide +kernel

end Simplify

end Unravel
