import Unravel.Proofs.Numbering
import Unravel.Proofs.Scope.Marks
import Unravel.Proofs.Simplify.ProxyScope

/-! Runs of a rule in which the blocks that take the place of a node in a single slot have marks, so
that they can be told from each other. Such a run makes the tree that the rule makes, marks of blocks
apart. -/

namespace Unravel
namespace Rule
open Node
variable {r r' : Rule} {f : Node → Node}

/-! ### Rules that follow each other -/

/-- Of nodes with other marks one rule makes what another one makes of the nodes as they were. -/
structure Follows (r r' : Rule) (f : Node → Node) : Prop where
  early : ∀ n, r.early n = none
  early' : ∀ n, r'.early n = none
  kept : ∀ ctx n, (r'.finish (ctx.onNodes f) (f n)).kept = f (r.finish ctx n).kept
  replaced : ∀ ctx n,
    (r'.finish (ctx.onNodes f) (f n)).replaced.isSome = (r.finish ctx n).replaced.isSome
  placed : ∀ (ctx : Context) n l, ctx.parent = some l → ∀ old,
    place l ctx.field (f old) (r'.finish (ctx.onNodes f) (f n)).result =
      (place l ctx.field old (r.finish ctx n).result).map fun c => (c.1, f c.2)

/-- The same of two visits. -/
structure Matches (f : Node → Node) (ctx : Context) (v v' : Visit) : Prop where
  kept : v'.kept = f v.kept
  replaced : v'.replaced.isSome = v.replaced.isSome
  placed : ∀ l, ctx.parent = some l → ∀ old,
    place l ctx.field (f old) v'.result = (place l ctx.field old v.result).map fun c => (c.1, f c.2)

private theorem context_onNodes (l : Label) (g : Field) (before : List (Field × Node)) :
    Context.onNodes f ⟨some l,g,(before.filter fun c => c.1 = g).map Prod.snd⟩ =
      ⟨some l,g,((before.map fun c => (c.1, f c.2)).filter fun c => c.1 = g).map Prod.snd⟩ := by
  rw [Context.onNodes, Remarks.filter]

section Follows
variable (h : r.Follows r' f) (hf : Remarks f)
include h hf

theorem Follows.visit (ctx : Context) (n : Node) :
    Matches f ctx (r.visit ctx n) (r'.visit (ctx.onNodes f) (f n)) := by
  induction n using inductionOn generalizing ctx with
  | marked m l cs ih =>
    have hall (before : List (Field × Node)) :
        (r'.visitAll l (before.map fun c => (c.1, f c.2)) (cs.map fun c => (c.1, f c.2))).1 =
          (r.visitAll l before cs).1.map fun c => (c.1, f c.2) := by
      induction cs generalizing before with
      | nil => rfl
      | cons c cs ihs =>
        obtain ⟨g,n⟩ := c
        obtain ⟨hn,hcs⟩ := List.forall_mem_cons.mp ih
        have hrest := ihs hcs (before ++ [(g, n)])
        rw [List.map_append, List.map_singleton] at hrest
        simp only [List.map_cons, visitAll_cons, hf.isHole, hrest, ← context_onNodes, List.map_append,
          (hn ⟨some l,g,_⟩).placed l rfl]
        split <;> rfl
    have hdone := hall []
    rw [List.map_nil] at hdone
    obtain ⟨m',hmarked,-⟩ := hf.marked m l
    rw [hmarked, Rule.visit, Rule.visit, h.early, h.early']
    simp only [hdone, ← hmarked]
    exact ⟨h.kept ctx _,h.replaced ctx _,h.placed ctx _⟩

theorem Follows.runOnce (n : Node) : (r'.runOnce (f n)).1 = f (r.runOnce n).1 :=
  (h.visit hf top n).kept

/-- The nodes visited correspond. -/
theorem Follows.exists_visited {ctx : Context} {p : Path} {n : Node} {x : Visited}
    (hx : x ∈ r.visits ctx p n) : ∃ y ∈ r'.visits (ctx.onNodes f) p (f n),
      y.context = x.context.onNodes f ∧ y.outcome.kept = f x.outcome.kept ∧
        y.outcome.replaced.isSome = x.outcome.replaced.isSome := by
  induction n using inductionOn generalizing ctx p with
  | marked m l cs ih =>
    have hall : ∀ before : List (Field × Node), x ∈ r.visitsAll l p before cs →
        ∃ y ∈ r'.visitsAll l p (before.map fun c => (c.1, f c.2)) (cs.map fun c => (c.1, f c.2)),
          y.context = x.context.onNodes f ∧ y.outcome.kept = f x.outcome.kept ∧
            y.outcome.replaced.isSome = x.outcome.replaced.isSome := by
      clear hx
      induction cs with
      | nil =>
        intro before hx
        cases hx
      | cons c cs ihs =>
        intro before hx
        obtain ⟨g,n⟩ := c
        obtain ⟨hn,hcs⟩ := List.forall_mem_cons.mp ih
        rw [visitsAll] at hx
        rw [List.map_cons, visitsAll, List.length_map, hf.isHole, ← context_onNodes]
        rcases List.mem_append.mp hx with hx | hx
        · cases hhole : n.isHole with
          | true => simp [hhole] at hx
          | false =>
            simp only [hhole, Bool.false_eq_true, if_false] at hx ⊢
            obtain ⟨y,hy,hsame⟩ := hn hx
            exact ⟨y,List.mem_append_left _ hy,hsame⟩
        · obtain ⟨y,hy,hsame⟩ := ihs hcs (before ++ [(g, n)]) hx
          rw [List.map_append, List.map_singleton] at hy
          exact ⟨y,List.mem_append_right _ hy,hsame⟩
    obtain ⟨m',hmarked,-⟩ := hf.marked m l
    rw [hmarked]
    rw [visits, h.early] at hx
    rw [visits, h.early', ← hmarked]
    rcases List.mem_append.mp hx with hx | hx
    · obtain ⟨y,hy,hsame⟩ := hall [] hx
      exact ⟨y,List.mem_append_left _ hy,hsame⟩
    · obtain rfl := List.mem_singleton.mp hx
      obtain ⟨hkept,hreplaced,-⟩ := h.visit hf ctx (.marked m l cs)
      exact ⟨_,List.mem_append_right _ (List.mem_singleton_self _),rfl,hkept,hreplaced⟩

end Follows

/-! ### Marks for new blocks -/

/-- Fits a replacement into a slot, where a block that takes a run of statements has a mark. -/
def placeAs (m : Option Nat) (l : Label) (f : Field) (old : Node) :
    Replacement → List (Field × Node)
  | .statements ns =>
    if l.isRow f then ns.map fun n => (f, n)
    else [(f, .marked m .blockStatement (ns.map fun n => (.body, n)))]
  | rep => place l f old rep

theorem placeAs_none (l : Label) (f : Field) (old : Node) (rep : Replacement) :
    placeAs none l f old rep = place l f old rep := by
  cases rep <;> rfl

/-- The rule, with a mark for each block that takes the place of a node. -/
def tracked (r : Rule) (mark : Node → Option Nat) : Rule where
  early := r.early
  finish ctx n :=
    match ctx.parent, (r.finish ctx n).replaced with
    | some l, some (.statements ns) =>
      if l.isRow ctx.field then r.finish ctx n
      else { r.finish ctx n with
        replaced := some (.node (.marked (mark n) .blockStatement (ns.map fun s => (.body, s)))) }
    | _, _ => r.finish ctx n

/-- A rule that makes what another one makes, but for the marks of new blocks. -/
structure Places (r : Rule) (mark : Node → Option Nat) (r' : Rule) : Prop where
  early : ∀ n, r'.early n = none
  kept : ∀ ctx n, (r'.finish ctx n).kept = (r.finish ctx n).kept
  replaced : ∀ ctx n, (r'.finish ctx n).replaced.isSome = (r.finish ctx n).replaced.isSome
  placed : ∀ (ctx : Context) n l, ctx.parent = some l → ∀ old,
    place l ctx.field old (r'.finish ctx n).result =
      placeAs (mark n) l ctx.field old (r.finish ctx n).result

theorem places_self (h : ∀ n, r.early n = none) : r.Places (fun _ => none) r where
  early := h
  kept _ _ := rfl
  replaced _ _ := rfl
  placed _ _ _ _ _ := (placeAs_none ..).symm

theorem places_tracked (h : ∀ n, r.early n = none) (mark : Node → Option Nat) :
    r.Places mark (r.tracked mark) := by
  have hcases (ctx : Context) (n : Node) : (r.tracked mark).finish ctx n = r.finish ctx n ∨ ∃ ns,
      (r.finish ctx n).replaced = some (.statements ns) ∧
        (r.tracked mark).finish ctx n = { r.finish ctx n with
          replaced := some (.node (.marked (mark n) .blockStatement (ns.map fun s => (.body, s)))) } := by
    simp only [tracked]
    split
    · rename_i l ns hl hns
      split
      · exact .inl rfl
      · exact .inr ⟨ns,hns,rfl⟩
    · exact .inl rfl
  refine ⟨h,fun ctx n => ?_,fun ctx n => ?_,fun ctx n l hl old => ?_⟩
  · obtain h | ⟨ns,-,h⟩ := hcases ctx n <;> rw [h]
  · obtain h | ⟨ns,hns,h⟩ := hcases ctx n <;> rw [h]
    rw [hns]
    rfl
  · simp only [tracked, hl]
    cases hrep : (r.finish ctx n).replaced with
    | none => simp [Visit.result, hrep, placeAs]
    | some rep =>
      cases rep with
      | node | nothing => simp [Visit.result, hrep, placeAs]
      | statements ns =>
        cases hrow : l.isRow ctx.field <;> simp [Visit.result, hrep, hrow, placeAs, place]

/-- How a replacement fits into a slot does not depend on marks. -/
private theorem placeAs_onNodes (hf : Remarks f) {m m' : Option Nat}
    (hm : ∀ cs, f (.marked m .blockStatement cs) =
      .marked m' .blockStatement (cs.map fun c => (c.1, f c.2)))
    (l : Label) (g : Field) (old : Node) (rep : Replacement) :
    placeAs m' l g (f old) (rep.onNodes f) =
      (placeAs m l g old rep).map fun c => (c.1, f c.2) := by
  cases rep with
  | node n => rfl
  | statements ns =>
    simp only [Replacement.onNodes, placeAs]
    split
    · simp
    · simp [hm, Function.comp_def]
  | nothing =>
    have hempty : f Node.empty = Node.empty := hf.unmarked _ []
    simp only [Replacement.onNodes, placeAs, place, hf.isStatement]
    split
    · rfl
    · rw [apply_ite (List.map _), List.map_singleton, List.map_nil, hempty]

/-- Two rules that differ in the marks of new blocks follow each other under a change of marks that
takes the ones to the others. -/
theorem IgnoresMarks.follows (hi : r.IgnoresMarks) (hf : Remarks f) {mark mark' : Node → Option Nat}
    {r₁ r₂ : Rule} (h₁ : r.Places mark r₁) (h₂ : r.Places mark' r₂)
    (hm : ∀ n cs, f (.marked (mark n) .blockStatement cs) =
      .marked (mark' (f n)) .blockStatement (cs.map fun c => (c.1, f c.2))) : r₁.Follows r₂ f where
  early := h₁.early
  early' := h₂.early
  kept ctx n := by rw [h₂.kept, hi.finish hf, h₁.kept]; rfl
  replaced ctx n := by
    rw [h₂.replaced, hi.finish hf, h₁.replaced, Visit.onNodes, Option.isSome_map]
  placed ctx n l hl old := by
    rw [h₁.placed ctx n l hl]
    have hplaced := h₂.placed (ctx.onNodes f) (f n) l hl (f old)
    have hresult : (r.finish (ctx.onNodes f) (f n)).result = (r.finish ctx n).result.onNodes f := by
      rw [hi.finish hf]
      obtain ⟨kept,replaced,k⟩ := r.finish ctx n
      cases replaced <;> rfl
    rw [hresult, placeAs_onNodes hf (hm n)] at hplaced
    exact hplaced

/-! ### Runs with marks for new blocks -/

section Runs
variable (hi : r.IgnoresMarks) (mark : Node → Option Nat) (n : Node)
include hi

/-- The two runs make the same tree, marks of blocks apart. -/
theorem IgnoresMarks.tracked_remark {g : Label → Option Nat → Option Nat} (hg : ∀ l, g l none = none)
    (hblock : ∀ m, g .blockStatement m = none) :
    ((r.tracked mark).runOnce n).1.remark g = (r.runOnce n).1.remark g := by
  have hf := remark_remarks g hg
  have htracked : (r.tracked mark).Follows r (remark g) :=
    hi.follows hf (places_tracked hi.early mark) (places_self hi.early) fun n cs => by
      rw [remark_marked, hblock]
  have hself : r.Follows r (remark g) :=
    hi.follows hf (places_self hi.early) (places_self hi.early) fun n cs => by
      rw [remark_marked, hblock]
  rw [← htracked.runOnce hf, hself.runOnce hf]

theorem IgnoresMarks.tracked_plain :
    ((r.tracked mark).runOnce n).1.plain = (r.runOnce n).1.plain := by
  have hf : Remarks (remark fun _ _ => none) := remark_remarks _ fun _ => rfl
  rw [← hf.plain, hi.tracked_remark mark n (fun _ => rfl) fun _ => rfl, hf.plain]

/-- Only blocks have other marks in the one run than in the other. -/
theorem IgnoresMarks.markAt_of_name {q : Path}
    (hq : (((r.tracked mark).runOnce n).1.nameAt? q).isSome) :
    (r.runOnce n).1.markAt q = ((r.tracked mark).runOnce n).1.markAt q := by
  let g : Label → Option Nat → Option Nat := fun l m => if l = .blockStatement then none else m
  have hf : Remarks (remark g) := remark_remarks g fun l => ite_self none
  have hsame := congrArg (fun n => n.at? q)
    (hi.tracked_remark mark n (g := g) (fun l => ite_self none) fun m => if_pos rfl)
  simp only [hf.at?] at hsame
  obtain ⟨name,hname⟩ := Option.isSome_iff_exists.mp hq
  obtain ⟨l,hl,htaken⟩ := Option.bind_eq_some_iff.mp hname
  obtain ⟨a,ha,rfl⟩ := Option.map_eq_some_iff.mp hl
  rw [ha] at hsame
  obtain ⟨b,hb,heq⟩ := Option.map_eq_some_iff.mp hsame.symm
  have hlabel : b.label = a.label := by rw [← hf.label b, heq, hf.label]
  have hblock : a.label ≠ .blockStatement := fun hl => by
    rw [hl] at htaken
    cases htaken
  have hmark := congrArg Node.mark? heq
  simp only [mark?_remark, hlabel, g, if_neg hblock] at hmark
  rw [markAt, markAt, ha, hb, Option.bind_some, Option.bind_some, hmark]

variable {mark n} (hmark : ∀ g : Option Nat → Option Nat, g none = none →
  ∀ n, mark (n.remark fun _ => g) = g (mark n))
include hmark

omit hi hmark in
/-- Runs over a tree whose own marks stay as they are. -/
private theorem runOnce_remark {r r' : Rule} {g : Option Nat → Option Nat} (hg : g none = none)
    (h : r.Follows r' (remark fun _ => g))
    (hn : ∀ q a k, n.at? q = some a → a.mark? = some k → g (some k) = some k) :
    (r'.runOnce n).1 = (r.runOnce n).1.remark fun _ => g := by
  rw [← h.runOnce (remark_remarks _ fun _ => hg), remark_eq_self]
  intro q a ha
  cases hk : a.mark? with
  | none => exact hg
  | some k => exact hn q a k ha hk

/-- A mark that is left in a run stands at the same place in the run with marks for new blocks. -/
theorem IgnoresMarks.markAt_tracked {q : Path} {k : Nat} (hq : (r.runOnce n).1.markAt q = some k) :
    ((r.tracked mark).runOnce n).1.markAt q = some k := by
  obtain ⟨a,ha,hk⟩ := Option.bind_eq_some_iff.mp hq
  -- A third run marks new blocks by numbers that are not in use. Without these it is the one run, and
  -- modulo the first of them the other.
  obtain ⟨N,hN⟩ : ∃ N, ∀ k ∈ n.marks, k < N := ⟨n.nextMark,fun _ => lt_nextMark⟩
  have hmarks (q : Path) (a : Node) (k : Nat) (ha : n.at? q = some a) (hk : a.mark? = some k) : k < N :=
    hN k (marks_at? ha (mark_mem_marks hk))
  let fresh : Node → Option Nat := fun n => (mark n).map (N + ·)
  have hfilter : Remarks (remark fun _ m => m.filter (· < N)) := remark_remarks _ fun _ => rfl
  have hmod : Remarks (remark fun _ m => m.map (· % N)) := remark_remarks _ fun _ => rfl
  have hone : (r.runOnce n).1 = ((r.tracked fresh).runOnce n).1.remark fun _ m => m.filter (· < N) := by
    refine runOnce_remark rfl ?_ fun q a k ha hk => by simp [hmarks q a k ha hk]
    refine hi.follows hfilter (places_tracked hi.early fresh) (places_self hi.early) fun n cs => ?_
    rw [remark_marked]
    congr 1
    cases h : mark n <;> simp [fresh, h]
  have hother : ((r.tracked mark).runOnce n).1 =
      ((r.tracked fresh).runOnce n).1.remark fun _ m => m.map (· % N) := by
    refine runOnce_remark rfl ?_ fun q a k ha hk => by simp [Nat.mod_eq_of_lt (hmarks q a k ha hk)]
    refine hi.follows hmod (places_tracked hi.early fresh) (places_tracked hi.early mark) fun n cs => ?_
    rw [remark_marked, hmark _ rfl]
    congr 1
    cases h : mark n <;> simp [fresh, h]
  rw [hone, hfilter.at?, Option.map_eq_some_iff] at ha
  obtain ⟨c,hc,rfl⟩ := ha
  rw [mark?_remark, Option.filter_eq_some_iff, decide_eq_true_iff] at hk
  rw [hother, markAt, hmod.at?, hc, Option.map_some, Option.bind_some, mark?_remark, hk.1,
    Option.map_some, Nat.mod_eq_of_lt hk.2]

end Runs

end Rule
end Unravel
