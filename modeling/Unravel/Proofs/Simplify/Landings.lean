import Unravel.Proofs.Scope.Survival
import Unravel.Proofs.Simplify.Dispatch

/-! Where jumps land: at a loop or a switch around them, or at a statement with their label, within
one function. Marks tell the statements around a node before and after a pass. -/

namespace Unravel

namespace Label

def isLoop : Label → Bool
  | .whileStatement | .doWhileStatement | .forStatement | .forInStatement _ | .forOfStatement => true
  | _ => false

/-- The kinds that no jump leaves. -/
def isFunction : Label → Bool
  | .functionDeclaration .. | .functionExpression _ | .arrowFunctionExpression _ => true
  | _ => false

end Label

/-- A node as a jump in it sees it: its kind, the name that it labels its statement with, and the
labels right above it. -/
structure Stop where
  label : Label
  name : Option String
  names : List String

namespace Node

def stop (names : List String) (n : Node) : Stop := ⟨n.label, n.labelName?, names⟩

/-- The labels right above the subtrees of a node. -/
def namesBelow (names : List String) (n : Node) : List String :=
  if n.label = .labeledStatement then n.labelName?.toList ++ names else []

/-- The nodes above a position, innermost first, each with its place. -/
def stops (names : List String) (p : Path) (n : Node) : Path → List (Path × Stop)
  | [] => []
  | i :: q =>
    match n.subtrees[i]? with
    | some c => c.2.stops (n.namesBelow names) (p ++ [i]) q ++ [(p, n.stop names)]
    | none => []

/-- Whether a jump may land at a node around it. -/
def landsAt (jump : Node) (s : Stop) : Bool :=
  match jump.label, jump.labelName? with
  | .breakStatement, none => s.label.isLoop || s.label = .switchStatement
  | .breakStatement, some name => s.label = .labeledStatement && s.name = some name
  | .continueStatement, none => s.label.isLoop
  | .continueStatement, some name => s.label.isLoop && s.names.contains name
  | _, _ => false

/-- The nodes around a jump that it may land at, in the function it stands in. -/
def landings {α : Type} (jump : Node) (around : List (α × Stop)) : List (α × Stop) :=
  (around.takeWhile fun a => !a.2.label.isFunction).filter fun a => jump.landsAt a.2

/-- Every jump of a tree has somewhere to land. -/
def JumpsLegal (n : Node) : Prop :=
  ∀ e ∈ n.positions [], ∀ c ∈ n.at? e.1, Simplify.isJump c = true →
    c.landings (n.stops [] [] e.1) ≠ []

instance (n : Node) : Decidable n.JumpsLegal :=
  inferInstanceAs (Decidable (∀ e ∈ n.positions [], ∀ c ∈ n.at? e.1, Simplify.isJump c = true →
    c.landings (n.stops [] [] e.1) ≠ []))

theorem jumpsLegal_iff {n : Node} : n.JumpsLegal ↔ ∀ q c, n.at? q = some c →
    Simplify.isJump c = true → c.landings (n.stops [] [] q) ≠ [] := by
  constructor
  · intro h q c hc
    exact h (q, c.label) (mem_positions.mpr ⟨q,rfl,by rw [labelAt?, hc]; rfl⟩) c hc
  · intro h e he c hc
    exact h e.1 c hc

/-- Where a jump lands is told by its kind and the label it names. -/
theorem landings_congr {n m : Node} (hl : n.label = m.label) (hname : n.labelName? = m.labelName?) {α : Type}
    (around : List (α × Stop)) : n.landings around = m.landings around := by
  unfold landings landsAt
  rw [hl, hname]

theorem landings_map {α β : Type} (g : α → β) (jump : Node) (around : List (α × Stop)) :
    jump.landings (around.map fun a => (g a.1, a.2)) =
      (jump.landings around).map fun a => (g a.1, a.2) := by
  rw [landings, landings, List.takeWhile_map, List.filter_map]
  rfl

theorem labelName?_plain (n : Node) : n.plain.labelName? = n.labelName? := by
  rw [labelName?, child?_plain, labelName?, Option.bind_map]
  refine Option.bind_congr fun c _ => ?_
  rw [Function.comp_apply, identifierName?, label_plain, identifierName?]

theorem isJump_plain (n : Node) : Simplify.isJump n.plain = Simplify.isJump n := by
  simp [Simplify.isJump]

theorem landings_plain (jump : Node) {α : Type} (around : List (α × Stop)) :
    jump.plain.landings around = jump.landings around :=
  landings_congr (label_plain jump) (labelName?_plain jump) around

theorem stops_plain (names : List String) (p : Path) (n : Node) (q : Path) :
    n.plain.stops names p q = n.stops names p q := by
  induction q generalizing names p n with
  | nil => rfl
  | cons i q ih =>
    rw [stops, stops, subtrees_plain, List.getElem?_map]
    cases n.subtrees[i]? with
    | none => rfl
    | some c => simp [namesBelow, stop, labelName?_plain, ih]

theorem jumpsLegal_plain {n : Node} : n.plain.JumpsLegal ↔ n.JumpsLegal := by
  simp only [jumpsLegal_iff, at?_plain, Option.map_eq_some_iff, stops_plain]
  constructor
  · intro h q c hc hjump
    rw [← landings_plain]
    exact h q c.plain ⟨c,hc,rfl⟩ (by rwa [isJump_plain])
  · rintro h q _ ⟨c,hc,rfl⟩ hjump
    rw [landings_plain]
    exact h q c hc (by rwa [← isJump_plain])

/-! ### Marks for places -/

/-- A node stands in another, below nodes that are told innermost first by their marks. -/
inductive Stands : List String → Node → List (Option Nat × Stop) → Node → Prop
  | here {names : List String} {n : Node} : Stands names n [] n
  | inside {names : List String} {n x : Node} {c : Field × Node} {around : List (Option Nat × Stop)}
    (hc : c ∈ n.subtrees) (h : Stands (n.namesBelow names) c.2 around x) :
    Stands names n (around ++ [(n.mark?, n.stop names)]) x

section Stands
variable {names : List String} {n x y : Node} {around around' : List (Option Nat × Stop)}

theorem stands_iff {root : Node} {p : Path} (hn : root.at? p = some n) :
    Stands names n around x ↔ ∃ q, n.at? q = some x ∧
      (n.stops names p q).map (fun a => (root.markAt a.1, a.2)) = around := by
  constructor
  · intro h
    induction h generalizing p with
    | here => exact ⟨[],rfl,rfl⟩
    | @inside names n x c around hc h ih =>
      obtain ⟨i,hi⟩ := List.mem_iff_getElem?.mp hc
      obtain ⟨q,hq,rfl⟩ := ih (at?_snoc hn hi)
      refine ⟨i :: q,by rw [at?, hi]; exact hq,?_⟩
      simp [stops, hi, markAt, hn]
  · rintro ⟨q,hq,rfl⟩
    induction q generalizing names n p with
    | nil =>
      obtain rfl := Option.some.inj hq
      exact .here
    | cons i q ih =>
      obtain ⟨c,hi,hq⟩ := Option.bind_eq_some_iff.mp hq
      have hinside : Stands names n _ x := .inside (List.mem_of_getElem? hi) (ih (at?_snoc hn hi) hq)
      simpa [stops, hi, markAt, hn] using hinside

theorem stands_iff_at : Stands names n around x ↔ ∃ q, n.at? q = some x ∧
    (n.stops names [] q).map (fun a => (n.markAt a.1, a.2)) = around := stands_iff rfl

/-- The labels right above what stands below the given nodes. -/
def namesUnder (names : List String) : List (Option Nat × Stop) → List String
  | [] => names
  | (_, s) :: _ => if s.label = .labeledStatement then s.name.toList ++ s.names else []

theorem Stands.trans (h : Stands names n around x) (h' : Stands (namesUnder names around) x around' y) :
    Stands names n (around' ++ around) y := by
  induction h with
  | here => rwa [List.append_nil]
  | @inside names n x c around hc h ih =>
    have hnames : namesUnder names (around ++ [(n.mark?, n.stop names)]) =
        namesUnder (n.namesBelow names) around := by
      cases around <;> rfl
    rw [hnames] at h'
    rw [← List.append_assoc]
    exact .inside hc (ih h')

theorem Stands.row (h : Stands names n around x) {f : Field} {c : Node} (hc : c ∈ x.row f) :
    Stands names n ((x.mark?, x.stop (namesUnder names around)) :: around) c :=
  h.trans (Stands.here.inside (mem_subtrees_of_row hc))

theorem Stands.marks (h : Stands names n around x) : (∀ k ∈ x.marks, k ∈ n.marks) ∧
    ∀ a ∈ around, ∀ k, a.1 = some k → k ∈ n.marks := by
  induction h with
  | here => exact ⟨fun _ => id,by simp⟩
  | @inside names n x c around hc h ih =>
    have hsub {k : Nat} (hk : k ∈ c.2.marks) : k ∈ n.marks := by
      obtain ⟨i,hi⟩ := List.mem_iff_getElem?.mp hc
      exact marks_at? (q := [i]) (by rw [at?, hi]; rfl) hk
    refine ⟨fun k hk => hsub (ih.1 k hk),List.forall_mem_append.mpr ⟨fun a ha k hk => ?_,?_⟩⟩
    · exact hsub (ih.2 a ha k hk)
    · rw [List.forall_mem_singleton]
      exact fun k hk => mark_mem_marks hk

/-- What is around a node stands itself in the outer one. -/
theorem Stands.exists_of_mem (h : Stands names n around x) {a : Option Nat × Stop} (ha : a ∈ around) :
    ∃ inner outer y, around = inner ++ a :: outer ∧ Stands names n outer y ∧ y.mark? = a.1 ∧
      y.label = a.2.label := by
  induction h with
  | here => cases ha
  | @inside names n x c around hc h ih =>
    rcases List.mem_append.mp ha with ha | ha
    · obtain ⟨inner,outer,y,rfl,hy,hmark,hl⟩ := ih ha
      exact ⟨inner,_,y,by simp,.inside hc hy,hmark,hl⟩
    · obtain rfl := List.mem_singleton.mp ha
      exact ⟨around,[],n,rfl,.here,rfl,rfl⟩

theorem Stands.isMarked (h : Stands names n around x) (hn : n.AllMarked) : x.mark?.isSome := by
  obtain ⟨q,hq,-⟩ := stands_iff_at.mp h
  exact hn q x hq

theorem exists_stands (names : List String) {k : Nat} (hk : k ∈ n.marks) :
    ∃ around x, Stands names n around x ∧ x.mark? = some k := by
  obtain ⟨q,hq⟩ := exists_markAt hk
  obtain ⟨x,hx,hmark⟩ := Option.bind_eq_some_iff.mp hq
  exact ⟨_,x,stands_iff_at.mpr ⟨q,hx,rfl⟩,hmark⟩

/-- Where no mark stands twice, a mark tells what is around it. -/
theorem Stands.unique (hn : n.marks.Nodup) (h : Stands names n around x)
    (h' : Stands names n around' y) {k : Nat} (hx : x.mark? = some k) (hy : y.mark? = some k) :
    around = around' := by
  obtain ⟨q,hq,rfl⟩ := stands_iff_at.mp h
  obtain ⟨q',hq',rfl⟩ := stands_iff_at.mp h'
  obtain rfl := markAt_inj hn (p := q) (q := q') (k := k) (by rw [markAt, hq]; exact hx)
    (by rw [markAt, hq']; exact hy)
  rfl

end Stands

/-! ### What a pass leaves around a node -/

/-- Whether a node has one of the given marks. -/
def isLeft (ks : List Nat) (a : Option Nat × Stop) : Bool := a.1.any ks.contains

/-- Around a node those with the given marks are left, and with them every function. Whatever else is
there afterwards is a new block. -/
structure Thins (ks : List Nat) (around after : List (Option Nat × Stop)) : Prop where
  left : after.filter (fun a => a.1.isSome) = around.filter (isLeft ks)
  functions : ∀ a ∈ around, a.2.label.isFunction = true → isLeft ks a = true
  new : ∀ a ∈ after, a.1 = none → a.2.label = .blockStatement

namespace Thins
variable {ks ks' : List Nat} {a b c a' b' : List (Option Nat × Stop)}

theorem isLeft_iff {s : Option Nat × Stop} : isLeft ks s = true ↔ ∃ k ∈ ks, s.1 = some k := by
  obtain ⟨m,s⟩ := s
  cases m <;> simp [isLeft]

theorem append (h : Thins ks a b) (h' : Thins ks a' b') : Thins ks (a ++ a') (b ++ b') where
  left := by rw [List.filter_append, List.filter_append, h.left, h'.left]
  functions := List.forall_mem_append.mpr ⟨h.functions,h'.functions⟩
  new := List.forall_mem_append.mpr ⟨h.new,h'.new⟩

/-- Only the marks that were there before count. -/
theorem congr (h : Thins ks a b) (hks : ∀ s ∈ a, ∀ k, s.1 = some k → (k ∈ ks ↔ k ∈ ks')) :
    Thins ks' a b := by
  have hsame : ∀ s ∈ a, isLeft ks s = isLeft ks' s := by
    intro s hs
    rw [Bool.eq_iff_iff, isLeft_iff, isLeft_iff]
    constructor
    · rintro ⟨k,hk,hm⟩
      exact ⟨k,(hks s hs k hm).mp hk,hm⟩
    · rintro ⟨k,hk,hm⟩
      exact ⟨k,(hks s hs k hm).mpr hk,hm⟩
  exact ⟨h.left.trans (List.filter_congr hsame),fun s hs hf => hsame s hs ▸ h.functions s hs hf,h.new⟩

theorem trans (h : Thins ks a b) (h' : Thins ks' b c) (hks : ∀ k ∈ ks', k ∈ ks) :
    Thins ks' a c where
  left := by
    have hall : ∀ s, isLeft ks' s = (isLeft ks' s && s.1.isSome) := by
      rintro ⟨m,s⟩
      cases m <;> simp [isLeft]
    have hsub : ∀ s, (isLeft ks' s && isLeft ks s) = isLeft ks' s := by
      intro s
      rw [Bool.and_eq_left_iff_imp, isLeft_iff, isLeft_iff]
      exact fun ⟨k,hk,hm⟩ => ⟨k,hks k hk,hm⟩
    rw [h'.left, List.filter_congr fun s _ => hall s, ← List.filter_filter, h.left,
      List.filter_filter]
    exact List.filter_congr fun s _ => hsub s
  functions s hs hf := by
    have hmem : s ∈ b.filter fun s => s.1.isSome := by
      rw [h.left]
      exact List.mem_filter.mpr ⟨hs,h.functions s hs hf⟩
    exact h'.functions s (List.mem_filter.mp hmem).1 hf
  new := h'.new

/-- All that is there stays. -/
theorem refl (h : ∀ s ∈ a, isLeft ks s = true ∨ s.1 = none ∧ s.2.label = .blockStatement) :
    Thins ks a a where
  left := List.filter_congr fun s hs => by
    rcases h s hs with hleft | ⟨hnone,-⟩
    · obtain ⟨k,-,hm⟩ := isLeft_iff.mp hleft
      rw [hleft, hm]
      rfl
    · rw [isLeft, hnone]
      rfl
  functions s hs hf := (h s hs).resolve_right fun hnew => by rw [hnew.2] at hf; cases hf
  new s hs hnone := by
    rcases h s hs with hleft | ⟨-,hl⟩
    · obtain ⟨k,-,hm⟩ := isLeft_iff.mp hleft
      rw [hnone] at hm
      cases hm
    · exact hl

/-- Nothing is left, or a new block. -/
theorem gone (ha : ∀ s ∈ a, isLeft ks s = false ∧ s.2.label.isFunction = false)
    (hb : ∀ s ∈ b, s.1 = none ∧ s.2.label = .blockStatement) : Thins ks a b where
  left := by
    rw [List.filter_eq_nil_iff.mpr fun s hs => by simp [(hb s hs).1],
      List.filter_eq_nil_iff.mpr fun s hs => by simp [(ha s hs).1]]
  functions s hs hf := by
    rw [(ha s hs).2] at hf
    cases hf
  new s hs _ := (hb s hs).2

private theorem takeWhile_filter {α : Type} {P Q : α → Bool} {xs : List α}
    (h : ∀ x ∈ xs, Q x = false → P x = true) :
    (xs.filter P).takeWhile Q = (xs.takeWhile Q).filter P := by
  induction xs with
  | nil => rfl
  | cons x xs ih =>
    obtain ⟨hx,hxs⟩ := List.forall_mem_cons.mp h
    cases hq : Q x with
    | true => cases hp : P x <;> simp [hq, hp, ih hxs]
    | false => simp [hq, hx hq]

/-- A jump lands at what is left of where it landed, and nowhere else. -/
theorem landings (h : Thins ks a b) (jump : Node) :
    jump.landings b ≠ [] ↔ ∃ s ∈ jump.landings a, isLeft ks s = true := by
  have hjump {s : Stop} (hs : s.label = .blockStatement) : jump.landsAt s = false := by
    unfold landsAt
    split <;> simp [hs, Label.isLoop]
  have hmarked : ∀ s ∈ b, (!s.2.label.isFunction) = false → s.1.isSome = true := by
    intro s hs hf
    refine Option.isSome_iff_ne_none.mpr fun hnone => ?_
    rw [h.new s hs hnone] at hf
    cases hf
  have hfunctions : ∀ s ∈ a, (!s.2.label.isFunction) = false → isLeft ks s = true :=
    fun s hs hf => h.functions s hs (by simpa using hf)
  have hsame := (takeWhile_filter hmarked).symm.trans
    ((congrArg (List.takeWhile _) h.left).trans (takeWhile_filter hfunctions))
  have hmem (s : Option Nat × Stop) : s ∈ jump.landings b ↔ s ∈ jump.landings a ∧ isLeft ks s = true := by
    have heq := congrArg (s ∈ ·) hsame
    simp only [List.mem_filter, eq_iff_iff] at heq
    rw [Node.landings, Node.landings, List.mem_filter, List.mem_filter, and_right_comm, ← heq,
      and_right_comm]
    refine (and_iff_left_of_imp fun hs => ?_).symm
    refine Option.isSome_iff_ne_none.mpr fun hnone => ?_
    have hb := h.new s ((List.takeWhile_sublist _).subset hs.1) hnone
    rw [hjump hb] at hs
    cases hs.2
  constructor
  · intro hne
    obtain ⟨s,hs⟩ := List.exists_mem_of_ne_nil _ hne
    exact ⟨s,(hmem s).mp hs⟩
  · rintro ⟨s,hs⟩
    exact List.ne_nil_of_mem ((hmem s).mpr hs)

end Thins

end Node

end Unravel
