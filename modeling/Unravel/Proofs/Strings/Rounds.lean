import Unravel.Proofs.Strings.Survivors
import Unravel.Strings.Resolver

/-! What a resolution does to its state, round by round. The tree stays as it is, strings and removed
nodes are only added, and a round removes its decoders only after it has settled all their calls. -/

namespace Unravel

/-- A tree whose nodes have subtrees in the slots of their kinds only, and at most one in a slot
that holds one. -/
def Node.Slotted (n : Node) : Prop :=
  ∀ e ∈ n.located [], (∀ c ∈ e.2.subtrees, c.1 ∈ e.2.label.slots.map Slot.field) ∧
    ∀ s ∈ e.2.label.slots, s = .one s.field → (e.2.row s.field).length ≤ 1

instance (n : Node) : Decidable n.Slotted :=
  inferInstanceAs (Decidable (∀ e ∈ n.located [],
    (∀ c ∈ e.2.subtrees, c.1 ∈ e.2.label.slots.map Slot.field) ∧
      ∀ s ∈ e.2.label.slots, s = .one s.field → (e.2.row s.field).length ≤ 1))

theorem Node.Slotted.at {n c : Node} {p : Path} (h : n.Slotted) (hp : n.at? p = some c) :
    (∀ e ∈ c.subtrees, e.1 ∈ c.label.slots.map Slot.field) ∧
      ∀ f, Slot.one f ∈ c.label.slots → (c.row f).length ≤ 1 := by
  obtain ⟨hfields,hone⟩ := h (p, c) (mem_located.mpr ⟨p,rfl,hp⟩)
  exact ⟨hfields,fun f hf => hone (.one f) hf rfl⟩

/-- A position of a declarator or of a declaration of variables. -/
def Node.IsVariable (tree : Node) (p : Path) : Prop :=
  tree.labelAt? p = some .variableDeclarator ∨
    ∃ kind, tree.labelAt? p = some (.variableDeclaration kind)

/-- The root stands in no row. -/
theorem Forest.ne_nil_of_inRow {f : Forest} {p : Path} (h : f.inRow p = true) : p ≠ [] := by
  rintro rfl
  simp [inRow] at h

/-- Whether a position is in a row depends on the tree only. -/
theorem Forest.inRow_congr {f g : Forest} (h : f.tree = g.tree) (p : Path) : f.inRow p = g.inRow p := by
  simp only [inRow, h]

/-- The members of a program stand in a row. -/
theorem Forest.inRow_program {f : Forest} {tree c : Node} (ht : f.tree = tree) (h : tree.IsProgram)
    (hs : tree.Slotted) {i : Nat} (hi : tree.at? [i] = some c) : f.inRow [i] = true := by
  obtain ⟨s,hl⟩ := h
  obtain ⟨e,he,-⟩ := Option.bind_eq_some_iff.mp hi
  have hfield := (hs.at (Node.at?_nil tree)).1 e (List.mem_of_getElem? he)
  rw [hl] at hfield
  obtain hbody : e.1 = .body := by simpa [Label.slots, Slot.field] using hfield
  simp only [inRow, ht, List.dropLast_singleton, Node.at?_nil, List.getLast?_singleton, he, hbody, hl]
  rfl

namespace Strings

variable {σ : Type} {st st' : State σ}

/-! ### The index -/

section Index
variable {tree : Node}

private theorem mem_indexed {α : Type} {find : Path → Node → Option α} {x : α} :
    x ∈ ((tree.located []).filterMap fun (p, n) => find p n) ↔
      ∃ p n, tree.at? p = some n ∧ find p n = some x := by
  rw [List.mem_filterMap]
  constructor
  · rintro ⟨⟨p,n⟩,hmem,hx⟩
    obtain ⟨q,hpq,hq⟩ := Node.mem_located.mp hmem
    obtain rfl : p = q := hpq
    exact ⟨p,n,hq,hx⟩
  · rintro ⟨p,n,hp,hx⟩
    exact ⟨(p, n),Node.mem_located.mpr ⟨p,rfl,hp⟩,hx⟩

theorem namedFunction?_some {p : Path} {n : Node} {f : NamedFunction}
    (h : namedFunction? p n = some f) :
    f.path = p ∧ (∃ a b, n.label = .functionDeclaration a b) ∧
      (n.child? .id).bind Node.identifierName? = some f.name := by
  unfold namedFunction? at h
  split at h
  · rename_i a b hl
    simp only [Option.bind_eq_bind, Option.bind_eq_some_iff, Option.pure_def] at h
    obtain ⟨name,hname,body,-,rfl⟩ := by simpa using h
    exact ⟨rfl,⟨a,b,hl⟩,Option.bind_eq_some_iff.mpr hname⟩
  · cases h

/-- An indexed function is the declaration at its position. -/
theorem mem_functions {f : NamedFunction} (h : f ∈ (Index.ofTree tree).functions) :
    ∃ n, tree.at? f.path = some n ∧ namedFunction? f.path n = some f := by
  obtain ⟨p,n,hp,hf⟩ := mem_indexed.mp h
  obtain ⟨rfl,-⟩ := namedFunction?_some hf
  exact ⟨n,hp,hf⟩

theorem labelAt?_function {f : NamedFunction} (h : f ∈ (Index.ofTree tree).functions) :
    ∃ a b, tree.labelAt? f.path = some (.functionDeclaration a b) := by
  obtain ⟨n,hn,hf⟩ := mem_functions h
  obtain ⟨-,⟨a,b,hl⟩,-⟩ := namedFunction?_some hf
  exact ⟨a,b,by simp [Node.labelAt?, hn, hl]⟩

theorem function_eq_of_path {f g : NamedFunction} (hf : f ∈ (Index.ofTree tree).functions)
    (hg : g ∈ (Index.ofTree tree).functions) (h : f.path = g.path) : f = g := by
  obtain ⟨n,hn,hf⟩ := mem_functions hf
  obtain ⟨m,hm,hg⟩ := mem_functions hg
  rw [h] at hn hf
  rw [Option.some.inj (hn.symm.trans hm)] at hf
  exact Option.some.inj (hf.symm.trans hg)

theorem aliasLink?_some {p : Path} {n : Node} {a : AliasLink} (h : aliasLink? p n = some a) :
    a.path = p ∧ n.label = .variableDeclarator ∧
      (n.child? .id).bind Node.identifierName? = some a.target ∧
        (n.child? .init).bind Node.identifierName? = some a.source := by
  unfold aliasLink? at h
  split at h
  · rename_i hl
    simp only [Option.bind_eq_bind, Option.bind_eq_some_iff, Option.pure_def] at h
    obtain ⟨target,htarget,source,hsource,rfl⟩ := by simpa using h
    exact ⟨rfl,hl,Option.bind_eq_some_iff.mpr htarget,Option.bind_eq_some_iff.mpr hsource⟩
  · cases h

/-- An indexed link is the declarator at its position. -/
theorem mem_aliases {a : AliasLink} (h : a ∈ (Index.ofTree tree).aliases) :
    ∃ n, tree.at? a.path = some n ∧ aliasLink? a.path n = some a := by
  obtain ⟨p,n,hp,ha⟩ := mem_indexed.mp h
  obtain ⟨rfl,-⟩ := aliasLink?_some ha
  exact ⟨n,hp,ha⟩

theorem labelAt?_alias {a : AliasLink} (h : a ∈ (Index.ofTree tree).aliases) :
    tree.labelAt? a.path = some .variableDeclarator := by
  obtain ⟨n,hn,ha⟩ := mem_aliases h
  obtain ⟨-,hl,-⟩ := aliasLink?_some ha
  simp [Node.labelAt?, hn, hl]

/-- An indexed call is the call at its position, with the name called and the arguments there. -/
theorem mem_calls {c : NamedCall} : c ∈ (Index.ofTree tree).calls ↔
    ∃ n, tree.at? c.path = some n ∧ n.label = .callExpression ∧
      (n.child? .callee).bind Node.identifierName? = some c.name ∧ c.arguments = n.row .arguments := by
  refine mem_indexed.trans ?_
  constructor
  · rintro ⟨p,n,hp,hc⟩
    unfold namedCall? at hc
    split at hc
    · rename_i hl
      simp only [Option.bind_eq_bind, Option.bind_eq_some_iff, Option.pure_def] at hc
      obtain ⟨name,hname,rfl⟩ := by simpa using hc
      exact ⟨n,hp,hl,Option.bind_eq_some_iff.mpr hname,rfl⟩
    · cases hc
  · rintro ⟨n,hn,hl,hname,hargs⟩
    refine ⟨c.path,n,hn,?_⟩
    simp only [namedCall?, hl, hname, Option.bind_eq_bind, Option.bind_some, Option.pure_def, ← hargs]

theorem call_eq_of_path {c d : NamedCall} (hc : c ∈ (Index.ofTree tree).calls)
    (hd : d ∈ (Index.ofTree tree).calls) (h : c.path = d.path) : c = d := by
  obtain ⟨n,hn,-,hname,hargs⟩ := mem_calls.mp hc
  obtain ⟨m,hm,-,hname',hargs'⟩ := mem_calls.mp hd
  rw [h] at hn
  obtain rfl := Option.some.inj (hn.symm.trans hm)
  obtain ⟨p,name,as⟩ := c
  obtain ⟨q,name',as'⟩ := d
  obtain rfl : p = q := h
  obtain rfl := Option.some.inj (hname.symm.trans hname')
  obtain rfl : as = as' := hargs.trans hargs'.symm
  rfl

end Index

/-! ### Removal -/

/-- A step that only takes out nodes in rows, all of them of one sort. -/
structure State.Shrinks (gone : Path → Prop) (st st' : State σ) : Prop where
  values : st'.values = st.values
  tree : st'.forest.tree = st.forest.tree
  linked : st.forest.Linked → st'.forest.Linked
  still : ∀ p ∈ st.forest.detached, p ∈ st'.forest.detached
  new : ∀ p ∈ st'.forest.detached, p ∈ st.forest.detached ∨ (st.forest.inRow p = true ∧ gone p)

namespace State

theorem Shrinks.refl (gone : Path → Prop) (st : State σ) : Shrinks gone st st :=
  ⟨rfl,rfl,id,fun _ h => h,fun _ h => .inl h⟩

theorem Shrinks.trans {gone : Path → Prop} {st'' : State σ} (h : Shrinks gone st st')
    (h' : Shrinks gone st' st'') : Shrinks gone st st'' := by
  refine ⟨h'.values.trans h.values,h'.tree.trans h.tree,h'.linked ∘ h.linked,
    fun p hp => h'.still p (h.still p hp),fun p hp => ?_⟩
  rcases h'.new p hp with hp | ⟨hr,hp⟩
  · exact h.new p hp
  · exact .inr ⟨by rwa [← Forest.inRow_congr h.tree],hp⟩

theorem Shrinks.mono {gone gone' : Path → Prop} (h : Shrinks gone st st')
    (hg : ∀ p, gone p → gone' p) : Shrinks gone' st st' :=
  ⟨h.values,h.tree,h.linked,h.still,fun p hp => (h.new p hp).imp_right fun hp => ⟨hp.1,hg p hp.2⟩⟩

theorem Shrinks.removed {gone : Path → Prop} (h : Shrinks gone st st') {p : Path}
    (hp : st.forest.Removed p) : st'.forest.Removed p := by
  obtain ⟨g,hg,hp⟩ := hp
  exact ⟨g,h.still g hg,hp⟩

theorem shrinks_remove (hl : st.forest.Linked) (p : Path) :
    Shrinks (· = p) st (st.remove p) := by
  unfold remove
  rcases Forest.detach_cases hl p with ⟨hd,-,hr⟩ | ⟨⟨e,hd⟩,-⟩
  · rw [hd]
    refine ⟨rfl,rfl,fun hl => hl.detach hd,fun q hq => List.mem_cons_of_mem _ hq,fun q hq => ?_⟩
    rcases List.mem_cons.mp hq with rfl | hq
    · exact .inr ⟨hr,rfl⟩
    · exact .inl hq
  · rw [hd]
    exact .refl _ st

/-- A node in a row is out after its removal. -/
theorem mem_detached_remove (hl : st.forest.Linked) {p : Path}
    (hr : st.forest.inRow p = true) : p ∈ (st.remove p).forest.detached := by
  have hne := Forest.ne_nil_of_inRow hr
  unfold remove
  rcases Forest.detach_cases hl p with ⟨hd,-,-⟩ | ⟨⟨e,hd⟩,hp⟩
  · rw [hd]
    exact List.mem_cons_self
  · rw [hd]
    rcases hp with hp | hp | hp
    · exact absurd hp hne
    · exact hp
    · simp [hr] at hp

theorem shrinks_foldl {α : Type} {gone : Path → Prop} {step : State σ → α → State σ} {xs : List α}
    (hstep : ∀ st' : State σ, st'.forest.tree = st.forest.tree → st'.forest.Linked →
      ∀ x ∈ xs, Shrinks gone st' (step st' x))
    (hl : st.forest.Linked) : Shrinks gone st (xs.foldl step st) := by
  induction xs generalizing st with
  | nil => exact .refl gone st
  | cons x xs ih =>
    have hx := hstep st rfl hl x List.mem_cons_self
    refine hx.trans (ih (fun st' ht hl' y hy => ?_) (hx.linked hl))
    exact hstep st' (ht.trans hx.tree) hl' y (List.mem_cons_of_mem _ hy)

/-- What each step does for its own member, and later steps keep, is done for all members. -/
theorem foldl_done {α : Type} {step : State σ → α → State σ} {xs : List α}
    (done : α → State σ → Prop) (hstep : ∀ st' : State σ, st'.forest.tree = st.forest.tree →
      st'.forest.Linked → ∀ x ∈ xs, Shrinks (fun _ => True) st' (step st' x) ∧ done x (step st' x))
    (hkeep : ∀ x {st₁ st₂ : State σ}, Shrinks (fun _ => True) st₁ st₂ → done x st₁ → done x st₂)
    (hl : st.forest.Linked) : ∀ x ∈ xs, done x (xs.foldl step st) := by
  induction xs generalizing st with
  | nil => simp
  | cons x xs ih =>
    obtain ⟨hx,hdone⟩ := hstep st rfl hl x List.mem_cons_self
    have hlater (st' : State σ) (ht : st'.forest.tree = (step st x).forest.tree)
        (hl' : st'.forest.Linked) (y : α) (hy : y ∈ xs) :=
      hstep st' (ht.trans hx.tree) hl' y (List.mem_cons_of_mem _ hy)
    have hl' := hx.linked hl
    have hrest : Shrinks (fun _ => True) (step st x) (xs.foldl step (step st x)) :=
      shrinks_foldl (fun st' ht hl' y hy => (hlater st' ht hl' y hy).1) hl'
    exact List.forall_mem_cons.mpr ⟨hkeep x hrest hdone,ih hlater hl'⟩

/-- All nodes in rows are out after their removal. -/
theorem mem_detached_foldl (hl : st.forest.Linked) (ps : List Path) :
    ∀ p ∈ ps, st.forest.inRow p = true → p ∈ (ps.foldl remove st).forest.detached := by
  refine foldl_done (fun p st' => st.forest.inRow p = true → p ∈ st'.forest.detached)
    (fun st' ht hl' p _ => ⟨?_,fun hr => ?_⟩) (fun p _ _ hs hp hr => hs.still p (hp hr)) hl
  · exact (shrinks_remove hl' p).mono fun _ _ => trivial
  · exact mem_detached_remove hl' (by rwa [Forest.inRow_congr ht])

/-- A declarator goes alone or with the declaration that it is the last of. -/
theorem shrinks_removeDeclarator (hl : st.forest.Linked) (hs : st.forest.tree.Slotted)
    (p : Path) :
    Shrinks (fun q => q = p ∨ q = p.dropLast ∧ st.forest.tree.IsVariable q) st
      (st.removeDeclarator p) := by
  have halone : Shrinks (fun q => q = p ∨ q = p.dropLast ∧ st.forest.tree.IsVariable q) st
      (st.remove p) := (shrinks_remove hl p).mono fun _ => .inl
  unfold removeDeclarator
  split
  · rename_i declaration hparent
    obtain rfl := Forest.eq_of_parent? hl hparent
    simp only
    split
    · rename_i hleft
      cases hd : st.forest.tree.at? p.dropLast with
      | none => simp [Forest.node?, hd] at hleft
      | some d =>
        simp only [Forest.node?, hd, Option.map_some, Option.getD_some] at hleft
        -- The row of declarations is not empty, and only declarations of variables have one.
        obtain ⟨c,hc⟩ := List.exists_mem_of_length_eq_add_one (n := 0) hleft
        obtain ⟨e,he,-⟩ := List.mem_map.mp hc
        obtain ⟨he,hef⟩ := List.mem_filter.mp he
        obtain ⟨e',he',hee⟩ := Node.mem_edit_none he
        have hfield := (hs.at hd).1 e' he'
        rw [hee, of_decide_eq_true hef] at hfield
        obtain ⟨kind,hkind⟩ : ∃ kind, d.label = .variableDeclaration kind := by
          revert hfield
          cases d.label <;> simp [Label.slots, Slot.field]
        refine (shrinks_remove hl p.dropLast).mono ?_
        rintro _ rfl
        exact .inr ⟨rfl,.inr ⟨kind,by simp [Node.labelAt?, hd, hkind]⟩⟩
    · exact halone
  · exact halone

/-- A declarator is gone, or it or its declaration stands in no row. -/
def Drops (st : State σ) (a : AliasLink) : Prop :=
  st.forest.Removed a.path ∨ st.forest.inRow a.path = false ∨ st.forest.inRow a.path.dropLast = false

theorem Drops.mono {gone : Path → Prop} (h : Shrinks gone st st') {a : AliasLink} (ha : st.Drops a) :
    st'.Drops a := by
  rcases ha with ha | ha | ha
  · exact .inl (h.removed ha)
  · exact .inr (.inl (by rwa [Forest.inRow_congr h.tree]))
  · exact .inr (.inr (by rwa [Forest.inRow_congr h.tree]))

theorem drops_removeDeclarator (hl : st.forest.Linked) (a : AliasLink) :
    (st.removeDeclarator a.path).Drops a := by
  have halone : (st.remove a.path).Drops a := by
    cases hr : st.forest.inRow a.path with
    | true => exact .inl ⟨_,mem_detached_remove hl hr,List.prefix_refl _⟩
    | false => exact .inr (.inl (by rw [Forest.inRow_congr (shrinks_remove hl _).tree, hr]))
  have hwhole : (st.remove a.path.dropLast).Drops a := by
    cases hr : st.forest.inRow a.path.dropLast with
    | true => exact .inl ⟨_,mem_detached_remove hl hr,List.dropLast_prefix _⟩
    | false => exact .inr (.inr (by rw [Forest.inRow_congr (shrinks_remove hl _).tree, hr]))
  unfold removeDeclarator
  split
  · rename_i declaration hparent
    obtain rfl := Forest.eq_of_parent? hl hparent
    simp only
    split
    · exact hwhole
    · exact halone
  · exact halone

end State

/-- A declarator that passes one of some names on, or the declaration that it stands in. -/
def PassesOn (tree : Node) (names : List String) (q : Path) : Prop :=
  tree.IsVariable q ∧ ∃ a ∈ (Index.ofTree tree).aliases, a.source ∈ names ∧
    (q = a.path ∨ q = a.path.dropLast)

namespace State

/-- What a removal comes to: machinery goes as far as it stands in rows, and so do the declarators
outside it that pass some names on. -/
structure Clears (tree : Node) (machinery : List Path) (names : List String) (st st' : State σ) :
    Prop where
  shrinks : Shrinks (fun q => q ∈ machinery ∨ PassesOn tree names q) st st'
  rows : ∀ p ∈ machinery, st.forest.inRow p = true → p ∈ st'.forest.detached
  links : ∀ a ∈ (Index.ofTree tree).aliases, a.source ∈ names →
    st'.Drops a ∨ ∃ m ∈ machinery, m <+: a.path

theorem clears_removeMachinery {tree : Node} (ht : st.forest.tree = tree)
    (hl : st.forest.Linked) (hs : tree.Slotted) (machinery : List Path)
    (names : List String) :
    Clears tree machinery names st (st.removeMachinery (Index.ofTree tree) machinery names) := by
  have hout : Shrinks (· ∈ machinery) st (machinery.foldl remove st) :=
    shrinks_foldl (fun _ _ hl p hp => (shrinks_remove hl p).mono fun q hq => hq ▸ hp) hl
  have ht' := hout.tree.trans ht
  have hl' := hout.linked hl
  have hlink : ∀ st' : State σ, st'.forest.tree = (machinery.foldl remove st).forest.tree →
      st'.forest.Linked → ∀ a ∈ (Index.ofTree tree).aliases, a.source ∈ names →
        Shrinks (PassesOn tree names) st' (st'.removeDeclarator a.path) := by
    intro st' htree hlinked a ha hname
    have htree := htree.trans ht'
    refine (shrinks_removeDeclarator hlinked (by rwa [htree]) a.path).mono ?_
    rintro q (rfl | ⟨rfl,hq⟩)
    · exact ⟨.inl (labelAt?_alias ha),a,ha,hname,.inl rfl⟩
    · exact ⟨by rwa [htree] at hq,a,ha,hname,.inr rfl⟩
  have hrest : Shrinks (PassesOn tree names) (machinery.foldl remove st)
      (st.removeMachinery (Index.ofTree tree) machinery names) := by
    refine shrinks_foldl (fun st' htree hlinked a ha => ?_) hl'
    split
    · rename_i hcond
      exact hlink st' htree hlinked a ha (by simpa using (Bool.and_eq_true_iff.mp hcond).1)
    · exact .refl _ st'
  refine ⟨(hout.mono fun q => .inl).trans (hrest.mono fun q => .inr),fun p hp hr => ?_,?_⟩
  · exact hrest.still p (mem_detached_foldl hl machinery p hp hr)
  · refine foldl_done (fun a st' => a.source ∈ names → st'.Drops a ∨ ∃ m ∈ machinery, m <+: a.path)
      (fun st' htree hlinked a ha => ?_)
      (fun a _ _ hs hdone hname => (hdone hname).imp_left (Drops.mono hs)) hl'
    · split
      · rename_i hcond
        have hname : a.source ∈ names := by simpa using (Bool.and_eq_true_iff.mp hcond).1
        exact ⟨(hlink st' htree hlinked a ha hname).mono fun _ _ => trivial,
          fun _ => .inl (drops_removeDeclarator hlinked a)⟩
      · rename_i hcond
        refine ⟨.refl _ st',fun hname => .inr (Forest.prefix_of_isInside hlinked ?_)⟩
        simpa [hname] using hcond

end State

/-! ### Calls -/

section Calls
variable {ε : Type} {setup : Setup ε} {index : Index}

/-- The calls to be run are some of those given, and their arguments are plain literals. -/
theorem resolvable_spec {calls : List NamedCall} {found : List (Path × List Text)}
    (h : setup.resolvable calls = .ok found) :
    (found.map Prod.fst).Sublist (calls.map NamedCall.path) ∧
      ∀ e ∈ found, ∃ c ∈ calls, c.path = e.1 ∧ (Node.literalArguments? c.arguments).isSome := by
  induction calls generalizing found with
  | nil =>
    obtain rfl := Except.ok.inj h
    simp
  | cons c calls ih =>
    rw [Setup.resolvable] at h
    cases hw : setup.written c.arguments with
    | error e => simp [hw, bind, Except.bind] at h
    | ok args =>
      cases hr : setup.resolvable calls with
      | error e => simp [hw, hr, bind, Except.bind] at h
      | ok more =>
        simp only [hw, hr, bind, Except.bind, pure, Except.pure, Except.ok.injEq] at h
        obtain ⟨hsub,hmore⟩ := ih hr
        have hargs : args = Node.literalArguments? c.arguments := by
          simp only [Setup.written] at hw
          split at hw
          · cases hw
          · exact (Except.ok.inj hw).symm
        have hmore : ∀ e ∈ more, ∃ d ∈ c :: calls, d.path = e.1 ∧
            (Node.literalArguments? d.arguments).isSome := by
          intro e he
          obtain ⟨d,hd,hde⟩ := hmore e he
          exact ⟨d,List.mem_cons_of_mem _ hd,hde⟩
        subst h
        cases args with
        | none => exact ⟨hsub.cons c.path,hmore⟩
        | some a =>
          refine ⟨hsub.cons_cons c.path,fun e he => ?_⟩
          rcases List.mem_cons.mp he with rfl | he
          · exact ⟨c,List.mem_cons_self,rfl,by simp [← hargs]⟩
          · exact hmore e he

theorem evaluateCalls_paths (engine : Engine) (fragment : Text) (decoder : String)
    (calls : List (Path × List Text)) (cache : Cache) (s : engine.State) :
    (evaluateCalls engine fragment decoder calls cache s).1.map Prod.fst = calls.map Prod.fst := by
  induction calls generalizing cache s with
  | nil => rfl
  | cons c calls ih =>
    obtain ⟨p,args⟩ := c
    rw [evaluateCalls]
    split
    · simp [ih]
    · simp [ih]

/-- A call has its string, is gone already or lies in the machinery. -/
def State.Settles (st : State σ) (machinery : List Path) (c : NamedCall) : Prop :=
  (∃ v ∈ st.values, v.1 = c.path) ∨ st.forest.Removed c.path ∨ ∃ m ∈ machinery, m <+: c.path

theorem State.settles_of_not_mem_openCalls (hl : st.forest.Linked)
    (hat : ∀ c ∈ index.calls, ∃ n, st.forest.tree.at? c.path = some n) {machinery : List Path}
    {aliases : List String} {c : NamedCall} (hc : c ∈ index.calls) (ha : c.name ∈ aliases)
    (h : c ∉ st.openCalls index machinery aliases) : st.Settles machinery c := by
  by_cases hv : (st.values.any fun v => v.1 = c.path) = true
  · obtain ⟨v,hv,hp⟩ := List.any_eq_true.mp hv
    exact .inl ⟨v,hv,of_decide_eq_true hp⟩
  cases hi : st.forest.isInside c.path machinery with
  | true => exact .inr (.inr (Forest.prefix_of_isInside hl hi))
  | false =>
    cases hattached : st.forest.isAttached c.path with
    | false =>
      obtain ⟨n,hn⟩ := hat c hc
      exact .inr (.inl (Forest.removed_of_not_isAttached hl hn hattached))
    | true =>
      refine absurd (List.mem_filter.mpr ⟨hc,?_⟩) h
      simp only [Bool.not_eq_true] at hv
      simp [ha, hv, hi, hattached]

theorem State.Settles.mono {machinery machinery' : List Path} {c : NamedCall}
    (h : st.Settles machinery c) (hf : st'.forest = st.forest) (hv : ∀ v ∈ st.values, v ∈ st'.values)
    (hm : ∀ m ∈ machinery, m ∈ machinery') : st'.Settles machinery' c := by
  rcases h with ⟨v,hmem,hp⟩ | h | ⟨m,hmem,hp⟩
  · exact .inl ⟨v,hv v hmem,hp⟩
  · exact .inr (.inl (by rwa [hf]))
  · exact .inr (.inr ⟨m,hm m hmem,hp⟩)

/-- A step that only finds strings, for calls by some names whose arguments are plain literals. -/
structure State.Gains (index : Index) (names : String → Prop) (st st' : State σ) : Prop where
  forest : st'.forest = st.forest
  still : ∀ v ∈ st.values, v ∈ st'.values
  new : ∀ v ∈ st'.values, v ∈ st.values ∨ ∃ c ∈ index.calls, c.path = v.1 ∧ names c.name ∧
    (Node.literalArguments? c.arguments).isSome

theorem State.Gains.refl (names : String → Prop) (st : State σ) : Gains index names st st :=
  ⟨rfl,fun _ h => h,fun _ h => .inl h⟩

theorem State.Gains.trans {names : String → Prop} {st'' : State σ} (h : Gains index names st st')
    (h' : Gains index names st' st'') : Gains index names st st'' := by
  refine ⟨h'.forest.trans h.forest,fun v hv => h'.still v (h.still v hv),fun v hv => ?_⟩
  rcases h'.new v hv with hv | hv
  · exact h.new v hv
  · exact .inr hv

theorem State.Gains.mono {names names' : String → Prop} (h : Gains index names st st')
    (hn : ∀ s, names s → names' s) : Gains index names' st st' := by
  refine ⟨h.forest,h.still,fun v hv => (h.new v hv).imp_right ?_⟩
  rintro ⟨c,hc,hp,hs,hargs⟩
  exact ⟨c,hc,hp,hn _ hs,hargs⟩

theorem bind_ok {α β : Type} {x : Except ε α} {f : α → Except ε β} {b : β}
    (h : x >>= f = .ok b) : ∃ a, x = .ok a ∧ f a = .ok b := by
  cases x with
  | error e => cases h
  | ok a => exact ⟨a,rfl,h⟩

private theorem strings_sublist (found : List (Path × Option Text)) :
    ((found.filterMap fun (p, v) => v.map (p, ·)).map Prod.fst).Sublist (found.map Prod.fst) := by
  induction found with
  | nil => exact .slnil
  | cons e found ih =>
    obtain ⟨p,_ | v⟩ := e
    · exact ih.cons p
    · exact ih.cons_cons p

/-- What one decoder adds: strings for some of its open calls, all with plain literals for arguments.
If it says that none was left unresolved it had one at least, and there is a string for each. -/
theorem State.resolvePair_found {provider : Path} {rotation : Option Path} {decoder : NamedFunction}
    {aliases : List String} {st st' : State setup.engine.State} {full : Bool}
    (h : st.resolvePair setup index provider rotation decoder aliases = .ok (st', full)) :
    let calls := st.openCalls index ([provider] ++ rotation.toList ++ [decoder.path]) aliases
    ∃ found, st'.forest = st.forest ∧ st'.values = st.values ++ found ∧
      (found.map Prod.fst).Sublist (calls.map NamedCall.path) ∧
      (∀ v ∈ found, ∃ c ∈ calls, c.path = v.1 ∧ (Node.literalArguments? c.arguments).isSome) ∧
      (full = true → found ≠ [] ∧ found.map Prod.fst = calls.map NamedCall.path) := by
  intro calls
  have hnone : ∃ found, st.forest = st.forest ∧ st.values = st.values ++ found ∧
      (found.map Prod.fst).Sublist (calls.map NamedCall.path) ∧
      (∀ v ∈ found, ∃ c ∈ calls, c.path = v.1 ∧ (Node.literalArguments? c.arguments).isSome) ∧
      (false = true → found ≠ [] ∧ found.map Prod.fst = calls.map NamedCall.path) :=
    ⟨[],by simp⟩
  unfold resolvePair at h
  simp only at h
  split at h
  · obtain ⟨rfl,rfl⟩ := Prod.mk.inj (Except.ok.inj h)
    exact hnone
  rename_i hopen
  obtain ⟨fragment,-,h⟩ := bind_ok h
  obtain ⟨resolvable,hresolvable,h⟩ := bind_ok h
  obtain ⟨hsub,hargs⟩ := resolvable_spec hresolvable
  split at h
  · obtain ⟨rfl,rfl⟩ := Prod.mk.inj (Except.ok.inj h)
    exact hnone
  generalize hfound : (evaluateCalls setup.engine (Text.join [10] fragment) decoder.name resolvable []
    (setup.engine.opened st.machine)).1 = found at h
  have hpaths : found.map Prod.fst = resolvable.map Prod.fst := hfound ▸ evaluateCalls_paths ..
  have hran := hpaths ▸ strings_sublist found
  generalize (found.filterMap fun (p, v) => v.map (p, ·)) = strings at h hran
  obtain ⟨rfl,rfl⟩ := Prod.mk.inj (Except.ok.inj h)
  refine ⟨strings,rfl,rfl,hran.trans hsub,fun v hv => ?_,fun hfull => ?_⟩
  · obtain ⟨e,he,hev⟩ := List.mem_map.mp (hran.subset (List.mem_map_of_mem hv))
    obtain ⟨c,hc,hce,hlit⟩ := hargs e he
    exact ⟨c,hc,hce.trans hev,hlit⟩
  · -- As many strings as open calls means that none of these was passed over.
    have hlength := of_decide_eq_true hfull
    refine ⟨?_,(hran.trans hsub).eq_of_length (by simpa using hlength)⟩
    rintro rfl
    exact hopen (List.length_eq_zero_iff.mp hlength.symm)

/-- One decoder: strings are found for its calls, and for all of them that were open if it says so. -/
theorem State.resolvePair_spec {provider : Path} {rotation : Option Path} {decoder : NamedFunction}
    {aliases : List String} {st st' : State setup.engine.State} {full : Bool}
    (hl : st.forest.Linked) (hat : ∀ c ∈ index.calls, ∃ n, st.forest.tree.at? c.path = some n)
    (h : st.resolvePair setup index provider rotation decoder aliases = .ok (st', full)) :
    Gains index (· ∈ aliases) st st' ∧ (full = true → ∀ c ∈ index.calls, c.name ∈ aliases →
      st'.Settles ([provider] ++ rotation.toList ++ [decoder.path]) c) := by
  obtain ⟨found,hforest,hvalues,-,hcalls,hall⟩ := resolvePair_found h
  have hold (v) (hv : v ∈ st.values) : v ∈ st'.values := by simp [hvalues, hv]
  refine ⟨⟨hforest,hold,fun v hv => ?_⟩,fun hfull c hc ha => ?_⟩
  · rw [hvalues] at hv
    refine (List.mem_append.mp hv).imp_right fun hv => ?_
    obtain ⟨c,hc,hcv,hlit⟩ := hcalls v hv
    obtain ⟨hc,hopen⟩ := List.mem_filter.mp hc
    simp only [Bool.and_eq_true, List.contains_iff_mem] at hopen
    exact ⟨c,hc,hcv,hopen.1.1.1,hlit⟩
  · by_cases hopen : c ∈ st.openCalls index ([provider] ++ rotation.toList ++ [decoder.path]) aliases
    · obtain ⟨v,hv,hvc⟩ := List.mem_map.mp ((hall hfull).2 ▸ List.mem_map_of_mem hopen)
      exact .inl ⟨v,by simp [hvalues, hv],hvc⟩
    · exact (settles_of_not_mem_openCalls hl hat hc ha hopen).mono hforest hold fun _ hm => hm

/-- The decoders of a provider: all their calls are settled if all were resolved in full. -/
theorem State.resolveDecoders_spec {provider : Path} {rotation : Option Path}
    {decoders : List NamedFunction} {st st' : State setup.engine.State} {full : Bool}
    (hl : st.forest.Linked) (hat : ∀ c ∈ index.calls, ∃ n, st.forest.tree.at? c.path = some n)
    (h : State.resolveDecoders setup index provider rotation decoders st = .ok (st', full)) :
    Gains index (fun s => ∃ d ∈ decoders, s ∈ aliasesOf index.aliases d.name) st st' ∧
      (full = true → ∀ d ∈ decoders, ∀ c ∈ index.calls, c.name ∈ aliasesOf index.aliases d.name →
        st'.Settles ([provider] ++ rotation.toList ++ [d.path]) c) := by
  induction decoders generalizing st full with
  | nil =>
    obtain ⟨rfl,-⟩ := Prod.mk.inj (Except.ok.inj h)
    exact ⟨.refl _ st,by simp⟩
  | cons d decoders ih =>
    rw [resolveDecoders] at h
    obtain ⟨⟨st₁,one⟩,hpair,h⟩ := bind_ok h
    obtain ⟨⟨st₂,others⟩,hrest,h⟩ := bind_ok h
    obtain ⟨rfl,rfl⟩ := Prod.mk.inj (Except.ok.inj h)
    obtain ⟨hgain,hsettle⟩ := resolvePair_spec hl hat hpair
    obtain ⟨hgains,hsettles⟩ := ih (by rwa [hgain.forest]) (by rwa [hgain.forest]) hrest
    refine ⟨(hgain.mono fun s hs => ⟨d,List.mem_cons_self,hs⟩).trans (hgains.mono ?_),fun hfull => ?_⟩
    · rintro s ⟨e,he,hs⟩
      exact ⟨e,List.mem_cons_of_mem _ he,hs⟩
    · obtain ⟨hone,hothers⟩ := Bool.and_eq_true_iff.mp hfull
      refine List.forall_mem_cons.mpr ⟨fun c hc ha => ?_,hsettles hothers⟩
      exact (hsettle hone c hc ha).mono hgains.forest hgains.still fun _ hm => hm

end Calls

/-! ### Rounds -/

section Rounds
variable {ε : Type} {setup : Setup ε} {rotate : Bool} {tree : Node}

/-- A function that has no name of a provider. -/
def Index.IsDecoder (index : Index) (d : NamedFunction) : Prop :=
  d ∈ index.functions ∧ ∀ f ∈ index.functions, f.isProvider = true → f.name ≠ d.name

/-- A call by the name of a decoder, or by a name that passes it on. -/
def Index.Decodes (index : Index) (c : NamedCall) : Prop :=
  ∃ d, index.IsDecoder d ∧ c.name ∈ aliasesOf index.aliases d.name

/-- The machinery that a round works on. -/
structure Round (tree : Node) (provider : NamedFunction) (rotation : Option Path)
    (decoders : List NamedFunction) : Prop where
  provider : provider ∈ (Index.ofTree tree).functions ∧ provider.isProvider = true
  rotation : ∀ p, rotation = some p → ∃ i a b, p = [i] ∧
    tree.labelAt? p = some (.expressionStatement a b)
  decoders : ∀ d ∈ decoders, (Index.ofTree tree).IsDecoder d

/-- The functions that use the name of a provider and have none themselves. -/
def Index.decodersOf (index : Index) (provider : NamedFunction) : List NamedFunction :=
  index.functions.filter fun f =>
    !((index.functions.filter (·.isProvider)).map (·.name)).contains f.name &&
      f.uses.contains provider.name

theorem Index.isDecoder_of_mem {index : Index} {provider d : NamedFunction}
    (h : d ∈ index.decodersOf provider) : index.IsDecoder d := by
  obtain ⟨hd,hname⟩ := List.mem_filter.mp h
  refine ⟨hd,fun f hf hp heq => ?_⟩
  have hmem : d.name ∈ (index.functions.filter (·.isProvider)).map (·.name) :=
    List.mem_map.mpr ⟨f,List.mem_filter.mpr ⟨hf,hp⟩,heq⟩
  rw [List.contains_iff_mem.mpr hmem] at hname
  cases hname

/-- The nodes that a full round takes out, declarators apart. -/
def State.machinery (st : State σ) (index : Index) (provider : NamedFunction) : List Path :=
  [provider.path] ++ (st.rotation? provider.name).toList ++
    (index.decodersOf provider).map (·.path)

/-- The names of the decoders of a provider, and those that they are passed on to. -/
def Index.decoding (index : Index) (provider : NamedFunction) : List String :=
  (index.decodersOf provider).flatMap fun d => aliasesOf index.aliases d.name

/-- A round finds strings for calls of decoders. If that settles all their calls, it removes the
machinery. -/
theorem State.resolveProvider_cases {index : Index} {provider : NamedFunction}
    {st st' : State setup.engine.State} (hl : st.forest.Linked)
    (hat : ∀ c ∈ index.calls, ∃ n, st.forest.tree.at? c.path = some n)
    (h : st.resolveProvider setup rotate index provider = .ok st') :
    ∃ st₁, Gains index (· ∈ index.decoding provider) st st₁ ∧ (st' = st₁ ∨
      (∀ d ∈ index.decodersOf provider, ∀ c ∈ index.calls, c.name ∈ aliasesOf index.aliases d.name →
        st₁.Settles ([provider.path] ++ (st.rotation? provider.name).toList ++ [d.path]) c) ∧
      st' = st₁.removeMachinery index (st.machinery index provider) (index.decoding provider)) := by
  unfold resolveProvider at h
  simp only at h
  split at h
  · exact ⟨st,.refl _ st,.inl (Except.ok.inj h).symm⟩
  split at h
  · exact ⟨st,.refl _ st,.inl (Except.ok.inj h).symm⟩
  obtain ⟨⟨st₁,full⟩,hdec,h⟩ := bind_ok h
  obtain ⟨hgains,hsettles⟩ := resolveDecoders_spec hl hat hdec
  refine ⟨st₁,hgains.mono ?_,?_⟩
  · rintro s ⟨d,hd,hs⟩
    exact List.mem_flatMap.mpr ⟨d,hd,hs⟩
  simp only at h
  split at h
  · rename_i hfull
    exact .inr ⟨hsettles hfull,(Except.ok.inj h).symm⟩
  · exact .inl (Except.ok.inj h).symm

/-- What every round keeps holds at the end. -/
theorem State.resolveProviders_keeps {index : Index} (holds : State setup.engine.State → Prop)
    {providers : List NamedFunction}
    (hround : ∀ p ∈ providers, ∀ st st', holds st →
      st.resolveProvider setup rotate index p = .ok st' → holds st')
    {st st' : State setup.engine.State} (h : holds st)
    (hst : State.resolveProviders setup rotate index providers st = .ok st') : holds st' := by
  induction providers generalizing st with
  | nil => exact Except.ok.inj hst ▸ h
  | cons p providers ih =>
    rw [State.resolveProviders] at hst
    obtain ⟨st₁,hone,hst⟩ := bind_ok hst
    obtain ⟨hp,hround⟩ := List.forall_mem_cons.mp hround
    exact ih hround (hp st st₁ h hone) hst

/-- Of what a round removes only the decoders are functions that are no providers. -/
theorem Round.mem_decoders {provider : NamedFunction} {rotation : Option Path}
    {decoders : List NamedFunction} (h : Round tree provider rotation decoders) {f : NamedFunction}
    (hf : f ∈ (Index.ofTree tree).functions) (hnot : f.isProvider = false)
    (hgone : f.path ∈ [provider.path] ++ rotation.toList ++ decoders.map (·.path) ∨
      tree.IsVariable f.path) : f ∈ decoders := by
  obtain ⟨a,b,hlabel⟩ := labelAt?_function hf
  rcases hgone with hgone | hgone | ⟨kind,hgone⟩
  · simp only [List.mem_append, List.mem_singleton, Option.mem_toList, List.mem_map] at hgone
    rcases hgone with (hgone | hgone) | ⟨d,hd,hgone⟩
    · rw [function_eq_of_path hf h.provider.1 hgone, h.provider.2] at hnot
      cases hnot
    · obtain ⟨i,a,b,-,hl⟩ := h.rotation f.path hgone
      rw [hlabel] at hl
      cases hl
    · rwa [← function_eq_of_path (h.decoders d hd).1 hf hgone]
  · rw [hlabel] at hgone
    cases hgone
  · rw [hlabel] at hgone
    cases hgone

/-- A call has its string, is gone or is left in a provider that stands in no row. -/
def State.Closes (index : Index) (st : State σ) (c : NamedCall) : Prop :=
  (∃ v ∈ st.values, v.1 = c.path) ∨ st.forest.Removed c.path ∨
    ∃ f ∈ index.functions, f.isProvider = true ∧ st.forest.inRow f.path = false ∧ f.path <+: c.path

/-- What holds of a resolution of a tree after every round. Strings were found for calls of decoders
with plain arguments, and the calls of a decoder that was removed are closed. -/
structure State.Sound (tree : Node) (st : State σ) : Prop where
  whole : st.forest.tree = tree
  linked : st.forest.Linked
  rows : ∀ p ∈ st.forest.detached, st.forest.inRow p = true
  values : ∀ v ∈ st.values, ∃ c ∈ (Index.ofTree tree).calls, c.path = v.1 ∧
    (Index.ofTree tree).Decodes c ∧ (Node.literalArguments? c.arguments).isSome
  calls : ∀ f ∈ (Index.ofTree tree).functions, f.isProvider = false → f.path ∈ st.forest.detached →
    ∀ c ∈ (Index.ofTree tree).calls, c.name ∈ aliasesOf (Index.ofTree tree).aliases f.name →
      st.Closes (Index.ofTree tree) c

namespace State

theorem Sound.at_call (h : st.Sound tree) :
    ∀ c ∈ (Index.ofTree tree).calls, ∃ n, st.forest.tree.at? c.path = some n := by
  intro c hc
  obtain ⟨n,hn,-⟩ := mem_calls.mp hc
  exact ⟨n,by rw [h.whole, hn]⟩

theorem Closes.mono {index : Index} {c : NamedCall} (h : st.Closes index c)
    (ht : st'.forest.tree = st.forest.tree) (hv : ∀ v ∈ st.values, v ∈ st'.values)
    (hd : ∀ p ∈ st.forest.detached, p ∈ st'.forest.detached) : st'.Closes index c := by
  rcases h with ⟨v,hmem,hp⟩ | ⟨g,hg,hp⟩ | ⟨f,hf,hprov,hr,hp⟩
  · exact .inl ⟨v,hv v hmem,hp⟩
  · exact .inr (.inl ⟨g,hd g hg,hp⟩)
  · exact .inr (.inr ⟨f,hf,hprov,by rwa [Forest.inRow_congr ht],hp⟩)

theorem Sound.gains {names : String → Prop} (h : st.Sound tree)
    (hg : Gains (Index.ofTree tree) names st st')
    (hn : ∀ c ∈ (Index.ofTree tree).calls, names c.name → (Index.ofTree tree).Decodes c) :
    st'.Sound tree := by
  refine ⟨by rw [hg.forest]; exact h.whole,by rw [hg.forest]; exact h.linked,
    by rw [hg.forest]; exact h.rows,fun v hv => ?_,fun f hf hp hd c hc ha => ?_⟩
  · rcases hg.new v hv with hv | ⟨c,hc,hcv,hname,hargs⟩
    · exact h.values v hv
    · exact ⟨c,hc,hcv,hn c hc hname,hargs⟩
  · rw [hg.forest] at hd
    exact (h.calls f hf hp hd c hc ha).mono (by rw [hg.forest]) hg.still (by simp [hg.forest])

/-- A rotation is an expression statement of the program. -/
theorem rotation_spec {name : String} {p : Path} (h : st.rotation? name = some p) :
    ∃ i a b, p = [i] ∧ st.forest.tree.labelAt? p = some (.expressionStatement a b) := by
  unfold rotation? at h
  have hmem := List.mem_of_find?_eq_some h
  have hp := List.find?_some h
  obtain ⟨i,-,rfl⟩ := List.mem_map.mp hmem
  obtain ⟨-,hp⟩ := Bool.and_eq_true_iff.mp hp
  split at hp
  · rename_i s hs
    obtain ⟨n,hn,rfl⟩ := Option.map_eq_some_iff.mp hs
    simp only [Bool.and_eq_true] at hp
    have hiife := hp.1.1
    unfold Node.isIifeStatement at hiife
    split at hiife
    · rename_i a b e hl he
      rw [Node.label_edit_none] at hl
      exact ⟨i,a,b,rfl,by simp [Node.labelAt?, hn, hl]⟩
    · cases hiife
  · cases hp

/-- A full round: the machinery goes, and the calls of the decoders in it are closed. -/
theorem Sound.removeMachinery (hprog : tree.IsProgram) (hs : tree.Slotted) (h : st.Sound tree)
    {provider : NamedFunction} {rotation : Option Path} {decoders : List NamedFunction}
    (hround : Round tree provider rotation decoders)
    (hsettles : ∀ d ∈ decoders, ∀ c ∈ (Index.ofTree tree).calls,
      c.name ∈ aliasesOf (Index.ofTree tree).aliases d.name →
        st.Settles ([provider.path] ++ rotation.toList ++ [d.path]) c) (aliases : List String) :
    (st.removeMachinery (Index.ofTree tree)
      ([provider.path] ++ rotation.toList ++ decoders.map (·.path)) aliases).Sound tree := by
  obtain ⟨hshrinks,hgone,-⟩ := clears_removeMachinery h.whole h.linked hs
    ([provider.path] ++ rotation.toList ++ decoders.map (·.path)) aliases
  generalize st.removeMachinery (Index.ofTree tree)
    ([provider.path] ++ rotation.toList ++ decoders.map (·.path)) aliases = st' at hshrinks hgone
  refine ⟨hshrinks.tree.trans h.whole,hshrinks.linked h.linked,fun p hp => ?_,
    by rw [hshrinks.values]; exact h.values,fun f hf hnot hd c hc ha => ?_⟩
  · rw [Forest.inRow_congr hshrinks.tree]
    rcases hshrinks.new p hp with hp | hp
    · exact h.rows p hp
    · exact hp.1
  rcases hshrinks.new f.path hd with hold | ⟨-,hnew⟩
  · exact (h.calls f hf hnot hold c hc ha).mono hshrinks.tree (by simp [hshrinks.values]) hshrinks.still
  rcases hsettles f (hround.mem_decoders hf hnot (hnew.imp_right And.left)) c hc ha with hv | hr | ⟨m,hm,hmc⟩
  · exact .inl (by rwa [hshrinks.values])
  · exact .inr (.inl (hshrinks.removed hr))
  simp only [List.mem_append, List.mem_singleton, Option.mem_toList] at hm
  rcases hm with (rfl | hm) | rfl
  · cases hrow : st.forest.inRow provider.path with
    | true => exact .inr (.inl ⟨_,hgone _ (by simp) hrow,hmc⟩)
    | false =>
      have hrow' : st'.forest.inRow provider.path = false := by
        rw [Forest.inRow_congr hshrinks.tree, hrow]
      exact .inr (.inr ⟨provider,hround.provider.1,hround.provider.2,hrow',hmc⟩)
  · obtain ⟨i,a,b,rfl,hl⟩ := hround.rotation m hm
    obtain ⟨n,hn,-⟩ := Option.map_eq_some_iff.mp hl
    have hrow := Forest.inRow_program h.whole hprog hs hn
    exact .inr (.inl ⟨[i],hgone _ (by simp [hm]) hrow,hmc⟩)
  · exact .inr (.inl ⟨_,hd,hmc⟩)

theorem Sound.round {provider : NamedFunction} (h : st.Sound tree)
    (hprov : provider ∈ (Index.ofTree tree).functions) (hp : provider.isProvider = true) :
    Round tree provider (st.rotation? provider.name) ((Index.ofTree tree).decodersOf provider) :=
  ⟨⟨hprov,hp⟩,fun _ hrot => h.whole ▸ rotation_spec hrot,fun _ => Index.isDecoder_of_mem⟩

theorem Sound.resolveProvider (hprog : tree.IsProgram) (hs : tree.Slotted) {provider : NamedFunction}
    (hprov : provider ∈ (Index.ofTree tree).functions) (hp : provider.isProvider = true)
    {st st' : State setup.engine.State} (h : st.Sound tree)
    (hst : st.resolveProvider setup rotate (Index.ofTree tree) provider = .ok st') :
    st'.Sound tree := by
  obtain ⟨st₁,hgains,hst⟩ := resolveProvider_cases h.linked h.at_call hst
  have hsound : st₁.Sound tree := by
    refine h.gains hgains fun c hc hname => ?_
    obtain ⟨d,hd,hname⟩ := List.mem_flatMap.mp hname
    exact ⟨d,Index.isDecoder_of_mem hd,hname⟩
  rcases hst with rfl | ⟨hsettles,rfl⟩
  · exact hsound
  · exact hsound.removeMachinery hprog hs (h.round hprov hp) hsettles _

end State

/-- The state in which a resolution starts. -/
def started (setup : Setup ε) (tree : Node) : State setup.engine.State :=
  { forest := Forest.link { tree := tree }, machine := setup.engine.start }

/-- The state in which a resolution ends. -/
def ended (setup : Setup ε) (rotate : Bool) (tree : Node) : Except ε (State setup.engine.State) :=
  State.resolveProviders setup rotate (Index.ofTree tree)
    ((Index.ofTree tree).functions.filter (·.isProvider))
    { forest := Forest.link { tree := tree }, machine := setup.engine.start }

theorem resolve_eq (setup : Setup ε) (rotate : Bool) (tree : Node) :
    resolve setup rotate tree = (ended setup rotate tree).map State.finish := by
  change (ended setup rotate tree >>= fun st => pure st.finish) = _
  cases ended setup rotate tree <;> rfl

theorem sound_started : (started setup tree).Sound tree :=
  ⟨rfl,Forest.linked_link tree,nofun,nofun,nofun⟩

/-- Every round of a resolution keeps the invariant. -/
theorem State.Sound.resolveProviders (hprog : tree.IsProgram) (hs : tree.Slotted)
    {rounds : List NamedFunction}
    (hrounds : ∀ p ∈ rounds, p ∈ (Index.ofTree tree).functions.filter (·.isProvider))
    {st st' : State setup.engine.State} (h : st.Sound tree)
    (hst : State.resolveProviders setup rotate (Index.ofTree tree) rounds st = .ok st') :
    st'.Sound tree := by
  refine State.resolveProviders_keeps (State.Sound tree) (fun p hp st st' hst hround => ?_) h hst
  obtain ⟨hmem,hp⟩ := List.mem_filter.mp (hrounds p hp)
  exact hst.resolveProvider hprog hs hmem hp hround

theorem sound_ended (hprog : tree.IsProgram) (hs : tree.Slotted) {st : State setup.engine.State}
    (h : ended setup rotate tree = .ok st) : st.Sound tree :=
  sound_started.resolveProviders hprog hs (fun _ hp => hp) h

end Rounds
end Strings
end Unravel
