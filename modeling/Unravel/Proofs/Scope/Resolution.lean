import Unravel.Proofs.Scope.Lexical
import Unravel.Proofs.Scope.Listing

/-! Scope analysis against lexical scoping. A scope binds what is declared in it, and a use belongs
to the innermost scope around it that declares its name. -/

namespace Unravel

namespace Event

/-! ### Scopes and what lands in them -/

mutual
/-- All scopes that an event opens, each with its events. -/
def opened : Event → List Opened
  | .declare .. => []
  | .refer _ => []
  | .scope p _ isFunction events => (p, isFunction, events) :: openedAll events
def openedAll : List Event → List Opened
  | [] => []
  | e :: rest => opened e ++ openedAll rest
end

theorem openedAll_eq (es : List Event) : openedAll es = es.flatMap opened := by
  induction es with
  | nil => rfl
  | cons e es ih => rw [openedAll, ih, List.flatMap_cons]

theorem frames_eq (e : Event) :
    e.frames false = e.opened.map fun s => (s.1, landingAll true s.2.1 false s.2.2) := by
  induction e using Event.inductionOn with
  | declare reach kind o => rfl
  | refer o => rfl
  | scope p l f es ih =>
    rw [frames, opened, framesAll_eq, openedAll_eq, List.map_cons, List.map_flatMap]
    exact congrArg _ (List.flatMap_congr ih)

/-- Each scope around a part is opened, and the part is one of its own, in the scopes further in. -/
theorem opened_of_mem_parts {e d : Event} {inner outer : List Opened} {s : Opened}
    (h : (inner ++ s :: outer, d) ∈ e.parts) : s ∈ e.opened ∧ (inner, d) ∈ partsAll s.2.2 := by
  induction e using Event.inductionOn generalizing outer with
  | declare reach kind o => simp [parts] at h
  | refer o => simp [parts] at h
  | scope p l f es ih =>
    simp only [parts, List.mem_map, Prod.mk.injEq] at h
    obtain ⟨⟨around,d⟩,hx,hs,rfl⟩ := h
    rw [opened, openedAll_eq, List.mem_cons, List.mem_flatMap]
    rcases List.eq_nil_or_concat outer with rfl | ⟨outer,last,rfl⟩
    · obtain ⟨rfl,he⟩ := List.append_inj' hs rfl
      obtain rfl := List.singleton_inj.mp he
      exact ⟨.inl rfl,hx⟩
    · rw [List.concat_eq_append, ← List.cons_append, ← List.append_assoc] at hs
      obtain ⟨rfl,-⟩ := List.append_inj' hs rfl
      rw [partsAll_eq, List.mem_flatMap] at hx
      obtain ⟨e,he,hx⟩ := hx
      exact ⟨.inr ⟨e,he,(ih e he hx).1⟩,(ih e he hx).2⟩

theorem mem_parts_of_opened {e d : Event} {inner : List Opened} {s : Opened} (hs : s ∈ e.opened)
    (h : (inner, d) ∈ partsAll s.2.2) : ∃ outer, (inner ++ s :: outer, d) ∈ e.parts := by
  induction e using Event.inductionOn with
  | declare reach kind o => cases hs
  | refer o => cases hs
  | scope p l f es ih =>
    rw [opened, openedAll_eq, List.mem_cons, List.mem_flatMap] at hs
    rw [parts]
    rcases hs with rfl | ⟨e,he,hs⟩
    · exact ⟨[],List.mem_map.mpr ⟨_,h,rfl⟩⟩
    · obtain ⟨outer,hx⟩ := ih e he hs
      refine ⟨outer ++ [(p, f, es)],List.mem_map.mpr ⟨(inner ++ s :: outer, d),?_,by simp⟩⟩
      rw [partsAll_eq]
      exact List.mem_flatMap.mpr ⟨e,he,hx⟩

/-- Whether a declaration lands outside the scopes around it, by the reaches that do. -/
def Lands (here function root : Bool) (around : List Opened) : Reach → Prop
  | .here => here = true ∧ around = []
  | .function => function = true ∧ ∀ s ∈ around, s.2.1 = false
  | .root => root = true

theorem lands_concat {here function root : Bool} {around : List Opened} {s : Opened} {reach : Reach} :
    Lands here function root (around ++ [s]) reach ↔
      Lands false (function && !s.2.1) root around reach := by
  cases reach with
  | here => simp [Lands]
  | function =>
    simp only [Lands, List.forall_mem_append, List.forall_mem_singleton, Bool.and_eq_true,
      Bool.not_eq_true']
    tauto
  | root => rfl

theorem mem_landingAll {es : List Event} {here function root : Bool} {d : BindingKind × Occurrence} :
    d ∈ landingAll here function root es ↔
      ∃ around reach, (around, .declare reach d.1 d.2) ∈ partsAll es ∧
        Lands here function root around reach := by
  suffices h : ∀ e : Event, ∀ here function root, d ∈ landing here function root e ↔
      ∃ around reach, (around, .declare reach d.1 d.2) ∈ parts e ∧
        Lands here function root around reach by
    rw [landingAll_eq, partsAll_eq]
    simp only [List.mem_flatMap, h]
    constructor
    · rintro ⟨e,he,around,reach,hx,hl⟩
      exact ⟨around,reach,⟨e,he,hx⟩,hl⟩
    · rintro ⟨around,reach,⟨e,he,hx⟩,hl⟩
      exact ⟨e,he,around,reach,hx,hl⟩
  intro e
  induction e using Event.inductionOn with
  | declare reach kind o =>
    intro here function root
    obtain ⟨k,c⟩ := d
    cases reach <;> simp [landing, parts, Lands] <;> tauto
  | refer o => simp [landing, parts]
  | scope p l f es ih =>
    intro here function root
    simp only [landing, landingAll_eq, parts, partsAll_eq, List.mem_map, List.mem_flatMap]
    constructor
    · rintro ⟨e,he,hd⟩
      obtain ⟨around,reach,hx,hl⟩ := (ih e he _ _ _).mp hd
      exact ⟨around ++ [(p, f, es)],reach,⟨_,⟨e,he,hx⟩,rfl⟩,lands_concat.mpr hl⟩
    · rintro ⟨_,reach,⟨⟨around,d⟩,⟨e,he,hx⟩,hy⟩,hl⟩
      obtain ⟨rfl,rfl⟩ := Prod.mk.inj hy
      exact ⟨e,he,(ih e he _ _ _).mpr ⟨around,reach,hx,lands_concat.mp hl⟩⟩

/-! ### Uses and the scopes they belong to -/

/-- A scope with the names that it binds. -/
def named (isRoot : Bool) (s : Opened) : Path × List String :=
  (s.1, (bindingsOf s.2.1 isRoot s.2.2).map Binding.name)

theorem mem_resolve {e : Event} {known : List Path} {env : Surroundings} {r : Path × Occurrence} :
    r ∈ resolve known false env e ↔
      ∃ around, (around, .refer r.2) ∈ parts e ∧ r.2.path ∉ known ∧
        Surroundings.find? (around.map (named false) ++ env) r.2.name = some r.1 := by
  induction e using Event.inductionOn generalizing env with
  | declare reach kind o => simp [resolve, parts]
  | refer o =>
    obtain ⟨s,u⟩ := r
    rw [resolve]
    split
    · rename_i hd
      have hd : o.path ∈ known := by simpa using hd
      simp only [List.not_mem_nil, parts, List.mem_singleton, Prod.mk.injEq, refer.injEq, false_iff]
      rintro ⟨_,⟨rfl,rfl⟩,hn,-⟩
      exact hn hd
    · rename_i hd
      have hd : o.path ∉ known := by simpa using hd
      simp only [List.mem_map, Option.mem_toList, Prod.mk.injEq, parts, List.mem_singleton,
        refer.injEq]
      constructor
      · rintro ⟨_,hf,rfl,rfl⟩
        exact ⟨[],⟨rfl,rfl⟩,hd,hf⟩
      · rintro ⟨_,⟨rfl,rfl⟩,-,hf⟩
        exact ⟨s,hf,rfl,rfl⟩
  | scope p l f es ih =>
    rw [resolve, resolveAll_eq, parts, partsAll_eq, List.mem_flatMap]
    simp only [List.mem_map, List.mem_flatMap, Prod.mk.injEq]
    have henv (around : List Opened) : (around ++ [(p, f, es)]).map (named false) ++ env =
        around.map (named false) ++ (p, (bindingsOf f false es).map Binding.name) :: env := by
      simp [named]
    constructor
    · rintro ⟨e,he,hr⟩
      obtain ⟨around,hx,hn,hf⟩ := (ih e he).mp hr
      exact ⟨_,⟨_,⟨e,he,hx⟩,rfl,rfl⟩,hn,henv around ▸ hf⟩
    · rintro ⟨_,⟨⟨around,d⟩,⟨e,he,hx⟩,rfl,rfl⟩,hn,hf⟩
      exact ⟨e,he,(ih e he).mpr ⟨around,hx,hn,henv around ▸ hf⟩⟩

/-- The uses of an event, in walking order, with the scopes around each. -/
def used (e : Event) : List (List Opened × Occurrence) :=
  e.parts.filterMap fun x =>
    match x.2 with
    | .refer o => some (x.1, o)
    | _ => none

theorem used_paths (e : Event) : (e.used.map fun u => u.2.path) = pathsOf .referred e.sites := by
  induction e using Event.inductionOn with
  | declare reach kind o => rfl
  | refer o => rfl
  | scope p l f es ih =>
    have hmap (e : Event) : (e.used.map fun u => u.2.path) = e.parts.filterMap fun x =>
        match x.2 with
        | .refer o => some o.path
        | _ => none := by
      rw [used, List.map_filterMap]
      refine List.filterMap_congr fun x _ => ?_
      cases x.2 <;> rfl
    simp only [hmap] at ih ⊢
    rw [parts, partsAll_eq, sites, sitesAll_eq, List.filterMap_map, List.filterMap_flatMap]
    simpa [pathsOf, List.filter_flatMap, List.map_flatMap] using List.flatMap_congr ih

/-- An identifier is used at one place only. -/
theorem parts_inj {e : Event} (h : e.sites.Nodup) {a b : List Opened} {o u : Occurrence}
    (ha : (a, .refer o) ∈ e.parts) (hb : (b, .refer u) ∈ e.parts) (hp : o.path = u.path) :
    a = b ∧ o = u := by
  have hn := pathsOf_nodup (s := .referred) h
  rw [← used_paths] at hn
  have hused {a : List Opened} {o : Occurrence} (ha : (a, .refer o) ∈ e.parts) : (a, o) ∈ e.used :=
    List.mem_filterMap.mpr ⟨_,ha,rfl⟩
  exact Prod.mk.inj (List.inj_on_of_nodup_map hn (hused ha) (hused hb) hp)

end Event

namespace Scope

def path : Scope → Path
  | .mk p _ _ _ _ => p

end Scope

theorem Event.walk_scopes (resolved : List (Path × Occurrence)) (isRoot : Bool) (e : Event) :
    ((e.scopes resolved isRoot).flatMap Scope.walk).map (fun s => (s.path, s.bindings)) =
      (e.frames isRoot).map fun f =>
        (f.1, (Binding.ofLanding f.2).map (withReferences resolved f.1)) := by
  induction e using Event.inductionOn generalizing isRoot with
  | declare reach kind o => rfl
  | refer o => rfl
  | scope p l f es ih =>
    rw [scopes, frames, List.flatMap_singleton, Scope.walk, Scope.walkAll_eq, scopesAll_eq,
      framesAll_eq, List.map_cons, List.map_cons, List.flatMap_assoc, List.map_flatMap,
      List.map_flatMap]
    exact congrArg _ (List.flatMap_congr fun e he => ih e he false)

/-! ### Programs -/

namespace Node
variable {n : Node}

/-- The events of a program, and the scope that they open. -/
theorem topLevel_eq (h : n.IsProgram) : [n.topLevel] = n.walkAs false [] := by
  rw [walkAs, if_neg Bool.false_ne_true, ← events_program h]
  rfl

theorem mem_placed_refer (h : n.IsProgram) {around : Enclosing} {o : Occurrence} :
    (around, .refer o) ∈ Event.placed [n.topLevel] ↔
      ∃ q c, n.Visits q c around ∧ o ∈ c.uses q := by
  rw [topLevel_eq h, mem_placed_walkAs (by simp)]
  simp only [own, List.nil_append, List.mem_append, List.mem_map, Prod.mk.injEq, Event.refer.injEq,
    reduceCtorEq, and_false, exists_false, or_false, Visits]
  constructor
  · rintro ⟨q,c,_,hc,ha,o,ho,rfl,rfl⟩
    exact ⟨q,c,⟨hc,ha⟩,ho⟩
  · rintro ⟨q,c,⟨hc,ha⟩,ho⟩
    exact ⟨q,c,around,hc,ha,o,ho,rfl,rfl⟩

/-- A node that declares in a scope of its own opens one. -/
private theorem opens_of_inward {c : Node} {q : Path} {d : BindingKind × Occurrence}
    (h : d ∈ c.inward q) : ∃ f, c.label.opened false q = [(q, f)] := by
  unfold inward at h
  split at h <;> rename_i hl <;> first | cases h | exact ⟨_,by rw [hl]; rfl⟩

theorem declaredIn_iff (h : n.IsProgram) {s : Path} {kind : BindingKind} {o : Occurrence} :
    n.DeclaredIn s kind o ↔ ∃ around reach,
      (around, .declare reach kind o) ∈ Event.placed [n.topLevel] ∧ reach.scope? around = some s := by
  have hplaced {x : Enclosing × Event} : x ∈ Event.placed (n.walkAs false []) ↔ _ :=
    mem_placed_walkAs (by simp)
  rw [topLevel_eq h]
  simp only [hplaced, own, List.nil_append, List.mem_append, List.mem_map, Prod.mk.injEq,
    Event.declare.injEq, reduceCtorEq, and_false, exists_false, false_or, DeclaredIn, Visits]
  constructor
  · rintro ⟨q,c,around,⟨hc,ha⟩,⟨reach,hd,hs⟩ | ⟨hd,rfl⟩⟩
    · exact ⟨around,reach,⟨q,c,around,hc,ha,.inl ⟨_,hd,rfl,rfl,rfl,rfl⟩⟩,hs⟩
    · obtain ⟨f,hf⟩ := opens_of_inward hd
      exact ⟨_,.here,⟨q,c,around,hc,ha,.inr ⟨_,hd,rfl,rfl,rfl,rfl⟩⟩,by rw [hf]; rfl⟩
  · rintro ⟨_,reach,⟨q,c,around,hc,ha,⟨d,hd,rfl,rfl,rfl,rfl⟩ | ⟨d,hd,rfl,rfl,rfl,rfl⟩⟩,hs⟩
    · exact ⟨q,c,_,⟨hc,ha⟩,.inl ⟨_,hd,hs⟩⟩
    · obtain ⟨f,hf⟩ := opens_of_inward hd
      rw [hf] at hs
      exact ⟨q,c,around,⟨hc,ha⟩,.inr ⟨hd,Option.some.inj hs⟩⟩

/-- The parts of a program with their scopes, the outermost of which is that of the program. -/
theorem mem_placed_topLevel {around : Enclosing} {d : Event} :
    (around, d) ∈ Event.placed [n.topLevel] ↔
      ∃ scopes, (scopes, d) ∈ n.topLevel.parts ∧ Event.enclosing scopes = around := by
  simp [Event.placed, Event.partsAll]

private theorem frames_topLevel {s : Event.Opened} (hs : s ∈ n.topLevel.opened) :
    ∃ root, (s.1, Event.landingAll true s.2.1 root s.2.2) ∈ n.topLevel.frames true := by
  rw [topLevel, Event.opened, List.mem_cons, Event.openedAll_eq, List.mem_flatMap] at hs
  rw [topLevel, Event.frames, Event.framesAll_eq]
  rcases hs with rfl | ⟨e,he,hs⟩
  · exact ⟨true,List.mem_cons_self⟩
  · refine ⟨false,List.mem_cons_of_mem _ (List.mem_flatMap.mpr ⟨e,he,?_⟩)⟩
    rw [Event.frames_eq]
    exact List.mem_map_of_mem hs

private theorem mem_frames_of_declared {around : List Event.Opened} {reach : Reach} {s : Path}
    {d : BindingKind × Occurrence} (h : (around, .declare reach d.1 d.2) ∈ n.topLevel.parts)
    (hs : reach.scope? (Event.enclosing around) = some s) :
    ∃ landing, (s, landing) ∈ n.topLevel.frames true ∧ d ∈ landing := by
  cases reach with
  | here =>
    cases around with
    | nil => cases hs
    | cons t outer =>
      obtain rfl : t.1 = s := Option.some.inj hs
      have hparts : ([] ++ t :: outer, .declare .here d.1 d.2) ∈ n.topLevel.parts := h
      obtain ⟨ht,hd⟩ := Event.opened_of_mem_parts hparts
      obtain ⟨root,hf⟩ := frames_topLevel ht
      exact ⟨_,hf,Event.mem_landingAll.mpr ⟨[],.here,hd,rfl,rfl⟩⟩
  | function =>
    obtain ⟨⟨t,g⟩,ht,rfl⟩ := Option.map_eq_some_iff.mp hs
    rw [Event.enclosing, List.find?_map] at ht
    obtain ⟨u,hu,he⟩ := Option.map_eq_some_iff.mp ht
    obtain ⟨hfun,inner,outer,rfl,hinner⟩ := List.find?_eq_some_iff_append.mp hu
    obtain ⟨ht,hd⟩ := Event.opened_of_mem_parts h
    obtain ⟨root,hf⟩ := frames_topLevel ht
    obtain ⟨rfl,rfl⟩ := Prod.mk.inj he
    refine ⟨_,hf,Event.mem_landingAll.mpr ⟨inner,.function,hd,hfun,fun x hx => ?_⟩⟩
    simpa using hinner x hx
  | root =>
    rw [topLevel, Event.parts] at h
    obtain ⟨⟨inner,e⟩,hx,he⟩ := List.mem_map.mp h
    obtain ⟨rfl,rfl⟩ := Prod.mk.inj he
    obtain rfl : [] = s := by simpa [Reach.scope?, Event.enclosing] using hs
    exact ⟨_,List.mem_cons_self,Event.mem_landingAll.mpr ⟨inner,.root,hx,rfl⟩⟩

/-- What lands outside the scopes around it lands in the next one. -/
private theorem scope?_of_lands {inner outer : List Event.Opened} {t : Event.Opened} {root : Bool}
    {reach : Reach} (h : Event.Lands true t.2.1 root inner reach) (hroot : root = true → outer = []) :
    reach.scope? (Event.enclosing (inner ++ t :: outer)) = some t.1 := by
  cases reach with
  | here =>
    rw [h.2]
    rfl
  | function =>
    have hnone : inner.find? (fun s => s.2.1) = none :=
      List.find?_eq_none.mpr fun s hs => by simp [h.2 s hs]
    have hfind : (inner ++ t :: outer).find? (fun s => s.2.1) = some t := by
      rw [List.find?_append, hnone, Option.none_or]
      exact List.find?_cons_of_pos h.1
    rw [Reach.scope?, Event.enclosing, List.find?_map]
    exact congrArg (fun s => (s.map fun s => (s.1, s.2.1)).map Prod.fst) hfind
  | root =>
    rw [hroot h]
    simp [Reach.scope?, Event.enclosing]

private theorem declared_of_mem_frames {s : Path} {landing : Landing} {d : BindingKind × Occurrence}
    (hf : (s, landing) ∈ n.topLevel.frames true) (hd : d ∈ landing) :
    ∃ around reach, (around, .declare reach d.1 d.2) ∈ n.topLevel.parts ∧
      reach.scope? (Event.enclosing around) = some s := by
  rw [topLevel, Event.frames, Event.framesAll_eq, List.mem_cons, List.mem_flatMap] at hf
  rcases hf with he | ⟨e,he,hf⟩
  · obtain ⟨rfl,rfl⟩ := Prod.mk.inj he
    obtain ⟨inner,reach,hx,hl⟩ := Event.mem_landingAll.mp hd
    exact ⟨_,reach,List.mem_map.mpr ⟨_,hx,rfl⟩,
      scope?_of_lands (t := ([],true,(Plan.slot .body).across n.subtrees [])) hl fun _ => rfl⟩
  · rw [Event.frames_eq] at hf
    obtain ⟨t,ht,he'⟩ := List.mem_map.mp hf
    obtain ⟨rfl,rfl⟩ := Prod.mk.inj he'
    obtain ⟨inner,reach,hx,hl⟩ := Event.mem_landingAll.mp hd
    obtain ⟨outer,hx⟩ := Event.mem_parts_of_opened ht hx
    refine ⟨_,reach,List.mem_map.mpr ⟨_,Event.partsAll_eq _ ▸ List.mem_flatMap.mpr ⟨e,he,hx⟩,rfl⟩,?_⟩
    rw [List.append_assoc, List.cons_append]
    exact scope?_of_lands hl fun h => absurd h Bool.false_ne_true

/-- What lands in a scope is what is declared in it. -/
theorem declaredIn_iff_landing (h : n.IsProgram) {s : Path} {kind : BindingKind} {o : Occurrence} :
    n.DeclaredIn s kind o ↔
      ∃ landing, (s, landing) ∈ n.topLevel.frames true ∧ (kind, o) ∈ landing := by
  rw [declaredIn_iff h]
  constructor
  · rintro ⟨_,reach,hx,hs⟩
    obtain ⟨around,hparts,rfl⟩ := mem_placed_topLevel.mp hx
    exact mem_frames_of_declared hparts hs
  · rintro ⟨landing,hf,hd⟩
    obtain ⟨around,reach,hx,hs⟩ := declared_of_mem_frames hf hd
    exact ⟨_,reach,mem_placed_topLevel.mpr ⟨around,hx,rfl⟩,hs⟩

section Unique
variable (h : n.IsProgram) (hd : n.DeclaratorsOnly)
include h hd

/-- Scopes stand at different places. -/
theorem frames_nodup : ((n.topLevel.frames true).map Prod.fst).Nodup := by
  rw [Event.frames_paths]
  exact Event.pathsOf_nodup (topLevel_sites_nodup h hd)

theorem declares_iff {s : Path} {landing : Landing} (hf : (s, landing) ∈ n.topLevel.frames true)
    {name : String} :
    n.Declares s name ↔ name ∈ (Binding.ofLanding landing).map Binding.name := by
  rw [Binding.mem_names]
  constructor
  · rintro ⟨kind,o,ho,rfl⟩
    obtain ⟨landing',hf',hl⟩ := (declaredIn_iff_landing h).mp ho
    obtain rfl : landing' = landing :=
      (Prod.mk.inj (List.inj_on_of_nodup_map (frames_nodup h hd) hf' hf rfl)).2
    exact ⟨_,hl,rfl⟩
  · rintro ⟨d,hl,rfl⟩
    exact ⟨d.1,d.2,(declaredIn_iff_landing h).mpr ⟨landing,hf,hl⟩,rfl⟩

end Unique

/-! ### The innermost scope -/

theorem innermost_cons {t : Path × Bool} {around : Enclosing} {name : String} {s : Path} :
    n.Innermost (t :: around) name s ↔
      (n.Declares t.1 name ∧ t.1 = s) ∨ (¬n.Declares t.1 name ∧ n.Innermost around name s) := by
  constructor
  · rintro ⟨_ | ⟨u,inner⟩,f,outer,he,hs,hi⟩
    · obtain ⟨rfl,rfl⟩ := List.cons.inj he
      exact .inl ⟨hs,rfl⟩
    · obtain ⟨rfl,rfl⟩ := List.cons.inj he
      exact .inr ⟨hi _ List.mem_cons_self,inner,f,outer,rfl,hs,
        fun t ht => hi t (List.mem_cons_of_mem _ ht)⟩
  · rintro (⟨hs,rfl⟩ | ⟨ht,inner,f,outer,rfl,hs,hi⟩)
    · exact ⟨[],t.2,around,rfl,hs,by simp⟩
    · exact ⟨t :: inner,f,outer,rfl,hs,List.forall_mem_cons.mpr ⟨ht,hi⟩⟩

/-- Looking a name up finds the innermost scope that declares it. -/
theorem find?_eq_some_iff {env : Event.Surroundings} {around : Enclosing} {name : String} {s : Path}
    (he : env.map Prod.fst = around.map Prod.fst)
    (hn : ∀ t ∈ env, t.2.contains name = true ↔ n.Declares t.1 name) :
    env.find? name = some s ↔ n.Innermost around name s := by
  induction env generalizing around with
  | nil =>
    obtain rfl : around = [] := by simpa using he.symm
    simp [Event.Surroundings.find?, Innermost]
  | cons t env ih =>
    obtain ⟨u,around,rfl⟩ : ∃ u us, around = u :: us := by
      cases around with
      | nil => simp at he
      | cons u us => exact ⟨u,us,rfl⟩
    obtain ⟨hu,he⟩ := List.cons.inj he
    obtain ⟨ht,hn⟩ := List.forall_mem_cons.mp hn
    have hrest := ih he hn
    rw [innermost_cons, ← hrest, ← hu, ← ht]
    simp only [Event.Surroundings.find?, List.find?_cons]
    cases t.2.contains name <;> simp

theorem mem_declared (h : n.IsProgram) {p : Path} :
    p ∈ n.topLevel.declared ↔ ∃ s kind o, n.DeclaredIn s kind o ∧ o.path = p := by
  have hperm : n.topLevel.declared.Perm (Event.landed (n.topLevel.frames true)) :=
    Event.declared_perm_root [] n.label ((Plan.slot .body).across n.subtrees [])
  rw [hperm.mem_iff, Event.landed, List.mem_flatMap]
  constructor
  · rintro ⟨⟨s,landing⟩,hf,hp⟩
    obtain ⟨⟨kind,o⟩,hl,rfl⟩ := List.mem_map.mp hp
    exact ⟨s,kind,o,(declaredIn_iff_landing h).mpr ⟨landing,hf,hl⟩,rfl⟩
  · rintro ⟨s,kind,o,ho,rfl⟩
    obtain ⟨landing,hf,hl⟩ := (declaredIn_iff_landing h).mp ho
    exact ⟨_,hf,List.mem_map.mpr ⟨_,hl,rfl⟩⟩

theorem refersAt_iff (h : n.IsProgram) {around : Enclosing} {o : Occurrence} :
    n.RefersAt around o ↔
      (∃ scopes, (scopes, .refer o) ∈ n.topLevel.parts ∧ Event.enclosing scopes = around) ∧
        o.path ∉ n.topLevel.declared := by
  rw [RefersAt, ← mem_placed_refer h, mem_placed_topLevel, mem_declared h]
  refine and_congr_right fun _ => ?_
  constructor
  · rintro hn ⟨s,kind,d,hd,hp⟩
    exact hn s kind d hd hp
  · intro hn s kind d hd hp
    exact hn ⟨s,kind,d,hd,hp⟩

section Resolved
variable (h : n.IsProgram) (hd : n.DeclaratorsOnly)
include h hd

/-- A use resolves to the innermost scope around it that declares its name. -/
theorem mem_resolved_iff {s : Path} {o : Occurrence} :
    (s, o) ∈ n.resolved ↔ ∃ around, n.RefersAt around o ∧ n.Innermost around o.name s := by
  set es := (Plan.slot .body).across n.subtrees [] with hes
  have hnames {t : Event.Opened} {root : Bool}
      (hf : (t.1, Event.landingAll true t.2.1 root t.2.2) ∈ n.topLevel.frames true) :
      (Event.named root t).2.contains o.name = true ↔ n.Declares (Event.named root t).1 o.name := by
    rw [List.contains_iff_mem]
    exact (declares_iff h hd hf).symm
  have hroot : ([], Event.landingAll true true true es) ∈ n.topLevel.frames true :=
    List.mem_cons_self
  -- The scopes around a use are those inside the program and the program itself.
  have hfind {e : Event} (he : e ∈ es) {scopes : List Event.Opened}
      (hx : (scopes, .refer o) ∈ e.parts) :
      Event.Surroundings.find? (scopes.map (Event.named false) ++ [Event.named true ([], true, es)])
        o.name = some s ↔ n.Innermost (Event.enclosing (scopes ++ [([], true, es)])) o.name s := by
    refine find?_eq_some_iff (by simp [Event.enclosing, Event.named, Function.comp_def]) ?_
    intro t ht
    rcases List.mem_append.mp ht with ht | ht
    · obtain ⟨u,hu,rfl⟩ := List.mem_map.mp ht
      obtain ⟨inner,outer,rfl⟩ := List.append_of_mem hu
      obtain ⟨hu,-⟩ := Event.opened_of_mem_parts hx
      refine hnames (List.mem_cons_of_mem _ ?_)
      rw [Event.framesAll_eq, List.mem_flatMap]
      exact ⟨e,he,by rw [Event.frames_eq]; exact List.mem_map_of_mem hu⟩
    · obtain rfl := List.mem_singleton.mp ht
      exact hnames hroot
  have hparts {scopes : List Event.Opened} : (scopes, .refer o) ∈ n.topLevel.parts ↔
      ∃ e ∈ es, ∃ inner, (inner, .refer o) ∈ e.parts ∧ inner ++ [([], true, es)] = scopes := by
    rw [topLevel, Event.parts, List.mem_map, ← hes, Event.partsAll_eq]
    constructor
    · rintro ⟨⟨inner,_⟩,hx,he⟩
      obtain ⟨rfl,rfl⟩ := Prod.mk.inj he
      obtain ⟨e,he,hx⟩ := List.mem_flatMap.mp hx
      exact ⟨e,he,inner,hx,rfl⟩
    · rintro ⟨e,he,inner,hx,rfl⟩
      exact ⟨_,List.mem_flatMap.mpr ⟨e,he,hx⟩,rfl⟩
  have hresolved : n.resolved =
      es.flatMap (Event.resolve n.topLevel.declared false [Event.named true ([], true, es)]) := by
    rw [resolved, ← Event.resolveAll_eq]
    rfl
  simp only [hresolved, List.mem_flatMap, Event.mem_resolve, refersAt_iff h]
  constructor
  · rintro ⟨e,he,scopes,hx,hn,hf⟩
    exact ⟨_,⟨⟨_,hparts.mpr ⟨e,he,scopes,hx,rfl⟩,rfl⟩,hn⟩,(hfind he hx).mp hf⟩
  · rintro ⟨_,⟨⟨_,hx,rfl⟩,hn⟩,hs⟩
    obtain ⟨e,he,inner,hinner,rfl⟩ := hparts.mp hx
    exact ⟨e,he,inner,hinner,hn,(hfind he hinner).mpr hs⟩

theorem refersAt_inj {a b : Enclosing} {o u : Occurrence} (ha : n.RefersAt a o) (hb : n.RefersAt b u)
    (hp : o.path = u.path) : a = b ∧ o = u := by
  obtain ⟨⟨_,hx,rfl⟩,-⟩ := (refersAt_iff h).mp ha
  obtain ⟨⟨_,hy,rfl⟩,-⟩ := (refersAt_iff h).mp hb
  obtain ⟨rfl,rfl⟩ := Event.parts_inj (topLevel_sites_nodup h hd) hx hy hp
  exact ⟨rfl,rfl⟩

end Resolved

/-- The scopes of a program with their bindings. -/
theorem mem_walk (h : n.IsProgram) {s : Path} {bs : List Binding} :
    (∃ σ ∈ n.scope.walk, σ.path = s ∧ σ.bindings = bs) ↔
      ∃ landing, (s, landing) ∈ n.topLevel.frames true ∧
        bs = (Binding.ofLanding landing).map (Event.withReferences n.resolved s) := by
  have hwalk := Event.walk_scopes n.resolved true n.topLevel
  rw [scopes_topLevel h, List.flatMap_singleton] at hwalk
  have hmem (x : Path × List Binding) := congrArg (x ∈ ·) hwalk
  simp only [List.mem_map, eq_iff_iff, Prod.forall, Prod.mk.injEq, Prod.exists] at hmem
  rw [hmem]
  constructor
  · rintro ⟨_,landing,hf,rfl,rfl⟩
    exact ⟨landing,hf,rfl⟩
  · rintro ⟨landing,hf,rfl⟩
    exact ⟨s,landing,hf,rfl,rfl⟩

/-- Scopes, bindings and references of a program are what lexical scoping says. -/
structure LexicallyScoped (n : Node) : Prop where
  /-- Scopes stand at different places, and no identifier is listed twice. -/
  apart : (n.scope.walk.map Scope.path).Nodup
  once : (n.scope.allBindings.flatMap fun b => b.occurrences.map (·.path)).Nodup
  named : ∀ b ∈ n.scope.allBindings, ∀ o ∈ b.occurrences, o.In n [] ∧ o.name = b.name
  /-- A scope binds a name once, if the name is declared in it. -/
  distinct : ∀ σ ∈ n.scope.walk, (σ.bindings.map Binding.name).Nodup
  bound : ∀ s name, n.Declares s name ↔
    ∃ σ ∈ n.scope.walk, σ.path = s ∧ ∃ b ∈ σ.bindings, b.name = name
  declared : ∀ σ ∈ n.scope.walk, ∀ b ∈ σ.bindings, ∀ o, o ∈ b.declarations ↔
    o.name = b.name ∧ ∃ kind, n.DeclaredIn σ.path kind o
  /-- A use belongs to the innermost scope around it that declares its name. -/
  referred : ∀ around o, n.RefersAt around o → ∀ σ ∈ n.scope.walk, ∀ b ∈ σ.bindings,
    (o ∈ b.references ↔ b.name = o.name ∧ n.Innermost around o.name σ.path)
  used : ∀ b ∈ n.scope.allBindings, ∀ o ∈ b.references, ∃ around, n.RefersAt around o
  unbound : ∀ around o, n.RefersAt around o → (∀ t ∈ around, ¬n.Declares t.1 o.name) →
    ∀ b ∈ n.scope.allBindings, o ∉ b.occurrences

theorem names_eq {σ : Scope} {landing : Landing}
    (hbs : σ.bindings = (Binding.ofLanding landing).map (Event.withReferences n.resolved σ.path)) :
    σ.bindings.map Binding.name = (Binding.ofLanding landing).map Binding.name := by
  rw [hbs, List.map_map]
  rfl

section Walk
variable (h : n.IsProgram) {σ : Scope} (hσ : σ ∈ n.scope.walk) {b : Binding} (hb : b ∈ σ.bindings)
include h hσ

theorem frame_of_mem_walk :
    ∃ landing, (σ.path, landing) ∈ n.topLevel.frames true ∧
      σ.bindings = (Binding.ofLanding landing).map (Event.withReferences n.resolved σ.path) :=
  (mem_walk h).mp ⟨σ,hσ,rfl,rfl⟩

include hb

theorem mem_references_iff (hd : n.DeclaratorsOnly) {around : Enclosing} {o : Occurrence}
    (ho : n.RefersAt around o) :
    o ∈ b.references ↔ b.name = o.name ∧ n.Innermost around o.name σ.path := by
  obtain ⟨landing,-,hbs⟩ := frame_of_mem_walk h hσ
  rw [hbs] at hb
  obtain ⟨c,-,rfl⟩ := List.mem_map.mp hb
  simp only [Event.withReferences, List.mem_map, List.mem_filter, Bool.and_eq_true,
    decide_eq_true_eq, Prod.exists, exists_eq_right]
  constructor
  · rintro ⟨s,hr,rfl,hname⟩
    obtain ⟨around',ho',hs⟩ := (mem_resolved_iff h hd).mp hr
    obtain ⟨rfl,-⟩ := refersAt_inj h hd ho ho' rfl
    exact ⟨hname.symm,hs⟩
  · rintro ⟨hname,hs⟩
    exact ⟨_,(mem_resolved_iff h hd).mpr ⟨around,ho,hs⟩,rfl,hname.symm⟩

theorem mem_declarations_iff (hd : n.DeclaratorsOnly) {o : Occurrence} :
    o ∈ b.declarations ↔ o.name = b.name ∧ ∃ kind, n.DeclaredIn σ.path kind o := by
  obtain ⟨landing,hf,hbs⟩ := frame_of_mem_walk h hσ
  rw [hbs] at hb
  obtain ⟨c,hc,rfl⟩ := List.mem_map.mp hb
  change o ∈ c.declarations ↔ o.name = c.name ∧ _
  have hdeclared := Binding.declared_ofLanding landing c hc
  constructor
  · intro ho
    have hl := (Binding.declarations_ofLanding landing).mem_iff.mp (List.mem_flatMap.mpr ⟨c,hc,ho⟩)
    obtain ⟨d,hd,rfl⟩ := List.mem_map.mp hl
    exact ⟨hdeclared.name_eq d.2 ho,d.1,(declaredIn_iff_landing h).mpr ⟨landing,hf,hd⟩⟩
  · rintro ⟨hname,kind,ho⟩
    obtain ⟨landing',hf',hl⟩ := (declaredIn_iff_landing h).mp ho
    obtain rfl : landing' = landing :=
      (Prod.mk.inj (List.inj_on_of_nodup_map (frames_nodup h hd) hf' hf rfl)).2
    obtain ⟨c',hc',hoc,hname'⟩ := Binding.exists_of_mem_landing hl
    obtain rfl : c' = c :=
      List.inj_on_of_nodup_map (Binding.names_nodup landing') hc' hc (hname'.trans hname)
    exact hoc

end Walk

theorem mem_allBindings {b : Binding} :
    b ∈ n.scope.allBindings ↔ ∃ σ ∈ n.scope.walk, b ∈ σ.bindings := by
  rw [Scope.allBindings, List.mem_flatMap]

section Bindings
variable (h : n.IsProgram) (hd : n.DeclaratorsOnly)
include h hd

theorem declares_iff_bound {s : Path} {name : String} :
    n.Declares s name ↔ ∃ σ ∈ n.scope.walk, σ.path = s ∧ ∃ b ∈ σ.bindings, b.name = name := by
  constructor
  · intro hs
    obtain ⟨kind,o,ho,-⟩ := id hs
    obtain ⟨landing,hf,-⟩ := (declaredIn_iff_landing h).mp ho
    obtain ⟨σ,hσ,rfl,hbs⟩ := (mem_walk h).mpr ⟨landing,hf,rfl⟩
    rw [declares_iff h hd hf, ← names_eq hbs] at hs
    obtain ⟨b,hb,rfl⟩ := List.mem_map.mp hs
    exact ⟨σ,hσ,rfl,b,hb,rfl⟩
  · rintro ⟨σ,hσ,rfl,b,hb,rfl⟩
    obtain ⟨landing,hf,hbs⟩ := frame_of_mem_walk h hσ
    rw [declares_iff h hd hf, ← names_eq hbs]
    exact List.mem_map_of_mem hb

theorem refersAt_of_mem_references {b : Binding} (hb : b ∈ n.scope.allBindings) {o : Occurrence}
    (ho : o ∈ b.references) : ∃ around, n.RefersAt around o := by
  obtain ⟨s,hr⟩ := mem_resolved h hb ho
  obtain ⟨around,ho,-⟩ := (mem_resolved_iff h hd).mp hr
  exact ⟨around,ho⟩

/-- A use belongs to what an identifier declares if this is declared in the innermost scope around
the use that declares the name. -/
theorem refers_to_iff {o d : Occurrence} (hname : d.name = o.name) :
    (∃ b ∈ n.scope.allBindings, o ∈ b.references ∧ d ∈ b.declarations) ↔
      ∃ around s kind, n.RefersAt around o ∧ n.Innermost around o.name s ∧ n.DeclaredIn s kind d := by
  constructor
  · rintro ⟨b,hb,ho,hdecl⟩
    obtain ⟨around,hrefers⟩ := refersAt_of_mem_references h hd hb ho
    obtain ⟨σ,hσ,hb⟩ := mem_allBindings.mp hb
    obtain ⟨-,hs⟩ := (mem_references_iff h hσ hb hd hrefers).mp ho
    obtain ⟨-,kind,hkind⟩ := (mem_declarations_iff h hσ hb hd).mp hdecl
    exact ⟨around,σ.path,kind,hrefers,hs,hkind⟩
  · rintro ⟨around,s,kind,hrefers,hs,hkind⟩
    obtain ⟨σ,hσ,rfl,b,hb,hbname⟩ := (declares_iff_bound h hd).mp ⟨kind,d,hkind,rfl⟩
    rw [hname] at hbname
    exact ⟨b,mem_allBindings.mpr ⟨σ,hσ,hb⟩,
      (mem_references_iff h hσ hb hd hrefers).mpr ⟨hbname,hs⟩,
      (mem_declarations_iff h hσ hb hd).mpr ⟨hname.trans hbname.symm,kind,hkind⟩⟩

end Bindings

/-- Scope analysis of a program in which variable declarations have declarators for members. -/
theorem scope_lexical (h : n.IsProgram) (hd : n.DeclaratorsOnly) : n.LexicallyScoped where
  apart := by
    have hwalk := Event.walk_scopes n.resolved true n.topLevel
    rw [scopes_topLevel h, List.flatMap_singleton] at hwalk
    have hpaths := congrArg (List.map Prod.fst) hwalk
    rw [List.map_map, List.map_map] at hpaths
    exact (congrArg List.Nodup hpaths).mpr (frames_nodup h hd)
  once := occurrences_nodup h hd
  named b hb o ho := listed_In h hb ho
  distinct σ hσ := by
    obtain ⟨landing,-,hbs⟩ := frame_of_mem_walk h hσ
    rw [names_eq hbs]
    exact Binding.names_nodup landing
  bound s name := declares_iff_bound h hd
  declared σ hσ b hb o := mem_declarations_iff h hσ hb hd
  referred around o ho σ hσ b hb := mem_references_iff h hσ hb hd ho
  used b hb o ho := refersAt_of_mem_references h hd hb ho
  unbound around o ho hn b hb hlisted := by
    obtain ⟨σ,hσ,hb⟩ := mem_allBindings.mp hb
    rcases List.mem_append.mp hlisted with hlisted | hlisted
    · obtain ⟨-,kind,hdecl⟩ := (mem_declarations_iff h hσ hb hd).mp hlisted
      exact ho.2 _ _ _ hdecl rfl
    · obtain ⟨-,inner,f,outer,rfl,hs,-⟩ := (mem_references_iff h hσ hb hd ho).mp hlisted
      exact hn (σ.path, f) (by simp) hs

/-- Uses before, around and inside declarations: `X; { var X; let y; X; y; }` and
`function f(X) { X; y; <X.a />; }`, where `y` is not declared. -/
def hoisting : Node :=
  let use (name : String) : Node :=
    .mk (.expressionStatement none none) [(.expression, .identifier name)]
  let declaration (kind name : String) : Node :=
    .mk (.variableDeclaration kind)
      [(.declarations, .mk .variableDeclarator [(.id, .identifier name)])]
  let tag : Node :=
    .mk .jsxMemberExpression
      [(.object, .mk (.jsxIdentifier "X") []), (.property, .mk (.jsxIdentifier "a") [])]
  let element : Node :=
    .mk .jsxElement [(.openingElement, .mk (.jsxOpeningElement true) [(.name, tag)])]
  .mk (.program "script")
    [(.body, use "X"),
     (.body, .block [declaration "var" "X", declaration "let" "y", use "X", use "y"]),
     (.body, .mk (.functionDeclaration {} none)
       [(.id, .identifier "f"), (.params, .identifier "X"),
        (.body, .block [use "X", use "y",
          .mk (.expressionStatement none none) [(.expression, element)]])])]

theorem scope_lexical_hoisting :
    hoisting.LexicallyScoped ∧
      (hoisting.scope.allBindings.map fun b => (b.name, b.references.map Occurrence.path)) =
        [("X", [[0, 0], [1, 2, 0]]), ("f", []), ("y", [[1, 3, 0]]),
          ("X", [[2, 2, 0, 0], [2, 2, 2, 0, 0, 0, 0]])] :=
  ⟨scope_lexical ⟨"script",rfl⟩ (by
    simp [hoisting, Node.declaratorsOnly_marked, Node.label, Node.identifier, Node.block]),
    by decide +kernel⟩

end Node

end Unravel
