import Mathlib.Data.List.Flatten
import Mathlib.Data.List.Induction
import Mathlib.Data.List.Perm.Basic
import Unravel.Proofs.Scope.Sites

/-! What the bindings of a program list. Every declaration lands in one scope, every use that
resolves is listed under one binding, and so no identifier is listed twice. -/

namespace Unravel

/-- The declarations that land in a scope, in walking order. -/
abbrev Landing := List (BindingKind × Occurrence)

namespace Binding

/-- The bindings that declarations make, not yet referred to. -/
def ofLanding (landing : Landing) : List Binding :=
  landing.foldl (fun bs (kind, o) => declareIn kind o bs) []

theorem ofLanding_concat (landing : Landing) (kind : BindingKind) (o : Occurrence) :
    ofLanding (landing ++ [(kind, o)]) = declareIn kind o (ofLanding landing) := by
  simp [ofLanding]

/-- A binding is declared, only under its own name. -/
structure Declared (b : Binding) : Prop where
  ne_nil : b.declarations ≠ []
  name_eq : ∀ o ∈ b.declarations, o.name = b.name
  unreferred : b.references = []

private theorem declared_declareIn {kind : BindingKind} {o : Occurrence} {bs : List Binding}
    (h : ∀ b ∈ bs, b.Declared) : ∀ b ∈ declareIn kind o bs, b.Declared := by
  induction bs with
  | nil => simpa [declareIn] using ⟨by simp,by simp,rfl⟩
  | cons b bs ih =>
    obtain ⟨hb,hbs⟩ := List.forall_mem_cons.mp h
    rw [declareIn]
    split
    · rename_i hn
      refine List.forall_mem_cons.mpr ⟨⟨by simp [redeclare],?_,hb.unreferred⟩,hbs⟩
      intro d hd
      rcases List.mem_append.mp hd with hd | hd
      · exact hb.name_eq d hd
      · rw [List.mem_singleton.mp hd]
        exact hn.symm
    · exact List.forall_mem_cons.mpr ⟨hb,ih hbs⟩

theorem declared_ofLanding (landing : Landing) : ∀ b ∈ ofLanding landing, b.Declared := by
  induction landing using List.reverseRecOn with
  | nil => simp [ofLanding]
  | append_singleton landing d ih =>
    rw [ofLanding_concat]
    exact declared_declareIn ih

private theorem declarations_declareIn (kind : BindingKind) (o : Occurrence) (bs : List Binding) :
    ((declareIn kind o bs).flatMap declarations).Perm (bs.flatMap declarations ++ [o]) := by
  induction bs with
  | nil => simp [declareIn]
  | cons b bs ih =>
    rw [declareIn]
    split
    · simp only [List.flatMap_cons, redeclare, List.append_assoc]
      exact List.perm_append_comm.append_left _
    · simpa using ih.append_left b.declarations

/-- The bindings list each declaration once. -/
theorem declarations_ofLanding (landing : Landing) :
    ((ofLanding landing).flatMap declarations).Perm (landing.map Prod.snd) := by
  induction landing using List.reverseRecOn with
  | nil => simp [ofLanding]
  | append_singleton landing d ih =>
    rw [ofLanding_concat, List.map_append]
    exact (declarations_declareIn _ _ _).trans (ih.append_right _)

private theorem names_declareIn (kind : BindingKind) (o : Occurrence) (bs : List Binding) :
    (declareIn kind o bs).map name =
      if o.name ∈ bs.map name then bs.map name else bs.map name ++ [o.name] := by
  induction bs with
  | nil => simp [declareIn]
  | cons b bs ih =>
    rw [declareIn]
    by_cases h : b.name = o.name
    · simp [h, redeclare]
    · simp only [h, if_false, List.map_cons, ih, List.mem_cons, Ne.symm h, false_or]
      split <;> rfl

theorem names_nodup (landing : Landing) : ((ofLanding landing).map name).Nodup := by
  induction landing using List.reverseRecOn with
  | nil => simp [ofLanding]
  | append_singleton landing d ih =>
    rw [ofLanding_concat, names_declareIn]
    split
    · exact ih
    · rename_i h
      exact List.nodup_append.mpr ⟨ih,by simp,by
        intro a ha b hb
        rw [List.mem_singleton.mp hb]
        exact fun he => h (he ▸ ha)⟩

theorem mem_names {landing : Landing} {name : String} :
    name ∈ (ofLanding landing).map Binding.name ↔ ∃ d ∈ landing, d.2.name = name := by
  induction landing using List.reverseRecOn with
  | nil => simp [ofLanding]
  | append_singleton landing d ih =>
    rw [ofLanding_concat, names_declareIn]
    constructor
    · intro h
      split at h
      · obtain ⟨e,he,hn⟩ := ih.mp h
        exact ⟨e,List.mem_append_left _ he,hn⟩
      · rcases List.mem_append.mp h with h | h
        · obtain ⟨e,he,hn⟩ := ih.mp h
          exact ⟨e,List.mem_append_left _ he,hn⟩
        · exact ⟨d,by simp,(List.mem_singleton.mp h).symm⟩
    · rintro ⟨e,he,rfl⟩
      rcases List.mem_append.mp he with he | he
      · have := ih.mpr ⟨e,he,rfl⟩
        split
        · exact this
        · exact List.mem_append_left _ this
      · obtain rfl := List.mem_singleton.mp he
        split
        · assumption
        · simp

/-- The binding that lists a declaration. -/
theorem exists_of_mem_landing {landing : Landing} {d : BindingKind × Occurrence}
    (h : d ∈ landing) : ∃ b ∈ ofLanding landing, d.2 ∈ b.declarations ∧ b.name = d.2.name := by
  have hd : d.2 ∈ (ofLanding landing).flatMap declarations :=
    (declarations_ofLanding landing).mem_iff.mpr (List.mem_map_of_mem h)
  obtain ⟨b,hb,ho⟩ := List.mem_flatMap.mp hd
  exact ⟨b,hb,ho,((declared_ofLanding landing b hb).name_eq d.2 ho).symm⟩

end Binding

namespace Event

/-! ### Where declarations land -/

theorem landingAll_eq (here function root : Bool) (es : List Event) :
    landingAll here function root es = es.flatMap (landing here function root) := by
  induction es with
  | nil => rfl
  | cons e es ih => rw [landingAll, ih, List.flatMap_cons]

theorem declaredAll_eq (es : List Event) : declaredAll es = es.flatMap declared := by
  induction es with
  | nil => rfl
  | cons e es ih => rw [declaredAll, ih, List.flatMap_cons]

private theorem flatMap_perm_append {α β : Type} {F G H : α → List β} {xs : List α}
    (h : ∀ x ∈ xs, (F x).Perm (G x ++ H x)) :
    (xs.flatMap F).Perm (xs.flatMap G ++ xs.flatMap H) :=
  (List.Perm.flatMap_left xs h).trans (List.flatMap_append_perm xs G H).symm

/-- What lands under either of two sets of reaches that exclude each other. -/
private theorem landing_or (e : Event) (h f r h' f' r' : Bool) (hh : (h && h') = false)
    (hf : (f && f') = false) (hr : (r && r') = false) :
    (landing (h || h') (f || f') (r || r') e).Perm (landing h f r e ++ landing h' f' r' e) := by
  induction e using Event.inductionOn generalizing h f r h' f' r' with
  | declare reach kind o => cases reach <;> simp only [landing] <;> grind
  | refer o => simp [landing]
  | scope p l isFunction es ih =>
    have hf : ((f && !isFunction) && (f' && !isFunction)) = false := by
      rw [Bool.and_assoc, Bool.and_left_comm (!isFunction), ← Bool.and_assoc, hf, Bool.false_and]
    simp only [landing, landingAll_eq]
    refine flatMap_perm_append fun e he => ?_
    rw [Bool.and_or_distrib_right]
    exact ih e he false _ _ false _ _ rfl hf hr

private theorem landingAll_or (es : List Event) (h f r h' f' r' : Bool) (hh : (h && h') = false)
    (hf : (f && f') = false) (hr : (r && r') = false) :
    (landingAll (h || h') (f || f') (r || r') es).Perm
      (landingAll h f r es ++ landingAll h' f' r' es) := by
  simp only [landingAll_eq]
  exact flatMap_perm_append fun e _ => landing_or e _ _ _ _ _ _ hh hf hr

mutual
/-- All scopes that an event opens, with what lands in each. -/
def frames (isRoot : Bool) : Event → List (Path × Landing)
  | .declare .. => []
  | .refer _ => []
  | .scope p _ isFunction events => (p, landingAll true isFunction isRoot events) :: framesAll events
def framesAll : List Event → List (Path × Landing)
  | [] => []
  | e :: rest => frames false e ++ framesAll rest
end

theorem framesAll_eq (es : List Event) : framesAll es = es.flatMap (frames false) := by
  induction es with
  | nil => rfl
  | cons e es ih => rw [framesAll, ih, List.flatMap_cons]

/-- The positions of the declarations that land in some scope. -/
def landed (frames : List (Path × Landing)) : List Path :=
  frames.flatMap fun f => f.2.map fun d => d.2.path

private theorem declaredAll_perm {es : List Event}
    (h : ∀ e ∈ es, e.declared.Perm
      (landed (e.frames false) ++ (landing true true true e).map fun d => d.2.path)) :
    (declaredAll es).Perm
      (landed (framesAll es) ++ (landingAll true true true es).map fun d => d.2.path) := by
  rw [declaredAll_eq, framesAll_eq, landingAll_eq, landed, List.flatMap_assoc, List.map_flatMap]
  exact flatMap_perm_append h

private theorem declared_perm (e : Event) :
    e.declared.Perm (landed (e.frames false) ++ (landing true true true e).map fun d => d.2.path) := by
  induction e using Event.inductionOn with
  | declare reach kind o => cases reach <;> simp [declared, frames, landed, landing]
  | refer o => simp [declared, frames, landed, landing]
  | scope p l isFunction es ih =>
    have hsplit := (landingAll_or es true isFunction false false (!isFunction) true
      rfl (by simp) rfl).map fun d => d.2.path
    simp only [Bool.or_false, Bool.or_not_self, Bool.or_true, List.map_append] at hsplit
    rw [declared, frames, landing, landed, List.flatMap_cons, Bool.true_and]
    refine (declaredAll_perm ih).trans ((hsplit.append_left _).trans ?_)
    rw [← List.append_assoc]
    exact List.perm_append_comm.append_right _

/-- Every declaration of a program lands in exactly one scope. -/
theorem declared_perm_root (p : Path) (l : Label) (es : List Event) :
    (declaredAll es).Perm (landed (frames true (.scope p l true es))) :=
  (declaredAll_perm fun e _ => declared_perm e).trans List.perm_append_comm

/-! ### Which uses are listed -/

/-- The positions of one kind of site. -/
def pathsOf (s : Site) (sites : List (Site × Path)) : List Path :=
  (sites.filter fun x => x.1 = s).map Prod.snd

theorem pathsOf_nodup {s : Site} {sites : List (Site × Path)} (h : sites.Nodup) :
    (pathsOf s sites).Nodup := by
  refine (List.nodup_map_iff_inj_on (h.filter _)).mpr fun x hx y hy he => ?_
  have hx := of_decide_eq_true (List.mem_filter.mp hx).2
  have hy := of_decide_eq_true (List.mem_filter.mp hy).2
  exact Prod.ext (hx.trans hy.symm) he

theorem declared_eq (e : Event) : e.declared = pathsOf .declared e.sites := by
  induction e using Event.inductionOn with
  | declare reach kind o => rfl
  | refer o => rfl
  | scope p l f es ih =>
    rw [declared, declaredAll_eq, sites, sitesAll_eq]
    simpa [pathsOf, List.filter_flatMap, List.map_flatMap] using List.flatMap_congr ih

theorem frames_paths (isRoot : Bool) (e : Event) :
    (e.frames isRoot).map Prod.fst = pathsOf .opened e.sites := by
  induction e using Event.inductionOn generalizing isRoot with
  | declare reach kind o => rfl
  | refer o => rfl
  | scope p l f es ih =>
    rw [frames, framesAll_eq, sites, sitesAll_eq]
    simpa [pathsOf, List.filter_flatMap, List.map_flatMap] using
      List.flatMap_congr fun e he => ih e he false

theorem resolveAll_eq (declared : List Path) (env : Surroundings) (es : List Event) :
    resolveAll declared env es = es.flatMap (resolve declared false env) := by
  induction es with
  | nil => rfl
  | cons e es ih => rw [resolveAll, ih, List.flatMap_cons]

/-- Resolution lists uses of the walk, each at most once. -/
theorem resolve_sublist (declared : List Path) (isRoot : Bool) (env : Surroundings) (e : Event) :
    ((resolve declared isRoot env e).map fun r => r.2.path).Sublist (pathsOf .referred e.sites) := by
  induction e using Event.inductionOn generalizing isRoot env with
  | declare reach kind o => simp [resolve]
  | refer o =>
    rw [resolve]
    split
    · simp
    · cases env.find? o.name <;> simp [pathsOf, sites]
  | scope p l f es ih =>
    rw [resolve, resolveAll_eq, List.map_flatMap, sites, sitesAll_eq]
    simpa [pathsOf, List.filter_flatMap, List.map_flatMap] using
      List.Sublist.flatMap_right es fun e he => ih e he false _

theorem resolve_not_declared {declared : List Path} {isRoot : Bool} {env : Surroundings} {e : Event}
    {r : Path × Occurrence} (h : r ∈ resolve declared isRoot env e) : r.2.path ∉ declared := by
  induction e using Event.inductionOn generalizing isRoot env with
  | declare reach kind o => simp [resolve] at h
  | refer o =>
    rw [resolve] at h
    split at h
    · simp at h
    · rename_i hd
      obtain ⟨s,-,rfl⟩ := List.mem_map.mp h
      simpa using hd
  | scope p l f es ih =>
    rw [resolve, resolveAll_eq] at h
    obtain ⟨e,he,h⟩ := List.mem_flatMap.mp h
    exact ih e he h

theorem Sound.resolve {n : Node} {p : Path} {declared : List Path} {isRoot : Bool}
    {env : Surroundings} {e : Event} (hs : Sound n p e) {r : Path × Occurrence}
    (h : r ∈ resolve declared isRoot env e) : r.2.In n p := by
  induction e using Event.inductionOn generalizing isRoot env with
  | declare reach kind o => simp [Event.resolve] at h
  | refer o =>
    rw [Event.resolve] at h
    split at h
    · simp at h
    · obtain ⟨s,-,rfl⟩ := List.mem_map.mp h
      exact hs
  | scope q l f es ih =>
    rw [Event.resolve, resolveAll_eq] at h
    obtain ⟨e,he,h⟩ := List.mem_flatMap.mp h
    exact ih e he (soundAll_iff.mp hs.2 e he) h

theorem Sound.landing {n : Node} {p : Path} {here function root : Bool} {e : Event}
    (hs : Sound n p e) {d : BindingKind × Occurrence} (h : d ∈ landing here function root e) :
    d.2.In n p ∧ d.2.isTag = false := by
  induction e using Event.inductionOn generalizing here function root with
  | declare reach kind o =>
    cases reach <;> simp only [Event.landing, List.mem_ite_nil_right, List.mem_singleton] at h <;>
      rw [h.2] <;> exact hs
  | refer o => simp [Event.landing] at h
  | scope q l f es ih =>
    rw [Event.landing, landingAll_eq] at h
    obtain ⟨e,he,h⟩ := List.mem_flatMap.mp h
    exact ih e he (soundAll_iff.mp hs.2 e he) h

theorem Sound.frames {n : Node} {p : Path} {isRoot : Bool} {e : Event} (hs : Sound n p e)
    {f : Path × Landing} (h : f ∈ frames isRoot e) :
    ∀ d ∈ f.2, d.2.In n p ∧ d.2.isTag = false := by
  induction e using Event.inductionOn generalizing isRoot with
  | declare reach kind o => simp [Event.frames] at h
  | refer o => simp [Event.frames] at h
  | scope q l g es ih =>
    have hes := soundAll_iff.mp hs.2
    rw [Event.frames, framesAll_eq, List.mem_cons, List.mem_flatMap] at h
    rcases h with rfl | ⟨e,he,h⟩
    · intro d hd
      obtain ⟨e,he,hd⟩ := List.mem_flatMap.mp (landingAll_eq .. ▸ hd)
      exact (hes e he).landing hd
    · exact ih e he (hes e he) h

theorem scopesAll_eq (resolved : List (Path × Occurrence)) (es : List Event) :
    scopesAll resolved es = es.flatMap (scopes resolved false) := by
  induction es with
  | nil => rfl
  | cons e es ih => rw [scopesAll, ih, List.flatMap_cons]

end Event

/-- The bindings of scopes, in the order in which the scopes are made. -/
def Binding.listed (resolved : List (Path × Occurrence)) (frames : List (Path × Landing)) :
    List Binding :=
  frames.flatMap fun f => (ofLanding f.2).map (Event.withReferences resolved f.1)

namespace Scope

/-- All bindings of a scope and the scopes inside it. -/
def allBindings (s : Scope) : List Binding := s.walk.flatMap bindings

theorem walkAll_eq (ss : List Scope) : walkAll ss = ss.flatMap walk := by
  induction ss with
  | nil => rfl
  | cons s ss ih => rw [walkAll, ih, List.flatMap_cons]

theorem allBindings_mk (p : Path) (l : Label) (f : Bool) (bs : List Binding) (cs : List Scope) :
    (mk p l f bs cs).allBindings = bs ++ cs.flatMap allBindings := by
  rw [allBindings, walk, walkAll_eq, List.flatMap_cons, List.flatMap_assoc]
  rfl

end Scope

namespace Event

theorem allBindings_scopes (resolved : List (Path × Occurrence)) (isRoot : Bool) (e : Event) :
    (e.scopes resolved isRoot).flatMap Scope.allBindings =
      Binding.listed resolved (e.frames isRoot) := by
  induction e using Event.inductionOn generalizing isRoot with
  | declare reach kind o => rfl
  | refer o => rfl
  | scope p l f es ih =>
    rw [scopes, frames, List.flatMap_singleton, Scope.allBindings_mk, Binding.listed,
      List.flatMap_cons, framesAll_eq, scopesAll_eq, List.flatMap_assoc, List.flatMap_assoc]
    congr 1
    exact List.flatMap_congr fun e he => ih e he false

end Event

/-! ### Programs -/

namespace Node

/-- The one event of a program: the scope of the whole. -/
def topLevel (n : Node) : Event := .scope [] n.label true ((Plan.slot .body).across n.subtrees [])

/-- The uses of a program that resolve, with the scopes they resolve to. -/
def resolved (n : Node) : List (Path × Occurrence) := n.topLevel.resolve n.topLevel.declared true []

variable {n : Node}

theorem events_program (h : n.IsProgram) : n.events = [n.topLevel] := by
  obtain ⟨s,hs⟩ := h
  obtain ⟨m,l,cs⟩ := n
  obtain rfl : l = .program s := hs
  rw [events]
  change (marked m (.program s) cs).walk.visit [] = _
  rw [walk_visit]
  simp [Plan.events, Label.plan, topLevel, label, subtrees]

theorem scopes_topLevel (h : n.IsProgram) : n.topLevel.scopes n.resolved true = [n.scope] := by
  have hr : n.events.flatMap (Event.resolve (Event.declaredAll n.events) true []) = n.resolved := by
    simp [events_program h, resolved, Event.declaredAll]
  rw [scope, hr, events_program h]
  simp [topLevel, Event.scopes]

theorem allBindings_program (h : n.IsProgram) :
    n.scope.allBindings = Binding.listed n.resolved (n.topLevel.frames true) := by
  rw [← Event.allBindings_scopes, scopes_topLevel h, List.flatMap_singleton]

theorem sound_topLevel (h : n.IsProgram) : n.topLevel.Sound n [] := by
  refine (sound_walk n []).1 _ ?_
  change n.topLevel ∈ n.events
  simp [events_program h]

theorem topLevel_sites_nodup (h : n.IsProgram) (hd : n.DeclaratorsOnly) : n.topLevel.sites.Nodup := by
  have := sites_nodup n hd []
  change (Event.sitesAll n.events).Nodup at this
  simpa [events_program h, Event.sitesAll] using this

theorem mem_resolved (h : n.IsProgram) {b : Binding} (hb : b ∈ n.scope.allBindings) {o : Occurrence}
    (ho : o ∈ b.references) : ∃ s, (s, o) ∈ n.resolved := by
  rw [allBindings_program h] at hb
  obtain ⟨f,-,hb⟩ := List.mem_flatMap.mp hb
  obtain ⟨c,-,rfl⟩ := List.mem_map.mp hb
  obtain ⟨r,hr,rfl⟩ := List.mem_map.mp ho
  exact ⟨r.1,(List.mem_filter.mp hr).1⟩

/-- A binding lists identifiers of the tree that have its name. -/
theorem listed_In (h : n.IsProgram) {b : Binding} (hb : b ∈ n.scope.allBindings) {o : Occurrence}
    (ho : o ∈ b.occurrences) : o.In n [] ∧ o.name = b.name := by
  rw [allBindings_program h] at hb
  obtain ⟨f,hf,hb⟩ := List.mem_flatMap.mp hb
  obtain ⟨c,hc,rfl⟩ := List.mem_map.mp hb
  rcases List.mem_append.mp ho with ho | ho
  · have hl := (Binding.declarations_ofLanding f.2).mem_iff.mp (List.mem_flatMap.mpr ⟨c,hc,ho⟩)
    obtain ⟨d,hd,rfl⟩ := List.mem_map.mp hl
    exact ⟨((sound_topLevel h).frames hf d hd).1,(Binding.declared_ofLanding f.2 c hc).name_eq d.2 ho⟩
  · obtain ⟨r,hr,rfl⟩ := List.mem_map.mp ho
    obtain ⟨hr,hn⟩ := List.mem_filter.mp hr
    simp only [Bool.and_eq_true, decide_eq_true_eq] at hn
    exact ⟨(sound_topLevel h).resolve hr,hn.2⟩

/-- A binding has a declaration, and no tag declares. -/
theorem declarations_listed (h : n.IsProgram) {b : Binding} (hb : b ∈ n.scope.allBindings) :
    b.declarations ≠ [] ∧ ∀ o ∈ b.declarations, o.isTag = false := by
  rw [allBindings_program h] at hb
  obtain ⟨f,hf,hb⟩ := List.mem_flatMap.mp hb
  obtain ⟨c,hc,rfl⟩ := List.mem_map.mp hb
  refine ⟨(Binding.declared_ofLanding f.2 c hc).ne_nil,fun o ho => ?_⟩
  have hl := (Binding.declarations_ofLanding f.2).mem_iff.mp (List.mem_flatMap.mpr ⟨c,hc,ho⟩)
  obtain ⟨d,hd,rfl⟩ := List.mem_map.mp hl
  exact ((sound_topLevel h).frames hf d hd).2

private theorem nodup_filter_keys {α κ : Type} [DecidableEq κ] {xs : List α} {path : α → Path}
    (key : α → κ) (hx : (xs.map path).Nodup) {keys : List κ} (hk : keys.Nodup) :
    (keys.flatMap fun k => (xs.filter fun x => key x = k).map path).Nodup := by
  refine List.nodup_flatMap.mpr ⟨fun k _ => hx.sublist (List.filter_sublist.map path),?_⟩
  refine hk.imp fun {k k'} hne p hp hp' => ?_
  obtain ⟨x,hx1,rfl⟩ := List.mem_map.mp hp
  obtain ⟨y,hy1,he⟩ := List.mem_map.mp hp'
  obtain ⟨hx1,hxk⟩ := List.mem_filter.mp hx1
  obtain ⟨hy1,hyk⟩ := List.mem_filter.mp hy1
  have := List.inj_on_of_nodup_map hx hy1 hx1 he
  subst this
  exact hne ((of_decide_eq_true hxk).symm.trans (of_decide_eq_true hyk))

private theorem keys_nodup {frames : List (Path × Landing)} (h : (frames.map Prod.fst).Nodup) :
    (frames.flatMap fun f => (Binding.ofLanding f.2).map fun b => (f.1, b.name)).Nodup := by
  refine List.nodup_flatMap.mpr ⟨fun f _ => ?_,?_⟩
  · have := (Binding.names_nodup f.2).map (f := fun name => (f.1, name)) fun _ _ h =>
      (Prod.mk.inj h).2
    rwa [List.map_map] at this
  · refine (List.pairwise_map.mp h).imp fun {f g} hne k hk hk' => ?_
    obtain ⟨b,-,rfl⟩ := List.mem_map.mp hk
    obtain ⟨c,-,he⟩ := List.mem_map.mp hk'
    exact hne (Prod.mk.inj he).1.symm

/-- The bindings of a program list its declarations, each once. -/
theorem declarations_perm (h : n.IsProgram) :
    (n.scope.allBindings.flatMap fun b => b.declarations.map (·.path)).Perm n.topLevel.declared := by
  have hl : n.topLevel.declared.Perm (Event.landed (n.topLevel.frames true)) :=
    Event.declared_perm_root [] n.label ((Plan.slot .body).across n.subtrees [])
  refine List.Perm.trans ?_ hl.symm
  rw [allBindings_program h, Binding.listed, Event.landed, List.flatMap_assoc]
  refine List.Perm.flatMap_left _ fun f _ => ?_
  have := (Binding.declarations_ofLanding f.2).map (·.path)
  rw [List.map_flatMap, List.map_map] at this
  rw [List.flatMap_map]
  exact this

/-- No identifier of a program is listed twice, under one binding or under two. -/
theorem occurrences_nodup (h : n.IsProgram) (hd : n.DeclaratorsOnly) :
    (n.scope.allBindings.flatMap fun b => b.occurrences.map (·.path)).Nodup := by
  have hsites := topLevel_sites_nodup h hd
  have hlisted := allBindings_program h
  -- Declarations are those that land, references those that resolve and are declared nowhere.
  have hdecl := declarations_perm h
  generalize hF : n.topLevel.frames true = frames at hlisted
  have hrefs : (n.scope.allBindings.flatMap fun b => b.references.map (·.path)).Nodup := by
    have hr : (n.resolved.map fun r => r.2.path).Nodup :=
      (Event.pathsOf_nodup hsites).sublist (Event.resolve_sublist _ true [] n.topLevel)
    have hk := keys_nodup (hF ▸ Event.frames_paths true n.topLevel ▸ Event.pathsOf_nodup hsites)
    have := nodup_filter_keys (fun r : Path × Occurrence => (r.1, r.2.name)) hr hk
    rw [hlisted, Binding.listed, List.flatMap_assoc]
    simpa [List.flatMap_assoc, List.flatMap_map, Event.withReferences, List.map_map,
      Function.comp_def, Prod.mk.injEq] using this
  have hsplit := (List.flatMap_append_perm n.scope.allBindings
    (fun b => b.declarations.map (·.path)) fun b => b.references.map (·.path))
  simp only [Binding.occurrences, List.map_append]
  refine hsplit.nodup (List.nodup_append.mpr ⟨?_,hrefs,?_⟩)
  · rw [hdecl.nodup_iff, Event.declared_eq]
    exact Event.pathsOf_nodup hsites
  · intro p hp q hq he
    subst he
    obtain ⟨b,hb,hq⟩ := List.mem_flatMap.mp hq
    obtain ⟨o,ho,rfl⟩ := List.mem_map.mp hq
    obtain ⟨s,hr⟩ := mem_resolved h hb ho
    exact Event.resolve_not_declared hr (hdecl.mem_iff.mp hp)

end Node

end Unravel
