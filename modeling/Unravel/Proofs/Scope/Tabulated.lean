import Unravel.Proofs.Scope.Growth
import Unravel.Proofs.Scope.Resolution

/-! The scopes of a program in a table. A first walk of the program makes its scopes and declares
names in them, a second one looks up the names that are used. All of it is steps at scopes that are
there, and in the end the table lists the scope tree of the program. -/

namespace Unravel

namespace Scope

/-- The numbers of scopes that are made one after another, each before all inside it. -/
def numbers (i : Nat) : List Scope → List Nat
  | [] => []
  | s :: rest => i :: numbers (i + s.walk.length) rest

mutual
/-- A scope and all inside it as entries, numbered from `i` on, each with the place of its scope. -/
def tabulate (parent : Option Nat) (i : Nat) : Scope → List (Path × ScopeEntry)
  | .mk p _ f bs cs => (p, ⟨parent, f, bs, numbers (i + 1) cs⟩) :: tabulateAll (some i) (i + 1) cs
def tabulateAll (parent : Option Nat) (i : Nat) : List Scope → List (Path × ScopeEntry)
  | [] => []
  | s :: rest => s.tabulate parent i ++ tabulateAll parent (i + s.walk.length) rest
end

end Scope

namespace ScopeTable

/-- The scope that a declaration lands in, as seen from a scope. -/
def target? (t : ScopeTable) (i : Nat) : Reach → Option Nat
  | .here => some i
  | .function => t.functionScope? i
  | .root => some 0

mutual
/-- The first walk makes scopes inside a scope and declares names. -/
def build (t : ScopeTable) (i : Nat) : Event → ScopeTable
  | .declare reach kind o =>
    match t.target? i reach with
    | some j => t.declare j kind o
    | none => t
  | .refer _ => t
  | .scope _ _ isFunction events =>
    let (t, j) := t.addChild i isFunction
    t.buildAll j events
def buildAll (t : ScopeTable) (i : Nat) : List Event → ScopeTable
  | [] => t
  | e :: rest => (t.build i e).buildAll i rest
end

/-- The second walk looks up names from scopes, in turn. -/
def referAll (t : ScopeTable) (uses : List (Nat × Occurrence)) : ScopeTable :=
  uses.foldl (fun t u => (t.refer u.1 u.2).1) t

end ScopeTable

namespace Event

mutual
/-- The names that the second walk looks up, each with the number of the scope that it is in. Scopes
are entered in the order in which they were made, the next one with the number `next`. -/
def lookups (declared : List Path) (i next : Nat) : Event → List (Nat × Occurrence)
  | .declare .. => []
  | .refer o => if declared.contains o.path then [] else [(i, o)]
  | .scope _ _ _ events => lookupsAll declared next (next + 1) events
def lookupsAll (declared : List Path) (i next : Nat) : List Event → List (Nat × Occurrence)
  | [] => []
  | e :: rest =>
    lookups declared i next e ++ lookupsAll declared i (next + e.opened.length) rest
end

end Event

/-- The table of the scopes of a program after both walks. -/
def Node.scopeTable (program : Node) : ScopeTable :=
  match program.events with
  | .scope _ _ _ events :: _ =>
    (ScopeTable.start.buildAll 0 events).referAll
      (Event.lookupsAll (Event.declaredAll program.events) 0 1 events)
  | _ => .start

namespace Scope

mutual
/-- The entries stand in the order of a walk. -/
theorem paths_tabulate (parent : Option Nat) (i : Nat) :
    ∀ s : Scope, (s.tabulate parent i).map Prod.fst = s.walk.map path
  | .mk _ _ _ _ cs => by
    rw [tabulate, walk, List.map_cons, List.map_cons, paths_tabulateAll _ _ cs]
    rfl
theorem paths_tabulateAll (parent : Option Nat) (i : Nat) :
    ∀ ss : List Scope, (tabulateAll parent i ss).map Prod.fst = (walkAll ss).map path
  | [] => rfl
  | s :: rest => by
    rw [tabulateAll, walkAll, List.map_append, List.map_append, paths_tabulate _ _ s,
      paths_tabulateAll _ _ rest]
end

theorem length_tabulateAll (parent : Option Nat) (i : Nat) (ss : List Scope) :
    (tabulateAll parent i ss).length = (walkAll ss).length := by
  simpa using congrArg List.length (paths_tabulateAll parent i ss)

theorem numbers_append (i : Nat) (ss more : List Scope) :
    numbers i (ss ++ more) = numbers i ss ++ numbers (i + (walkAll ss).length) more := by
  induction ss generalizing i with
  | nil => rfl
  | cons s ss ih =>
    rw [List.cons_append, numbers, numbers, ih, walkAll, List.length_append, Nat.add_assoc]
    rfl

theorem tabulateAll_append (parent : Option Nat) (i : Nat) (ss more : List Scope) :
    tabulateAll parent i (ss ++ more) =
      tabulateAll parent i ss ++ tabulateAll parent (i + (walkAll ss).length) more := by
  induction ss generalizing i with
  | nil => rfl
  | cons s ss ih =>
    rw [List.cons_append, tabulateAll, tabulateAll, ih, walkAll, List.length_append, Nat.add_assoc,
      List.append_assoc]

/-- Where the entries of scopes stand among others, so do those of the first and of the last of them. -/
theorem tabulateAll_prefix {parent : Option Nat} {i : Nat} {ss more : List Scope}
    {rows : List (Path × ScopeEntry)} (h : tabulateAll parent i (ss ++ more) <+: rows.drop i) :
    tabulateAll parent i ss <+: rows.drop i ∧
      tabulateAll parent (i + (walkAll ss).length) more <+: rows.drop (i + (walkAll ss).length) := by
  obtain ⟨rest,hrest⟩ := h
  rw [tabulateAll_append, List.append_assoc] at hrest
  refine ⟨⟨_,hrest⟩,rest,?_⟩
  rw [← List.drop_drop, ← hrest, ← length_tabulateAll parent i, List.drop_left]

end Scope

namespace Event

theorem landingAll_none (es : List Event) : landingAll false false false es = [] := by
  suffices h : ∀ e : Event, e.landing false false false = [] by
    rw [landingAll_eq, List.flatMap_eq_nil_iff]
    exact fun e _ => h e
  intro e
  induction e using Event.inductionOn with
  | declare reach kind o => cases reach <;> rfl
  | refer o => rfl
  | scope p l f es ih =>
    rw [landing, Bool.false_and, landingAll_eq, List.flatMap_eq_nil_iff]
    exact ih

theorem length_scopes (resolved : List (Path × Occurrence)) (e : Event) :
    (Scope.walkAll (e.scopes resolved false)).length = e.opened.length := by
  have hwalk := congrArg List.length (walk_scopes resolved false e)
  rwa [List.length_map, List.length_map, frames_eq, List.length_map, ← Scope.walkAll_eq] at hwalk

theorem length_scopesAll (resolved : List (Path × Occurrence)) (es : List Event) :
    (Scope.walkAll (scopesAll resolved es)).length = (openedAll es).length := by
  induction es with
  | nil => rfl
  | cons e es ih =>
    have he := length_scopes resolved e
    rw [Scope.walkAll_eq] at he ih ⊢
    rw [scopesAll, openedAll, List.flatMap_append, List.length_append, List.length_append, he, ih]

theorem numbers_scopesAll (resolved : List (Path × Occurrence)) (i : Nat) (es : List Event) :
    Scope.numbers i (scopesAll resolved es) = Scope.numbers i (scopesAll [] es) := by
  induction es generalizing i with
  | nil => rfl
  | cons e es ih =>
    rw [scopesAll, scopesAll, Scope.numbers_append, Scope.numbers_append, length_scopes,
      length_scopes, ih]
    cases e <;> rfl

/-- An entry whose bindings list the uses that resolve to its scope. -/
def referred (resolved : List (Path × Occurrence)) (row : Path × ScopeEntry) : Path × ScopeEntry :=
  (row.1, { row.2 with bindings := row.2.bindings.map (withReferences resolved row.1) })

/-- What uses resolve to changes the references of bindings only. -/
theorem tabulateAll_scopes (resolved : List (Path × Occurrence)) (isRoot : Bool) (e : Event)
    (parent : Option Nat) (i : Nat) :
    Scope.tabulateAll parent i (e.scopes resolved isRoot) =
      (Scope.tabulateAll parent i (e.scopes [] isRoot)).map (referred resolved) := by
  induction e using Event.inductionOn generalizing isRoot parent i with
  | declare reach kind o => rfl
  | refer o => rfl
  | scope p l f es ih =>
    have hinner (i parent) : Scope.tabulateAll parent i (scopesAll resolved es) =
        (Scope.tabulateAll parent i (scopesAll [] es)).map (referred resolved) := by
      induction es generalizing i with
      | nil => rfl
      | cons e es ih' =>
        obtain ⟨he,hes⟩ := List.forall_mem_cons.mp ih
        rw [scopesAll, scopesAll, Scope.tabulateAll_append, Scope.tabulateAll_append, List.map_append,
          length_scopes, length_scopes, he, ih' hes]
    simp only [scopes, Scope.tabulateAll, Scope.tabulate, List.append_nil, List.map_cons, hinner,
      numbers_scopesAll resolved]
    congr 1
    simp [referred, withReferences]

end Event

namespace ScopeTable

/-! ### Searches -/

theorem bounds_of_nearest? {t : ScopeTable} {test : ScopeEntry → Bool} {i j : Nat}
    (h : t.nearest? test i = some j) : i < t.entries.size ∧ j ≤ i := by
  induction i using Nat.strongRecOn with
  | ind i ih =>
    unfold nearest? at h
    split at h
    · cases h
    · rename_i e he
      refine ⟨(Array.getElem?_eq_some_iff.mp he).1,?_⟩
      split at h
      · exact Nat.le_of_eq (Option.some.inj h).symm
      · split at h
        · cases h
        · split at h
          · rename_i p _ hp
            exact Nat.le_trans (ih p hp h).2 (Nat.le_of_lt hp)
          · cases h

/-- A search sees only parents and the outcome of its test. -/
theorem nearest?_congr {t t' : ScopeTable} {test : ScopeEntry → Bool} {i : Nat}
    (h : ∀ j ≤ i, (t'.entries[j]?).map (fun e => (test e, e.parent)) =
      (t.entries[j]?).map fun e => (test e, e.parent)) : t'.nearest? test i = t.nearest? test i := by
  induction i using Nat.strongRecOn with
  | ind i ih =>
    have hi := h i (Nat.le_refl i)
    unfold nearest?
    cases he : t.entries[i]? with
    | none =>
      rw [he, Option.map_none, Option.map_eq_none_iff] at hi
      rw [hi]
    | some e =>
      rw [he, Option.map_some, Option.map_eq_some_iff] at hi
      obtain ⟨e',he',heq⟩ := hi
      obtain ⟨htest,hparent⟩ := Prod.mk.inj heq
      rw [he']
      simp only [htest, hparent]
      split
      · rfl
      · cases e.parent with
        | none => rfl
        | some p =>
          simp only
          split
          · rename_i hp
            exact ih p hp fun j hj => h j (Nat.le_trans hj (Nat.le_of_lt hp))
          · rfl

/-! ### The first walk -/

private theorem mapIdx_congr {α β : Type} {f g : Nat → α → β} {xs : List α}
    (h : ∀ k < xs.length, ∀ x, f k x = g k x) : xs.mapIdx f = xs.mapIdx g :=
  List.mapIdx_eq_iff.mpr fun k => by
    rw [List.getElem?_mapIdx]
    by_cases hk : k < xs.length
    · rw [funext (h k hk)]
    · rw [List.getElem?_eq_none (Nat.le_of_not_lt hk)]
      rfl

private theorem mapIdx_id {α : Type} {f : Nat → α → α} {xs : List α} (h : ∀ k x, f k x = x) :
    xs.mapIdx f = xs :=
  List.mapIdx_eq_iff.mpr fun k => by
    rw [funext (h k), Option.map_id']

/-- An entry after the walk of events in scope `i`, whose function's scope is `fs`. The names that land
in it are declared, and the scopes that are made inside it, from `next` on, are its children. -/
def grown (i fs next : Nat) (es : List Event) (k : Nat) (e : ScopeEntry) : ScopeEntry :=
  { e with
    bindings := (Event.landingAll (k = i) (k = fs) (k = 0) es).foldl
      (fun bs (kind, o) => Binding.declareIn kind o bs) e.bindings
    children := e.children ++ if k = i then Scope.numbers next (Event.scopesAll [] es) else [] }

theorem grown_of_ne {i fs next k : Nat} (hi : k ≠ i) (hfs : k ≠ fs) (h0 : k ≠ 0) (es : List Event)
    (e : ScopeEntry) : grown i fs next es k e = e := by
  simp [grown, hi, hfs, h0, Event.landingAll_none]

/-- The walk of events in scope `i` adds entries for the scopes that they open. -/
def Builds (t : ScopeTable) (i : Nat) (es : List Event) : Prop :=
  ∀ fs, t.functionScope? i = some fs → (t.buildAll i es).entries.toList =
    t.entries.toList.mapIdx (grown i fs t.entries.size es) ++
      (Scope.tabulateAll (some i) t.entries.size (Event.scopesAll [] es)).map Prod.snd

theorem Builds.functionScope?_eq {t : ScopeTable} {i fs : Nat} {es : List Event} (h : t.Builds i es)
    (hfs : t.functionScope? i = some fs) : (t.buildAll i es).functionScope? i = some fs := by
  rw [← hfs]
  refine nearest?_congr fun j hj => ?_
  have hlt : j < t.entries.size := Nat.lt_of_le_of_lt hj (bounds_of_nearest? hfs).1
  rw [← Array.getElem?_toList, h fs hfs, List.getElem?_append_left (by simpa using hlt),
    List.getElem?_mapIdx, Option.map_map, Array.getElem?_toList]
  rfl

theorem Builds.size_eq {t : ScopeTable} {i fs : Nat} {es : List Event} (h : t.Builds i es)
    (hfs : t.functionScope? i = some fs) :
    (t.buildAll i es).entries.size =
      t.entries.size + (Scope.walkAll (Event.scopesAll [] es)).length := by
  rw [← Array.length_toList, h fs hfs, List.length_append, List.length_mapIdx, List.length_map,
    Scope.length_tabulateAll, Array.length_toList]

theorem builds_cons {t : ScopeTable} {i : Nat} {e : Event} {rest : List Event}
    (he : t.Builds i [e]) (hrest : (t.build i e).Builds i rest) : t.Builds i (e :: rest) := by
  intro fs hfs
  have hi := (bounds_of_nearest? hfs).1
  have hle := (bounds_of_nearest? hfs).2
  have hfirst := he fs hfs
  have hsize := he.size_eq hfs
  simp only [buildAll, Event.scopesAll, List.append_nil] at hfirst hsize
  rw [buildAll, hrest fs (he.functionScope?_eq hfs), hfirst, hsize, List.mapIdx_append,
    List.mapIdx_mapIdx, Event.scopesAll, Scope.tabulateAll_append, List.map_append, ← List.append_assoc]
  congr 2
  · refine congrArg (List.mapIdx · _) (funext fun k => funext fun entry => ?_)
    simp only [Function.comp_apply, grown, Event.landingAll, Event.scopesAll, List.append_nil,
      List.foldl_append, Scope.numbers_append, List.append_assoc]
    split <;> simp
  · -- the entries that are added for the first event stay as they are
    refine mapIdx_id fun k entry => ?_
    simp only [List.length_mapIdx, Array.length_toList]
    exact grown_of_ne (by omega) (by omega) (by omega) rest entry

theorem builds_of_forall {es : List Event} (h : ∀ e ∈ es, ∀ t i, Builds t i [e]) (t : ScopeTable)
    (i : Nat) : t.Builds i es := by
  induction es generalizing t with
  | nil =>
    intro fs _
    rw [Event.scopesAll, Scope.tabulateAll, List.map_nil, List.append_nil]
    refine (mapIdx_id fun k entry => ?_).symm
    simp [grown, Event.landingAll, Event.scopesAll, Scope.numbers]
  | cons e es ih =>
    obtain ⟨he,hes⟩ := List.forall_mem_cons.mp h
    exact builds_cons (he t i) (ih hes _)

theorem builds_declare (t : ScopeTable) (i : Nat) (reach : Reach) (kind : BindingKind)
    (o : Occurrence) : t.Builds i [.declare reach kind o] := by
  intro fs hfs
  have hdeclare (j : Nat) : (t.declare j kind o).entries.toList = t.entries.toList.mapIdx fun k e =>
      if k = j then { e with bindings := Binding.declareIn kind o e.bindings } else e := by
    refine List.ext_getElem? fun k => ?_
    rw [Array.getElem?_toList, getElem?_declare, List.getElem?_mapIdx, Array.getElem?_toList]
    simp only [eq_comm]
  cases reach <;>
    simp only [buildAll, build, target?, hfs, hdeclare, Event.scopesAll, Event.scopes,
      Scope.tabulateAll, List.append_nil, List.map_nil] <;>
    refine congrArg (List.mapIdx · _) (funext fun k => funext fun entry => ?_)
  all_goals
    simp only [grown, Event.landingAll, Event.landing, Event.scopesAll, Event.scopes, List.append_nil,
      Scope.numbers, ite_self, decide_eq_true_eq]
    split <;> rfl

/-- The new entry comes last, and its parent lists it. -/
theorem toList_addChild (t : ScopeTable) (i : Nat) (f : Bool) :
    (t.addChild i f).1.entries.toList =
      (t.entries.toList.mapIdx fun k e =>
        if i = k then { e with children := e.children ++ [t.entries.size] } else e) ++
          [⟨some i, f, [], []⟩] := by
  refine List.ext_getElem? fun k => ?_
  rw [Array.getElem?_toList, getElem?_addChild]
  split
  · rename_i hk
    rw [hk, List.getElem?_append_right (by simp)]
    simp
  · rename_i hk
    by_cases hlt : k < t.entries.size
    · rw [List.getElem?_append_left (by simpa using hlt), List.getElem?_mapIdx, Array.getElem?_toList]
    · rw [Array.getElem?_eq_none (Nat.le_of_not_lt hlt), List.getElem?_eq_none (by simp; omega)]
      rfl

theorem functionScope?_addChild {t : ScopeTable} {i fs : Nat} (h : t.functionScope? i = some fs)
    (f : Bool) :
    (t.addChild i f).1.functionScope? t.entries.size = some (if f then t.entries.size else fs) := by
  have hi := (bounds_of_nearest? h).1
  have hold : (t.addChild i f).1.functionScope? i = t.functionScope? i := by
    refine nearest?_congr fun j hj => ?_
    rw [getElem?_addChild, if_neg (by omega), Option.map_map]
    refine congrArg (Option.map · _) (funext fun e => ?_)
    simp only [Function.comp_apply]
    split <;> rfl
  have hnew : (t.addChild i f).1.entries[t.entries.size]? = some ⟨some i, f, [], []⟩ := by
    rw [getElem?_addChild, if_pos rfl]
  rw [functionScope?, nearest?, hnew]
  cases f
  · simpa [functionScope?, hi] using hold.trans h
  · rfl

/-- Before names are looked up, no binding has references. -/
private theorem bindings_unused (p : Path) (f isRoot : Bool) (es : List Event) :
    (Event.bindingsOf f isRoot es).map (Event.withReferences [] p) = Event.bindingsOf f isRoot es := by
  refine (List.map_congr_left fun b hb => ?_).trans (List.map_id _)
  rw [Event.withReferences, List.filter_nil, List.map_nil,
    ← (Binding.declared_ofLanding _ b hb).unreferred]
  rfl

theorem builds_scope (t : ScopeTable) (i : Nat) (p : Path) (l : Label) (f : Bool) {es : List Event}
    (h : ∀ t i, Builds t i es) : t.Builds i [.scope p l f es] := by
  intro fs hfs
  have hi := (bounds_of_nearest? hfs).1
  have hle := (bounds_of_nearest? hfs).2
  have hwalk := h _ _ _ (functionScope?_addChild hfs f)
  have hsize : (t.addChild i f).1.entries.size = t.entries.size + 1 := by
    simp [addChild]
  rw [toList_addChild, hsize, List.mapIdx_append, List.mapIdx_mapIdx] at hwalk
  change ((t.addChild i f).1.buildAll t.entries.size es).entries.toList = _
  rw [hwalk, List.append_assoc]
  congr 1
  · refine mapIdx_congr fun k hk entry => ?_
    rw [Array.length_toList] at hk
    have hne : k ≠ t.entries.size := Nat.ne_of_lt hk
    have hfun : decide (k = if f then t.entries.size else fs) = (decide (k = fs) && !f) := by
      cases f <;> simp [hne]
    simp only [Function.comp_apply, grown, Event.landingAll, Event.landing, hfun]
    by_cases hki : i = k
    · simp [hki, hne, Event.scopesAll, Event.scopes, Scope.numbers]
    · simp [hki, Ne.symm hki, hne]
  · have hfun : decide (t.entries.size = if f then t.entries.size else fs) = f := by
      cases f
      · exact decide_eq_false (Nat.ne_of_gt (Nat.lt_of_le_of_lt hle hi))
      · exact decide_eq_true rfl
    have hroot : decide (t.entries.size = 0) = false := decide_eq_false (by omega)
    have hnew : grown t.entries.size (if f then t.entries.size else fs) (t.entries.size + 1) es
        t.entries.size ⟨some i, f, [], []⟩ =
          ⟨some i, f, (Event.bindingsOf f false es).map (Event.withReferences [] p),
            Scope.numbers (t.entries.size + 1) (Event.scopesAll [] es)⟩ := by
      rw [bindings_unused]
      simp only [grown, hfun, hroot, decide_true, if_true, List.nil_append]
      rfl
    simp only [List.mapIdx_cons, List.mapIdx_nil, List.length_mapIdx, Array.length_toList,
      Nat.zero_add, hnew, Event.scopesAll, Event.scopes, List.append_nil, Scope.tabulateAll,
      Scope.tabulate, List.map_cons, List.cons_append, List.nil_append]

theorem builds_walk (es : List Event) (t : ScopeTable) (i : Nat) : t.Builds i es := by
  suffices h : ∀ (e : Event) (t : ScopeTable) (i : Nat), t.Builds i [e] from
    builds_of_forall (fun e _ => h e) t i
  intro e
  induction e using Event.inductionOn with
  | declare reach kind o => exact fun t i => builds_declare t i reach kind o
  | refer o =>
    intro t i fs _
    rw [Event.scopesAll, Event.scopes, Event.scopesAll, List.append_nil, Scope.tabulateAll,
      List.map_nil, List.append_nil]
    refine (mapIdx_id fun k entry => ?_).symm
    simp [grown, Event.landingAll, Event.landing, Event.scopesAll, Event.scopes, Scope.numbers]
  | scope p l f es ih => exact fun t i => builds_scope t i p l f (builds_of_forall ih)

/-- The table of a program after the first walk. -/
theorem toList_buildAll (l : Label) (es : List Event) :
    (start.buildAll 0 es).entries.toList =
      (Scope.tabulateAll none 0 (Event.scopes [] true (.scope [] l true es))).map Prod.snd := by
  have hwalk := builds_walk es start 0 0 (by rw [functionScope?, nearest?]; rfl)
  have hroot : grown 0 0 1 es 0 ⟨none, true, [], []⟩ =
      ⟨none, true, (Event.bindingsOf true true es).map (Event.withReferences [] []),
        Scope.numbers 1 (Event.scopesAll [] es)⟩ := by
    rw [bindings_unused]
    simp only [grown, decide_true, if_true, List.nil_append]
    rfl
  rw [hwalk]
  simp only [start, List.size_toArray, List.length_singleton, List.mapIdx_cons, List.mapIdx_nil, hroot,
    Event.scopes, Scope.tabulateAll, Scope.tabulate, List.append_nil, List.map_cons, List.cons_append,
    List.nil_append]

/-! ### The second walk -/

/-- Noting a use of a name changes no later search for a name. -/
theorem lookup?_refer (t : ScopeTable) (k : Nat) (o : Occurrence) :
    (t.refer k o).1.lookup? = t.lookup? := by
  funext i name
  refine nearest?_congr fun j _ => ?_
  rw [getElem?_refer, Option.map_map]
  refine congrArg (Option.map · _) (funext fun e => ?_)
  simp only [Function.comp_apply]
  split
  · rw [Binding.find?_map (noted_name o), Option.isSome_map]
  · rfl

/-- A binding of the scope numbered `k` with the uses that are found to be of its name. -/
def withUses (t : ScopeTable) (uses : List (Nat × Occurrence)) (k : Nat) (b : Binding) : Binding :=
  { b with
    references := b.references ++ (uses.filter fun u =>
      t.lookup? u.1 u.2.name = some k && u.2.name = b.name).map Prod.snd }

theorem getElem?_referAll (t : ScopeTable) (uses : List (Nat × Occurrence)) (k : Nat) :
    (t.referAll uses).entries[k]? =
      (t.entries[k]?).map fun e => { e with bindings := e.bindings.map (t.withUses uses k) } := by
  induction uses generalizing t with
  | nil =>
    have hnone : t.withUses [] k = id := funext fun b => by simp [withUses]
    simp [referAll, hnone]
  | cons u uses ih =>
    rw [referAll, List.foldl_cons]
    refine (ih _).trans ?_
    rw [getElem?_refer, Option.map_map]
    refine congrArg (Option.map · _) (funext fun e => ?_)
    simp only [Function.comp_apply]
    split
    · rename_i hfound
      simp only [List.map_map]
      refine congrArg (fun bs => { e with bindings := bs }) (List.map_congr_left fun b _ => ?_)
      simp only [Function.comp_apply, withUses, lookup?_refer, noted_name, List.filter_cons, hfound]
      by_cases hname : u.2.name = b.name
      · simp [noted, hname]
      · simp [noted, hname, Ne.symm hname]
    · rename_i hfound
      simp [withUses, lookup?_refer, hfound]

/-- From the scope with a number outwards, the places of scopes and the names that they bind. -/
inductive Around (rows : List (Path × ScopeEntry)) : Nat → Event.Surroundings → Prop
  | outermost {i : Nat} {p : Path} {e : ScopeEntry} (hrow : rows[i]? = some (p, e))
    (hp : e.parent = none) : Around rows i [(p, e.bindings.map Binding.name)]
  | inside {i q : Nat} {p : Path} {e : ScopeEntry} {env : Event.Surroundings}
    (hrow : rows[i]? = some (p, e)) (hp : e.parent = some q) (hq : q < i) (h : Around rows q env) :
    Around rows i ((p, e.bindings.map Binding.name) :: env)

/-- The place of the scope that declares a name as seen from a scope. -/
def place? (t : ScopeTable) (rows : List (Path × ScopeEntry)) (u : Nat × Occurrence) : Option Path :=
  (t.lookup? u.1 u.2.name).bind fun k => (rows[k]?).map Prod.fst

section Rows
variable {t : ScopeTable} {rows : List (Path × ScopeEntry)}

/-- Where scopes stand at different places, the place of a scope tells its number. -/
theorem place?_eq_some_iff (hn : (rows.map Prod.fst).Nodup) {k : Nat} {p : Path} {e : ScopeEntry}
    (hrow : rows[k]? = some (p, e)) {u : Nat × Occurrence} :
    t.place? rows u = some p ↔ t.lookup? u.1 u.2.name = some k := by
  rw [place?, Option.bind_eq_some_iff]
  constructor
  · rintro ⟨j,hj,hp⟩
    have hlt : k < (rows.map Prod.fst).length := by
      simpa using (List.getElem?_eq_some_iff.mp hrow).1
    have hsame : (rows.map Prod.fst)[k]? = (rows.map Prod.fst)[j]? := by
      rw [List.getElem?_map, List.getElem?_map, hrow, hp]
      rfl
    rw [hj, (List.getElem?_inj hlt hn).mp hsame]
  · intro hk
    exact ⟨k,hk,by rw [hrow]; rfl⟩

/-- A binding's uses, told by numbers of scopes and by their places. -/
theorem withUses_eq (hn : (rows.map Prod.fst).Nodup) {k : Nat} {p : Path} {e : ScopeEntry}
    (hrow : rows[k]? = some (p, e)) (uses : List (Nat × Occurrence)) {b : Binding}
    (hb : b.references = []) :
    t.withUses uses k b =
      Event.withReferences (uses.filterMap fun u => (t.place? rows u).map fun s => (s, u.2)) p b := by
  rw [withUses, Event.withReferences, hb, List.nil_append]
  congr 1
  induction uses with
  | nil => rfl
  | cons u uses ih =>
    have hplace := place?_eq_some_iff (t := t) hn hrow (u := u)
    rw [List.filterMap_cons]
    by_cases hk : t.lookup? u.1 u.2.name = some k
    · rw [hplace.mpr hk]
      simp only [Option.map_some, List.filter_cons, hk, decide_true, Bool.true_and]
      split
      · exact congrArg (u.2 :: ·) ih
      · exact ih
    · cases hs : t.place? rows u with
      | none => simp [hk, ih]
      | some s =>
        have hne : s ≠ p := fun he => hk (hplace.mp (he ▸ hs))
        simp [hk, hne, ih]

/-- The walk of several events, each of which enters the scopes that it opens. -/
private theorem resolveAll_of_forall {known : List Path} {es : List Event} {i next : Nat}
    {env : Event.Surroundings} (hi : i < next)
    (hrows : Scope.tabulateAll (some i) next (Event.scopesAll [] es) <+: rows.drop next)
    (h : ∀ e ∈ es, ∀ next, i < next →
      Scope.tabulateAll (some i) next (e.scopes [] false) <+: rows.drop next →
      e.resolve known false env =
        (e.lookups known i next).filterMap fun u => (t.place? rows u).map fun s => (s, u.2)) :
    Event.resolveAll known env es =
      (Event.lookupsAll known i next es).filterMap fun u => (t.place? rows u).map fun s => (s, u.2) := by
  induction es generalizing next with
  | nil => rfl
  | cons e es ih =>
    obtain ⟨he,hes⟩ := List.forall_mem_cons.mp h
    obtain ⟨hfirst,hrest⟩ := Scope.tabulateAll_prefix hrows
    rw [Event.length_scopes] at hrest
    rw [Event.resolveAll, Event.lookupsAll, List.filterMap_append, he next hi hfirst,
      ih (Nat.lt_of_lt_of_le hi (Nat.le_add_right _ _)) hrest hes]

variable (ht : t.entries.toList = rows.map Prod.snd)
include ht

theorem getElem?_of_row {i : Nat} {p : Path} {e : ScopeEntry} (h : rows[i]? = some (p, e)) :
    t.entries[i]? = some e := by
  rw [← Array.getElem?_toList, ht, List.getElem?_map, h]
  rfl

theorem Around.find?_eq {i : Nat} {env : Event.Surroundings} (h : Around rows i env)
    (o : Occurrence) : env.find? o.name = t.place? rows (i, o) := by
  have hnames (e : ScopeEntry) : (e.bindings.map Binding.name).contains o.name =
      (Binding.find? o.name e.bindings).isSome := by
    rw [Bool.eq_iff_iff, List.contains_iff_mem, Binding.find?, List.find?_isSome, List.mem_map]
    simp only [decide_eq_true_eq]
  induction h with
  | @outermost i p e hrow hp =>
    rw [place?, lookup?, nearest?, getElem?_of_row ht hrow]
    simp only [Event.Surroundings.find?, List.find?_cons, hnames, hp]
    cases Binding.find? o.name e.bindings <;> simp [hrow]
  | @inside i q p e env hrow hp hq h ih =>
    rw [place?, lookup?, nearest?, getElem?_of_row ht hrow]
    simp only [Event.Surroundings.find?, List.find?_cons, hnames, hp] at ih ⊢
    cases Binding.find? o.name e.bindings with
    | some b => simp [hrow]
    | none => simpa [hq, place?, lookup?] using ih

/-- The second walk finds for each use the scope that lexical scoping tells. -/
theorem resolve_eq (known : List Path) (e : Event) {i next : Nat} {env : Event.Surroundings}
    (henv : Around rows i env) (hi : i < next)
    (hrows : Scope.tabulateAll (some i) next (e.scopes [] false) <+: rows.drop next) :
    e.resolve known false env =
      (e.lookups known i next).filterMap fun u => (t.place? rows u).map fun s => (s, u.2) := by
  induction e using Event.inductionOn generalizing i next env with
  | declare reach kind o => rfl
  | refer o =>
    rw [Event.resolve, Event.lookups]
    split
    · rfl
    · rw [henv.find?_eq ht]
      cases h : t.place? rows (i, o) <;> simp [h]
  | scope p l f es ih =>
    obtain ⟨more,hmore⟩ := hrows
    rw [Event.scopes, bindings_unused, Scope.tabulateAll, Scope.tabulate, Scope.tabulateAll,
      List.append_nil, List.cons_append] at hmore
    have hrow := congrArg List.head? hmore
    have hrest := congrArg List.tail hmore
    rw [List.head?_drop, List.head?_cons] at hrow
    rw [List.tail_drop, List.tail_cons] at hrest
    have hinner := henv.inside hrow.symm rfl hi
    rw [Event.resolve, Event.lookups]
    exact resolveAll_of_forall (Nat.lt_succ_self next) ⟨more,hrest⟩ fun e he next' hlt hprefix =>
      ih e he hinner hlt hprefix

end Rows

end ScopeTable

namespace Node

/-- The events in the scope of a whole program. -/
def inside (n : Node) : List Event := (Plan.slot .body).across n.subtrees []

/-- The scopes of a program with the names declared in them, when no name has been looked up. -/
def outline (n : Node) : List (Path × ScopeEntry) :=
  Scope.tabulateAll none 0 (n.topLevel.scopes [] true)

/-- The names that the second walk of a program looks up. -/
def lookups (n : Node) : List (Nat × Occurrence) :=
  Event.lookupsAll n.topLevel.declared 0 1 n.inside

variable {n : Node}

theorem outline_eq :
    n.outline =
      ([], ⟨none, true, Event.bindingsOf true true n.inside,
        Scope.numbers 1 (Event.scopesAll [] n.inside)⟩) ::
      Scope.tabulateAll (some 0) 1 (Event.scopesAll [] n.inside) := by
  rw [outline, topLevel, Event.scopes, ScopeTable.bindings_unused, Scope.tabulateAll, Scope.tabulate,
    Scope.tabulateAll, List.append_nil]
  rfl

theorem toList_outline :
    (ScopeTable.start.buildAll 0 n.inside).entries.toList = n.outline.map Prod.snd :=
  ScopeTable.toList_buildAll n.label n.inside

theorem outline_unused {k : Nat} {p : Path} {e : ScopeEntry} (hrow : n.outline[k]? = some (p, e))
    {b : Binding} (hb : b ∈ e.bindings) : b.references = [] := by
  have hunused : n.outline = n.outline.map (Event.referred []) :=
    Event.tabulateAll_scopes [] true n.topLevel none 0
  have hsame := congrArg (·[k]?) hunused
  simp only [List.getElem?_map, hrow, Option.map_some] at hsame
  obtain ⟨-,he⟩ := Prod.mk.inj (Option.some.inj hsame)
  rw [he] at hb
  obtain ⟨c,-,rfl⟩ := List.mem_map.mp hb
  rfl

theorem resolved_eq :
    n.resolved = n.lookups.filterMap fun u =>
      ((ScopeTable.start.buildAll 0 n.inside).place? n.outline u).map fun s => (s, u.2) := by
  have hfirst : n.outline[0]? = some ([], _) := congrArg List.head? outline_eq
  have hrest : Scope.tabulateAll (some 0) 1 (Event.scopesAll [] n.inside) <+: n.outline.drop 1 :=
    ⟨[],by rw [List.append_nil, outline_eq]; rfl⟩
  exact ScopeTable.resolveAll_of_forall Nat.zero_lt_one hrest fun e _ next hnext hprefix =>
    ScopeTable.resolve_eq toList_outline _ e (.outermost hfirst rfl) hnext hprefix

section Program
variable (h : n.IsProgram)
include h

theorem scopeTable_eq : n.scopeTable = (ScopeTable.start.buildAll 0 n.inside).referAll n.lookups := by
  rw [scopeTable, events_program h, Event.declaredAll, Event.declaredAll, List.append_nil]
  rfl

theorem tabulate_scope : n.scope.tabulate none 0 = n.outline.map (Event.referred n.resolved) := by
  have hlist := Event.tabulateAll_scopes n.resolved true n.topLevel none 0
  rwa [scopes_topLevel h, Scope.tabulateAll, Scope.tabulateAll, List.append_nil] at hlist

theorem outline_nodup (hd : n.DeclaratorsOnly) : (n.outline.map Prod.fst).Nodup := by
  have hwalk := congrArg (List.map Prod.fst) (Event.walk_scopes [] true n.topLevel)
  rw [List.map_map, List.map_map] at hwalk
  rw [outline, Scope.paths_tabulateAll, Scope.walkAll_eq]
  exact (congrArg List.Nodup hwalk).mpr (frames_nodup h hd)

/-- The two walks of a program end in the table of its scope tree. -/
theorem scopeTable_entries (hd : n.DeclaratorsOnly) :
    n.scopeTable.entries.toList = (n.scope.tabulate none 0).map Prod.snd := by
  rw [scopeTable_eq h, tabulate_scope h, List.map_map]
  refine List.ext_getElem? fun k => ?_
  rw [Array.getElem?_toList, ScopeTable.getElem?_referAll, ← Array.getElem?_toList, toList_outline,
    List.getElem?_map, List.getElem?_map, Option.map_map]
  cases hrow : n.outline[k]? with
  | none => rfl
  | some row =>
    obtain ⟨p,e⟩ := row
    simp only [Option.map_some, Function.comp_apply, Event.referred]
    refine congrArg (fun bs => some { e with bindings := bs }) (List.map_congr_left fun b hb => ?_)
    rw [resolved_eq]
    exact ScopeTable.withUses_eq (outline_nodup h hd) hrow _ (outline_unused hrow hb)

end Program

end Node

namespace ScopeStep

theorem legal_concat (n : Nat) (steps : List ScopeStep) (s : ScopeStep) :
    legal n (steps ++ [s]) = (legal n steps && s.scope < n + (steps.filterMap made?).length) := by
  induction steps generalizing n with
  | nil => simp [legal]
  | cons r steps ih =>
    rw [List.cons_append, legal, legal, ih, List.filterMap_cons, Bool.and_assoc]
    cases hr : r.made? with
    | none => simp
    | some m => simp [Nat.add_assoc, Nat.add_comm 1]

end ScopeStep

namespace ScopeTable

/-- A table that steps at scopes that are there lead to. -/
def Reached (t : ScopeTable) : Prop := ∃ steps, ScopeStep.legal 1 steps = true ∧ run steps = t

namespace Reached
variable {t : ScopeTable} (h : t.Reached)
include h

theorem take {s : ScopeStep} (hs : s.scope < t.entries.size) : (t.take s).Reached := by
  obtain ⟨steps,hlegal,rfl⟩ := h
  rw [(agrees_run hlegal).size_eq, ScopeStep.scopes, List.length_cons, Nat.add_comm] at hs
  refine ⟨steps ++ [s],?_,by simp [run]⟩
  rw [ScopeStep.legal_concat, hlegal, Bool.true_and, decide_eq_true_eq]
  exact hs

theorem exists_functionScope? {i : Nat} (hi : i < t.entries.size) :
    ∃ fs, t.functionScope? i = some fs := by
  obtain ⟨steps,hlegal,rfl⟩ := h
  obtain ⟨fs,hfs,-⟩ := (agrees_run hlegal).exists_functionScope? hi
  exact ⟨fs,hfs⟩

theorem size_buildAll {i : Nat} (hi : i < t.entries.size) (es : List Event) :
    (t.buildAll i es).entries.size = t.entries.size + (Event.openedAll es).length := by
  obtain ⟨fs,hfs⟩ := h.exists_functionScope? hi
  rw [(builds_walk es t i).size_eq hfs, Event.length_scopesAll]

end Reached

private theorem reached_buildAll {es : List Event}
    (h : ∀ e ∈ es, ∀ t i, Reached t → i < t.entries.size → (t.build i e).Reached) {t : ScopeTable}
    (ht : t.Reached) {i : Nat} (hi : i < t.entries.size) : (t.buildAll i es).Reached := by
  induction es generalizing t with
  | nil => exact ht
  | cons e es ih =>
    obtain ⟨he,hes⟩ := List.forall_mem_cons.mp h
    have hsize : (t.build i e).entries.size = _ := ht.size_buildAll hi [e]
    exact ih hes (he t i ht hi) (by omega)

/-- The first walk takes steps at scopes that are there. -/
theorem Reached.build (e : Event) {t : ScopeTable} {i : Nat} (h : t.Reached)
    (hi : i < t.entries.size) : (t.build i e).Reached := by
  induction e using Event.inductionOn generalizing t i with
  | declare reach kind o =>
    obtain ⟨fs,hfs⟩ := h.exists_functionScope? hi
    have hle := (bounds_of_nearest? hfs).2
    cases reach with
    | here => exact h.take (s := .declare i kind o) hi
    | function =>
      rw [ScopeTable.build, target?, hfs]
      exact h.take (s := .declare fs kind o) (Nat.lt_of_le_of_lt hle hi)
    | root => exact h.take (s := .declare 0 kind o) (Nat.zero_lt_of_lt hi)
  | refer o => exact h
  | scope p l f es ih =>
    exact reached_buildAll (fun e he t i ht hi => ih e he ht hi) (h.take (s := .child i f) hi)
      (by simp [ScopeTable.take, addChild])

theorem Reached.referAll {t : ScopeTable} (h : t.Reached) {uses : List (Nat × Occurrence)}
    (huses : ∀ u ∈ uses, u.1 < t.entries.size) : (t.referAll uses).Reached := by
  induction uses generalizing t with
  | nil => exact h
  | cons u uses ih =>
    obtain ⟨hu,hrest⟩ := List.forall_mem_cons.mp huses
    have hsize : (t.refer u.1 u.2).1.entries.size = t.entries.size := by
      unfold refer
      split
      · rfl
      · exact Array.size_modify
    exact ih (h.take (s := .refer u.1 u.2) hu) fun v hv => Nat.lt_of_lt_of_eq (hrest v hv) hsize.symm

end ScopeTable

namespace Event

private theorem lt_of_forall {known : List Path} {es : List Event} {i next : Nat} (hi : i < next)
    (h : ∀ e ∈ es, ∀ next, i < next → ∀ u ∈ e.lookups known i next, u.1 < next + e.opened.length)
    {u : Nat × Occurrence} (hu : u ∈ lookupsAll known i next es) :
    u.1 < next + (openedAll es).length := by
  induction es generalizing next with
  | nil => cases hu
  | cons e es ih =>
    obtain ⟨he,hes⟩ := List.forall_mem_cons.mp h
    rw [openedAll, List.length_append, ← Nat.add_assoc]
    rcases List.mem_append.mp hu with hu | hu
    · exact Nat.lt_of_lt_of_le (he next hi u hu) (Nat.le_add_right _ _)
    · exact ih (Nat.lt_of_lt_of_le hi (Nat.le_add_right _ _)) hes hu

/-- Names are looked up from scopes that the first walk has made. -/
theorem lt_of_mem_lookups {known : List Path} (e : Event) {i next : Nat} (hi : i < next)
    {u : Nat × Occurrence} (hu : u ∈ e.lookups known i next) : u.1 < next + e.opened.length := by
  induction e using Event.inductionOn generalizing i next u with
  | declare reach kind o => cases hu
  | refer o =>
    rw [lookups] at hu
    split at hu
    · cases hu
    · obtain rfl := List.mem_singleton.mp hu
      exact Nat.lt_of_lt_of_le hi (Nat.le_add_right _ _)
  | scope p l f es ih =>
    have hlt := lt_of_forall (Nat.lt_succ_self next) (fun e he next' hn u hu => ih e he hn hu) hu
    rw [opened, List.length_cons]
    omega

end Event

/-- The table of a program is one that steps at scopes that are there lead to. -/
theorem Node.scopeTable_reached {n : Node} (h : n.IsProgram) : n.scopeTable.Reached := by
  have hstart : ScopeTable.start.Reached := ⟨[],rfl,rfl⟩
  have hbuilt : (ScopeTable.start.buildAll 0 n.inside).Reached :=
    ScopeTable.reached_buildAll (fun e _ t i ht hi => ht.build e hi) hstart Nat.zero_lt_one
  rw [scopeTable_eq h]
  refine hbuilt.referAll fun u hu => ?_
  rw [hstart.size_buildAll Nat.zero_lt_one]
  exact Event.lt_of_forall Nat.zero_lt_one (fun e _ _ hn _ hu => e.lt_of_mem_lookups hn hu) hu

end Unravel
