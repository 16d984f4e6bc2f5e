import Unravel.Proofs.Scope.Listing
import Unravel.Proofs.Scope.Relabel

/-! Scope analysis of a program named anew. Where identifiers of one binding get one name, and
identifiers of different names keep different names, every identifier resolves as before. -/

namespace Unravel
variable {ν : Naming}

/-- A binding under the names that its identifiers have been given. -/
def Binding.renamed (ν : Naming) (b : Binding) : Binding :=
  { name := (b.declarations.head?.map fun o => (ν.occurrence o).name).getD b.name
    kind := b.kind
    declarations := b.declarations.map ν.occurrence
    references := b.references.map ν.occurrence }

namespace Scope

mutual
/-- A scope tree under new names. -/
def renamed (ν : Naming) : Scope → Scope
  | .mk p l f bs cs => .mk p l f (bs.map (Binding.renamed ν)) (renamedAll ν cs)
def renamedAll (ν : Naming) : List Scope → List Scope
  | [] => []
  | s :: rest => renamed ν s :: renamedAll ν rest
end

theorem renamedAll_eq (ν : Naming) (ss : List Scope) : renamedAll ν ss = ss.map (renamed ν) := by
  induction ss with
  | nil => rfl
  | cons s ss ih => rw [renamedAll, ih, List.map_cons]

end Scope

/-- Declarations of one scope stand under one name after a renaming if they did before, and under
different names if they did before. -/
def Naming.Coherent (ν : Naming) (landing : Landing) : Prop :=
  ∀ d ∈ landing, ∀ e ∈ landing,
    (ν.occurrence d.2).name = (ν.occurrence e.2).name ↔ d.2.name = e.2.name

/-- Declarations under their new names. -/
def Naming.landing (ν : Naming) (landing : Landing) : Landing :=
  landing.map fun d => (d.1, ν.occurrence d.2)

namespace Binding

/-- Under new names a binding has the name of each of its declarations. -/
theorem renamed_name {landing : Landing} (hν : ν.Coherent landing) {b : Binding}
    (hb : b ∈ ofLanding landing) {o : Occurrence} (ho : o ∈ b.declarations) :
    (b.renamed ν).name = (ν.occurrence o).name := by
  have hd := declared_ofLanding landing b hb
  have hmem (d : Occurrence) (h : d ∈ b.declarations) : ∃ e ∈ landing, e.2 = d := by
    have := (declarations_ofLanding landing).mem_iff.mp (List.mem_flatMap.mpr ⟨b,hb,h⟩)
    simpa using this
  cases hds : b.declarations with
  | nil => exact absurd hds hd.ne_nil
  | cons d ds =>
    have hd' : d ∈ b.declarations := by simp [hds]
    obtain ⟨e,he,rfl⟩ := hmem d hd'
    obtain ⟨e',he',rfl⟩ := hmem o ho
    simp only [renamed, hds, List.head?_cons, Option.map_some, Option.getD_some]
    exact (hν e he e' he').mpr ((hd.name_eq _ hd').trans (hd.name_eq _ ho).symm)

private theorem declareIn_renamed (kind : BindingKind) (o : Occurrence) {bs : List Binding}
    (hd : ∀ b ∈ bs, b.declarations ≠ [])
    (h : ∀ b ∈ bs, (b.renamed ν).name = (ν.occurrence o).name ↔ b.name = o.name) :
    declareIn kind (ν.occurrence o) (bs.map (renamed ν)) = (declareIn kind o bs).map (renamed ν) := by
  induction bs with
  | nil => simp [declareIn, renamed]
  | cons b bs ih =>
    obtain ⟨hb,hbs⟩ := List.forall_mem_cons.mp h
    obtain ⟨hdb,hdbs⟩ := List.forall_mem_cons.mp hd
    rw [List.map_cons, declareIn, declareIn]
    by_cases hn : b.name = o.name
    · rw [if_pos (hb.mpr hn), if_pos hn, List.map_cons]
      congr 1
      cases hds : b.declarations with
      | nil => exact absurd hds hdb
      | cons d ds => simp [redeclare, renamed, hds]
    · rw [if_neg (hn ∘ hb.mp), if_neg hn, List.map_cons, ih hdbs hbs]

/-- Coherent renaming changes the bindings of a scope in nothing but names. -/
theorem ofLanding_renamed {landing : Landing} (hν : ν.Coherent landing) :
    ofLanding (ν.landing landing) = (ofLanding landing).map (renamed ν) := by
  induction landing using List.reverseRecOn with
  | nil => rfl
  | append_singleton landing d ih =>
    have hν' : ν.Coherent landing := fun d hd e he =>
      hν d (List.mem_append_left _ hd) e (List.mem_append_left _ he)
    have hl : ν.landing (landing ++ [d]) = ν.landing landing ++ [(d.1, ν.occurrence d.2)] := by
      simp [Naming.landing]
    rw [hl, ofLanding_concat, ofLanding_concat, ih hν']
    refine declareIn_renamed d.1 d.2 (fun b hb => (declared_ofLanding landing b hb).ne_nil) ?_
    intro b hb
    have hdb := declared_ofLanding landing b hb
    obtain ⟨o,ho⟩ := List.exists_mem_of_ne_nil _ hdb.ne_nil
    obtain ⟨e,he,rfl⟩ := List.mem_map.mp
      ((declarations_ofLanding landing).mem_iff.mp (List.mem_flatMap.mpr ⟨b,hb,ho⟩))
    rw [renamed_name hν' hb ho, ← hdb.name_eq _ ho]
    exact hν e (List.mem_append_left _ he) d (by simp)

end Binding

namespace Event

theorem landing_renamed (here function root : Bool) (e : Event) :
    landing here function root (e.renamed ν) = ν.landing (landing here function root e) := by
  induction e using Event.inductionOn generalizing here function root with
  | declare reach kind o =>
    cases reach <;> simp only [renamed, landing] <;> split <;> rfl
  | refer o => rfl
  | scope p l f es ih =>
    simp only [renamed, landing, landingAll_eq, renamedAll_eq, List.flatMap_map, Naming.landing,
      List.map_flatMap]
    exact List.flatMap_congr fun e he => ih e he _ _ _

theorem landingAll_renamed (here function root : Bool) (es : List Event) :
    landingAll here function root (renamedAll ν es) = ν.landing (landingAll here function root es) := by
  simp only [landingAll_eq, renamedAll_eq, List.flatMap_map, Naming.landing, List.map_flatMap]
  exact List.flatMap_congr fun e _ => landing_renamed _ _ _ e

theorem declared_renamed (e : Event) : (e.renamed ν).declared = e.declared := by
  induction e using Event.inductionOn with
  | declare reach kind o => rfl
  | refer o => rfl
  | scope p l f es ih =>
    simp only [renamed, declared, declaredAll_eq, renamedAll_eq, List.flatMap_map]
    exact List.flatMap_congr ih

end Event

/-- A naming that no name is captured under, seen from the scopes of a tree and what resolves to
them: identifiers of one binding get one name, those of different names keep different names. -/
structure Naming.Faithful (ν : Naming) (n : Node) (frames : List (Path × Landing))
    (resolved : List (Path × Occurrence)) : Prop where
  standing : ∀ f ∈ frames, ∀ d ∈ f.2, d.2.In n []
  injective : ∀ o o' : Occurrence, o.In n [] → o'.In n [] →
    (ν.occurrence o).name = (ν.occurrence o').name → o.name = o'.name
  declared : ∀ f ∈ frames, ∀ d ∈ f.2, ∀ e ∈ f.2, d.2.name = e.2.name →
    (ν.occurrence d.2).name = (ν.occurrence e.2).name
  referred : ∀ r ∈ resolved, ∀ f ∈ frames, f.1 = r.1 → ∀ d ∈ f.2, d.2.name = r.2.name →
    (ν.occurrence d.2).name = (ν.occurrence r.2).name

namespace Naming.Faithful
variable {n : Node} {frames : List (Path × Landing)} {resolved : List (Path × Occurrence)}

theorem coherent (h : ν.Faithful n frames resolved) {f : Path × Landing} (hf : f ∈ frames) :
    ν.Coherent f.2 := fun d hd e he =>
  ⟨h.injective d.2 e.2 (h.standing f hf d hd) (h.standing f hf e he),h.declared f hf d hd e he⟩

end Naming.Faithful

namespace Event
variable {n : Node} {frames : List (Path × Landing)} {resolved : List (Path × Occurrence)}

/-- The names that scopes around a place bind. -/
private def surroundings (env : List (Path × Landing)) : Surroundings :=
  env.map fun f => (f.1, (Binding.ofLanding f.2).map (·.name))

private def renamedEnv (ν : Naming) (env : List (Path × Landing)) : List (Path × Landing) :=
  env.map fun f => (f.1, ν.landing f.2)

private theorem find?_renamed {env : List (Path × Landing)} {o : Occurrence}
    (hinj : ∀ f ∈ env, ∀ d ∈ f.2, (ν.occurrence d.2).name = (ν.occurrence o).name → d.2.name = o.name)
    (hcoh : ∀ s, (surroundings env).find? o.name = some s → ∀ f ∈ env, f.1 = s → ∀ d ∈ f.2,
      d.2.name = o.name → (ν.occurrence d.2).name = (ν.occurrence o).name) :
    (surroundings (renamedEnv ν env)).find? (ν.occurrence o).name =
      (surroundings env).find? o.name := by
  induction env with
  | nil => rfl
  | cons f env ih =>
    have hcontains (landing : Landing) (name : String) :
        ((Binding.ofLanding landing).map (·.name)).contains name = true ↔
          ∃ d ∈ landing, d.2.name = name := by
      rw [List.contains_iff_mem]
      exact Binding.mem_names
    obtain ⟨hf,henv⟩ := List.forall_mem_cons.mp hinj
    simp only [surroundings, renamedEnv, List.map_cons, Surroundings.find?, List.find?_cons] at hcoh ⊢
    by_cases hc : ∃ d ∈ f.2, d.2.name = o.name
    · have hm := (hcontains f.2 o.name).mpr hc
      obtain ⟨d,hd,hn⟩ := hc
      simp only [hm, Option.map_some, Option.some.injEq] at hcoh
      have he := hcoh f.1 rfl f List.mem_cons_self rfl d hd hn
      have hm' := (hcontains (ν.landing f.2) (ν.occurrence o).name).mpr
        ⟨_,List.mem_map_of_mem hd,he⟩
      simp only [hm, hm', Option.map_some]
    · have hm : _ = false := Bool.eq_false_iff.mpr (hc ∘ (hcontains f.2 o.name).mp)
      have hm' : _ = false := Bool.eq_false_iff.mpr fun h => hc (by
        obtain ⟨e,he,hn⟩ := (hcontains (ν.landing f.2) (ν.occurrence o).name).mp h
        obtain ⟨d,hd,rfl⟩ := List.mem_map.mp he
        exact ⟨d,hd,hf d hd hn⟩)
      simp only [hm] at hcoh
      simp only [hm, hm']
      exact ih henv fun s hs g hg => hcoh s hs g (List.mem_cons_of_mem _ hg)

/-- A use resolves under its new name to the scope it resolved to before, or to none as before. -/
private theorem resolve_renamed (hν : ν.Faithful n frames resolved) {declared : List Path} (e : Event)
    {isRoot : Bool} (env : List (Path × Landing)) (hs : e.Sound n []) (henv : ∀ f ∈ env, f ∈ frames)
    (hframes : ∀ f ∈ e.frames isRoot, f ∈ frames)
    (hresolved : ∀ r ∈ e.resolve declared isRoot (surroundings env), r ∈ resolved) :
    (e.renamed ν).resolve declared isRoot (surroundings (renamedEnv ν env)) =
      (e.resolve declared isRoot (surroundings env)).map fun r => (r.1, ν.occurrence r.2) := by
  induction e using Event.inductionOn generalizing isRoot env with
  | declare reach kind o => rfl
  | refer o =>
    simp only [renamed, resolve, Naming.occurrence_path] at hresolved ⊢
    by_cases hd : declared.contains o.path = true
    · simp only [hd, if_true, List.map_nil]
    · simp only [hd, Bool.false_eq_true, if_false] at hresolved ⊢
      rw [find?_renamed]
      · rw [List.map_map]
        rfl
      · intro f hf d hd
        exact hν.injective d.2 o (hν.standing f (henv f hf) d hd) hs
      · intro s hs f hf hfs d hd hn
        exact hν.referred (s, o) (hresolved _ (by simp [hs])) f (henv f hf) hfs d hd hn
  | scope p l isFunction es ih =>
    have hes := soundAll_iff.mp hs.2
    rw [Event.frames, List.forall_mem_cons, framesAll_eq] at hframes
    obtain ⟨hhere,hinner⟩ := hframes
    have hcons : (p, (bindingsOf isFunction isRoot (renamedAll ν es)).map (·.name)) ::
        surroundings (renamedEnv ν env) =
          surroundings (renamedEnv ν ((p, landingAll true isFunction isRoot es) :: env)) := by
      simp only [surroundings, renamedEnv, List.map_cons]
      rw [← landingAll_renamed]
      rfl
    rw [resolve, resolveAll_eq] at hresolved
    rw [renamed, resolve, resolve, resolveAll_eq, resolveAll_eq, renamedAll_eq, List.flatMap_map,
      List.map_flatMap, ← renamedAll_eq, hcons]
    refine List.flatMap_congr fun e he => ?_
    refine ih e he (_ :: env) (hes e he) (List.forall_mem_cons.mpr ⟨hhere,henv⟩) ?_ ?_
    · intro f hf
      exact hinner f (List.mem_flatMap.mpr ⟨e,he,hf⟩)
    · intro r hr
      exact hresolved r (List.mem_flatMap.mpr ⟨e,he,hr⟩)

private theorem withReferences_renamed (hν : ν.Faithful n frames resolved)
    (hR : ∀ r ∈ resolved, r.2.In n []) {f : Path × Landing} (hf : f ∈ frames) {b : Binding}
    (hb : b ∈ Binding.ofLanding f.2) :
    withReferences (resolved.map fun r => (r.1, ν.occurrence r.2)) f.1 (b.renamed ν) =
      (withReferences resolved f.1 b).renamed ν := by
  have hd := Binding.declared_ofLanding f.2 b hb
  obtain ⟨o,ho⟩ := List.exists_mem_of_ne_nil _ hd.ne_nil
  obtain ⟨d,hdf,rfl⟩ := List.mem_map.mp
    ((Binding.declarations_ofLanding f.2).mem_iff.mp (List.mem_flatMap.mpr ⟨b,hb,ho⟩))
  have hsame (r : Path × Occurrence) (hr : r ∈ resolved) (hp : r.1 = f.1) :
      (ν.occurrence r.2).name = (b.renamed ν).name ↔ r.2.name = b.name := by
    rw [Binding.renamed_name (hν.coherent hf) hb ho, ← hd.name_eq _ ho]
    constructor
    · exact hν.injective r.2 d.2 (hR r hr) (hν.standing f hf d hdf)
    · intro hn
      exact (hν.referred r hr f hf hp.symm d hdf hn.symm).symm
  have hfilter : (resolved.filter fun r => r.1 = f.1 && (ν.occurrence r.2).name = (b.renamed ν).name) =
      resolved.filter fun r => r.1 = f.1 && r.2.name = b.name := by
    refine List.filter_congr fun r hr => ?_
    by_cases hp : r.1 = f.1
    · simp only [hp, decide_true, Bool.true_and, decide_eq_decide]
      exact hsame r hr hp
    · simp [hp]
  have href : (withReferences (resolved.map fun r => (r.1, ν.occurrence r.2)) f.1 (b.renamed ν)).references =
      ((withReferences resolved f.1 b).renamed ν).references := by
    simp only [withReferences, Binding.renamed, List.filter_map, List.map_map]
    exact congrArg (List.map fun r => ν.occurrence r.2) hfilter
  simp only [withReferences, Binding.renamed] at href ⊢
  rw [href]

/-- The scopes of a program named anew are its scopes before with the new names. -/
private theorem scopes_renamed (hν : ν.Faithful n frames resolved) (hR : ∀ r ∈ resolved, r.2.In n [])
    (e : Event) {isRoot : Bool} (hframes : ∀ f ∈ e.frames isRoot, f ∈ frames) :
    (e.renamed ν).scopes (resolved.map fun r => (r.1, ν.occurrence r.2)) isRoot =
      (e.scopes resolved isRoot).map (Scope.renamed ν) := by
  induction e using Event.inductionOn generalizing isRoot with
  | declare reach kind o => rfl
  | refer o => rfl
  | scope p l isFunction es ih =>
    rw [Event.frames, List.forall_mem_cons, framesAll_eq] at hframes
    obtain ⟨hhere,hinner⟩ := hframes
    have hbs : bindingsOf isFunction isRoot (renamedAll ν es) =
        (bindingsOf isFunction isRoot es).map (Binding.renamed ν) := by
      change Binding.ofLanding (landingAll true isFunction isRoot (renamedAll ν es)) = _
      rw [landingAll_renamed]
      exact Binding.ofLanding_renamed (hν.coherent hhere)
    simp only [renamed, scopes, hbs, List.map_cons, List.map_nil, Scope.renamed, List.map_map]
    congr 2
    · refine List.map_congr_left fun b hb => ?_
      exact withReferences_renamed hν hR hhere hb
    · rw [scopesAll_eq, scopesAll_eq, renamedAll_eq, Scope.renamedAll_eq, List.flatMap_map,
        List.map_flatMap]
      refine List.flatMap_congr fun e he => ih e he fun f hf => ?_
      exact hinner f (List.mem_flatMap.mpr ⟨e,he,hf⟩)

end Event

namespace Node
variable {n : Node}

/-- The analysis of a program named anew is the analysis before under the new names. -/
theorem scope_relabel (h : n.IsProgram) (hk : ν.KeepsCase n [])
    (hν : ν.Faithful n (n.topLevel.frames true) n.resolved) :
    (n.relabel ν.label []).scope = n.scope.renamed ν := by
  have hp : (n.relabel ν.label []).IsProgram := by
    obtain ⟨s,hs⟩ := h
    exact ⟨s,by rw [label_relabel, hs]; rfl⟩
  have hsound := sound_topLevel h
  have htop : (n.relabel ν.label []).topLevel = n.topLevel.renamed ν := by
    have := (walk_relabel n [] hk).1
    change (n.relabel ν.label []).events = n.events.map (Event.renamed ν) at this
    rw [events_program h, events_program hp] at this
    simpa using this
  have hresolved : (n.relabel ν.label []).resolved =
      n.resolved.map fun r => (r.1, ν.occurrence r.2) := by
    rw [resolved, htop, Event.declared_renamed]
    exact Event.resolve_renamed hν n.topLevel [] hsound (by simp) (fun _ h => h)
      fun _ h => h
  have hscopes := scopes_topLevel hp
  rw [htop, hresolved, Event.scopes_renamed hν (fun r hr => hsound.resolve hr) n.topLevel
    fun _ h => h, scopes_topLevel h] at hscopes
  simpa using hscopes.symm

end Node

end Unravel
