import Unravel.Proofs.Scope.FreshNames
import Unravel.Proofs.Scope.Renaming

/-! Renaming captures no name. The analysis of a renamed program has the scopes, bindings and
positions of the analysis before; only the generated names have changed, each to a name of its own. -/

namespace Unravel

/-! ### The shorthand split -/

namespace Rename

private theorem splitAll_eq (cs : List (Field × Node)) :
    splitShorthand.splitAll cs = cs.map fun c => (c.1, splitShorthand c.2) := by
  induction cs with
  | nil => rfl
  | cons c cs ih => rw [splitShorthand.splitAll, ih, List.map_cons]

/-- Splitting changes nothing but flags of properties. -/
theorem splitShorthand_marked (m : Option Nat) (l : Label) (cs : List (Field × Node)) :
    ∃ l', splitShorthand (.marked m l cs) = .marked m l' (cs.map fun c => (c.1, splitShorthand c.2)) ∧
      (l' = l ∨ ∃ method kind s s', l = .property false method s kind ∧
        l' = .property false method s' kind) := by
  rw [← splitAll_eq]
  refine ⟨_,splitShorthand.eq_def _,?_⟩
  split
  · split
    · exact .inr ⟨_,_,_,_,rfl,rfl⟩
    · exact .inl rfl
  · exact .inl rfl

theorem label_splitShorthand (n : Node) {l : Label} (hl : ∀ a b c d, l ≠ .property a b c d) :
    (splitShorthand n).label = l ↔ n.label = l := by
  obtain ⟨m,l₀,cs⟩ := n
  obtain ⟨l',h,rfl | ⟨method,kind,s,s',rfl,rfl⟩⟩ := splitShorthand_marked m l₀ cs
  · rw [h]
    rfl
  · rw [h]
    exact ⟨fun he => absurd he.symm (hl _ _ _ _),fun he => absurd he.symm (hl _ _ _ _)⟩

theorem isProgram_splitShorthand {n : Node} (h : n.IsProgram) : (splitShorthand n).IsProgram := by
  obtain ⟨s,hs⟩ := h
  exact ⟨s,(label_splitShorthand n (by simp)).mpr hs⟩

theorem marks_splitShorthand (n : Node) : (splitShorthand n).marks = n.marks := by
  induction n using Node.inductionOn with
  | marked m l cs ih =>
    obtain ⟨l',h,-⟩ := splitShorthand_marked m l cs
    rw [h, Node.marks_marked, Node.marks_marked, List.flatMap_map, List.flatMap_congr ih]

theorem declaratorsOnly_splitShorthand {n : Node} (h : n.DeclaratorsOnly) :
    (splitShorthand n).DeclaratorsOnly := by
  induction n using Node.inductionOn with
  | marked m l cs ih =>
    obtain ⟨hl,hcs⟩ := Node.declaratorsOnly_marked.mp h
    obtain ⟨l',hs,hl'⟩ := splitShorthand_marked m l cs
    rw [hs, Node.declaratorsOnly_marked]
    simp only [List.mem_map, forall_exists_index, and_imp, forall_apply_eq_imp_iff₂]
    refine ⟨fun kind hk c hc => ?_,fun c hc => ih c hc (hcs c hc)⟩
    subst hk
    obtain rfl | ⟨_,_,_,_,-,hk⟩ := hl'
    · exact (label_splitShorthand c.2 (by simp)).mpr (hl kind rfl c hc)
    · simp at hk

end Rename

/-! ### The new names -/

namespace Rename
variable {n : Node}

/-- The bindings of a program that get a new name, with that name. -/
def renewed (n : Node) : List (Binding × String) :=
  assign ⟨takenNames n,0,0,0⟩ n.scope.allBindings

/-- The new names of a program by position. -/
def naming (n : Node) : Naming := fun p => ((namesAt (renewed n)).find? fun e => e.1 = p).map Prod.snd

private theorem rename_eq (n : Node) :
    rename (namesAt (renewed n)) n = n.relabel (naming n).label [] := by
  refine congrArg (fun f => n.relabel f []) ?_
  funext p l
  cases h : (namesAt (renewed n)).find? fun e => e.1 = p <;> cases l <;>
    simp [Naming.label, naming, h]

/-- Without repeated nodes, renaming is relabelling after the shorthand split. -/
theorem renameGenerated_eq {tree : Node} (h : tree.hasMarks = false) :
    (renameGenerated tree).1 =
      (splitShorthand tree).relabel (naming (splitShorthand tree)).label [] := by
  have hm : (splitShorthand tree).hasMarks = false := by
    rw [Node.hasMarks_eq_false, marks_splitShorthand]
    exact Node.hasMarks_eq_false.mp h
  simp only [renameGenerated, hm, Bool.false_eq_true, if_false]
  exact rename_eq _

theorem mem_takenNames {o : Occurrence} (h : o.In n []) : o.name ∈ takenNames n := by
  obtain ⟨⟨q,-,hl⟩,-⟩ := h
  refine List.mem_filterMap.mpr ⟨([] ++ q, o.label),Node.mem_positions.mpr ⟨q,rfl,hl⟩,?_⟩
  change takenName? o.label = some o.name
  unfold Occurrence.label
  split <;> rfl

theorem renewed_mem {e : Binding × String} (h : e ∈ renewed n) :
    e.1 ∈ n.scope.allBindings ∧ generated e.1 = true := by
  have := List.mem_map_of_mem (f := Prod.fst) h
  rw [renewed, map_fst_assign] at this
  exact List.mem_filter.mp this

theorem naming_some {p : Path} {name : String} (h : naming n p = some name) :
    ∃ b, (b, name) ∈ renewed n ∧ ∃ o ∈ b.occurrences, o.path = p := by
  obtain ⟨e,he,rfl⟩ := Option.map_eq_some_iff.mp h
  have hp : e.1 = p := by simpa using List.find?_some he
  obtain ⟨⟨b,name⟩,hb,ho⟩ := List.mem_flatMap.mp (List.mem_of_find?_eq_some he)
  obtain ⟨o,hob,rfl⟩ := List.mem_map.mp ho
  exact ⟨b,hb,o,hob,hp⟩

/-- Every identifier of a binding that gets a new name gets that name. -/
theorem naming_renewed (h : n.IsProgram) (hd : n.DeclaratorsOnly) {e : Binding × String}
    (he : e ∈ renewed n) {o : Occurrence} (ho : o ∈ e.1.occurrences) :
    naming n o.path = some e.2 := by
  have hkeys : ((namesAt (renewed n)).map Prod.fst).Nodup := by
    have hsub : ((n.scope.allBindings.filter generated).flatMap
        fun b => b.occurrences.map (·.path)).Nodup :=
      (Node.occurrences_nodup h hd).sublist (List.filter_sublist.flatMap _)
    rw [← map_fst_assign ⟨takenNames n,0,0,0⟩, List.flatMap_map] at hsub
    simpa [namesAt, renewed, List.map_flatMap, Function.comp_def] using hsub
  have hmem : (o.path, e.2) ∈ namesAt (renewed n) :=
    List.mem_flatMap.mpr ⟨e,he,List.mem_map_of_mem (f := fun o => (o.path, e.2)) ho⟩
  have hsome : ((namesAt (renewed n)).find? fun e => e.1 = o.path).isSome = true :=
    List.find?_isSome.mpr ⟨_,hmem,by simp⟩
  obtain ⟨e',he'⟩ := Option.isSome_iff_exists.mp hsome
  have hp : e'.1 = o.path := by simpa using List.find?_some he'
  have := List.inj_on_of_nodup_map hkeys (List.mem_of_find?_eq_some he') hmem hp
  rw [naming, he', this]
  rfl

/-- An identifier of a binding whose name is not generated keeps its name. -/
theorem naming_kept (h : n.IsProgram) {b : Binding} (hb : b ∈ n.scope.allBindings)
    (hg : generated b = false) {o : Occurrence} (ho : o ∈ b.occurrences) :
    naming n o.path = none := by
  cases hn : naming n o.path with
  | none => rfl
  | some name =>
    obtain ⟨c,hc,d,hd,hp⟩ := naming_some hn
    obtain ⟨hc,hcg⟩ := renewed_mem hc
    obtain ⟨hoin,hob⟩ := Node.listed_In h hb ho
    obtain ⟨hdin,hdc⟩ := Node.listed_In h hc hd
    -- The identifier is listed under `b` and `c`, so the two have one name.
    have : c.name = b.name := by rw [← hdc, ← hob, hdin.eq hoin hp]
    rw [generated, this] at hcg
    rw [generated, hcg] at hg
    cases hg

/-- The identifiers of one binding have one name after renaming. -/
theorem naming_alike (h : n.IsProgram) (hd : n.DeclaratorsOnly) {b : Binding}
    (hb : b ∈ n.scope.allBindings) {o o' : Occurrence} (ho : o ∈ b.occurrences)
    (ho' : o' ∈ b.occurrences) :
    ((naming n).occurrence o).name = ((naming n).occurrence o').name := by
  simp only [Naming.occurrence]
  cases hg : generated b with
  | true =>
    have hf : b ∈ (renewed n).map Prod.fst := by
      rw [renewed, map_fst_assign]
      exact List.mem_filter.mpr ⟨hb,hg⟩
    obtain ⟨e,he,rfl⟩ := List.mem_map.mp hf
    rw [naming_renewed h hd he ho, naming_renewed h hd he ho', Option.getD_some, Option.getD_some]
  | false =>
    rw [naming_kept h hb hg ho, naming_kept h hb hg ho', Option.getD_none, Option.getD_none,
      (Node.listed_In h hb ho).2, (Node.listed_In h hb ho').2]

/-- Only identifiers of one name come to have one name. -/
theorem naming_injective (h : n.IsProgram) {o o' : Occurrence} (ho : o.In n []) (ho' : o'.In n [])
    (he : ((naming n).occurrence o).name = ((naming n).occurrence o').name) : o.name = o'.name := by
  obtain ⟨hnodup,hfresh⟩ := assign_fresh ⟨takenNames n,0,0,0⟩ n.scope.allBindings
  have hname {p : Path} {name : String} (hn : naming n p = some name) :
      ∃ b, (b, name) ∈ renewed n ∧ ∀ o : Occurrence, o.In n [] → o.path = p → o.name = b.name := by
    obtain ⟨b,hb,d,hd,hp⟩ := naming_some hn
    obtain ⟨hdin,hdb⟩ := Node.listed_In h (renewed_mem hb).1 hd
    refine ⟨b,hb,fun o ho hop => ?_⟩
    rw [← hdb, ho.eq hdin (hop.trans hp.symm)]
  simp only [Naming.occurrence] at he
  cases hn : naming n o.path with
  | none =>
    cases hn' : naming n o'.path with
    | none => simpa [hn, hn'] using he
    | some name' =>
      obtain ⟨b,hb,-⟩ := hname hn'
      simp only [hn, hn', Option.getD_none, Option.getD_some] at he
      exact absurd (he ▸ mem_takenNames ho) (hfresh _ hb)
  | some name =>
    obtain ⟨b,hb,hbn⟩ := hname hn
    cases hn' : naming n o'.path with
    | none =>
      simp only [hn, hn', Option.getD_none, Option.getD_some] at he
      exact absurd (he ▸ mem_takenNames ho') (hfresh _ hb)
    | some name' =>
      obtain ⟨b',hb',hbn'⟩ := hname hn'
      simp only [hn, hn', Option.getD_some] at he
      have := List.inj_on_of_nodup_map hnodup hb hb' he
      rw [hbn o ho rfl, hbn' o' ho' rfl, (Prod.mk.inj this).1]

private theorem startsLower_role (kind : BindingKind) (k : Nat) :
    Walk.tag.startsLower (roleWord kind true ++ Nat.repr k) = false := by
  cases kind <;> simp [Walk.tag.startsLower, roleWord] <;> decide

/-- A tag with a new name refers to a component, so the name starts with a capital. -/
theorem naming_keepsCase (h : n.IsProgram) : (naming n).KeepsCase n [] := by
  intro q name hq
  cases hn : naming n ([] ++ q) with
  | none => rfl
  | some new =>
    obtain ⟨b,hb,o,ho,hp⟩ := naming_some hn
    have hlisted := (renewed_mem hb).1
    obtain ⟨⟨⟨q',hq',hl⟩,hlower⟩,-⟩ := Node.listed_In h hlisted ho
    obtain rfl : q' = q := by simpa using hq'.symm.trans hp
    have hlabel := Option.some.inj (hl.symm.trans hq)
    obtain ⟨htag,rfl⟩ : o.isTag = true ∧ o.name = name := by
      unfold Occurrence.label at hlabel
      split at hlabel
      · exact ⟨by assumption,by simpa using hlabel⟩
      · cases hlabel
    have href : b.references.any (·.isTag) = true := by
      rcases List.mem_append.mp ho with ho | ho
      · simp [(Node.declarations_listed h hlisted).2 o ho] at htag
      · exact List.any_eq_true.mpr ⟨o,ho,htag⟩
    obtain ⟨k,hk⟩ := assign_role hb
    simp only [href] at hk
    rw [Option.getD_some, hk, startsLower_role, hlower htag]

theorem naming_faithful (h : n.IsProgram) (hd : n.DeclaratorsOnly) :
    (naming n).Faithful n (n.topLevel.frames true) n.resolved := by
  have hbinding {f : Path × Landing} (hf : f ∈ n.topLevel.frames true) {b : Binding}
      (hb : b ∈ Binding.ofLanding f.2) :
      Event.withReferences n.resolved f.1 b ∈ n.scope.allBindings := by
    rw [Node.allBindings_program h]
    exact List.mem_flatMap.mpr ⟨f,hf,List.mem_map_of_mem hb⟩
  refine ⟨fun f hf d hd => ((Node.sound_topLevel h).frames hf d hd).1,
    fun o o' ho ho' => naming_injective h ho ho',?_,?_⟩
  · intro f hf d hdf e hef hne
    obtain ⟨b,hb,hdb,hbn⟩ := Binding.exists_of_mem_landing hdf
    obtain ⟨c,hc,hec,hcn⟩ := Binding.exists_of_mem_landing hef
    obtain rfl : b = c := List.inj_on_of_nodup_map (Binding.names_nodup f.2) hb hc
      (hbn.trans (hne.trans hcn.symm))
    exact naming_alike h hd (hbinding hf hb) (List.mem_append_left _ hdb)
      (List.mem_append_left _ hec)
  · intro r hr f hf hfr d hdf hne
    obtain ⟨b,hb,hdb,hbn⟩ := Binding.exists_of_mem_landing hdf
    refine naming_alike h hd (hbinding hf hb) (List.mem_append_left _ hdb)
      (List.mem_append_right _ (List.mem_map_of_mem (List.mem_filter.mpr ⟨hr,?_⟩)))
    simp [hfr, hbn, hne]

/-- The analysis after renaming is the analysis before under the new names. -/
theorem scope_renamed (h : n.IsProgram) (hd : n.DeclaratorsOnly) :
    (n.relabel (naming n).label []).scope = n.scope.renamed (naming n) :=
  Node.scope_relabel h (naming_keepsCase h) (naming_faithful h hd)

/-- A binding with a generated name has the name given out for it, any other its own. -/
theorem renamed_name_eq (h : n.IsProgram) (hd : n.DeclaratorsOnly) :
    (∀ e ∈ renewed n, (e.1.renamed (naming n)).name = e.2) ∧
      ∀ b ∈ n.scope.allBindings, generated b = false → (b.renamed (naming n)).name = b.name := by
  have hhead {b : Binding} (hb : b ∈ n.scope.allBindings) :
      ∃ o ∈ b.occurrences, (b.renamed (naming n)).name = ((naming n).occurrence o).name := by
    cases hds : b.declarations with
    | nil => exact absurd hds (Node.declarations_listed h hb).1
    | cons d ds => exact ⟨d,by simp [Binding.occurrences, hds],by simp [Binding.renamed, hds]⟩
  constructor
  · intro e he
    obtain ⟨o,ho,hn⟩ := hhead (renewed_mem he).1
    rw [hn, Naming.occurrence, naming_renewed h hd he ho, Option.getD_some]
  · intro b hb hg
    obtain ⟨o,ho,hn⟩ := hhead hb
    rw [hn, Naming.occurrence, naming_kept h hb hg ho, Option.getD_none]
    exact (Node.listed_In h hb ho).2

end Rename

/-! ### The analysis without names -/

def Occurrence.nameless (o : Occurrence) : Occurrence := { o with name := "" }

/-- A binding as kind and positions, in order. -/
def Binding.nameless (b : Binding) : Binding :=
  { name := ""
    kind := b.kind
    declarations := b.declarations.map Occurrence.nameless
    references := b.references.map Occurrence.nameless }

theorem Binding.nameless_renamed (ν : Naming) (b : Binding) : (b.renamed ν).nameless = b.nameless := by
  simp [nameless, renamed, Function.comp_def, Naming.occurrence, Occurrence.nameless]

namespace Scope

mutual
/-- A scope tree without the names: which scopes there are, and at which positions each of their
bindings, in order, is declared and referred to. -/
def nameless : Scope → Scope
  | .mk p l f bs cs => .mk p l f (bs.map Binding.nameless) (namelessAll cs)
def namelessAll : List Scope → List Scope
  | [] => []
  | s :: rest => nameless s :: namelessAll rest
end

theorem namelessAll_eq (ss : List Scope) : namelessAll ss = ss.map nameless := by
  induction ss with
  | nil => rfl
  | cons s ss ih => rw [namelessAll, ih, List.map_cons]

theorem inductionOn {P : Scope → Prop}
    (mk : ∀ p l f bs cs, (∀ c ∈ cs, P c) → P (.mk p l f bs cs)) (s : Scope) : P s :=
  @Scope.rec P (fun cs => ∀ c ∈ cs, P c) mk (by simp)
    (fun _ _ hc hcs => List.forall_mem_cons.mpr ⟨hc,hcs⟩) s

theorem nameless_renamed (ν : Naming) (s : Scope) : (s.renamed ν).nameless = s.nameless := by
  induction s using inductionOn with
  | mk p l f bs cs ih =>
    simp only [renamed, nameless, renamedAll_eq, namelessAll_eq, List.map_map]
    congr 1
    · exact List.map_congr_left fun b _ => b.nameless_renamed ν
    · exact List.map_congr_left ih

theorem allBindings_renamed (ν : Naming) (s : Scope) :
    (s.renamed ν).allBindings = s.allBindings.map (Binding.renamed ν) := by
  induction s using inductionOn with
  | mk p l f bs cs ih =>
    rw [renamed, allBindings_mk, allBindings_mk, renamedAll_eq, List.map_append, List.flatMap_map,
      List.map_flatMap, List.flatMap_congr ih]

end Scope

/-- Whether an identifier at a position belongs to a binding. -/
def Node.Bound (n : Node) (p : Path) : Prop :=
  ∃ b ∈ n.scope.allBindings, p ∈ b.occurrences.map (·.path)

/-- What renaming may do to a program. Scopes, bindings and positions stay, an identifier that no
binding has stays so, and the bindings, taken in order, keep their names or get new ones. -/
structure Rename.CaptureFree (before after : Node) : Prop where
  scopes : after.scope.nameless = before.scope.nameless
  unbound : ∀ p, after.Bound p ↔ before.Bound p
  kept : ∀ e ∈ before.scope.allBindings.zip after.scope.allBindings,
    generated e.1 = false → e.2.name = e.1.name
  fresh : ∀ e ∈ before.scope.allBindings.zip after.scope.allBindings,
    generated e.1 = true → e.2.name ∉ takenNames before
  distinct : (((before.scope.allBindings.zip after.scope.allBindings).filter
    fun e => generated e.1).map fun e => e.2.name).Nodup

/-- Renaming generated names captures nothing, in programs in which no node stands at two places
and variable declarations have declarators for members. -/
theorem renameGenerated_captureFree (tree : Node) (h : tree.IsProgram) (hm : tree.hasMarks = false)
    (hd : tree.DeclaratorsOnly) :
    Rename.CaptureFree (Rename.splitShorthand tree) (renameGenerated tree).1 := by
  rw [Rename.renameGenerated_eq hm]
  replace h := Rename.isProgram_splitShorthand h
  replace hd := Rename.declaratorsOnly_splitShorthand hd
  generalize Rename.splitShorthand tree = n at h hd
  have hscope := Rename.scope_renamed h hd
  obtain ⟨hnew,hkept⟩ := Rename.renamed_name_eq h hd
  obtain ⟨hnodup,hfresh⟩ := Rename.assign_fresh ⟨Rename.takenNames n,0,0,0⟩ n.scope.allBindings
  have hfst := Rename.map_fst_assign ⟨Rename.takenNames n,0,0,0⟩ n.scope.allBindings
  have hbindings : (n.relabel (Rename.naming n).label []).scope.allBindings =
      n.scope.allBindings.map (Binding.renamed (Rename.naming n)) := by
    rw [hscope, Scope.allBindings_renamed]
  have hzip : n.scope.allBindings.zip (n.relabel (Rename.naming n).label []).scope.allBindings =
      n.scope.allBindings.map fun b => (b, b.renamed (Rename.naming n)) := by
    have := List.zip_map' (f := id) (g := Binding.renamed (Rename.naming n)) (l := n.scope.allBindings)
    rwa [List.map_id, ← hbindings] at this
  refine ⟨by rw [hscope, Scope.nameless_renamed],fun p => ?_,?_,?_,?_⟩
  · simp [Node.Bound, hbindings, Binding.renamed, Binding.occurrences]
  · rw [hzip]
    simpa using hkept
  · rw [hzip]
    simp only [List.mem_map, forall_exists_index, and_imp, forall_apply_eq_imp_iff₂]
    intro b hb hg
    have hf := hfst ▸ List.mem_filter.mpr ⟨hb,hg⟩
    obtain ⟨e,he,rfl⟩ := List.mem_map.mp hf
    rw [hnew e he]
    exact hfresh e he
  · rw [hzip, List.filter_map, List.map_map]
    change ((n.scope.allBindings.filter Rename.generated).map
      fun b => (b.renamed (Rename.naming n)).name).Nodup
    rw [← hfst, List.map_map]
    exact List.map_congr_left hnew ▸ hnodup

/-- A function with a generated name that shadows its parameter and uses a name bound nowhere. -/
def Rename.shadowing : Node :=
  let name (s : String) : Node := .identifier s
  let inner : Node := .mk (.functionExpression {}) [(.params, name "_0x2b"),
    (.body, .block [.mk .returnStatement [(.argument, .binary "+" (name "_0x2b") (name "param1"))]])]
  .mk (.program "script") [(.body, .mk (.functionDeclaration {} none) [(.id, name "_0x1a"),
    (.params, name "_0x2b"), (.body, .block [
      .mk (.variableDeclaration "var") [(.declarations,
        .mk .variableDeclarator [(.id, name "_0x3c"), (.init, inner)])],
      .mk .returnStatement [(.argument, .call (name "_0x3c") [name "_0x2b"])]])])]

theorem renameGenerated_captureFree_shadowing :
    Rename.CaptureFree (Rename.splitShorthand Rename.shadowing) (renameGenerated Rename.shadowing).1 :=
  renameGenerated_captureFree Rename.shadowing ⟨"script",rfl⟩ (by decide)
    (by simp [Rename.shadowing, Node.declaratorsOnly_marked, Node.label, Node.identifier, Node.block,
      Node.call, Node.binary])

end Unravel
