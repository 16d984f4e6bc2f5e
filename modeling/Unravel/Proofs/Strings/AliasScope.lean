import Unravel.Proofs.Scope.Resolution
import Unravel.Proofs.Strings.Dangling

/-! Calls replaced and declarators removed by a resolution, by name and by binding. A resolution goes
by names: those that the declarators of the whole program pass on from the name of a decoder. A name
stands for the decoder itself exactly if each use on the way belongs to the innermost scope around it
that declares it. -/

namespace Unravel.Strings

variable {σ ε : Type} {setup : Setup ε} {rotate : Bool} {tree : Node}

/-! ### From a use to a declaration -/

/-- The identifier that a function declaration declares. -/
def NamedFunction.Named (tree : Node) (f : NamedFunction) (d : Occurrence) : Prop :=
  ∃ n i, tree.at? f.path = some n ∧ n.index? .id = some i ∧ d = ⟨f.name,f.path ++ [i],false⟩

/-- The identifier that a call calls. -/
def NamedCall.Calls (tree : Node) (c : NamedCall) (o : Occurrence) : Prop :=
  ∃ n i, tree.at? c.path = some n ∧ n.index? .callee = some i ∧ o = ⟨c.name,c.path ++ [i],false⟩

/-- The identifiers on the two sides of a declarator. -/
def AliasLink.Joins (tree : Node) (a : AliasLink) (source target : Occurrence) : Prop :=
  ∃ n i j, tree.at? a.path = some n ∧ n.index? .id = some i ∧ n.index? .init = some j ∧
    target = ⟨a.target,a.path ++ [i],false⟩ ∧ source = ⟨a.source,a.path ++ [j],false⟩

theorem NamedFunction.exists_named {f : NamedFunction} (h : f ∈ (Index.ofTree tree).functions) :
    ∃ d, f.Named tree d := by
  obtain ⟨n,hn,hf⟩ := mem_functions h
  obtain ⟨-,-,hid⟩ := namedFunction?_some hf
  obtain ⟨c,hc,-⟩ := Option.bind_eq_some_iff.mp hid
  obtain ⟨i,hi⟩ := Node.exists_index? hc
  exact ⟨_,n,i,hn,hi,rfl⟩

theorem NamedCall.exists_calls {c : NamedCall} (h : c ∈ (Index.ofTree tree).calls) :
    ∃ o, c.Calls tree o := by
  obtain ⟨n,hn,-,hname,-⟩ := mem_calls.mp h
  obtain ⟨callee,hcallee,-⟩ := Option.bind_eq_some_iff.mp hname
  obtain ⟨i,hi⟩ := Node.exists_index? hcallee
  exact ⟨_,n,i,hn,hi,rfl⟩

theorem AliasLink.exists_joins {a : AliasLink} (h : a ∈ (Index.ofTree tree).aliases) :
    ∃ source target, a.Joins tree source target := by
  obtain ⟨n,hn,ha⟩ := mem_aliases h
  obtain ⟨-,-,hid,hinit⟩ := aliasLink?_some ha
  obtain ⟨c,hc,-⟩ := Option.bind_eq_some_iff.mp hid
  obtain ⟨d,hd,-⟩ := Option.bind_eq_some_iff.mp hinit
  obtain ⟨i,hi⟩ := Node.exists_index? hc
  obtain ⟨j,hj⟩ := Node.exists_index? hd
  exact ⟨_,_,n,i,j,hn,hi,hj,rfl,rfl⟩

/-- A use and a declaration of one binding. -/
def Shared (tree : Node) (o d : Occurrence) : Prop :=
  ∃ b ∈ tree.scope.allBindings, o ∈ b.references ∧ d ∈ b.declarations

/-- A use and a declaration in the innermost scope around it that declares its name. -/
def Visible (tree : Node) (o d : Occurrence) : Prop :=
  d.name = o.name ∧ ∃ around s kind, tree.RefersAt around o ∧ tree.Innermost around o.name s ∧
    tree.DeclaredIn s kind d

instance (tree : Node) (o d : Occurrence) : Decidable (Shared tree o d) :=
  inferInstanceAs (Decidable (∃ b ∈ tree.scope.allBindings, o ∈ b.references ∧ d ∈ b.declarations))

theorem Shared.name_eq (hprog : tree.IsProgram) {o d : Occurrence} (h : Shared tree o d) :
    d.name = o.name := by
  obtain ⟨b,hb,ho,hd⟩ := h
  obtain ⟨-,hname⟩ := Node.listed_In hprog hb (List.mem_append_right _ ho)
  obtain ⟨-,hname'⟩ := Node.listed_In hprog hb (List.mem_append_left _ hd)
  exact hname'.trans hname.symm

theorem shared_iff_visible (hprog : tree.IsProgram) (hd : tree.DeclaratorsOnly) {o d : Occurrence} :
    Shared tree o d ↔ Visible tree o d := by
  constructor
  · intro h
    have hname := h.name_eq hprog
    exact ⟨hname,(Node.refers_to_iff hprog hd hname).mp h⟩
  · rintro ⟨hname,h⟩
    exact (Node.refers_to_iff hprog hd hname).mpr h

/-- A use that meets what `d` declares, or a variable whose declarator takes its value from such a
use. -/
inductive LeadsTo (tree : Node) (meets : Occurrence → Occurrence → Prop) (d : Occurrence) :
    Occurrence → Prop
  | here {o : Occurrence} (h : meets o d) : LeadsTo tree meets d o
  | link {a : AliasLink} {source target o : Occurrence} (ha : a ∈ (Index.ofTree tree).aliases)
    (hjoins : a.Joins tree source target) (ho : meets o target) (h : LeadsTo tree meets d source) :
    LeadsTo tree meets d o

theorem LeadsTo.mono {meets meets' : Occurrence → Occurrence → Prop}
    (hmeets : ∀ o d, meets o d → meets' o d) {d o : Occurrence} (h : LeadsTo tree meets d o) :
    LeadsTo tree meets' d o := by
  induction h with
  | here h => exact .here (hmeets _ _ h)
  | link ha hjoins ho _ ih => exact .link ha hjoins (hmeets _ _ ho) ih

/-- What leads to a decoder has a name that is passed on from that of the decoder. -/
theorem LeadsTo.passedOn {meets : Occurrence → Occurrence → Prop}
    (hmeets : ∀ o d, meets o d → d.name = o.name) {d o : Occurrence} (h : LeadsTo tree meets d o) :
    PassedOn (Index.ofTree tree).aliases d.name o.name := by
  induction h with
  | here h =>
    rw [← hmeets _ _ h]
    exact .self
  | link ha hjoins ho _ ih =>
    obtain ⟨n,i,j,-,-,-,rfl,rfl⟩ := hjoins
    rw [← hmeets _ _ ho]
    exact .link ha ih

/-! ### Declarators over the rounds -/

namespace State
variable {st st' : State σ}

/-- What a round takes out besides declarators are statements. -/
theorem machinery_labels {provider : NamedFunction} (ht : st.forest.tree = tree)
    (hprov : provider ∈ (Index.ofTree tree).functions) {m : Path}
    (hm : m ∈ st.machinery (Index.ofTree tree) provider) :
    (∃ f ∈ (Index.ofTree tree).functions, f.path = m) ∨
      ∃ i a b, m = [i] ∧ tree.labelAt? m = some (.expressionStatement a b) := by
  simp only [machinery, List.mem_append, List.mem_singleton, Option.mem_toList, List.mem_map] at hm
  rcases hm with (rfl | hm) | ⟨d,hd,rfl⟩
  · exact .inl ⟨provider,hprov,rfl⟩
  · exact .inr (ht ▸ rotation_spec hm)
  · exact .inl ⟨d,(Index.isDecoder_of_mem hd).1,rfl⟩

/-- What holds of the declarators of a tree after every round. Only those that pass the name of a
decoder on are gone, and if a decoder is, so are all that pass its name on, unless they stand in no
row. -/
structure ByName (tree : Node) (st : State σ) : Prop where
  gone : ∀ p ∈ st.forest.detached, tree.IsVariable p → ∃ d, (Index.ofTree tree).IsDecoder d ∧
    PassesOn tree (aliasesOf (Index.ofTree tree).aliases d.name) p
  links : ∀ d ∈ (Index.ofTree tree).functions, d.isProvider = false → d.path ∈ st.forest.detached →
    ∀ a ∈ (Index.ofTree tree).aliases, a.source ∈ aliasesOf (Index.ofTree tree).aliases d.name →
      st.Drops a ∨ ∃ f ∈ (Index.ofTree tree).functions, st.forest.inRow f.path = false ∧
        f.path <+: a.path

theorem ByName.resolveProvider (hprog : tree.IsProgram) (hs : tree.Slotted) {provider : NamedFunction}
    (hprov : provider ∈ (Index.ofTree tree).functions) (hp : provider.isProvider = true)
    {st st' : State setup.engine.State} (hsound : st.Sound tree) (h : st.ByName tree)
    (hst : st.resolveProvider setup rotate (Index.ofTree tree) provider = .ok st') :
    st'.ByName tree := by
  obtain ⟨st₁,hgains,hst⟩ := resolveProvider_cases hsound.linked hsound.at_call hst
  have h₁ : st₁.ByName tree := by
    refine ⟨by rw [hgains.forest]; exact h.gone,fun d hd hnot hgone a ha hname => ?_⟩
    rw [hgains.forest] at hgone ⊢
    simpa only [Drops, hgains.forest] using h.links d hd hnot hgone a ha hname
  rcases hst with rfl | ⟨-,rfl⟩
  · exact h₁
  have ht : st₁.forest.tree = tree := by rw [hgains.forest, hsound.whole]
  have hl : st₁.forest.Linked := by
    rw [hgains.forest]
    exact hsound.linked
  obtain ⟨hshrinks,hrows,hlinks⟩ := clears_removeMachinery ht hl hs
    (st.machinery (Index.ofTree tree) provider) ((Index.ofTree tree).decoding provider)
  generalize st₁.removeMachinery (Index.ofTree tree) (st.machinery (Index.ofTree tree) provider)
    ((Index.ofTree tree).decoding provider) = st' at hshrinks hrows hlinks
  refine ⟨fun p hgone hvar => ?_,fun d hd hnot hgone a ha hname => ?_⟩
  · rcases hshrinks.new p hgone with hold | ⟨-,hm | ⟨-,a,ha,hname,hpa⟩⟩
    · exact h₁.gone p hold hvar
    · -- No declarator is a function or a rotation.
      rcases machinery_labels hsound.whole hprov hm with ⟨f,hf,rfl⟩ | ⟨i,a,b,-,hlabel⟩
      · obtain ⟨a,b,hlabel⟩ := labelAt?_function hf
        rcases hvar with hvar | ⟨kind,hvar⟩
        · cases hlabel.symm.trans hvar
        · cases hlabel.symm.trans hvar
      · rcases hvar with hvar | ⟨kind,hvar⟩
        · cases hlabel.symm.trans hvar
        · cases hlabel.symm.trans hvar
    · obtain ⟨d,hd,hname⟩ := List.mem_flatMap.mp hname
      exact ⟨d,Index.isDecoder_of_mem hd,hvar,a,ha,hname,hpa⟩
  · rcases hshrinks.new d.path hgone with hold | ⟨-,hnew⟩
    · refine (h₁.links d hd hnot hold a ha hname).imp (Drops.mono hshrinks) ?_
      rintro ⟨f,hf,hrow,hfa⟩
      exact ⟨f,hf,by rwa [Forest.inRow_congr hshrinks.tree],hfa⟩
    · have hmem := (hsound.round hprov hp).mem_decoders hd hnot (hnew.imp_right And.left)
      rcases hlinks a ha (List.mem_flatMap.mpr ⟨d,hmem,hname⟩) with hdrops | ⟨m,hm,hma⟩
      · exact .inl hdrops
      cases hrow : st₁.forest.inRow m with
      | true => exact .inl (.inl ⟨m,hrows m hm hrow,hma⟩)
      | false =>
        rcases machinery_labels hsound.whole hprov hm with ⟨f,hf,rfl⟩ | ⟨i,a,b,rfl,hlabel⟩
        · exact .inr ⟨f,hf,by rw [Forest.inRow_congr hshrinks.tree, hrow],hma⟩
        · obtain ⟨n,hn,-⟩ := Option.map_eq_some_iff.mp hlabel
          rw [Forest.inRow_program ht hprog hs hn] at hrow
          cases hrow

end State

theorem byName_ended (hprog : tree.IsProgram) (hs : tree.Slotted) {st : State setup.engine.State}
    (h : ended setup rotate tree = .ok st) : st.ByName tree := by
  have hstart : (started setup tree).ByName tree := ⟨nofun,nofun⟩
  refine (State.resolveProviders_keeps (fun st => st.Sound tree ∧ st.ByName tree)
    (fun p hp st st' hst hround => ?_) ⟨sound_started,hstart⟩ h).2
  obtain ⟨hmem,hp⟩ := List.mem_filter.mp hp
  exact ⟨hst.1.resolveProvider hprog hs hmem hp hround,
    hst.2.resolveProvider hprog hs hmem hp hst.1 hround⟩

/-- Calls are replaced, and declarators removed, by the names that are passed on from a decoder's,
whatever these are bound to: all of them, once the decoder goes. A use of such a name is one of the
decoder exactly if what it meets, and each declarator on the way meets, is declared in the innermost
scope that declares the name; every use of the decoder has such a name. -/
theorem resolve_scope (hprog : tree.IsProgram) (hd : tree.DeclaratorsOnly) (hs : tree.Slotted)
    {st : State setup.engine.State} (h : ended setup rotate tree = .ok st) :
    let index := Index.ofTree tree
    resolve setup rotate tree = .ok st.finish ∧
      (∀ v ∈ st.values, ∃ c ∈ index.calls, c.path = v.1 ∧ ∃ o d e, c.Calls tree o ∧
        index.IsDecoder d ∧ d.Named tree e ∧ PassedOn index.aliases e.name o.name) ∧
      (∀ p ∈ st.forest.detached, tree.IsVariable p → ∃ a ∈ index.aliases,
        (p = a.path ∨ p = a.path.dropLast) ∧ ∃ source target d e, a.Joins tree source target ∧
          index.IsDecoder d ∧ d.Named tree e ∧ PassedOn index.aliases e.name source.name) ∧
      (∀ d ∈ index.functions, d.isProvider = false → d.path ∈ st.forest.detached →
        (∀ c ∈ index.calls, PassedOn index.aliases d.name c.name → st.Closes index c) ∧
        ∀ a ∈ index.aliases, PassedOn index.aliases d.name a.source → st.Drops a ∨
          ∃ f ∈ index.functions, st.forest.inRow f.path = false ∧ f.path <+: a.path) ∧
      ∀ e o, (LeadsTo tree (Shared tree) e o ↔ LeadsTo tree (Visible tree) e o) ∧
        (LeadsTo tree (Shared tree) e o → PassedOn index.aliases e.name o.name) := by
  have hsound := sound_ended hprog hs h
  have hnames := byName_ended hprog hs h
  refine ⟨by rw [resolve_eq, h]; rfl,fun v hv => ?_,fun p hp hvar => ?_,fun d hd' hnot hgone => ?_,
    fun e o => ⟨⟨?_,?_⟩,?_⟩⟩
  · obtain ⟨c,hc,hcv,⟨d,hdec,hname⟩,-⟩ := hsound.values v hv
    obtain ⟨o,ho⟩ := NamedCall.exists_calls hc
    obtain ⟨e,he⟩ := NamedFunction.exists_named hdec.1
    refine ⟨c,hc,hcv,o,d,e,ho,hdec,he,?_⟩
    obtain ⟨-,-,-,-,rfl⟩ := ho
    obtain ⟨-,-,-,-,rfl⟩ := he
    exact mem_aliasesOf_iff.mp hname
  · obtain ⟨d,hdec,-,a,ha,hname,hpa⟩ := hnames.gone p hp hvar
    obtain ⟨source,target,hjoins⟩ := AliasLink.exists_joins ha
    obtain ⟨e,he⟩ := NamedFunction.exists_named hdec.1
    refine ⟨a,ha,hpa,source,target,d,e,hjoins,hdec,he,?_⟩
    obtain ⟨-,-,-,-,-,-,-,rfl⟩ := hjoins
    obtain ⟨-,-,-,-,rfl⟩ := he
    exact mem_aliasesOf_iff.mp hname
  · refine ⟨fun c hc hname => ?_,fun a ha hname => ?_⟩
    · exact hsound.calls d hd' hnot hgone c hc (mem_aliasesOf_iff.mpr hname)
    · exact hnames.links d hd' hnot hgone a ha (mem_aliasesOf_iff.mpr hname)
  · exact LeadsTo.mono fun _ _ => (shared_iff_visible hprog hd).mp
  · exact LeadsTo.mono fun _ _ => (shared_iff_visible hprog hd).mpr
  · exact LeadsTo.passedOn fun _ _ => Shared.name_eq hprog

/-- A parameter of the name of a decoder: after the table, the decoder `dec` and a call of it,
`function f(dec) { var g = dec; return dec(1); }`. -/
def shadowedDecoder : Node :=
  let one : Node := .mk (.literal (.number (.int 1)) (some (Text.ofString "1"))) []
  let copy : Node := .mk (.variableDeclaration "var") [(.declarations,
    .mk .variableDeclarator [(.id, .identifier "g"), (.init, .identifier "dec")])]
  let result : Node := .mk .returnStatement [(.argument, .call (.identifier "dec") [one])]
  .mk (.program "script") (exposed.subtrees.take 3 ++
    [(.body, .mk (.functionDeclaration {} none)
      [(.id, .identifier "f"), (.params, .identifier "dec"), (.body, .block [copy, result])])])

/-- The call of the parameter is replaced and the variable of its value removed. -/
theorem resolve_scope_shadowedDecoder :
    ∃ st, ended exposedSetup true shadowedDecoder = .ok st ∧
      (∃ v ∈ st.values, v.1 = [3, 2, 1, 0]) ∧ [3, 2, 0] ∈ st.forest.detached ∧
      ∀ o, o = ⟨"dec",[3, 2, 1, 0, 0],false⟩ ∨ o = ⟨"dec",[3, 2, 0, 0, 1],false⟩ →
        ¬LeadsTo shadowedDecoder (Visible shadowedDecoder) ⟨"dec",[1, 0],false⟩ o := by
  have hd : shadowedDecoder.DeclaratorsOnly := by
    simp [shadowedDecoder, exposed, Node.declaratorsOnly_marked, Node.label, Node.subtrees,
      Node.identifier, Node.block, Node.call, Node.ofText]
  have hfunctions : (Index.ofTree shadowedDecoder).functions = [⟨[0],"arr",[],true⟩,
      ⟨[1],"dec",["arr", "i"],false⟩,⟨[3],"f",["g", "dec", "dec"],false⟩] := rfl
  have haliases : (Index.ofTree shadowedDecoder).aliases = [⟨[3, 2, 0, 0],"g","dec"⟩] := rfl
  have hprog : shadowedDecoder.IsProgram := ⟨"script",rfl⟩
  obtain ⟨-,-,-,hgone,hbound⟩ := resolve_scope hprog hd (by decide : shadowedDecoder.Slotted)
    (rfl : ended exposedSetup true shadowedDecoder = .ok _)
  refine ⟨_,rfl,?_,by decide,fun o ho hleads => ?_⟩
  · obtain ⟨hcalls,-⟩ := hgone ⟨[1],"dec",["arr", "i"],false⟩ (by simp [hfunctions]) rfl (by decide)
    have hcall : (Index.ofTree shadowedDecoder).calls[2]? = some ⟨[3, 2, 1, 0],"dec",_⟩ := rfl
    rcases hcalls _ (List.mem_of_getElem? hcall) .self with hv | hr | ⟨f,hf,hp,hrow,-⟩
    · exact hv
    · exact absurd hr (by decide)
    · simp only [hfunctions, List.mem_cons, List.not_mem_nil, or_false] at hf
      rcases hf with rfl | rfl | rfl
      · exact absurd hrow (by decide)
      · cases hp
      · cases hp
  · cases (hbound _ o).1.mpr hleads with
    | here hmeets =>
      rcases ho with rfl | rfl
      · exact absurd hmeets (by decide)
      · exact absurd hmeets (by decide)
    | link ha hjoins hmeets _ =>
      -- The only declarator is of another name.
      have hname := hmeets.name_eq hprog
      obtain ⟨n,i,j,-,-,-,rfl,-⟩ := hjoins
      rw [haliases, List.mem_singleton] at ha
      subst ha
      rcases ho with rfl | rfl
      · simp at hname
      · simp at hname

end Unravel.Strings
