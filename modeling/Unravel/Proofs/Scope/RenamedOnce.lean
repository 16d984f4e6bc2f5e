import Unravel.Proofs.Scope.OtherNames

/-! Renaming a second time. A renamed program declares what it declared before, under names of which
none is a generated one, so that nothing is left to rename. -/

namespace Unravel

/-! ### The declarations of a renamed program -/

namespace Node
variable {ν : Naming} {f : Field} {n : Node} {p : Path}

private theorem declared_renamedAll (es : List Event) :
    (es.map (Event.renamed ν)).flatMap Event.declared = es.flatMap Event.declared := by
  rw [List.flatMap_map]
  exact List.flatMap_congr fun e _ => Event.declared_renamed e

private theorem declared_component : (Piece.component n p).flatMap Event.declared = [] := by
  unfold Piece.component
  split
  · split <;> rfl
  · rfl

private theorem declared_eventsAt
    (hv : ((n.relabel ν.label p).walk.visit p).flatMap Event.declared =
      (n.walk.visit p).flatMap Event.declared)
    (hi : ((n.relabel ν.label p).walk.inside p).flatMap Event.declared =
      (n.walk.inside p).flatMap Event.declared) (piece : Piece) :
    (piece.eventsAt f (n.relabel ν.label p) p).flatMap Event.declared =
      (piece.eventsAt f n p).flatMap Event.declared := by
  cases piece with
  | declare g reach kind =>
    simp only [Piece.eventsAt, declares_relabel]
    split
    · exact declared_renamedAll _
    · rfl
  | visit test =>
    simp only [Piece.eventsAt]
    split
    · exact hv
    · rfl
  | body =>
    simp only [Piece.eventsAt, label_relabel, label_eq_blockStatement]
    split
    · split
      · exact hi
      · exact hv
    · rfl
  | tag =>
    simp only [Piece.eventsAt]
    split
    · rw [declared_component, declared_component]
    · rfl
  | declarator reach =>
    simp only [Piece.eventsAt, member_relabel]
    exact declared_renamedAll _
  | specifier =>
    simp only [Piece.eventsAt, member_relabel]
    split
    · exact declared_renamedAll _
    · rfl

/-- Whatever names are given, the same identifiers are declared. Names of tags may turn from those of
components into others, which adds and takes away uses but no declaration. -/
theorem declared_relabel (n : Node) (p : Path) :
    ((n.relabel ν.label p).walk.visit p).flatMap Event.declared =
        (n.walk.visit p).flatMap Event.declared ∧
      ((n.relabel ν.label p).walk.inside p).flatMap Event.declared =
        (n.walk.inside p).flatMap Event.declared := by
  induction n using inductionOn generalizing p with
  | marked m l cs ih =>
    have hacross (piece : Piece) :
        (piece.across (cs.zipIdx.map fun c => (c.1.1, c.1.2.relabel ν.label (p ++ [c.2]))) p).flatMap
          Event.declared = (piece.across cs p).flatMap Event.declared := by
      rw [Piece.across, zipIdx_relabel, Piece.across, List.flatMap_assoc, List.flatMap_assoc]
      refine List.flatMap_congr fun c hc => ?_
      obtain ⟨hv,hi⟩ := ih c.1 (List.fst_mem_of_mem_zipIdx hc) (p ++ [c.2])
      exact declared_eventsAt hv hi piece
    have hpieces (pieces : List Piece) :
        (pieces.flatMap (Piece.across
          (cs.zipIdx.map fun c => (c.1.1, c.1.2.relabel ν.label (p ++ [c.2]))) p)).flatMap
            Event.declared = (pieces.flatMap (Piece.across cs p)).flatMap Event.declared := by
      rw [List.flatMap_assoc, List.flatMap_assoc]
      exact List.flatMap_congr fun piece _ => hacross piece
    rw [relabel_marked, walk_inside, walk_inside]
    refine ⟨?_,hacross _⟩
    rw [walk_visit, walk_visit, Plan.events, Plan.events, plan_label, List.flatMap_append,
      List.flatMap_append, List.flatMap_append, List.flatMap_append, hpieces]
    congr 1
    · congr 1
      cases l.plan.name <;> rfl
    · cases hs : l.plan.scope with
      | none => rfl
      | some s =>
        simp only [Option.map_some, Option.toList_some, List.flatMap_singleton, Event.declared,
          Event.declaredAll_eq, hpieces]

theorem isProgram_relabel (h : n.IsProgram) : (n.relabel ν.label p).IsProgram := by
  obtain ⟨s,hs⟩ := h
  exact ⟨s,by rw [label_relabel, hs]; rfl⟩

theorem declared_topLevel_relabel (h : n.IsProgram) :
    (n.relabel ν.label []).topLevel.declared = n.topLevel.declared := by
  have hd : (n.relabel ν.label []).events.flatMap Event.declared = n.events.flatMap Event.declared :=
    (declared_relabel n []).1
  rwa [events_program h, events_program (isProgram_relabel h), List.flatMap_singleton,
    List.flatMap_singleton] at hd

/-- A binding of a program under new names has the new name of an identifier that declared one of the
bindings before. -/
theorem exists_declaration (h : n.IsProgram) {b : Binding}
    (hb : b ∈ (n.relabel ν.label []).scope.allBindings) :
    ∃ c ∈ n.scope.allBindings, ∃ o ∈ c.declarations, b.name = (ν o.path).getD c.name := by
  have h' := isProgram_relabel (ν := ν) (p := []) h
  obtain ⟨d,ds,hds⟩ := List.exists_cons_of_ne_nil (declarations_listed h' hb).1
  have hd : d ∈ b.declarations := by rw [hds]; exact List.mem_cons_self
  obtain ⟨⟨⟨q,hq,hlabel⟩,-⟩,hname⟩ := listed_In h' hb (List.mem_append_left b.references hd)
  have hpath : d.path ∈ n.topLevel.declared := by
    rw [← declared_topLevel_relabel h]
    exact (declarations_perm h').mem_iff.mp
      (List.mem_flatMap.mpr ⟨b,hb,List.mem_map_of_mem hd⟩)
  obtain ⟨c,hc,ho⟩ := List.mem_flatMap.mp ((declarations_perm h).mem_iff.mpr hpath)
  obtain ⟨o,ho,hpo⟩ := List.mem_map.mp ho
  refine ⟨c,hc,o,ho,?_⟩
  obtain ⟨⟨⟨q',hq',hlabel'⟩,-⟩,hname'⟩ := listed_In h hc (List.mem_append_left c.references ho)
  obtain rfl : q' = q := by simpa [hq, hq'] using hpo
  -- A declared identifier is no tag, before or after.
  have htag := (declarations_listed h' hb).2 d hd
  have htag' := (declarations_listed h hc).2 o ho
  rw [labelAt?_relabel, hlabel', Option.map_some, Occurrence.label, Occurrence.label, htag, htag',
    List.nil_append] at hlabel
  have hnew : (ν q').getD o.name = d.name := by simpa [Naming.label] using hlabel
  rw [← hname, ← hname', ← hnew, hq', List.nil_append]

end Node

/-! ### The names given out -/

namespace Rename
variable {n : Node}

/-- The bindings of a program as a run of the renaming takes them. -/
def considered (n : Node) : List Binding :=
  if n.hasMarks then n.scope.allBindings.map (atLastPlaces (n.markedPlaces []))
  else n.scope.allBindings

theorem exists_of_considered {b : Binding} (hb : b ∈ considered n) :
    ∃ c ∈ n.scope.allBindings, b.name = c.name := by
  unfold considered at hb
  split at hb
  · obtain ⟨c,hc,rfl⟩ := List.mem_map.mp hb
    exact ⟨c,hc,rfl⟩
  · exact ⟨b,hb,rfl⟩

/-- The bindings that get a new name, with that name. -/
def given (n : Node) : List (Binding × String) := assign ⟨takenNames n,0,0,0⟩ (considered n)

/-- The names given out, by position. A node that stands at several places has its name at each. -/
def namesByPlace (n : Node) : List (Path × String) :=
  if n.hasMarks then namesAtPlaces (n.markedPlaces []) (namesAt (given n)) else namesAt (given n)

def placing (n : Node) : Naming := fun p =>
  ((namesByPlace n).find? fun e => e.1 = p).map Prod.snd

theorem rename_eq_relabel (names : List (Path × String)) (n : Node) :
    rename names n =
      n.relabel (Naming.label fun p => (names.find? fun e => e.1 = p).map Prod.snd) [] := by
  refine congrArg (fun f => n.relabel f []) ?_
  funext p l
  cases h : names.find? fun e => e.1 = p <;> cases l <;> simp [Naming.label, h]

/-- Renaming is relabelling after the shorthand split, whether or not nodes stand at several places. -/
theorem renameGenerated_eq_renamedAt (tree : Node) :
    renameGenerated tree =
      (renamedAt (placing (splitShorthand tree)) [] tree, (given (splitShorthand tree)).length) := by
  unfold renameGenerated renamedAt placing namesByPlace given considered
  by_cases hm : (splitShorthand tree).hasMarks = true
  · simp only [hm, if_true, rename_eq_relabel]
    rfl
  · simp only [hm, Bool.false_eq_true, if_false, rename_eq_relabel]
    rfl

/-- A name that tells a role is no generated one. -/
theorem isHexName_role (kind : BindingKind) (component : Bool) (k : Nat) :
    isHexName (Text.ofString (roleWord kind component ++ Nat.repr k)) = false := by
  cases kind <;> cases component <;>
    simp [isHexName, isHexTail, Text.ofString, roleWord]

theorem not_isHexName_of_placing {p : Path} {name : String} (h : placing n p = some name) :
    isHexName (Text.ofString name) = false := by
  obtain ⟨e,he,rfl⟩ := Option.map_eq_some_iff.mp h
  have hgiven : ∃ q, (q, e.2) ∈ namesAt (given n) := by
    have he := List.mem_of_find?_eq_some he
    unfold namesByPlace at he
    split at he
    · obtain ⟨d,hd,he⟩ := List.mem_flatMap.mp he
      obtain ⟨q,-,rfl⟩ := List.mem_map.mp he
      exact ⟨d.1,List.mem_reverse.mp hd⟩
    · exact ⟨e.1,he⟩
  obtain ⟨q,hq⟩ := hgiven
  obtain ⟨d,hd,hq⟩ := List.mem_flatMap.mp hq
  obtain ⟨o,-,ho⟩ := List.mem_map.mp hq
  obtain ⟨k,hk⟩ := assign_role hd
  rw [← (Prod.mk.inj ho).2, hk]
  exact isHexName_role ..

private theorem self_mem_placesOf (places : List (Path × Nat)) (p : Path) : p ∈ placesOf places p := by
  unfold placesOf
  split
  · exact List.mem_singleton_self p
  · rename_i m hm
    obtain ⟨xs,ys,rfl,-⟩ := List.lookup_eq_some_iff.mp hm
    rw [List.mem_reverse]
    refine List.mem_map.mpr ⟨(p, m),List.mem_filter.mpr ⟨?_,?_⟩,rfl⟩
    · exact List.mem_append_right xs List.mem_cons_self
    · simp

/-- Every declaration of a binding with a generated name gets a name. -/
theorem placing_isSome {b : Binding} (hb : b ∈ n.scope.allBindings) (hg : generated b = true)
    {o : Occurrence} (ho : o ∈ b.declarations) : (placing n o.path).isSome := by
  have hgiven : ∃ e ∈ given n, o ∈ e.1.occurrences := by
    have hc : ∃ c ∈ considered n, generated c = true ∧ o ∈ c.declarations := by
      unfold considered
      split
      · exact ⟨_,List.mem_map_of_mem hb,hg,ho⟩
      · exact ⟨b,hb,hg,ho⟩
    obtain ⟨c,hc,hgc,hoc⟩ := hc
    have hf : c ∈ (given n).map Prod.fst := by
      rw [given, map_fst_assign]
      exact List.mem_filter.mpr ⟨hc,hgc⟩
    obtain ⟨e,he,rfl⟩ := List.mem_map.mp hf
    exact ⟨e,he,List.mem_append_left _ hoc⟩
  obtain ⟨e,he,ho⟩ := hgiven
  have hmem : (o.path, e.2) ∈ namesAt (given n) :=
    List.mem_flatMap.mpr ⟨e,he,List.mem_map.mpr ⟨o,ho,rfl⟩⟩
  have hplace : (o.path, e.2) ∈ namesByPlace n := by
    unfold namesByPlace
    split
    · refine List.mem_flatMap.mpr ⟨(o.path, e.2),List.mem_reverse.mpr hmem,?_⟩
      exact List.mem_map.mpr ⟨o.path,self_mem_placesOf _ _,rfl⟩
    · exact hmem
  rw [placing, Option.isSome_map, List.find?_isSome]
  exact ⟨_,hplace,by simp⟩

/-! ### The second run -/

private theorem relabel_eq_self {ν : Naming} (hν : ∀ p, ν p = none) (n : Node) (p : Path) :
    n.relabel ν.label p = n := by
  induction n using Node.inductionOn generalizing p with
  | marked m l cs ih =>
    have hl : ν.label p l = l := by
      cases l <;> simp [Naming.label, hν]
    have hcs : cs.zipIdx.map (fun c => (c.1.1, c.1.2.relabel ν.label (p ++ [c.2]))) = cs := by
      refine Eq.trans (List.map_congr_left fun c hc => ?_) (List.zipIdx_map_fst 0 cs)
      rw [ih c.1 (List.fst_mem_of_mem_zipIdx hc)]
    rw [Node.relabel_marked, hl, hcs]

/-- No binding keeps a generated name. -/
theorem not_generated_renamed {tree : Node} (h : tree.IsProgram) {b : Binding}
    (hb : b ∈ (renameGenerated tree).1.scope.allBindings) : generated b = false := by
  rw [renameGenerated_eq_renamedAt] at hb
  obtain ⟨c,hc,o,ho,hname⟩ := Node.exists_declaration (isProgram_splitShorthand h) hb
  rw [generated, hname]
  cases hp : placing (splitShorthand tree) o.path with
  | some name => exact not_isHexName_of_placing hp
  | none =>
    refine Bool.eq_false_iff.mpr fun hg => ?_
    have := placing_isSome hc hg ho
    rw [hp] at this
    cases this

theorem splitShorthand_eq_self (h : ∀ q c, n.at? q = some c → c.isGeneratedShorthand = false) :
    splitShorthand n = n := by
  induction n using Node.inductionOn with
  | marked m l cs ih =>
    have hl := label_split (.marked m l cs)
    rw [h [] _ rfl, cond_false] at hl
    obtain ⟨l',hs,-⟩ := splitShorthand_marked m l cs
    rw [hs] at hl ⊢
    obtain rfl : l' = l := hl
    refine congrArg (Node.marked m l') ?_
    refine (List.map_congr_left fun c hc => ?_).trans (List.map_id cs)
    obtain ⟨i,hi⟩ := List.mem_iff_getElem?.mp hc
    exact Prod.ext rfl (ih c hc fun q d hd => h (i :: q) d (by rw [Node.at?_cons, hi]; exact hd))

private theorem identifierName?_renamedAt {ν : Naming} {p : Path} {c : Node} {new : String}
    (h : (renamedAt ν p c).identifierName? = some new) :
    ∃ old, c.identifierName? = some old ∧ new = (ν p).getD old := by
  have hl := Node.label_of_identifierName? h
  rw [label_renamedAt] at hl
  cases hs : (splitShorthand c).label with
  | identifier old =>
    rw [hs] at hl
    have hc := (splitShorthand_retouches.label_eq c (by simp)).mp hs
    refine ⟨old,by rw [Node.identifierName?, hc],?_⟩
    simpa [Naming.label] using hl.symm
  | _ =>
    rw [hs] at hl
    cases hl

private theorem label_eq_property (ν : Naming) (p : Path) {l : Label} {computed method short : Bool}
    {kind : String} : ν.label p l = .property computed method short kind ↔
      l = .property computed method short kind := by
  cases l <;> simp [Naming.label]

/-- Where no name given out is a generated one, no generated name is left as a shorthand key. -/
theorem isGeneratedShorthand_renamedAt {ν : Naming}
    (hν : ∀ p name, ν p = some name → isHexName (Text.ofString name) = false) (p : Path) (c : Node) :
    (renamedAt ν p c).isGeneratedShorthand = false := by
  refine Bool.eq_false_iff.mpr fun h => ?_
  unfold Node.isGeneratedShorthand at h
  split at h
  · rename_i method kind hl
    rw [Option.any_eq_true] at h
    obtain ⟨new,hnew,hhex⟩ := h
    obtain ⟨key',hkey',hnew⟩ := Option.bind_eq_some_iff.mp hnew
    have hshort := congrArg Label.isShorthand hl
    rw [label_renamedAt, isShorthand_label, label_split] at hshort
    cases hg : c.isGeneratedShorthand with
    | true =>
      rw [hg, cond_true, isShorthand_writtenOut] at hshort
      cases hshort
    | false =>
      cases hkey : c.child? .key with
      | none =>
        rw [child?_renamedAt_none ν p c hkey] at hkey'
        cases hkey'
      | some key =>
        obtain ⟨j,hj⟩ := Node.exists_index? hkey
        rw [child?_renamedAt ν p c hj hkey] at hkey'
        obtain rfl := Option.some.inj hkey'
        obtain ⟨old,hold,rfl⟩ := identifierName?_renamedAt hnew
        have hkept : isHexName (Text.ofString old) = false := by
          have hlabel : c.label = .property false method true kind := by
            rw [label_renamedAt, label_split, hg, cond_false] at hl
            exact (label_eq_property ν p).mp hl
          simpa [Node.isGeneratedShorthand, hlabel, hkey, hold] using hg
        cases hp : ν (p ++ [j]) with
        | none =>
          rw [hp, Option.getD_none, hkept] at hhex
          cases hhex
        | some name =>
          rw [hp, Option.getD_some, hν _ _ hp] at hhex
          cases hhex
  · cases h

/-- Renaming leaves no binding with a generated name, and a second run renames none and changes
nothing. -/
theorem renameGenerated_again (tree : Node) (h : tree.IsProgram) :
    (∀ b ∈ (renameGenerated tree).1.scope.allBindings, generated b = false) ∧
      renameGenerated (renameGenerated tree).1 = ((renameGenerated tree).1, 0) := by
  refine ⟨fun b hb => not_generated_renamed h hb,?_⟩
  have hsplit : splitShorthand (renameGenerated tree).1 = (renameGenerated tree).1 := by
    refine splitShorthand_eq_self fun q c hc => ?_
    rw [renameGenerated_eq_renamedAt, renamedAt, Node.at?_relabel, splitShorthand_retouches.at?,
      Option.map_map] at hc
    obtain ⟨d,-,rfl⟩ := Option.map_eq_some_iff.mp hc
    exact isGeneratedShorthand_renamedAt (fun p name => not_isHexName_of_placing) ([] ++ q) d
  have hgiven : given (renameGenerated tree).1 = [] := by
    refine List.map_eq_nil_iff.mp ((map_fst_assign _ _).trans (List.filter_eq_nil_iff.mpr ?_))
    intro b hb
    obtain ⟨c,hc,hname⟩ := exists_of_considered hb
    rw [generated, hname, ← generated, not_generated_renamed h hc]
    exact Bool.false_ne_true
  rw [renameGenerated_eq_renamedAt (renameGenerated tree).1, hsplit, hgiven]
  refine Prod.ext ?_ rfl
  have hnone (p : Path) : placing (renameGenerated tree).1 p = none := by
    rw [placing, namesByPlace, hgiven]
    split <;> rfl
  rw [renamedAt, hsplit]
  exact relabel_eq_self hnone _ _

/-- `function _0x1a() {} { function _0x1a() {} } var _0x2b; ({_0x2b});`, where the two functions are one
node. -/
def twofold : Node :=
  let twice : Node := .marked (some 0) (.functionDeclaration {} none)
    [(.id, .marked (some 1) (.identifier "_0x1a") []), (.body, .marked (some 2) .blockStatement [])]
  let declaration : Node := .mk (.variableDeclaration "var")
    [(.declarations, .mk .variableDeclarator [(.id, .identifier "_0x2b")])]
  let object : Node := .mk .objectExpression [(.properties, .mk (.property false false true "init")
    [(.key, .identifier "_0x2b"), (.value, .identifier "_0x2b")])]
  .mk (.program "script") [(.body, twice), (.body, .block [twice]), (.body, declaration),
    (.body, .mk (.expressionStatement none none) [(.expression, object)])]

theorem renameGenerated_again_twofold :
    (∀ b ∈ (renameGenerated twofold).1.scope.allBindings, generated b = false) ∧
      renameGenerated (renameGenerated twofold).1 = ((renameGenerated twofold).1, 0) ∧
      takenNames (renameGenerated twofold).1 = ["func2", "func2", "var1", "_0x2b", "var1"] ∧
      (renameGenerated twofold).2 = 3 := by
  obtain ⟨hnames,hagain⟩ := renameGenerated_again twofold ⟨"script",rfl⟩
  exact ⟨hnames,hagain,by decide +kernel,by decide +kernel⟩

end Rename

end Unravel
