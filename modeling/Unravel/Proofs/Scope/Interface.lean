import Unravel.Proofs.Scope.OtherNames

/-! What a module shows to others: the names that it exports, and those that it asks of other modules.
Renaming changes them exactly where they name variables of the module at the same time. -/

namespace Unravel

namespace Label

def isNamedDeclaration : Label → Bool
  | .functionDeclaration .. | .classDeclaration => true
  | _ => false

/-- How far out a declaration of names reaches. -/
def reach : Label → Reach
  | .variableDeclaration kind => if kind = "var" then .function else .here
  | _ => .here

end Label

namespace Node

/-- The identifier that a node is. -/
def itself (n : Node) (p : Path) : List Occurrence :=
  n.identifierName?.toList.map fun name => ⟨name,p,false⟩

/-- The identifiers in a slot. -/
def inSlot (f : Field) (n : Node) (p : Path) : List Occurrence :=
  n.subtrees.zipIdx.flatMap fun c => if c.1.1 = f then c.1.2.itself (p ++ [c.2]) else []

/-- The identifiers in one slot of the specifiers of a kind. -/
def specified (kind : Label) (f : Field) (n : Node) (p : Path) : List Occurrence :=
  n.subtrees.zipIdx.flatMap fun c =>
    if c.1.2.label = kind then c.1.2.inSlot f (p ++ [c.2]) else []

/-- What a variable, function or class declaration binds. -/
def declaredNames (n : Node) (p : Path) : List Occurrence :=
  if n.label.isNamedDeclaration then n.binds .id p
  else if n.label.isVariables then n.memberBinds (fun _ => true) .id p
  else []

/-- The names that an export declares. -/
def declaredExports (n : Node) (p : Path) : List Occurrence :=
  if n.label = .exportNamedDeclaration then
    n.subtrees.zipIdx.flatMap fun c =>
      if c.1.1 = .declaration then c.1.2.declaredNames (p ++ [c.2]) else []
  else []

/-- The names under which an export lists what it exports. -/
def specifiedExports (n : Node) (p : Path) : List Occurrence :=
  if n.label = .exportNamedDeclaration then n.specified .exportSpecifier .exported p else []

/-- The module that an import or export is from. -/
def source? (n : Node) : Option LiteralValue :=
  (n.child? .source).bind fun s =>
    match s.label with
    | .literal value _ => some value
    | _ => none

/-- The names that an import asks of a module. -/
def imports (source : LiteralValue) (n : Node) (p : Path) : List Occurrence :=
  if n.label = .importDeclaration ∧ n.source? = some source then
    n.specified .importSpecifier .imported p
  else []

/-- The names of a module that an export passes on. -/
def reexports (source : LiteralValue) (n : Node) (p : Path) : List Occurrence :=
  if n.label = .exportNamedDeclaration ∧ n.source? = some source then
    n.specified .exportSpecifier .localName p
  else []

/-- What the nodes of a tree tell, in visiting order. -/
def gather (tell : Node → Path → List Occurrence) (n : Node) : List Occurrence :=
  (n.positions []).flatMap fun e => (n.at? e.1).toList.flatMap fun c => tell c e.1

/-- The names that a module exports. -/
def exports (n : Node) : List String :=
  (n.gather fun c p => c.specifiedExports p ++ c.declaredExports p).map (·.name)

/-- The names that a module asks of another. -/
def requests (source : LiteralValue) (n : Node) : List String :=
  (n.gather fun c p => c.imports source p ++ c.reexports source p).map (·.name)

theorem mem_gather {tell : Node → Path → List Occurrence} {n : Node} {o : Occurrence} :
    o ∈ n.gather tell ↔ ∃ q c, n.at? q = some c ∧ o ∈ tell c q := by
  simp only [gather, List.mem_flatMap, Option.mem_toList, Prod.exists, mem_positions,
    List.nil_append]
  constructor
  · rintro ⟨q,l,-,c,hc,ho⟩
    exact ⟨q,c,hc,ho⟩
  · rintro ⟨q,c,hc,ho⟩
    exact ⟨q,c.label,⟨q,rfl,by rw [labelAt?, hc]; rfl⟩,c,hc,ho⟩

theorem gather_append (tell tell' : Node → Path → List Occurrence) (n : Node) (o : Occurrence) :
    (o ∈ n.gather fun c p => tell c p ++ tell' c p) ↔ o ∈ n.gather tell ∨ o ∈ n.gather tell' := by
  simp only [mem_gather, List.mem_append]
  constructor
  · rintro ⟨q,c,hc,ho | ho⟩
    · exact .inl ⟨q,c,hc,ho⟩
    · exact .inr ⟨q,c,hc,ho⟩
  · rintro (⟨q,c,hc,ho⟩ | ⟨q,c,hc,ho⟩)
    · exact ⟨q,c,hc,.inl ho⟩
    · exact ⟨q,c,hc,.inr ho⟩

end Node

namespace Rename

theorem bound_renamedAt (ν : Naming) (p : Path) (c : Node) (member : Bool) :
    (renamedAt ν p c).bound member p = (c.bound member p).map ν.occurrence := by
  rw [renamedAt, Node.bound_relabel, splitShorthand_retouches.bound]

theorem flatMap_renamedAt {α : Type} (ν : Naming) (p : Path) (c : Node)
    (F : (Field × Node) × Nat → List α) :
    (renamedAt ν p c).subtrees.zipIdx.flatMap F =
      c.subtrees.zipIdx.flatMap fun d => F ((d.1.1, renamedAt ν (p ++ [d.2]) d.1.2), d.2) := by
  rw [renamedAt, Node.subtrees_relabel, Node.zipIdx_relabel, splitShorthand_retouches.subtrees,
    List.zipIdx_map, List.flatMap_map]
  rfl

/-- Identifiers that a node tells of what stands at and below it, and tells of under their new names
after renaming. -/
structure Follows (tell : Node → Path → List Occurrence) : Prop where
  renamed : ∀ ν p c, tell (renamedAt ν p c) p = (tell c p).map ν.occurrence
  standing : ∀ c p, ∀ o ∈ tell c p, o.In c p

namespace Follows
variable {tell tell' : Node → Path → List Occurrence}

theorem append (h : Follows tell) (h' : Follows tell') :
    Follows fun c p => tell c p ++ tell' c p where
  renamed ν p c := by rw [h.renamed, h'.renamed, List.map_append]
  standing c p o ho := (List.mem_append.mp ho).elim (h.standing c p o) (h'.standing c p o)

theorem nothing : Follows fun _ _ => [] where
  renamed _ _ _ := rfl
  standing _ _ _ ho := nomatch ho

theorem ite {test : Node → Prop} [DecidablePred test]
    (ht : ∀ ν p c, test (renamedAt ν p c) ↔ test c) (h : Follows tell) (h' : Follows tell') :
    Follows fun c p => if test c then tell c p else tell' c p where
  renamed ν p c := by
    simp only [ht]
    split
    · exact h.renamed ν p c
    · exact h'.renamed ν p c
  standing c p o ho := by
    split at ho
    · exact h.standing c p o ho
    · exact h'.standing c p o ho

/-- What some of the subtrees tell. -/
theorem across {t : Field → Node → Prop} [∀ f, DecidablePred (t f)]
    (ht : ∀ ν p f c, t f (renamedAt ν p c) ↔ t f c) (h : Follows tell) :
    Follows fun c p => c.subtrees.zipIdx.flatMap fun d =>
      if t d.1.1 d.1.2 then tell d.1.2 (p ++ [d.2]) else [] where
  renamed ν p c := by
    rw [flatMap_renamedAt, List.map_flatMap]
    refine List.flatMap_congr fun d _ => ?_
    simp only [ht]
    split
    · exact h.renamed ν _ d.1.2
    · rfl
  standing c p o ho := by
    obtain ⟨m,l,cs⟩ := c
    simp only [List.mem_flatMap, List.mem_ite_nil_right] at ho
    obtain ⟨d,hd,-,ho⟩ := ho
    exact (h.standing _ _ o ho).lift (List.mem_zipIdx_iff_getElem?.mp hd)

theorem bound : Follows Node.boundIdentifiers where
  renamed ν p c := bound_renamedAt ν p c false
  standing c p o ho := (Node.In_of_mem_bound (show o ∈ c.bound false p from ho)).1

theorem itself : Follows Node.itself where
  renamed ν p c := by
    have hsplit : (splitShorthand c).identifierName? = c.identifierName? :=
      splitShorthand_retouches.label_congr c (t := fun l => (Node.mk l []).identifierName?)
        fun l => by cases l <;> rfl
    have hname : (renamedAt ν p c).identifierName? =
        c.identifierName?.map fun name => (ν p).getD name := by
      rw [← hsplit, Node.identifierName?, Node.identifierName?, label_renamedAt]
      cases (splitShorthand c).label <;> rfl
    rw [Node.itself, hname, Node.itself]
    cases c.identifierName? <;> rfl
  standing c p o ho := by
    obtain ⟨name,hname,rfl⟩ := List.mem_map.mp ho
    have hl := Node.label_of_identifierName? (Option.mem_toList.mp hname)
    exact ⟨⟨[],by simp,by rw [Node.labelAt?, Node.at?_nil, Option.map_some, hl]; rfl⟩,by simp⟩

theorem inSlot (f : Field) : Follows (Node.inSlot f) :=
  across (t := fun g _ => g = f) (fun _ _ _ _ => Iff.rfl) itself

theorem binds (f : Field) : Follows fun c p => c.binds f p :=
  across (t := fun g _ => g = f) (fun _ _ _ _ => Iff.rfl) bound

private theorem member (f : Field) : Follows fun c p =>
    match c.index? f, c.child? f with
    | some j, some target => target.boundIdentifiers (p ++ [j])
    | _, _ => [] where
  renamed ν p c := by
    cases hd : c.child? f with
    | none =>
      have hnone : (renamedAt ν p c).child? f = none := child?_renamedAt_none ν p c hd
      cases (renamedAt ν p c).index? f <;> cases c.index? f <;> simp [hnone]
    | some d =>
      obtain ⟨j,hj⟩ := Node.exists_index? hd
      have hd' := child?_renamedAt ν p c hj hd
      have hj' : (renamedAt ν p c).index? f = some j := by
        rw [renamedAt, Node.index?_relabel, splitShorthand_retouches.index?, hj]
      simp only [hj, hj', hd']
      exact bound_renamedAt ν (p ++ [j]) d false
  standing c p o ho := by
    split at ho
    · rename_i j target hj htarget
      obtain ⟨m,l,cs⟩ := c
      exact (bound.standing _ _ o ho).lift (Node.getElem?_index? hj htarget)
    · cases ho

theorem memberBinds (test : Field → Bool) (f : Field) :
    Follows fun c p => c.memberBinds test f p :=
  across (t := fun g _ => test g = true) (fun _ _ _ _ => Iff.rfl) (member f)

theorem declaredNames : Follows Node.declaredNames := by
  refine ite (fun ν p c => ?_) (binds .id) (ite (fun ν p c => ?_) (memberBinds _ .id) nothing)
  · rw [label_renamedAt_congr ν p c (t := Label.isNamedDeclaration) (fun l => by cases l <;> rfl)
      fun ν p l => by cases l <;> rfl]
  · rw [label_renamedAt_congr ν p c (t := Label.isVariables) (fun l => by cases l <;> rfl)
      fun ν p l => by cases l <;> rfl]

theorem specified {kind : Label} (hkind : ∀ a b c d, kind ≠ .property a b c d)
    (htaken : takenName? kind = none) (f : Field) : Follows (Node.specified kind f) :=
  across (t := fun _ c => c.label = kind) (fun ν p _ c => label_renamedAt_eq ν p c hkind htaken)
    (inSlot f)

private theorem isExport (ν : Naming) (p : Path) (c : Node) :
    (renamedAt ν p c).label = .exportNamedDeclaration ↔ c.label = .exportNamedDeclaration :=
  label_renamedAt_eq ν p c (by simp) rfl

theorem declaredExports : Follows Node.declaredExports :=
  ite isExport (across (t := fun g _ => g = .declaration) (fun _ _ _ _ => Iff.rfl) declaredNames)
    nothing

theorem specifiedExports : Follows Node.specifiedExports :=
  ite isExport (specified (by simp) rfl .exported) nothing

private theorem source?_renamedAt (ν : Naming) (p : Path) (c : Node) :
    (renamedAt ν p c).source? = c.source? := by
  unfold Node.source?
  cases hd : c.child? .source with
  | none => rw [child?_renamedAt_none ν p c hd]
  | some d =>
    obtain ⟨j,hj⟩ := Node.exists_index? hd
    rw [child?_renamedAt ν p c hj hd, Option.bind_some, Option.bind_some]
    exact label_renamedAt_congr ν (p ++ [j]) d
      (t := fun l => match l with | .literal value _ => some value | _ => none)
      (fun l => by cases l <;> rfl) fun ν p l => by cases l <;> rfl

theorem imports (source : LiteralValue) : Follows (Node.imports source) := by
  refine ite (fun ν p c => ?_) (specified (by simp) rfl .imported) nothing
  rw [label_renamedAt_eq ν p c (by simp) rfl, source?_renamedAt]

theorem reexports (source : LiteralValue) : Follows (Node.reexports source) := by
  refine ite (fun ν p c => ?_) (specified (by simp) rfl .localName) nothing
  rw [isExport, source?_renamedAt]

end Follows

/-! ### Names told before and after -/

section Renamed
variable {tree : Node} (h : tree.IsProgram) (hm : tree.hasMarks = false)
  {tell : Node → Path → List Occurrence} (ht : Follows tell)

include hm ht in
theorem mem_gather_renameGenerated {o : Occurrence} :
    o ∈ (renameGenerated tree).1.gather tell ↔
      ∃ d ∈ tree.gather tell, (newNames tree).occurrence d = o := by
  simp only [Node.mem_gather, at?_renameGenerated hm]
  constructor
  · rintro ⟨q,_,hafter,ho⟩
    obtain ⟨c,hc,rfl⟩ := Option.map_eq_some_iff.mp hafter
    rw [ht.renamed] at ho
    obtain ⟨d,hd,rfl⟩ := List.mem_map.mp ho
    exact ⟨d,⟨q,c,hc,hd⟩,rfl⟩
  · rintro ⟨d,⟨q,c,hc,hd⟩,rfl⟩
    refine ⟨q,_,by rw [hc]; rfl,?_⟩
    rw [ht.renamed]
    exact List.mem_map_of_mem hd

include ht in
theorem gather_In {o : Occurrence} (ho : o ∈ tree.gather tell) : o.In tree [] := by
  obtain ⟨q,c,hc,ho⟩ := Node.mem_gather.mp ho
  obtain ⟨⟨r,hr,hl⟩,htag⟩ := ht.standing c q o ho
  refine ⟨⟨q ++ r,hr,?_⟩,htag⟩
  rw [Node.labelAt?, Node.at?_append, hc]
  exact hl

include h hm ht in
/-- Renaming keeps a set of names if none of them stands for a variable that is renamed. A name that
is new to the program is new to the set. -/
theorem names_kept_iff :
    (∀ name, name ∈ ((renameGenerated tree).1.gather tell).map (·.name) ↔
        name ∈ (tree.gather tell).map (·.name)) ↔
      ∀ o ∈ tree.gather tell, ¬tree.Renamable o.path := by
  simp only [List.mem_map, mem_gather_renameGenerated hm ht]
  constructor
  · intro hkept o ho hren
    obtain ⟨new,hnew⟩ := Option.isSome_iff_exists.mp ((newNames_isSome h).mpr hren)
    obtain ⟨d,hd,hname⟩ := (hkept new).mp ⟨_,⟨o,ho,rfl⟩,by rw [Naming.occurrence, hnew]; rfl⟩
    exact newNames_fresh hnew (hname ▸ mem_takenNames (gather_In ht hd))
  · intro hnone name
    have hsame {o : Occurrence} (ho : o ∈ tree.gather tell) : (newNames tree).occurrence o = o := by
      have : newNames tree o.path = none :=
        Option.not_isSome_iff_eq_none.mp (hnone o ho ∘ (newNames_isSome h).mp)
      rw [Naming.occurrence, this]
      rfl
    constructor
    · rintro ⟨_,⟨d,hd,rfl⟩,rfl⟩
      exact ⟨d,hd,by rw [hsame hd]⟩
    · rintro ⟨d,hd,rfl⟩
      exact ⟨d,⟨d,hd,hsame hd⟩,rfl⟩

include h in
/-- What a specifier names for other modules is no variable. -/
private theorem not_renamable_specified {c : Node} {p : Path} {kind : Label} {f : Field}
    (hc : tree.at? p = some c) {o : Occurrence} (ho : o ∈ c.specified kind f p)
    (hother : kind.namesOther f = true ∨
      kind = .importSpecifier ∧ f = .imported ∧ c.label = .importDeclaration) :
    ¬tree.Renamable o.path := by
  intro hren
  simp only [Node.specified, Node.inSlot, Node.itself, List.mem_flatMap, List.mem_ite_nil_right,
    List.mem_map] at ho
  obtain ⟨d,hd,rfl,e,he,rfl,name,-,rfl⟩ := ho
  have hi := List.mem_zipIdx_iff_getElem?.mp hd
  have hj := List.mem_zipIdx_iff_getElem?.mp he
  have hways : tree.ways (p ++ [d.2] ++ [e.2]) =
      (d.1.2.label, e.1.1) :: (c.label, d.1.1) :: tree.ways p := by
    rw [List.append_assoc, Node.ways_append hc]
    change c.ways (d.2 :: [e.2]) ++ _ = _
    rw [Node.ways_cons hi, Node.ways_cons hj]
    rfl
  obtain ⟨_,_,-,-,hnone⟩ := generated_of_renamable h hren
  rw [Node.namesOther, hways] at hnone
  rcases hother with hother | ⟨hkind,hf,himport⟩
  · simp [hother] at hnone
  · simp [hkind, hf, himport] at hnone

/-- What a declaration binds it declares as far out as its kind says. -/
theorem exists_mem_outward {c : Node} {p : Path} {o : Occurrence} (ho : o ∈ c.declaredNames p) :
    ∃ kind, (c.label.reach, kind, o) ∈ c.outward p := by
  rw [Node.declaredNames] at ho
  split at ho
  · rename_i hnamed
    unfold Node.outward
    cases hl : c.label with
    | functionDeclaration => exact ⟨_,List.mem_map_of_mem ho⟩
    | classDeclaration => exact ⟨_,List.mem_map_of_mem ho⟩
    | _ =>
      rw [hl] at hnamed
      cases hnamed
  · split at ho
    · rename_i hvariables
      unfold Node.outward
      cases hl : c.label with
      | variableDeclaration => exact ⟨_,List.mem_map_of_mem ho⟩
      | _ =>
        rw [hl] at hvariables
        cases hvariables
    · cases ho

include h in
/-- A name that a statement of the program declares and exports is renamed if it is generated. -/
theorem renamable_declaredExport {c : Node} {i : Nat} (hc : tree.subtrees[i]? = some (.body, c))
    {o : Occurrence} (ho : o ∈ c.declaredExports [i]) :
    tree.Renamable o.path ↔ isHexName (Text.ofString o.name) = true := by
  have hat : tree.at? [i] = some c := by rw [Node.at?, hc]; rfl
  constructor
  · intro hren
    obtain ⟨d,hpath,hin,hhex,-⟩ := generated_of_renamable h hren
    rwa [hin.eq (gather_In .declaredExports (Node.mem_gather.mpr ⟨[i],c,hat,ho⟩)) hpath] at hhex
  · intro hhex
    obtain ⟨hexport,ho⟩ := List.mem_ite_nil_right.mp ho
    obtain ⟨⟨⟨f,d⟩,j⟩,hd,ho⟩ := List.mem_flatMap.mp ho
    obtain ⟨rfl,ho⟩ := List.mem_ite_nil_right.mp ho
    obtain ⟨kind,hout⟩ := exists_mem_outward ho
    have hj := List.mem_zipIdx_iff_getElem?.mp hd
    have hvisits : tree.Visits [i, j] d [([], true)] := by
      obtain ⟨sourceType,hl⟩ := h
      refine ⟨by rw [show [i, j] = [i] ++ [j] from rfl, Node.at?_append, hat]
                 simp [Node.at?, hj],?_⟩
      simp [Node.enclosing?, hc, hj, hl, hexport, Label.walks, Label.isBody, Label.hasBody,
        Label.opened, Label.opens]
    have hdeclared : tree.DeclaredIn [] kind o :=
      ⟨[i, j],d,_,hvisits,.inl ⟨_,hout,by cases d.label.reach <;> rfl⟩⟩
    obtain ⟨landing,hf,hl⟩ := (Node.declaredIn_iff_landing h).mp hdeclared
    obtain ⟨b,hb,hob,hname⟩ := Binding.exists_of_mem_landing hl
    refine ⟨Event.withReferences tree.resolved [] b,?_,?_,?_⟩
    · rw [Node.allBindings_program h]
      exact List.mem_flatMap.mpr ⟨_,hf,List.mem_map_of_mem hb⟩
    · rw [generated]
      exact hname ▸ hhex
    · exact List.mem_map_of_mem (List.mem_append_left _ hob)

end Renamed

/-- Which names of a module's interface change. What an export declares, and what an export passes on
from another module, may be variables with generated names; nothing else in the interface may. -/
structure InterfaceChanges (before after : Node) : Prop where
  exports : (∀ name, name ∈ after.exports ↔ name ∈ before.exports) ↔
    ∀ o ∈ before.gather Node.declaredExports, ¬before.Renamable o.path
  requests : ∀ source,
    (∀ name, name ∈ after.requests source ↔ name ∈ before.requests source) ↔
      ∀ o ∈ before.gather (Node.reexports source), ¬before.Renamable o.path
  /-- A name that a statement of the module declares and exports changes if it is generated. -/
  declared : ∀ (i : Nat) (c : Node), before.subtrees[i]? = some (.body, c) →
    ∀ o ∈ c.declaredExports [i], before.Renamable o.path ↔ isHexName (Text.ofString o.name) = true

/-- Renaming keeps the names that a module exports exactly if no exported declaration binds a renamed
variable, and those that it asks of another exactly if it passes on none under such a name. -/
theorem renameGenerated_interface (tree : Node) (h : tree.IsProgram) (hm : tree.hasMarks = false) :
    InterfaceChanges tree (renameGenerated tree).1 where
  exports := by
    refine (names_kept_iff h hm (.append .specifiedExports .declaredExports)).trans ?_
    simp only [Node.gather_append, or_imp, forall_and]
    refine and_iff_right fun o ho => ?_
    obtain ⟨p,c,hc,ho⟩ := Node.mem_gather.mp ho
    exact not_renamable_specified h hc (List.mem_ite_nil_right.mp ho).2 (.inl rfl)
  requests source := by
    refine (names_kept_iff h hm (.append (.imports source) (.reexports source))).trans ?_
    simp only [Node.gather_append, or_imp, forall_and]
    refine and_iff_right fun o ho => ?_
    obtain ⟨p,c,hc,ho⟩ := Node.mem_gather.mp ho
    obtain ⟨hsource,ho⟩ := List.mem_ite_nil_right.mp ho
    exact not_renamable_specified h hc ho (.inr ⟨rfl,rfl,hsource.1⟩)
  declared i c hc o ho := renamable_declaredExport h hc ho

/-- `export var _0x1a; export {_0x1a as a} from 'm'; export {_0x1a as _0x2b}`. -/
def exporting : Node :=
  let name : Node := .identifier "_0x1a"
  let listed (exported : String) : Field × Node :=
    (.specifiers, .mk .exportSpecifier [(.exported, .identifier exported), (.localName, name)])
  .mk (.program "module")
    [(.body, .mk .exportNamedDeclaration [(.declaration, .mk (.variableDeclaration "var")
        [(.declarations, .mk .variableDeclarator [(.id, name)])])]),
     (.body, .mk .exportNamedDeclaration [listed "a",
        (.source, .mk (.literal (.text (Text.ofString "m")) none) [])]),
     (.body, .mk .exportNamedDeclaration [listed "_0x2b"])]

theorem renameGenerated_interface_exporting :
    InterfaceChanges exporting (renameGenerated exporting).1 ∧
      exporting.exports = ["_0x1a", "a", "_0x2b"] ∧
      (renameGenerated exporting).1.exports = ["var1", "a", "_0x2b"] ∧
      exporting.requests (.text (Text.ofString "m")) = ["_0x1a"] ∧
      (renameGenerated exporting).1.requests (.text (Text.ofString "m")) = ["var1"] :=
  ⟨renameGenerated_interface exporting ⟨"module",rfl⟩ (by decide),by decide,by decide +kernel,
    by decide,by decide +kernel⟩

end Rename

end Unravel
