import Unravel.Proofs.Scope.CaptureFree
import Unravel.Proofs.Scope.Retouch
import Unravel.Proofs.Scope.Ways

/-! Renaming leaves every name alone that is not a variable's, whether it is a property's, a label's or
one that modules exchange. -/

namespace Unravel

def Label.isShorthand : Label → Bool
  | .property _ _ shorthand _ => shorthand
  | _ => false

namespace Node

/-- An identifier at a position belongs to a binding with a generated name. -/
def Renamable (n : Node) (p : Path) : Prop :=
  ∃ b ∈ n.scope.allBindings, Rename.generated b = true ∧ p ∈ b.occurrences.map (·.path)

/-! ### Shorthand properties -/

/-- A shorthand property with a generated name as its key. -/
def isGeneratedShorthand (n : Node) : Bool :=
  match n.label with
  | .property false _ true _ =>
    ((n.child? .key).bind identifierName?).any fun name => Rename.isHexName (Text.ofString name)
  | _ => false

/-- The name that a property has as its key; a computed key is none. -/
def keyName? (n : Node) : Option String :=
  match n.label with
  | .property false .. => (n.child? .key).bind identifierName?
  | _ => none

theorem keyName?_eq_some_iff {n : Node} {name : String} :
    n.keyName? = some name ↔ ∃ method shorthand kind key,
      n.label = .property false method shorthand kind ∧ n.child? .key = some key ∧
        key.identifierName? = some name := by
  unfold keyName?
  constructor
  · intro h
    split at h
    · rename_i hl
      obtain ⟨key,hkey,hname⟩ := Option.bind_eq_some_iff.mp h
      exact ⟨_,_,_,key,hl,hkey,hname⟩
    · cases h
  · rintro ⟨method,shorthand,kind,key,hl,hkey,hname⟩
    rw [hl, hkey]
    exact hname

/-- The name that a property reads or binds, before any default. -/
def valueName? (n : Node) : Option String := do
  let value ← n.child? .value
  if value.label = .assignmentPattern then (value.child? .left).bind identifierName?
  else value.identifierName?

/-- The key of each shorthand property is the name of its value. -/
def ShorthandsAgree (n : Node) : Prop :=
  ∀ e ∈ n.positions [], ∀ c ∈ n.at? e.1, c.label.isShorthand = true →
    c.keyName?.isSome = true ∧ c.valueName? = c.keyName?

instance (n : Node) : Decidable n.ShorthandsAgree := inferInstanceAs (Decidable (∀ e ∈ _, _))

theorem shorthandsAgree_iff {n : Node} :
    n.ShorthandsAgree ↔ ∀ q c, n.at? q = some c → c.label.isShorthand = true →
      ∃ name, c.keyName? = some name ∧ c.valueName? = some name := by
  have hlisted {q : Path} {c : Node} (hc : n.at? q = some c) : (q, c.label) ∈ n.positions [] :=
    mem_positions.mpr ⟨q,rfl,by rw [labelAt?, hc]; rfl⟩
  constructor
  · intro h q c hc hs
    obtain ⟨hkey,hvalue⟩ := h _ (hlisted hc) c hc hs
    obtain ⟨name,hname⟩ := Option.isSome_iff_exists.mp hkey
    exact ⟨name,hname,hvalue.trans hname⟩
  · intro h e _ c hc hs
    obtain ⟨name,hkey,hvalue⟩ := h e.1 c hc hs
    exact ⟨by rw [hkey]; rfl,hvalue.trans hkey.symm⟩

end Node

namespace Rename

theorem splitShorthand_retouches : Node.Retouches splitShorthand where
  marked m l cs := by
    obtain ⟨l',h,rfl | ⟨method,kind,s,s',rfl,rfl⟩⟩ := splitShorthand_marked m l cs
    · exact ⟨m,l',h,rfl⟩
    · exact ⟨m,_,h,rfl⟩

/-- The split writes out the shorthand properties with generated names, and changes nothing else. -/
theorem label_split (n : Node) :
    (splitShorthand n).label = bif n.isGeneratedShorthand then n.label.writtenOut else n.label := by
  obtain ⟨m,l,cs⟩ := n
  rw [splitShorthand.eq_def, Node.isGeneratedShorthand]
  cases l with
  | property computed method shorthand kind =>
    cases computed with
    | true => rfl
    | false =>
      cases shorthand with
      | false => rfl
      | true =>
        have hkey : (Node.mk (.property false method true kind) cs).child? .key =
            (Node.marked m (.property false method true kind) cs).child? .key := rfl
        simp only [hkey, Node.label]
        cases (Node.marked m (.property false method true kind) cs).child? .key with
        | none => rfl
        | some key =>
          obtain ⟨m',l',cs'⟩ := key
          cases l' with
          | identifier name =>
            simp only [Option.bind_some, Node.identifierName?, Node.label, Option.any_some]
            cases isHexName (Text.ofString name) <;> rfl
          | _ => rfl
  | _ => rfl

variable {n : Node}

/-- Renaming names exactly the identifiers of bindings with generated names. -/
theorem naming_isSome {p : Path} : (naming n p).isSome ↔ n.Renamable p := by
  constructor
  · intro h
    obtain ⟨name,hname⟩ := Option.isSome_iff_exists.mp h
    obtain ⟨b,hb,o,ho,hp⟩ := naming_some hname
    obtain ⟨hmem,hg⟩ := renewed_mem hb
    exact ⟨b,hmem,hg,List.mem_map.mpr ⟨o,ho,hp⟩⟩
  · rintro ⟨b,hb,hg,hp⟩
    have hf : b ∈ (renewed n).map Prod.fst := by
      rw [renewed, map_fst_assign]
      exact List.mem_filter.mpr ⟨hb,hg⟩
    obtain ⟨e,he,rfl⟩ := List.mem_map.mp hf
    obtain ⟨o,ho,rfl⟩ := List.mem_map.mp hp
    rw [naming, Option.isSome_map, List.find?_isSome]
    exact ⟨(o.path, e.2),List.mem_flatMap.mpr ⟨e,he,List.mem_map_of_mem ho⟩,by simp⟩

/-- The new name of an identifier is one that the program does not use. -/
theorem naming_fresh {p : Path} {name : String} (h : naming n p = some name) :
    name ∉ takenNames n := by
  obtain ⟨b,hb,-⟩ := naming_some h
  exact (assign_fresh ⟨takenNames n,0,0,0⟩ n.scope.allBindings).2 _ hb

/-- What is renamed is an identifier with a generated name. -/
theorem generated_of_renamable (h : n.IsProgram) {p : Path} (hp : n.Renamable p) :
    ∃ o : Occurrence, o.path = p ∧ o.In n [] ∧ isHexName (Text.ofString o.name) = true ∧
      n.namesOther p = false := by
  obtain ⟨b,hb,hg,hp⟩ := hp
  obtain ⟨o,ho,rfl⟩ := List.mem_map.mp hp
  obtain ⟨hin,hname⟩ := Node.listed_In h hb ho
  refine ⟨o,rfl,hin,?_,Node.namesOther_of_listed h hb ho⟩
  rw [hname]
  exact hg

/-- What renaming changes in a program: the names of identifiers of bindings with generated names,
and whether properties with generated names as keys are shorthands. -/
structure LeavesAlone (before after : Node) : Prop where
  slots : ∀ p, (after.at? p).map (fun c => c.subtrees.map Prod.fst) =
    (before.at? p).map fun c => c.subtrees.map Prod.fst
  renamed : ∀ p, before.Renamable p → ∃ old new, isHexName (Text.ofString old) = true ∧ new ≠ old ∧
    (before.labelAt? p = some (.identifier old) ∧ after.labelAt? p = some (.identifier new) ∨
      before.labelAt? p = some (.jsxIdentifier old) ∧ after.labelAt? p = some (.jsxIdentifier new))
  shorthands : ∀ p c, before.at? p = some c → c.isGeneratedShorthand = true →
    after.labelAt? p = some c.label.writtenOut
  rest : ∀ p c, before.at? p = some c → ¬before.Renamable p → c.isGeneratedShorthand = false →
    after.labelAt? p = some c.label
  literals : ∀ p value raw, before.labelAt? p = some (.literal value raw) →
    after.labelAt? p = some (.literal value raw)
  /-- Names of properties, labels, specifiers and markup stay, and so do unresolved names. -/
  names : ∀ p l, before.labelAt? p = some l → (takenName? l).isSome →
    before.namesOther p = true ∨ ¬before.Bound p → after.labelAt? p = some l
  agree : after.ShorthandsAgree

theorem mem_takenNames_iff {name : String} :
    name ∈ takenNames n ↔ ∃ q, (n.labelAt? q).bind takenName? = some name := by
  simp only [takenNames, List.mem_filterMap, Prod.exists, Node.mem_positions, List.nil_append,
    Option.bind_eq_some_iff]
  constructor
  · rintro ⟨q,l,⟨_,rfl,hl⟩,hname⟩
    exact ⟨q,l,hl,hname⟩
  · rintro ⟨q,l,hl,hname⟩
    exact ⟨q,l,⟨q,rfl,hl⟩,hname⟩

private theorem takenName?_writtenOut (l : Label) : takenName? l.writtenOut = takenName? l := by
  cases l <;> rfl

theorem mem_takenNames_split {name : String} :
    name ∈ takenNames (splitShorthand n) ↔ name ∈ takenNames n := by
  have hlabel (c : Node) : takenName? (splitShorthand c).label = takenName? c.label :=
    splitShorthand_retouches.label_congr c takenName?_writtenOut
  simp only [mem_takenNames_iff, Node.labelAt?, splitShorthand_retouches.at?, Option.bind_map,
    Function.comp_def, hlabel]

private theorem label_of_naming {ν : Naming} {p : Path} {l : Label}
    (h : ν p = none ∨ takenName? l = none) : ν.label p l = l := by
  rcases h with h | h
  · cases l <;> simp [Naming.label, h]
  · cases l <;> first | rfl | cases h

private theorem takenName?_shorthand {c : Node} (h : c.isGeneratedShorthand = true) :
    takenName? c.label = none := by
  unfold Node.isGeneratedShorthand at h
  split at h
  · rename_i hl
    rw [hl]
    rfl
  · cases h

theorem isShorthand_label (ν : Naming) (p : Path) (l : Label) :
    (ν.label p l).isShorthand = l.isShorthand := by
  cases l <;> rfl

theorem isShorthand_writtenOut (l : Label) : l.writtenOut.isShorthand = false := by
  cases l <;> rfl

/-! ### A subtree after renaming -/

/-- A subtree as it stands at its position after renaming. -/
def renamedAt (ν : Naming) (p : Path) (c : Node) : Node := (splitShorthand c).relabel ν.label p

section RenamedAt
variable (ν : Naming) (p : Path) (c : Node)

theorem label_renamedAt : (renamedAt ν p c).label = ν.label p (splitShorthand c).label :=
  Node.label_relabel ..

/-- Whatever labels tell, names and shorthands apart, is told after renaming. -/
theorem label_renamedAt_congr {α : Type} {t : Label → α} (hw : ∀ l, t l.writtenOut = t l)
    (ht : ∀ ν p l, t (Naming.label ν p l) = t l) : t (renamedAt ν p c).label = t c.label := by
  rw [label_renamedAt, ht, splitShorthand_retouches.label_congr c hw]

theorem label_renamedAt_eq {l : Label} (hl : ∀ a b c d, l ≠ .property a b c d)
    (htaken : takenName? l = none) : (renamedAt ν p c).label = l ↔ c.label = l := by
  rw [label_renamedAt, ← splitShorthand_retouches.label_eq c hl]
  constructor
  · intro h
    have hnone : takenName? (splitShorthand c).label = none := by
      cases hs : (splitShorthand c).label <;> first | rfl | (rw [hs] at h; subst h; cases htaken)
    rwa [label_of_naming (.inr hnone)] at h
  · rintro rfl
    exact label_of_naming (.inr htaken)

theorem child?_renamedAt {d : Node} {f : Field} {j : Nat} (hj : c.index? f = some j)
    (hd : c.child? f = some d) :
    (renamedAt ν p c).child? f = some (renamedAt ν (p ++ [j]) d) := by
  rw [renamedAt, Node.child?_relabel _ _ _ ((splitShorthand_retouches.index? c f).trans hj),
    splitShorthand_retouches.child?, hd]
  rfl

theorem fields_renamedAt :
    (renamedAt ν p c).subtrees.map Prod.fst = c.subtrees.map Prod.fst := by
  rw [renamedAt, Node.fields_relabel, splitShorthand_retouches.subtrees, List.map_map]
  rfl

theorem child?_renamedAt_none {f : Field} (hd : c.child? f = none) :
    (renamedAt ν p c).child? f = none := by
  rw [Node.child?, Option.map_eq_none_iff, List.find?_eq_none] at hd ⊢
  intro e he
  have hf : e.1 ∈ c.subtrees.map Prod.fst := fields_renamedAt ν p c ▸ List.mem_map_of_mem he
  obtain ⟨e',he',hf⟩ := List.mem_map.mp hf
  rw [← hf]
  exact hd e' he'

end RenamedAt

section Renamed
variable {tree : Node} (h : tree.IsProgram) (hm : tree.hasMarks = false)

/-- The new names of a program, told of the program as it was. -/
def newNames (tree : Node) : Naming := naming (splitShorthand tree)

include h in
theorem newNames_isSome {p : Path} : (newNames tree p).isSome ↔ tree.Renamable p := by
  rw [newNames, naming_isSome, Node.Renamable, Node.Renamable, splitShorthand_retouches.scope tree h]

theorem newNames_fresh {p : Path} {name : String} (hp : newNames tree p = some name) :
    name ∉ takenNames tree := mem_takenNames_split.not.mp (naming_fresh hp)

include hm in
theorem at?_renameGenerated (p : Path) :
    (renameGenerated tree).1.at? p = (tree.at? p).map (renamedAt (newNames tree) p) := by
  rw [renameGenerated_eq hm, Node.at?_relabel, splitShorthand_retouches.at?, Option.map_map]
  rfl

include hm in
theorem labelAt?_renameGenerated {p : Path} {c : Node} (hc : tree.at? p = some c) :
    (renameGenerated tree).1.labelAt? p =
      some ((newNames tree).label p (splitShorthand c).label) := by
  rw [Node.labelAt?, at?_renameGenerated hm, hc, Option.map_some, Option.map_some, label_renamedAt]

include h hm in
/-- What neither is renamed nor written out keeps its label. -/
theorem labelAt?_kept {p : Path} {c : Node} (hc : tree.at? p = some c) (hp : ¬tree.Renamable p)
    (hg : c.isGeneratedShorthand = false) :
    (renameGenerated tree).1.labelAt? p = some c.label := by
  have hnone : newNames tree p = none :=
    Option.not_isSome_iff_eq_none.mp (hp ∘ (newNames_isSome h).mp)
  rw [labelAt?_renameGenerated hm hc, label_split, hg, label_of_naming (.inl hnone)]
  rfl

include h hm in
/-- A variable with a generated name gets a name that the program did not use. -/
theorem labelAt?_renamed {p : Path} (hp : tree.Renamable p) :
    ∃ o : Occurrence, ∃ new, o.path = p ∧ isHexName (Text.ofString o.name) = true ∧
      o.In tree [] ∧ new ∉ takenNames tree ∧
        (renameGenerated tree).1.labelAt? p = some { o with name := new }.label := by
  obtain ⟨new,hnew⟩ := Option.isSome_iff_exists.mp ((newNames_isSome h).mpr hp)
  obtain ⟨o,rfl,hin,hhex,-⟩ := generated_of_renamable h hp
  obtain ⟨c,hc,hlabel⟩ := Option.map_eq_some_iff.mp hin.labelAt?
  refine ⟨o,new,rfl,hhex,hin,newNames_fresh hnew,?_⟩
  have hsplit : (splitShorthand c).label = o.label :=
    (splitShorthand_retouches.label_eq c (by unfold Occurrence.label; split <;> simp)).mpr hlabel
  rw [labelAt?_renameGenerated hm hc, hsplit]
  unfold Occurrence.label
  split <;> simp [Naming.label, hnew]

private theorem exists_child {p : Path} {c d : Node} {f : Field} (hc : tree.at? p = some c)
    (hd : c.child? f = some d) :
    ∃ j, tree.at? (p ++ [j]) = some d ∧
      (renamedAt (newNames tree) p c).child? f = some (renamedAt (newNames tree) (p ++ [j]) d) := by
  obtain ⟨j,hj⟩ := Node.exists_index? hd
  refine ⟨j,?_,child?_renamedAt _ _ _ hj hd⟩
  rw [Node.at?_append, hc, Option.bind_some, Node.at?, Node.getElem?_index? hj hd]
  rfl

include h hm in
/-- An identifier whose name is not generated keeps it. -/
private theorem identifierName?_kept {p : Path} {c : Node} {name : String} (hc : tree.at? p = some c)
    (hname : c.identifierName? = some name) (hg : isHexName (Text.ofString name) = false) :
    (renamedAt (newNames tree) p c).identifierName? = some name := by
  have hl := Node.label_of_identifierName? hname
  have hp : ¬tree.Renamable p := by
    intro hren
    obtain ⟨o,rfl,hin,hhex,-⟩ := generated_of_renamable h hren
    have hlabel := hin.labelAt?
    rw [Node.labelAt?, hc, Option.map_some, hl, Option.some.injEq, Occurrence.label] at hlabel
    split at hlabel
    · cases hlabel
    · obtain rfl := Label.identifier.inj hlabel
      rw [hhex] at hg
      cases hg
  have hkept := labelAt?_kept h hm hc hp (by simp [Node.isGeneratedShorthand, hl])
  rw [Node.labelAt?, at?_renameGenerated hm, hc, Option.map_some, Option.map_some, Option.some.injEq,
    hl] at hkept
  rw [Node.identifierName?, hkept]

include h hm in
/-- The name of a value stays if it is not generated. -/
private theorem valueName?_kept {p : Path} {c : Node} {name : String} (hc : tree.at? p = some c)
    (hname : c.valueName? = some name) (hg : isHexName (Text.ofString name) = false) :
    (renamedAt (newNames tree) p c).valueName? = some name := by
  obtain ⟨value,hv,hname⟩ := Option.bind_eq_some_iff.mp hname
  obtain ⟨j,hj,hv'⟩ := exists_child hc hv
  refine Option.bind_eq_some_iff.mpr ⟨_,hv',?_⟩
  simp only [label_renamedAt_eq _ _ value (l := .assignmentPattern) (by simp) rfl]
  split at hname
  · rename_i hp
    obtain ⟨left,hleft,hname⟩ := Option.bind_eq_some_iff.mp hname
    obtain ⟨k,hk,hleft'⟩ := exists_child hj hleft
    rw [if_pos hp]
    exact Option.bind_eq_some_iff.mpr ⟨_,hleft',identifierName?_kept h hm hk hname hg⟩
  · rename_i hp
    rw [if_neg hp]
    exact identifierName?_kept h hm hj hname hg

include h hm in
/-- Shorthand properties that are left have the names of variables that are not renamed. -/
private theorem shorthandsAgree_renamed (hs : tree.ShorthandsAgree) :
    (renameGenerated tree).1.ShorthandsAgree := by
  refine Node.shorthandsAgree_iff.mpr fun p c' hc' hshort => ?_
  obtain ⟨c,hc,rfl⟩ := Option.map_eq_some_iff.mp ((at?_renameGenerated hm p).symm.trans hc')
  rw [label_renamedAt, isShorthand_label, label_split] at hshort
  cases hg : c.isGeneratedShorthand with
  | true =>
    rw [hg, cond_true, isShorthand_writtenOut] at hshort
    cases hshort
  | false =>
    rw [hg, cond_false] at hshort
    obtain ⟨name,hkeyName,hvalueName⟩ := Node.shorthandsAgree_iff.mp hs p c hc hshort
    obtain ⟨method,shorthand,kind,key,hl,hkey,hkeyed⟩ := Node.keyName?_eq_some_iff.mp hkeyName
    rw [hl] at hshort
    obtain rfl : shorthand = true := hshort
    have hhex : isHexName (Text.ofString name) = false := by
      simpa [Node.isGeneratedShorthand, hl, hkey, hkeyed] using hg
    have hlabel : (renamedAt (newNames tree) p c).label = .property false method true kind := by
      rw [label_renamedAt, label_split, hg, cond_false, hl]
      rfl
    obtain ⟨j,hj,hkey'⟩ := exists_child hc hkey
    exact ⟨name,Node.keyName?_eq_some_iff.mpr
        ⟨method,true,kind,_,hlabel,hkey',identifierName?_kept h hm hj hkeyed hhex⟩,
      valueName?_kept h hm hc hvalueName hhex⟩

end Renamed

/-- Renaming generated names leaves all other names alone, in programs in which no node stands at two
places and the key of each shorthand property is the name of its value. -/
theorem renameGenerated_leavesAlone (tree : Node) (h : tree.IsProgram) (hm : tree.hasMarks = false)
    (hs : tree.ShorthandsAgree) : LeavesAlone tree (renameGenerated tree).1 := by
  have hat {p : Path} {l : Label} (hl : tree.labelAt? p = some l) :
      ∃ c, tree.at? p = some c ∧ c.label = l := Option.map_eq_some_iff.mp hl
  refine ⟨fun p => ?_,fun p hp => ?_,fun p c hc hg => ?_,fun p c hc hp hg => labelAt?_kept h hm hc hp hg,
    fun p value raw hl => ?_,fun p l hl htaken hp => ?_,shorthandsAgree_renamed h hm hs⟩
  · rw [at?_renameGenerated hm, Option.map_map]
    refine congrArg (Option.map · _) (funext fun c => ?_)
    exact fields_renamedAt _ p c
  · obtain ⟨o,new,rfl,hhex,hin,hfresh,hl⟩ := labelAt?_renamed h hm hp
    refine ⟨o.name,new,hhex,fun he => hfresh (he ▸ mem_takenNames hin),?_⟩
    · rw [hin.labelAt?, hl]
      unfold Occurrence.label
      split
      · exact .inr ⟨rfl,rfl⟩
      · exact .inl ⟨rfl,rfl⟩
  · have htaken : takenName? c.label.writtenOut = none := by
      rw [takenName?_writtenOut]
      exact takenName?_shorthand hg
    rw [labelAt?_renameGenerated hm hc, label_split, hg]
    exact congrArg some (label_of_naming (.inr htaken))
  · obtain ⟨c,hc,hl⟩ := hat hl
    rw [labelAt?_renameGenerated hm hc, (splitShorthand_retouches.label_eq c (by simp)).mpr hl]
    rfl
  · obtain ⟨c,hc,rfl⟩ := hat hl
    refine labelAt?_kept h hm hc (fun hren => ?_) ?_
    · rcases hp with hp | hp
      · obtain ⟨o,-,-,-,hother⟩ := generated_of_renamable h hren
        rw [hother] at hp
        cases hp
      · obtain ⟨b,hb,-,hp'⟩ := hren
        exact hp ⟨b,hb,hp'⟩
    · refine Bool.eq_false_iff.mpr fun hg => ?_
      rw [takenName?_shorthand hg] at htaken
      cases htaken

/-- `import {x as _0x1a} from 'm'; _0x1a: { ({_0x1a, _0x2b: _0x3c._0x1a}); break _0x1a; }`. -/
def manifold : Node :=
  let name : Node := .identifier "_0x1a"
  let short : Node :=
    .mk (.property false false true "init") [(.key, name), (.value, name)]
  let long : Node := .mk (.property false false false "init") [(.key, .identifier "_0x2b"),
    (.value, .mk (.memberExpression false) [(.object, .identifier "_0x3c"), (.property, name)])]
  let object : Node := .mk .objectExpression [(.properties, short), (.properties, long)]
  .mk (.program "module")
    [(.body, .mk .importDeclaration [(.specifiers,
        .mk .importSpecifier [(.localName, name), (.imported, .identifier "x")]),
        (.source, .mk (.literal (.text (Text.ofString "m")) none) [])]),
     (.body, .mk .labeledStatement [(.label, name), (.body, .block
        [.mk (.expressionStatement none none) [(.expression, object)],
         .mk .breakStatement [(.label, name)]])])]

theorem renameGenerated_leavesAlone_manifold :
    LeavesAlone manifold (renameGenerated manifold).1 ∧
      takenNames (renameGenerated manifold).1 =
        ["var1", "x", "_0x1a", "_0x1a", "var1", "_0x2b", "_0x3c", "_0x1a", "_0x1a"] :=
  ⟨renameGenerated_leavesAlone manifold ⟨"module",rfl⟩ (by decide) (by decide),by decide +kernel⟩

end Rename

end Unravel
