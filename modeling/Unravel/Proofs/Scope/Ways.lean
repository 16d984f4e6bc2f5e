import Unravel.Proofs.Scope.Resolution

/-! The ways down to names. Identifiers name variables, but also properties, labels and what modules
exchange; scope analysis lists none of the others for a binding. -/

namespace Unravel

theorem Occurrence.In.labelAt? {o : Occurrence} {n : Node} (h : o.In n []) :
    n.labelAt? o.path = some o.label := by
  obtain ⟨⟨q,hq,hl⟩,-⟩ := h
  rw [hq]
  exact hl

namespace Label

/-- The slots in which an identifier names no variable. -/
def namesOther : Label → Field → Bool
  | .property computed .., f | .methodDefinition computed .., f => !computed && f = .key
  | .memberExpression computed, f => !computed && f = .property
  | .labeledStatement, f | .breakStatement, f | .continueStatement, f => f = .label
  | .exportSpecifier, f => f = .exported
  | .metaProperty, f => f = .metaName || f = .property
  | _, _ => false

/-- The slots in which a tag name stands for no component. -/
def namesMarkup : Label → Field → Bool
  | .jsxAttribute, f => f = .name
  | .jsxMemberExpression, f => f = .property
  | .jsxNamespacedName, f => f = .nsName || f = .name
  | _, _ => false

def isTagName : Label → Bool
  | .jsxIdentifier _ => true
  | _ => false

end Label

namespace Node

/-- The nodes above a position, each by its kind and the slot that leads on, innermost first. -/
def ways (n : Node) : Path → List (Label × Field)
  | [] => []
  | i :: q =>
    match n.subtrees[i]? with
    | some c => c.2.ways q ++ [(n.label, c.1)]
    | none => []

/-- Whether an identifier at a position names something else than a variable. What is imported has
its name in a specifier of an import. -/
def namesOther (n : Node) (q : Path) : Bool :=
  match n.ways q with
  | [] => false
  | (l, f) :: above =>
    l.namesOther f || (l.namesMarkup f && (n.labelAt? q).any Label.isTagName)
      || (l = .importSpecifier && f = .imported && above.head?.any fun s => s.1 = .importDeclaration)

theorem ways_cons {n : Node} {c : Field × Node} {i : Nat} (hc : n.subtrees[i]? = some c) (q : Path) :
    n.ways (i :: q) = c.2.ways q ++ [(n.label, c.1)] := by
  rw [ways, hc]

theorem ways_append {n c : Node} {p : Path} (hc : n.at? p = some c) (q : Path) :
    n.ways (p ++ q) = c.ways q ++ n.ways p := by
  induction p generalizing n with
  | nil =>
    obtain rfl := Option.some.inj hc
    rw [List.nil_append, ways, List.append_nil]
  | cons i p ih =>
    obtain ⟨d,hd,hc⟩ := Option.bind_eq_some_iff.mp hc
    rw [List.cons_append, ways_cons hd, ways_cons hd, ih hc, List.append_assoc]

/-! ### The ways to variables -/

theorem walks_of_enclosing? {isBody : Bool} {n : Node} {p q : Path} {around : Enclosing}
    (h : n.enclosing? isBody p q = some around) : ∀ s ∈ n.ways q, s.1.walks s.2 = true := by
  induction q generalizing isBody n p around with
  | nil => simp [ways]
  | cons i q ih =>
    obtain ⟨c,inner,hc,hw,hinner,-⟩ := enclosing?_cons.mp h
    rw [ways_cons hc]
    exact List.forall_mem_append.mpr ⟨ih hinner,List.forall_mem_singleton.mpr hw⟩

/-- Whether a variable may be named in a slot, whatever stands there and above. -/
private def isOpen (s : Label × Field) : Bool :=
  !s.1.namesOther s.2 && !s.1.namesMarkup s.2 && !(s.1 = .importSpecifier && s.2 = .imported)

private theorem isOpen_target {l : Label} {member : Bool} {t : Field × Bool}
    (h : l.target member = some t) : isOpen (l, t.1) = true := by
  cases l with
  | property =>
    obtain ⟨-,h⟩ := Option.ite_none_right_eq_some.mp h
    obtain rfl := Option.some.inj h
    simp [isOpen, Label.namesOther, Label.namesMarkup]
  | _ => first | (obtain rfl := Option.some.inj h; rfl) | cases h

private theorem isOpen_declared {f : Field} (hf : f ∈ [Field.id, .params, .param, .localName])
    (l : Label) : isOpen (l, f) = true := by
  simp only [List.mem_cons, List.not_mem_nil, or_false] at hf
  rcases hf with rfl | rfl | rfl | rfl <;> cases l <;>
    simp [isOpen, Label.namesOther, Label.namesMarkup]

private theorem ways_of_bound {member : Bool} {n : Node} {p : Path} {o : Occurrence}
    (h : o ∈ n.bound member p) :
    ∃ q, o.path = p ++ q ∧ ∀ s ∈ n.ways q, isOpen s = true := by
  induction n using inductionOn generalizing member p with
  | marked m l cs ih =>
    rw [bound_marked, List.mem_append] at h
    rcases h with h | h
    · cases l <;> simp at h
      subst h
      exact ⟨[],by simp,by simp [ways]⟩
    · cases ht : l.target member with
      | none => simp [ht] at h
      | some t =>
        simp only [ht, List.mem_flatMap, List.mem_ite_nil_right] at h
        obtain ⟨c,hc,hf,ho⟩ := h
        have hi := List.mem_zipIdx_iff_getElem?.mp hc
        obtain ⟨q,hq,hways⟩ := ih c.1 (List.mem_of_getElem? hi) ho
        refine ⟨c.2 :: q,by simp [hq],?_⟩
        rw [ways_cons (n := marked m l cs) hi]
        refine List.forall_mem_append.mpr ⟨hways,List.forall_mem_singleton.mpr ?_⟩
        rw [hf]
        exact isOpen_target ht

/-- The way to what a node names ends in a slot for it. -/
private theorem exists_way {n c : Node} {f : Field} {i : Nat} {p : Path} {o : Occurrence}
    (hc : n.subtrees[i]? = some (f, c)) (hf : isOpen (n.label, f) = true)
    (h : o ∈ c.boundIdentifiers (p ++ [i])) :
    ∃ q s above, o.path = p ++ q ∧ n.ways q = s :: above ∧ isOpen s = true := by
  change o ∈ c.bound false (p ++ [i]) at h
  obtain ⟨q,hq,hways⟩ := ways_of_bound h
  cases he : c.ways q with
  | nil => exact ⟨i :: q,(n.label, f),[],by simp [hq],by rw [ways_cons hc, he]; rfl,hf⟩
  | cons s above =>
    exact ⟨i :: q,s,_,by simp [hq],by rw [ways_cons hc, he]; rfl,hways s (by simp [he])⟩

private theorem exists_way_binds {n : Node} {f : Field} {p : Path} {o : Occurrence}
    (hf : isOpen (n.label, f) = true) (h : o ∈ n.binds f p) :
    ∃ q s above, o.path = p ++ q ∧ n.ways q = s :: above ∧ isOpen s = true := by
  simp only [binds, List.mem_flatMap, List.mem_ite_nil_right] at h
  obtain ⟨c,hc,rfl,ho⟩ := h
  exact exists_way (List.mem_zipIdx_iff_getElem?.mp hc) hf ho

private theorem exists_way_memberBinds {n : Node} {test : Field → Bool} {f : Field} {p : Path}
    {o : Occurrence} (hf : ∀ l, isOpen (l, f) = true) (h : o ∈ n.memberBinds test f p) :
    ∃ q s above, o.path = p ++ q ∧ n.ways q = s :: above ∧ isOpen s = true := by
  simp only [memberBinds, List.mem_flatMap, List.mem_ite_nil_right] at h
  obtain ⟨c,hc,-,ho⟩ := h
  split at ho
  · rename_i j target hj htarget
    obtain ⟨q,s,above,hq,hways,hs⟩ := exists_way (getElem?_index? hj htarget) (hf _) ho
    have hi := List.mem_zipIdx_iff_getElem?.mp hc
    exact ⟨c.2 :: q,s,_,by simp [hq],by rw [ways_cons hi, hways]; rfl,hs⟩
  · cases ho

private theorem exists_way_outward {n : Node} {p : Path} {d : Reach × BindingKind × Occurrence}
    (h : d ∈ n.outward p) :
    ∃ q s above, d.2.2.path = p ++ q ∧ n.ways q = s :: above ∧ isOpen s = true := by
  unfold outward at h
  split at h
  · obtain ⟨o,ho,rfl⟩ := List.mem_map.mp h
    exact exists_way_binds (isOpen_declared (by simp) _) ho
  · obtain ⟨o,ho,rfl⟩ := List.mem_map.mp h
    exact exists_way_binds (isOpen_declared (by simp) _) ho
  · obtain ⟨o,ho,rfl⟩ := List.mem_map.mp h
    exact exists_way_memberBinds (isOpen_declared (by simp)) ho
  · obtain ⟨o,ho,rfl⟩ := List.mem_map.mp h
    exact exists_way_memberBinds (isOpen_declared (by simp)) ho
  · cases h

private theorem exists_way_inward {n : Node} {p : Path} {d : BindingKind × Occurrence}
    (h : d ∈ n.inward p) :
    ∃ q s above, d.2.path = p ++ q ∧ n.ways q = s :: above ∧ isOpen s = true := by
  unfold inward at h
  split at h
  · obtain ⟨o,ho,rfl⟩ := List.mem_map.mp h
    exact exists_way_binds (isOpen_declared (by simp) _) ho
  · obtain ⟨o,ho,rfl⟩ := List.mem_map.mp h
    exact exists_way_binds (isOpen_declared (by simp) _) ho
  · rcases List.mem_append.mp h with h | h
    · obtain ⟨o,ho,rfl⟩ := List.mem_map.mp h
      exact exists_way_binds (isOpen_declared (by simp) _) ho
    · obtain ⟨o,ho,rfl⟩ := List.mem_map.mp h
      exact exists_way_binds (isOpen_declared (by simp) _) ho
  · obtain ⟨o,ho,rfl⟩ := List.mem_map.mp h
    exact exists_way_binds (isOpen_declared (by simp) _) ho
  · obtain ⟨o,ho,rfl⟩ := List.mem_map.mp h
    exact exists_way_binds (isOpen_declared (by simp) _) ho
  · cases h

private theorem ways_of_tagBase {n : Node} {p : Path} {o : Occurrence}
    (h : Walk.tagBase? n p = some o) :
    ∃ q, o.path = p ++ q ∧ ∀ s ∈ n.ways q, s = (.jsxMemberExpression, .object) := by
  induction n, p using Walk.tagBase?.induct with
  | case1 m name cs p =>
    obtain rfl := Option.some.inj h
    exact ⟨[],by simp,by simp [ways]⟩
  | case2 m c rest p ih =>
    obtain ⟨q,hq,hways⟩ := ih h
    refine ⟨0 :: q,by simp [hq],?_⟩
    rw [ways_cons (c := (.object, c)) rfl]
    exact List.forall_mem_append.mpr ⟨hways,List.forall_mem_singleton.mpr rfl⟩
  | case3 n p h1 h2 => simp [Walk.tagBase?] at h

/-- An identifier that a node uses is the node itself or the base of its tag name. -/
private theorem exists_way_uses {n : Node} {p : Path} {o : Occurrence} (h : o ∈ n.uses p) :
    o.path = p ∧ n.label = .identifier o.name ∨
      ∃ q s above, o.path = p ++ q ∧ n.ways q = s :: above ∧ isOpen s = true := by
  have htag (hl : isOpen (n.label, .name) = true) (ho : o ∈ n.subtrees.zipIdx.flatMap fun c =>
      if c.1.1 = .name then
        ((Walk.tagBase? c.1.2 (p ++ [c.2])).filter fun o => !Walk.tag.startsLower o.name).toList
      else []) :
      ∃ q s above, o.path = p ++ q ∧ n.ways q = s :: above ∧ isOpen s = true := by
    simp only [List.mem_flatMap, List.mem_ite_nil_right, Option.mem_toList,
      Option.filter_eq_some_iff] at ho
    obtain ⟨c,hc,hname,ho,-⟩ := ho
    obtain ⟨q,hq,hways⟩ := ways_of_tagBase ho
    have hi := List.mem_zipIdx_iff_getElem?.mp hc
    cases he : c.1.2.ways q with
    | nil => exact ⟨c.2 :: q,_,[],by simp [hq],by rw [ways_cons hi, he, hname]; rfl,hl⟩
    | cons s above =>
      obtain rfl := hways s (by simp [he])
      exact ⟨c.2 :: q,_,_,by simp [hq],by rw [ways_cons hi, he]; rfl,rfl⟩
  unfold uses at h
  split at h
  · rename_i name hl
    obtain rfl := List.mem_singleton.mp h
    exact .inl ⟨rfl,hl⟩
  · rename_i hl
    exact .inr (htag (by rw [hl]; rfl) h)
  · rename_i hl
    exact .inr (htag (by rw [hl]; rfl) h)
  · cases h

private theorem exists_part_of_resolve {known : List Path} {isRoot : Bool} {env : Event.Surroundings}
    {e : Event} {r : Path × Occurrence} (h : r ∈ e.resolve known isRoot env) :
    ∃ around, (around, .refer r.2) ∈ e.parts := by
  induction e using Event.inductionOn generalizing isRoot env with
  | declare reach kind o => simp [Event.resolve] at h
  | refer o =>
    rw [Event.resolve] at h
    split at h
    · cases h
    · obtain ⟨s,-,rfl⟩ := List.mem_map.mp h
      exact ⟨[],List.mem_singleton_self _⟩
  | scope p l f es ih =>
    rw [Event.resolve, Event.resolveAll_eq] at h
    obtain ⟨e,he,h⟩ := List.mem_flatMap.mp h
    obtain ⟨around,hx⟩ := ih e he h
    refine ⟨_,List.mem_map.mpr ⟨(around, .refer r.2),?_,rfl⟩⟩
    rw [Event.partsAll_eq]
    exact List.mem_flatMap.mpr ⟨e,he,hx⟩

/-- What is listed for a binding is told by a node that the walk comes to. -/
private theorem told_of_listed {n : Node} (h : n.IsProgram) {b : Binding}
    (hb : b ∈ n.scope.allBindings) {o : Occurrence} (ho : o ∈ b.occurrences) :
    ∃ q c around, n.Visits q c around ∧
      (o ∈ c.uses q ∨ (∃ d ∈ c.outward q, d.2.2 = o) ∨ ∃ d ∈ c.inward q, d.2 = o) := by
  rcases List.mem_append.mp ho with ho | ho
  · rw [allBindings_program h] at hb
    obtain ⟨⟨s,landing⟩,hf,hb⟩ := List.mem_flatMap.mp hb
    obtain ⟨c,hc,rfl⟩ := List.mem_map.mp hb
    have hl := (Binding.declarations_ofLanding landing).mem_iff.mp (List.mem_flatMap.mpr ⟨c,hc,ho⟩)
    obtain ⟨⟨kind,o⟩,hd,rfl⟩ := List.mem_map.mp hl
    obtain ⟨q,c,around,hv,⟨reach,hd,-⟩ | ⟨hd,-⟩⟩ :=
      (declaredIn_iff_landing h).mpr ⟨landing,hf,hd⟩
    · exact ⟨q,c,around,hv,.inr (.inl ⟨_,hd,rfl⟩)⟩
    · exact ⟨q,c,around,hv,.inr (.inr ⟨_,hd,rfl⟩)⟩
  · obtain ⟨s,hr⟩ := mem_resolved h hb ho
    obtain ⟨scopes,hx⟩ := exists_part_of_resolve hr
    obtain ⟨q,c,hv,hu⟩ := (mem_placed_refer h).mp (mem_placed_topLevel.mpr ⟨scopes,hx,rfl⟩)
    exact ⟨q,c,_,hv,.inl hu⟩

private theorem namesOther_of_walks {l : Label} {f : Field} (h : l.walks f = true) :
    l.namesOther f = false := by
  cases l with
  | memberExpression computed | property computed | methodDefinition computed =>
    cases computed <;> cases f <;> first | rfl | cases h
  | exportSpecifier | labeledStatement =>
    obtain rfl := of_decide_eq_true h
    rfl
  | breakStatement | continueStatement | metaProperty => cases h
  | _ => rfl

/-- An identifier that is listed for a binding names a variable. -/
theorem namesOther_of_listed {n : Node} (h : n.IsProgram) {b : Binding}
    (hb : b ∈ n.scope.allBindings) {o : Occurrence} (ho : o ∈ b.occurrences) :
    n.namesOther o.path = false := by
  obtain ⟨q,c,around,⟨hc,haround⟩,htold⟩ := told_of_listed h hb ho
  have hopen (hway : ∃ r s above, o.path = q ++ r ∧ c.ways r = s :: above ∧ isOpen s = true) :
      n.namesOther o.path = false := by
    obtain ⟨r,⟨l,f⟩,above,hr,hways,hs⟩ := hway
    simp only [isOpen, Bool.and_eq_true, Bool.not_eq_true'] at hs
    rw [namesOther, hr, ways_append hc, hways]
    simp [hs]
  rcases htold with hu | ⟨d,hd,rfl⟩ | ⟨d,hd,rfl⟩
  · rcases exists_way_uses hu with ⟨rfl,hl⟩ | hway
    · have hwalks := walks_of_enclosing? haround
      rw [namesOther]
      cases hways : n.ways o.path with
      | nil => rfl
      | cons s above =>
        rw [hways] at hwalks
        obtain ⟨hs,habove⟩ := List.forall_mem_cons.mp hwalks
        have himport : above.head?.any (fun s => s.1 = .importDeclaration) = false := by
          cases above with
          | nil => rfl
          | cons t above =>
            have ht := habove t List.mem_cons_self
            refine decide_eq_false fun he => ?_
            rw [he] at ht
            cases ht
        simp [namesOther_of_walks hs, labelAt?, hc, hl, Label.isTagName, himport]
    · exact hopen hway
  · exact hopen (exists_way_outward hd)
  · exact hopen (exists_way_inward hd)

end Node

end Unravel
