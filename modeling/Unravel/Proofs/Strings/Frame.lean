import Unravel.Proofs.Links
import Unravel.Proofs.Strings.Dangling
import Unravel.Proofs.Strings.Rotation

/-! What a resolution leaves alone. It puts strings in the place of calls of decoders, and takes out
tables, decoders, rotations and the declarators that pass a decoder's name on; all else stays as it
was and where it was. A declaration of variables goes with the last of its declarators, so none is left
without any. -/

namespace Unravel

namespace Node

/-- A tree whose declarations of variables hold declarators only, and at least one. -/
def DeclarationsFilled (tree : Node) : Prop :=
  ∀ e ∈ tree.located [], e.2.label.isVariables = true →
    e.2.subtrees ≠ [] ∧ ∀ c ∈ e.2.subtrees, c.2.label = .variableDeclarator

instance (tree : Node) : Decidable tree.DeclarationsFilled :=
  inferInstanceAs (Decidable (∀ e ∈ tree.located [], e.2.label.isVariables = true →
    e.2.subtrees ≠ [] ∧ ∀ c ∈ e.2.subtrees, c.2.label = .variableDeclarator))

theorem DeclarationsFilled.at {tree n : Node} {q : Path} (h : tree.DeclarationsFilled)
    (hq : tree.at? q = some n) (hl : n.label.isVariables = true) :
    n.subtrees ≠ [] ∧ ∀ c ∈ n.subtrees, c.2.label = .variableDeclarator :=
  h (q, n) (mem_located.mpr ⟨q,rfl,hq⟩) hl

theorem DeclarationsFilled.label_child {tree n c : Node} {q : Path} {i : Nat}
    (h : tree.DeclarationsFilled) (hq : tree.at? q = some n) (hl : n.label.isVariables = true)
    (hc : tree.at? (q ++ [i]) = some c) : c.label = .variableDeclarator := by
  rw [at?_append, hq, Option.bind_some] at hc
  obtain ⟨e,he,hc⟩ := Option.bind_eq_some_iff.mp hc
  obtain rfl := Option.some.inj hc
  exact (h.at hq hl).2 e (List.mem_of_getElem? he)

/-! ### Trees with parts taken out and replaced -/

section Cleared
variable (out : Path → Prop) (string : Path → Text → Prop)

mutual
/-- What is left of a tree at a place when nodes at some places are taken out and strings put in the
place of others, so many of them. -/
inductive Cleared : Path → Node → Node → Nat → Prop
  | string {p : Path} {n : Node} {t : Text} (h : string p t) : Cleared p n (.ofText t) 1
  | node {p : Path} {m : Option Nat} {l : Label} {cs cs' : List (Field × Node)} {k : Nat}
    (h : ClearedFrom p 0 cs cs' k) : Cleared p (.marked m l cs) (.marked m l cs') k
/-- What is left of the subtrees from an index on. -/
inductive ClearedFrom : Path → Nat → List (Field × Node) → List (Field × Node) → Nat → Prop
  | nil {p : Path} {i : Nat} : ClearedFrom p i [] [] 0
  | out {p : Path} {i k : Nat} {c : Field × Node} {cs cs' : List (Field × Node)}
    (h : out (p ++ [i])) (hrest : ClearedFrom p (i + 1) cs cs' k) : ClearedFrom p i (c :: cs) cs' k
  | kept {p : Path} {i j k : Nat} {f : Field} {n n' : Node} {cs cs' : List (Field × Node)}
    (h : Cleared (p ++ [i]) n n' j) (hrest : ClearedFrom p (i + 1) cs cs' k) :
    ClearedFrom p i ((f, n) :: cs) ((f, n') :: cs') (j + k)
end

end Cleared

section Edit
variable {gone : List Path} {put : Path → Option Node}

/-- Whether an edit puts something in at a place. -/
def isPut (gone : List Path) (put : Path → Option Node) (r : Path) : Bool :=
  (put r).isSome && gone.all fun g => ¬ g <+: r

theorem isPut_iff {r : Path} : isPut gone put r = true ↔ (put r).isSome ∧ ∀ g ∈ gone, ¬ g <+: r := by
  simp [isPut]

variable {out : Path → Prop} {string : Path → Text → Prop} {p : Path}

/-- How many things an edit puts into a tree at a place. -/
def putCount (gone : List Path) (put : Path → Option Node) (p : Path) (n : Node) : Nat :=
  (n.located p).countP fun e => isPut gone put e.1

private theorem putCount_gone {n : Node} (hp : p ∈ gone) : putCount gone put p n = 0 := by
  rw [putCount, List.countP_eq_zero]
  rintro ⟨r,d⟩ hr hcount
  obtain ⟨q,rfl,-⟩ := mem_located.mp hr
  exact (isPut_iff.mp hcount).2 p hp (List.prefix_append p q)

private theorem putCount_put {n : Node} (hput : (put p).isSome) (hp : ∀ g ∈ gone, ¬ g <+: p)
    (hapart : ∀ r s, (put r).isSome → (put s).isSome → r <+: s → r = s) :
    putCount gone put p n = 1 := by
  have hpairwise := located_pairwise n p
  obtain ⟨m,l,cs⟩ := n
  rw [located, List.pairwise_cons] at hpairwise
  have hbelow : ((locatedAll p 0 cs).countP fun e => isPut gone put e.1) = 0 := by
    rw [List.countP_eq_zero]
    rintro ⟨r,d⟩ hr hcount
    have hmem : (r, d) ∈ (marked m l cs).located p := List.mem_cons_of_mem _ hr
    obtain ⟨q,rfl,-⟩ := mem_located.mp hmem
    have hsame := hapart p _ hput (isPut_iff.mp hcount).1 (List.prefix_append p q)
    exact hpairwise.1 _ hr hsame
  rw [putCount, located, List.countP_cons, hbelow, if_pos (isPut_iff.mpr ⟨hput,hp⟩)]

/-- The subtrees from an index on, given what an edit leaves of each. -/
private theorem clearedFrom_edit (hgone : ∀ g ∈ gone, out g) (hp : ∀ g ∈ gone, ¬ g <+: p) (i : Nat)
    {cs : List (Field × Node)} (hcs : ∀ c ∈ cs, ∀ r, (∀ g ∈ gone, ¬ g <+: r) →
      Cleared out string r c.2 (c.2.edit gone put r) (putCount gone put r c.2)) :
    ClearedFrom out string p i cs (editAll gone put p i cs)
      ((locatedAll p i cs).countP fun e => isPut gone put e.1) := by
  induction cs generalizing i with
  | nil => exact .nil
  | cons c cs ih =>
    obtain ⟨hc,hcs⟩ := List.forall_mem_cons.mp hcs
    rw [editAll, locatedAll, List.countP_append]
    change ClearedFrom out string p i _ _ (putCount gone put (p ++ [i]) c.2 + _)
    by_cases hi : p ++ [i] ∈ gone
    · rw [if_pos (by simpa using hi), putCount_gone hi, Nat.zero_add]
      exact .out (hgone _ hi) (ih (i + 1) hcs)
    · rw [if_neg (by simpa using hi)]
      refine .kept (hc _ fun g hg hgp => ?_) (ih (i + 1) hcs)
      rcases List.prefix_concat_iff.mp hgp with rfl | hgp
      · exact hi hg
      · exact hp g hg hgp

/-- What an edit leaves of a tree, if nothing is put in below another place for that. -/
theorem cleared_edit (hgone : ∀ g ∈ gone, out g)
    (hput : ∀ r u, put r = some u → ∃ t, u = .ofText t ∧ string r t)
    (hapart : ∀ r s, (put r).isSome → (put s).isSome → r <+: s → r = s) (n : Node)
    (hp : ∀ g ∈ gone, ¬ g <+: p) :
    Cleared out string p n (n.edit gone put p) (putCount gone put p n) := by
  induction n using inductionOn generalizing p with
  | marked m l cs ih =>
    cases hu : put p with
    | some u =>
      obtain ⟨t,rfl,ht⟩ := hput p u hu
      rw [putCount_put (by simp [hu]) hp hapart, edit, hu]
      exact .string ht
    | none =>
      rw [putCount, located, List.countP_cons, if_neg (by simp [isPut, hu]), Nat.add_zero, edit, hu]
      exact .node (clearedFrom_edit hgone hp 0 fun c hc r hr => ih c hc hr)

theorem label_edit {n : Node} (h : put p = none) : (n.edit gone put p).label = n.label := by
  obtain ⟨m,l,cs⟩ := n
  rw [edit, h]
  rfl

/-- A subtree that is not taken out is there after an edit. -/
theorem mem_edit {n c : Node} {i : Nat} {f : Field} (h : put p = none)
    (hi : n.subtrees[i]? = some (f, c)) (hout : p ++ [i] ∉ gone) :
    (f, c.edit gone put (p ++ [i])) ∈ (n.edit gone put p).subtrees := by
  obtain ⟨m,l,cs⟩ := n
  rw [edit, h]
  change _ ∈ editAll gone put p 0 cs
  rw [editAll_eq, List.mem_flatMap]
  exact ⟨((f, c), i),List.mem_zipIdx_iff_getElem?.mpr hi,by simp [hout]⟩

/-- A node of an edited tree is what is left of a node that was there, or stands in what was put in. -/
theorem at?_edit {n c : Node} {q : Path} (h : (n.edit gone put p).at? q = some c) :
    (∃ r d, n.at? r = some d ∧ put (p ++ r) = none ∧ (r ≠ [] → p ++ r ∉ gone) ∧
      c = d.edit gone put (p ++ r)) ∨ ∃ r u s, put r = some u ∧ u.at? s = some c := by
  induction n using inductionOn generalizing p q with
  | marked m l cs ih =>
    cases hu : put p with
    | some u =>
      rw [edit, hu] at h
      exact .inr ⟨p,u,q,hu,h⟩
    | none =>
      cases q with
      | nil => exact .inl ⟨[],_,rfl,by simpa using hu,by simp,by simpa using (Option.some.inj h).symm⟩
      | cons i q =>
        rw [edit, hu] at h
        simp only [at?_cons, editAll_eq] at h
        obtain ⟨e,he,hc⟩ := Option.bind_eq_some_iff.mp h
        obtain ⟨⟨d,j⟩,hd,he⟩ := List.mem_flatMap.mp (List.mem_of_getElem? he)
        have hj := List.mem_zipIdx_iff_getElem?.mp hd
        split at he
        · cases he
        rename_i hout
        obtain rfl := List.mem_singleton.mp he
        refine (ih d (List.fst_mem_of_mem_zipIdx hd) hc).imp_left ?_
        rintro ⟨r,b,hb,hnone,hr,rfl⟩
        simp only [List.append_assoc, List.singleton_append] at hnone hr
        refine ⟨j :: r,b,?_,hnone,fun _ => ?_,by simp⟩
        · rw [at?_cons, hj]
          exact hb
        · cases r with
          | nil => simpa using hout
          | cons k r => exact hr (by simp)

end Edit

end Node

namespace Forest
variable {f : Forest} {p q : Path} {n : Node}

/-! ### Declarations of variables -/

/-- How many members of a slot are left is how many are held there. -/
theorem length_row_node? (hn : f.tree.at? q = some n) (field : Field) :
    ((f.node? q).map fun d => (d.row field).length).getD 0 =
      ((f.held q).filter fun m => m.1 = field).length := by
  rw [node?_eq hn]
  simp [Node.row, Node.update, Node.subtrees, List.filter_map, Function.comp_def]

/-- One thing is held if nothing else is. -/
theorem length_held_eq_one (hp : f.Holds q p) :
    (f.held q).length = 1 ↔ ∀ r, f.Holds q r → r = p := by
  obtain ⟨field,hp⟩ := hp
  constructor
  · rintro h r ⟨field',hr⟩
    obtain ⟨m,hm⟩ := List.length_eq_one_iff.mp h
    rw [hm, List.mem_singleton] at hp hr
    exact (congrArg Prod.snd hr).trans (congrArg Prod.snd hp).symm
  · intro h
    have hall : (f.held q).map Prod.snd ⊆ [p] := by
      intro r hr
      obtain ⟨m,hm,rfl⟩ := List.mem_map.mp hr
      exact List.mem_singleton.mpr (h m.2 ⟨m.1,hm⟩)
    have hle := ((held_nodup f q).subperm hall).length_le
    have hpos := List.length_pos_of_mem hp
    rw [List.length_map, List.length_singleton] at hle
    omega

/-- A declaration holds declarators, in their slot. -/
theorem held_declaration (hs : f.tree.Slotted) (hd : f.tree.DeclarationsFilled)
    (hn : f.tree.at? q = some n) (hl : n.label.isVariables = true) {m : Field × Path}
    (hm : m ∈ f.held q) :
    m.1 = .declarations ∧ f.tree.labelAt? m.2 = some .variableDeclarator := by
  obtain ⟨n',i,c,hn',hc,hq,-⟩ := mem_held.mp hm
  obtain rfl := Option.some.inj (hn.symm.trans hn')
  have hmem := List.mem_of_getElem? hc
  constructor
  · obtain ⟨kind,hkind⟩ := Label.isVariables_iff.mp hl
    have hfield := (hs.at hn).1 _ hmem
    rw [hkind] at hfield
    simpa [Label.slots, Slot.field] using hfield
  · rw [hq, Node.labelAt?, Node.at?_append, hn]
    simp [Node.at?, hc, (hd.at hn hl).2 _ hmem]

theorem filter_held_declaration (hs : f.tree.Slotted) (hd : f.tree.DeclarationsFilled)
    (hn : f.tree.at? q = some n) (hl : n.label.isVariables = true) :
    (f.held q).filter (fun m => m.1 = .declarations) = f.held q := by
  rw [List.filter_eq_self]
  intro m hm
  exact decide_eq_true (held_declaration hs hd hn hl hm).1

/-- What has declarators in their slot is a declaration. -/
theorem isVariables_of_held (hs : f.tree.Slotted) (hn : f.tree.at? q = some n)
    (hp : (.declarations, p) ∈ f.held q) : n.label.isVariables = true := by
  obtain ⟨n',i,c,hn',hc,-⟩ := mem_held.mp hp
  obtain rfl := Option.some.inj (hn.symm.trans hn')
  have hfield := (hs.at hn).1 _ (List.mem_of_getElem? hc)
  revert hfield
  cases n.label <;> simp [Label.slots, Slot.field, Label.isVariables]

/-- Every declaration that is not out itself holds a declarator. -/
def Filled (f : Forest) : Prop :=
  ∀ q n, f.tree.at? q = some n → n.label.isVariables = true → q ∉ f.detached →
    ∃ r, f.Holds q r

theorem filled_start {tree : Node} (hd : tree.DeclarationsFilled) : Filled { tree := tree } := by
  intro q n hn hl _
  obtain ⟨c,hc⟩ := List.exists_mem_of_ne_nil _ (hd.at hn hl).1
  obtain ⟨i,hi⟩ := List.mem_iff_getElem?.mp hc
  exact ⟨q ++ [i],c.1,mem_held.mpr ⟨n,i,c.2,hn,hi,rfl,by simp⟩⟩

/-- Declarations stay filled if no last declarator goes out of one. -/
theorem Filled.attempt (h : f.Filled) (hl : f.Linked)
    (hother : ∀ q n, f.tree.at? q = some n → n.label.isVariables = true → f.Holds q p →
      ∃ r, r ≠ p ∧ f.Holds q r) : (f.attempt p).Filled := by
  obtain ⟨htree,-,hout⟩ := attempt_spec hl p
  intro q n hn hvars hq
  rw [htree] at hn
  have hq : q ∉ f.detached := fun hd => hq ((hout q).mpr (.inl hd))
  have hkept {r : Path} (hr : f.Holds q r) (hne : r ≠ p) : (f.attempt p).Holds q r := by
    obtain ⟨field,hr⟩ := hr
    obtain ⟨n',i,c,hn',hc,hqr,hd⟩ := mem_held.mp hr
    refine ⟨field,mem_held.mpr ⟨n',i,c,by rw [htree]; exact hn',hc,hqr,fun hd' => ?_⟩⟩
    exact ((hout r).mp hd').elim hd fun hr => hne hr.1
  obtain ⟨r,hr⟩ := h q n hn hvars hq
  by_cases hrp : r = p
  · obtain ⟨s,hsp,hs⟩ := hother q n hn hvars (hrp ▸ hr)
    exact ⟨s,hkept hs hsp⟩
  · exact ⟨r,hkept hr hrp⟩

end Forest

namespace Strings
variable {σ ε : Type} {setup : Setup ε} {rotate : Bool} {tree : Node}

/-! ### Targets -/

/-- A name that a decoder of some table is called by. -/
def Index.NamesDecoder (index : Index) (name : String) : Prop :=
  ∃ f ∈ index.functions, f.isProvider = true ∧
    ∃ d ∈ index.decodersOf f, PassedOn index.aliases d.name name

/-- A declarator that passes the name of a decoder on. -/
def PassesDecoder (tree : Node) (p : Path) : Prop :=
  ∃ a ∈ (Index.ofTree tree).aliases, a.path = p ∧ (Index.ofTree tree).NamesDecoder a.source

/-- What a resolution may take out. -/
inductive Target (tree : Node) : Path → Prop
  | provider {f : NamedFunction} (hf : f ∈ (Index.ofTree tree).functions) (hp : f.isProvider = true) :
    Target tree f.path
  | decoder {f d : NamedFunction} (hf : f ∈ (Index.ofTree tree).functions)
    (hp : f.isProvider = true) (hd : d ∈ (Index.ofTree tree).decodersOf f) : Target tree d.path
  | rotation {f : NamedFunction} {i : Nat} (hf : f ∈ (Index.ofTree tree).functions)
    (hp : f.isProvider = true) (hr : Forest.rotates { tree := tree } f.name [i] = true) :
    Target tree [i]
  | declarator {p : Path} (hp : PassesDecoder tree p) : Target tree p
  | declaration {q : Path} {kind : String}
    (hq : tree.labelAt? q = some (.variableDeclaration kind))
    (hall : ∀ i c, tree.at? (q ++ [i]) = some c → PassesDecoder tree (q ++ [i])) : Target tree q

theorem namesDecoder_of_mem {f : NamedFunction} (hf : f ∈ (Index.ofTree tree).functions)
    (hp : f.isProvider = true) {name : String} (h : name ∈ (Index.ofTree tree).decoding f) :
    (Index.ofTree tree).NamesDecoder name := by
  obtain ⟨d,hd,hname⟩ := List.mem_flatMap.mp h
  exact ⟨f,hf,hp,d,hd,mem_aliasesOf_iff.mp hname⟩

/-- A target that is a declarator passes the name of a decoder on. -/
theorem Target.passesDecoder {p : Path} (h : Target tree p)
    (hl : tree.labelAt? p = some .variableDeclarator) : PassesDecoder tree p := by
  cases h with
  | provider hf hp =>
    obtain ⟨a,b,hl'⟩ := labelAt?_function hf
    cases hl.symm.trans hl'
  | decoder hf hp hd =>
    obtain ⟨a,b,hl'⟩ := labelAt?_function (Index.isDecoder_of_mem hd).1
    cases hl.symm.trans hl'
  | rotation hf hp hr =>
    obtain ⟨-,s,hs,hiife,-⟩ := Forest.rotates_iff.mp hr
    obtain ⟨⟨a,b,hl'⟩,-⟩ := Node.isIifeStatement_iff.mp hiife
    rw [Node.label_without] at hl'
    rw [Node.labelAt?, hs, Option.map_some, hl'] at hl
    cases hl
  | declarator hp => exact hp
  | declaration hq hall => cases hl.symm.trans hq

/-! ### Removal -/

/-- What holds of the forest of a resolution at all times: only targets are out, and every declaration
that is left holds a declarator. -/
structure Trimmed (tree : Node) (f : Forest) : Prop where
  whole : f.tree = tree
  linked : f.Linked
  targets : ∀ p ∈ f.detached, Target tree p
  filled : f.Filled

/-- A declaration may go if all that it still holds are declarators that may. -/
theorem Trimmed.target_declaration {f : Forest} (h : Trimmed tree f) (hd : tree.DeclarationsFilled)
    {q : Path} {n : Node} (hn : tree.at? q = some n) (hvars : n.label.isVariables = true)
    (hheld : ∀ r, f.Holds q r → PassesDecoder tree r) : Target tree q := by
  obtain ⟨kind,hkind⟩ := Label.isVariables_iff.mp hvars
  have hlabel : tree.labelAt? q = some (.variableDeclaration kind) := by
    rw [Node.labelAt?, hn, Option.map_some, hkind]
  refine .declaration hlabel fun i c hc => ?_
  by_cases hgone : q ++ [i] ∈ f.detached
  · refine (h.targets _ hgone).passesDecoder ?_
    rw [Node.labelAt?, hc, Option.map_some, hd.label_child hn hvars hc]
  · exact hheld _ (Forest.holds_concat.mpr ⟨rfl,hgone,c,by rwa [h.whole]⟩)

namespace State
variable {st : State σ} {p : Path}

theorem forest_remove (st : State σ) (p : Path) : (st.remove p).forest = st.forest.attempt p := by
  unfold remove Forest.attempt
  cases st.forest.detach p <;> rfl

/-- A target may go if it is not the last declarator of a declaration. -/
theorem trimmed_remove (h : Trimmed tree st.forest) (hp : Target tree p)
    (hother : ∀ q n, tree.at? q = some n → n.label.isVariables = true → st.forest.Holds q p →
      ∃ r, r ≠ p ∧ st.forest.Holds q r) : Trimmed tree (st.remove p).forest := by
  obtain ⟨htree,hlinked,hout⟩ := Forest.attempt_spec h.linked p
  rw [forest_remove]
  refine ⟨htree.trans h.whole,hlinked,fun q hq => ?_,h.filled.attempt h.linked ?_⟩
  · rcases (hout q).mp hq with hq | ⟨rfl,-⟩
    · exact h.targets q hq
    · exact hp
  · rwa [h.whole]

/-- So may a target that is no declarator. -/
theorem trimmed_remove_other (hs : tree.Slotted) (hd : tree.DeclarationsFilled)
    (h : Trimmed tree st.forest) (hp : Target tree p)
    (hl : tree.labelAt? p ≠ some .variableDeclarator) : Trimmed tree (st.remove p).forest := by
  refine trimmed_remove h hp fun q n hn hvars hq => ?_
  obtain ⟨field,hq⟩ := hq
  obtain ⟨-,hlabel⟩ := Forest.held_declaration (by rwa [h.whole]) (by rwa [h.whole])
    (by rwa [h.whole]) hvars hq
  rw [h.whole] at hlabel
  exact absurd hlabel hl

/-- A declarator that passes a decoder's name on goes, and with it its declaration if that holds
nothing else. -/
theorem trimmed_removeDeclarator (hs : tree.Slotted) (hd : tree.DeclarationsFilled)
    (h : Trimmed tree st.forest) {a : AliasLink} (ha : a ∈ (Index.ofTree tree).aliases)
    (hname : (Index.ofTree tree).NamesDecoder a.source) :
    Trimmed tree (st.removeDeclarator a.path).forest := by
  have hpasses : PassesDecoder tree a.path := ⟨a,ha,rfl,hname⟩
  obtain ⟨n,hn,-⟩ := mem_aliases ha
  have hparent {q : Path} : st.forest.parent? a.path = some q ↔ st.forest.Holds q a.path :=
    h.linked a.path _
  unfold removeDeclarator
  split
  · rename_i q hq
    have hheld := hparent.mp hq
    obtain ⟨field,hfield⟩ := id hheld
    obtain ⟨d,i,c,hat,hc,hpath,hout⟩ := Forest.mem_held.mp hfield
    simp only [Forest.length_row_node? hat]
    have hfilter (hvars : d.label.isVariables = true) :
        (st.forest.held q).filter (fun m => m.1 = .declarations) = st.forest.held q :=
      Forest.filter_held_declaration (by rwa [h.whole]) (by rwa [h.whole]) hat hvars
    split
    · rename_i hone
      -- Something is held in the slot of declarators, so this is a declaration, and holds nothing else.
      obtain ⟨m,hm⟩ := List.exists_mem_of_length_eq_add_one (n := 0) hone
      obtain ⟨hm,hslot⟩ := List.mem_filter.mp hm
      obtain ⟨field',r⟩ := m
      obtain rfl : field' = .declarations := of_decide_eq_true hslot
      have hvars : d.label.isVariables = true :=
        Forest.isVariables_of_held (by rwa [h.whole]) hat hm
      rw [hfilter hvars, Forest.length_held_eq_one hheld] at hone
      rw [h.whole] at hat
      have hlabel : tree.labelAt? q ≠ some .variableDeclarator := by
        obtain ⟨kind,hkind⟩ := Label.isVariables_iff.mp hvars
        rw [Node.labelAt?, hat, Option.map_some, hkind]
        simp
      refine trimmed_remove_other hs hd h (h.target_declaration hd hat hvars fun s hs => ?_) hlabel
      rwa [hone s hs]
    · rename_i hmore
      refine trimmed_remove h (.declarator hpasses) fun q' d' hat' hvars hheld' => ?_
      obtain rfl : q = q' := Option.some.inj (hq.symm.trans (hparent.mpr hheld'))
      rw [h.whole] at hat
      obtain rfl := Option.some.inj (hat.symm.trans hat')
      rw [hfilter hvars, Forest.length_held_eq_one hheld] at hmore
      push Not at hmore
      obtain ⟨r,hr,hne⟩ := hmore
      exact ⟨r,hne,hr⟩
  · rename_i hnone
    refine trimmed_remove h (.declarator hpasses) fun q d _ _ hheld => ?_
    rw [hparent.mpr hheld] at hnone
    cases hnone

theorem trimmed_removeMachinery (hs : tree.Slotted) (hd : tree.DeclarationsFilled)
    (h : Trimmed tree st.forest) {machinery : List Path} {names : List String}
    (hmachinery : ∀ m ∈ machinery, Target tree m ∧ tree.labelAt? m ≠ some .variableDeclarator)
    (hnames : ∀ s ∈ names, (Index.ofTree tree).NamesDecoder s) :
    Trimmed tree (st.removeMachinery (Index.ofTree tree) machinery names).forest := by
  unfold removeMachinery
  apply List.foldlRecOn (motive := fun st : State σ => Trimmed tree st.forest)
  · refine List.foldlRecOn (motive := fun st : State σ => Trimmed tree st.forest) _ _ h ?_
    intro st' h' m hm
    obtain ⟨htarget,hl⟩ := hmachinery m hm
    exact trimmed_remove_other hs hd h' htarget hl
  · intro st' h' a ha
    split
    · rename_i hcond
      have hname : a.source ∈ names := by simpa using (Bool.and_eq_true_iff.mp hcond).1
      exact trimmed_removeDeclarator hs hd h' ha (hnames _ hname)
    · exact h'

@[simp]
theorem values_remove (st : State σ) (p : Path) : (st.remove p).values = st.values := by
  unfold remove
  cases st.forest.detach p <;> rfl

@[simp]
theorem values_removeDeclarator (st : State σ) (p : Path) :
    (st.removeDeclarator p).values = st.values := by
  unfold removeDeclarator
  simp only
  split
  · split <;> simp
  · simp

@[simp]
theorem values_removeMachinery (st : State σ) (index : Index) (machinery : List Path)
    (names : List String) : (st.removeMachinery index machinery names).values = st.values := by
  unfold removeMachinery
  apply List.foldlRecOn (motive := fun st' : State σ => st'.values = st.values)
  · refine List.foldlRecOn (motive := fun st' : State σ => st'.values = st.values) _ _ rfl ?_
    intro st' h m hm
    rw [values_remove, h]
  · intro st' h a ha
    split
    · rw [values_removeDeclarator, h]
    · exact h

end State

/-! ### Strings found -/

section Found
variable {index : Index}

theorem calls_nodup (tree : Node) : ((Index.ofTree tree).calls.map NamedCall.path).Nodup := by
  refine List.pairwise_map.mpr (List.pairwise_filterMap.mpr ?_)
  refine (Node.located_pairwise tree []).imp ?_
  rintro ⟨p,n⟩ ⟨q,m⟩ hne c hc d hd heq
  have hpath {r : Path} {b : Node} {e : NamedCall} (h : namedCall? r b = some e) : e.path = r := by
    unfold namedCall? at h
    split at h
    · obtain ⟨name,-,h⟩ := Option.bind_eq_some_iff.mp h
      rw [← Option.some.inj h]
    · cases h
  exact hne ((hpath hc).symm.trans (heq.trans (hpath hd)))

/-- A step that finds strings for calls that had none, and keeps those found before. -/
structure State.Finds (st st' : State σ) : Prop where
  once : (st.values.map Prod.fst).Nodup → (st'.values.map Prod.fst).Nodup
  still : st.values ≠ [] → st'.values ≠ []

theorem State.Finds.refl (st : State σ) : Finds st st := ⟨id,id⟩

theorem State.Finds.trans {st st' st'' : State σ} (h : Finds st st') (h' : Finds st' st'') :
    Finds st st'' := ⟨h'.once ∘ h.once,h'.still ∘ h.still⟩

theorem State.resolvePair_finds {provider : Path} {rotation : Option Path} {decoder : NamedFunction}
    {aliases : List String} {st st' : State setup.engine.State} {full : Bool}
    (hcalls : (index.calls.map NamedCall.path).Nodup)
    (h : st.resolvePair setup index provider rotation decoder aliases = .ok (st', full)) :
    Finds st st' ∧ (full = true → st'.values ≠ []) := by
  obtain ⟨found,-,hvalues,hsub,hopen,hall⟩ := resolvePair_found h
  refine ⟨⟨fun honce => ?_,fun hold => by simp [hvalues, hold]⟩,
    fun hfull => by simp [hvalues, (hall hfull).1]⟩
  rw [hvalues, List.map_append]
  have hnew := hcalls.sublist (hsub.trans (List.filter_sublist.map NamedCall.path))
  refine honce.append hnew fun p hp hp' => ?_
  -- An open call has no string yet.
  obtain ⟨v,hv,rfl⟩ := List.mem_map.mp hp
  obtain ⟨w,hw,hwv⟩ := List.mem_map.mp hp'
  obtain ⟨c,hc,hcw,-⟩ := hopen w hw
  have hnone := (List.mem_filter.mp hc).2
  simp only [Bool.and_eq_true, Bool.not_eq_true', List.any_eq_false, decide_eq_true_eq] at hnone
  exact hnone.1.1.2 v hv (hwv.symm.trans hcw.symm)

theorem State.resolveDecoders_finds {provider : Path} {rotation : Option Path}
    {decoders : List NamedFunction} {st st' : State setup.engine.State} {full : Bool}
    (hcalls : (index.calls.map NamedCall.path).Nodup)
    (h : State.resolveDecoders setup index provider rotation decoders st = .ok (st', full)) :
    Finds st st' ∧ (full = true → decoders ≠ [] → st'.values ≠ []) := by
  induction decoders generalizing st full with
  | nil =>
    obtain ⟨rfl,-⟩ := Prod.mk.inj (Except.ok.inj h)
    exact ⟨.refl _,by simp⟩
  | cons d decoders ih =>
    rw [resolveDecoders] at h
    obtain ⟨⟨st₁,one⟩,hpair,h⟩ := bind_ok h
    obtain ⟨⟨st₂,others⟩,hrest,h⟩ := bind_ok h
    obtain ⟨rfl,rfl⟩ := Prod.mk.inj (Except.ok.inj h)
    obtain ⟨hone,hfound⟩ := resolvePair_finds hcalls hpair
    obtain ⟨hothers,-⟩ := ih hrest
    refine ⟨hone.trans hothers,fun hfull _ => hothers.still (hfound ?_)⟩
    exact (Bool.and_eq_true_iff.mp hfull).1

/-- A round that takes something out has found a string. -/
theorem State.resolveProvider_finds {provider : NamedFunction} {st st' : State setup.engine.State}
    (hcalls : (index.calls.map NamedCall.path).Nodup) (hl : st.forest.Linked)
    (hat : ∀ c ∈ index.calls, ∃ n, st.forest.tree.at? c.path = some n)
    (h : st.resolveProvider setup rotate index provider = .ok st') :
    Finds st st' ∧ (st'.forest = st.forest ∨ st'.values ≠ []) := by
  unfold resolveProvider at h
  simp only at h
  split at h
  · obtain rfl := Except.ok.inj h
    exact ⟨.refl st,.inl rfl⟩
  rename_i hdecoders
  split at h
  · obtain rfl := Except.ok.inj h
    exact ⟨.refl st,.inl rfl⟩
  obtain ⟨⟨st₁,full⟩,hdec,h⟩ := bind_ok h
  obtain ⟨hfinds,hfound⟩ := resolveDecoders_finds hcalls hdec
  obtain ⟨hgains,-⟩ := resolveDecoders_spec hl hat hdec
  simp only at h
  split at h
  · rename_i hfull
    obtain rfl := Except.ok.inj h
    have hsome := hfound hfull hdecoders
    exact ⟨hfinds.trans ⟨by simp,by simp⟩,.inr (by simpa using hsome)⟩
  · obtain rfl := Except.ok.inj h
    exact ⟨hfinds,.inl hgains.forest⟩

end Found

/-! ### Rounds -/

/-- What holds of a resolution after every round. Strings were found for calls by names of decoders
with plain arguments, one for each call, and as long as there is none nothing goes. -/
structure State.Tidy (tree : Node) (st : State σ) : Prop where
  trimmed : Trimmed tree st.forest
  calls : ∀ v ∈ st.values, ∃ c ∈ (Index.ofTree tree).calls, c.path = v.1 ∧
    (Index.ofTree tree).NamesDecoder c.name ∧ (Node.literalArguments? c.arguments).isSome
  once : (st.values.map Prod.fst).Nodup
  found : st.forest.detached ≠ [] → st.values ≠ []

/-- The machinery of a round consists of targets, and of no declarators. -/
theorem State.Sound.target_machinery {st : State σ} (h : st.Sound tree) {provider : NamedFunction}
    (hprov : provider ∈ (Index.ofTree tree).functions) (hp : provider.isProvider = true) {m : Path}
    (hm : m ∈ st.machinery (Index.ofTree tree) provider) :
    Target tree m ∧ tree.labelAt? m ≠ some .variableDeclarator := by
  simp only [machinery, List.mem_append, List.mem_singleton, Option.mem_toList, List.mem_map] at hm
  rcases hm with (rfl | hm) | ⟨d,hd,rfl⟩
  · obtain ⟨a,b,hl⟩ := labelAt?_function hprov
    exact ⟨.provider hprov hp,by simp [hl]⟩
  · obtain ⟨i,a,b,rfl,hl⟩ := rotation_spec hm
    have hnow : st.forest.rotates provider.name [i] = true := List.find?_some hm
    have hthen : Forest.rotates { tree := tree } provider.name [i] = true :=
      Forest.rotates_of_detached h.whole rfl h.rows hnow
    rw [h.whole] at hl
    exact ⟨.rotation hprov hp hthen,by simp [hl]⟩
  · obtain ⟨a,b,hl⟩ := labelAt?_function (Index.isDecoder_of_mem hd).1
    exact ⟨.decoder hprov hp hd,by simp [hl]⟩

theorem State.Tidy.resolveProvider (hs : tree.Slotted) (hd : tree.DeclarationsFilled)
    {provider : NamedFunction} (hprov : provider ∈ (Index.ofTree tree).functions)
    (hp : provider.isProvider = true) {st st' : State setup.engine.State} (hsound : st.Sound tree)
    (h : st.Tidy tree)
    (hst : st.resolveProvider setup rotate (Index.ofTree tree) provider = .ok st') :
    st'.Tidy tree := by
  obtain ⟨hfinds,hcut⟩ := resolveProvider_finds (calls_nodup tree) hsound.linked hsound.at_call hst
  obtain ⟨st₁,hgains,hst⟩ := resolveProvider_cases hsound.linked hsound.at_call hst
  have hcalls : ∀ v ∈ st₁.values, ∃ c ∈ (Index.ofTree tree).calls, c.path = v.1 ∧
      (Index.ofTree tree).NamesDecoder c.name ∧ (Node.literalArguments? c.arguments).isSome := by
    intro v hv
    rcases hgains.new v hv with hv | ⟨c,hc,hcv,hname,hargs⟩
    · exact h.calls v hv
    · exact ⟨c,hc,hcv,namesDecoder_of_mem hprov hp hname,hargs⟩
  have htrimmed : Trimmed tree st₁.forest := by
    rw [hgains.forest]
    exact h.trimmed
  have hfound : st'.forest.detached ≠ [] → st'.values ≠ [] := by
    intro hout
    rcases hcut with hsame | hsome
    · exact hfinds.still (h.found (hsame ▸ hout))
    · exact hsome
  rcases hst with rfl | ⟨-,rfl⟩
  · exact ⟨htrimmed,hcalls,hfinds.once h.once,hfound⟩
  · refine ⟨?_,by simpa using hcalls,hfinds.once h.once,hfound⟩
    refine trimmed_removeMachinery hs hd htrimmed (fun m hm => ?_) fun s hs => ?_
    · exact hsound.target_machinery hprov hp hm
    · exact namesDecoder_of_mem hprov hp hs

theorem tidy_ended (hprog : tree.IsProgram) (hs : tree.Slotted) (hd : tree.DeclarationsFilled)
    {st : State setup.engine.State} (h : ended setup rotate tree = .ok st) :
    st.Sound tree ∧ st.Tidy tree := by
  have hstart : (started setup tree).Tidy tree :=
    ⟨⟨rfl,Forest.linked_link tree,nofun,Forest.filled_start hd⟩,nofun,List.nodup_nil,by simp [started, Forest.link]⟩
  refine State.resolveProviders_keeps (fun st => st.Sound tree ∧ st.Tidy tree)
    (fun p hp st st' hst hround => ?_) ⟨sound_started,hstart⟩ h
  obtain ⟨hmem,hp⟩ := List.mem_filter.mp hp
  exact ⟨hst.1.resolveProvider hprog hs hmem hp hround,
    hst.2.resolveProvider hs hd hmem hp hst.1 hround⟩

/-! ### The finished tree -/

/-- A call recorded for a decoder, with the string found for it. -/
def State.Records (tree : Node) (st : State σ) (p : Path) (t : Text) : Prop :=
  (p, t) ∈ st.values ∧ ∃ c ∈ (Index.ofTree tree).calls, c.path = p ∧
    (Index.ofTree tree).NamesDecoder c.name ∧ (Node.literalArguments? c.arguments).isSome

section Finish
variable {st : State σ}

theorem State.put_eq_some {p : Path} {n : Node} (h : st.put p = some n) :
    ∃ t, n = .ofText t ∧ (p, t) ∈ st.values := by
  obtain ⟨v,hv,rfl⟩ := Option.map_eq_some_iff.mp h
  have hp : v.1 = p := by simpa using List.find?_some hv
  exact ⟨v.2,rfl,hp ▸ List.mem_of_find?_eq_some hv⟩

theorem State.isSome_put {p : Path} : (st.put p).isSome ↔ p ∈ st.values.map Prod.fst := by
  simp [put]

/-- A string stands in the place of a call. -/
theorem State.Tidy.label_of_put (h : st.Tidy tree) {p : Path} {n : Node} (hn : st.put p = some n) :
    (∃ t, n = .ofText t) ∧ tree.labelAt? p = some .callExpression := by
  obtain ⟨t,rfl,ht⟩ := put_eq_some hn
  obtain ⟨c,hc,rfl,-⟩ := h.calls _ ht
  obtain ⟨m,hm,hl,-⟩ := mem_calls.mp hc
  exact ⟨⟨t,rfl⟩,by simp [Node.labelAt?, hm, hl]⟩

/-- No recorded call stands in another. -/
theorem State.Tidy.apart (hs : tree.Slotted) (h : st.Tidy tree) {r s : Path}
    (hr : (st.put r).isSome) (hsome : (st.put s).isSome) (hrs : r <+: s) : r = s := by
  obtain ⟨v,hv,rfl⟩ := List.mem_map.mp (isSome_put.mp hr)
  obtain ⟨c,hc,hcv,-,hargs⟩ := h.calls v hv
  obtain ⟨n,hn,hl,hname,harg⟩ := mem_calls.mp hc
  obtain ⟨q,rfl⟩ := hrs
  obtain ⟨u,hu⟩ := Option.isSome_iff_exists.mp hsome
  obtain ⟨-,hbelow⟩ := h.label_of_put hu
  rw [harg] at hargs
  rw [hcv] at hn
  rw [Node.labelAt?, Node.at?_append, hn] at hbelow
  rcases hs.plainCall hn hl hname hargs hbelow with ⟨rfl,-⟩ | hcall | ⟨a,b,hlit⟩ | ⟨k,hminus⟩
  · exact (List.append_nil v.1).symm
  · obtain ⟨-,-,name,-,-,-,-,hlabel⟩ := hcall
    rw [Node.labelAt?, Node.at?_append, hn] at hlabel
    cases hbelow.symm.trans hlabel
  · cases hlit
  · cases hminus

/-- As many calls are replaced as are counted. -/
theorem State.replacements_eq (hsound : st.Sound tree) (h : st.Tidy tree) :
    st.finish.replacements = Node.putCount st.forest.detached st.put [] tree := by
  have hplaces : (((tree.located []).filter fun e =>
      Node.isPut st.forest.detached st.put e.1).map Prod.fst).Nodup := by
    refine List.pairwise_map.mpr ?_
    exact (Node.located_pairwise tree []).filter _
  have hkept : ((st.values.filter fun v => st.forest.isAttached v.1).map Prod.fst).Nodup :=
    h.once.sublist (List.filter_sublist.map Prod.fst)
  have hsame : ((st.values.filter fun v => st.forest.isAttached v.1).map Prod.fst).Perm
      (((tree.located []).filter fun e =>
        Node.isPut st.forest.detached st.put e.1).map Prod.fst) := by
    refine (List.perm_ext_iff_of_nodup hkept hplaces).mpr fun p => ?_
    have hroot : [] ∉ st.forest.detached := fun hd => Forest.ne_nil_of_inRow (hsound.rows _ hd) rfl
    have hattached {v : Path × Text} (hv : v ∈ st.values) :
        ∃ n, tree.at? v.1 = some n ∧ (st.forest.isAttached v.1 = true ↔ ¬st.forest.Removed v.1) := by
      obtain ⟨c,hc,hcv,-⟩ := h.calls v hv
      obtain ⟨n,hn,-⟩ := mem_calls.mp hc
      rw [hcv] at hn
      exact ⟨n,hn,Forest.isAttached_iff_not_removed hsound.linked hroot (by rwa [hsound.whole])⟩
    simp only [List.mem_map, List.mem_filter, Node.isPut_iff, State.isSome_put]
    constructor
    · rintro ⟨v,⟨hv,hkept⟩,rfl⟩
      obtain ⟨n,hn,hiff⟩ := hattached hv
      refine ⟨(v.1, n),⟨Node.mem_located.mpr ⟨v.1,rfl,hn⟩,⟨v,hv,rfl⟩,?_⟩,rfl⟩
      intro g hg hgv
      exact hiff.mp hkept ⟨g,hg,hgv⟩
    · rintro ⟨⟨r,n⟩,⟨-,⟨v,hv,hvr⟩,hkept⟩,rfl⟩
      obtain ⟨-,-,hiff⟩ := hattached hv
      refine ⟨v,⟨hv,hiff.mpr ?_⟩,hvr⟩
      rintro ⟨g,hg,hgv⟩
      exact hkept g hg (hvr ▸ hgv)
  have hlength := hsame.length_eq
  rw [List.length_map, List.length_map] at hlength
  rw [Node.putCount, List.countP_eq_length_filter]
  exact hlength

/-- Every declaration of variables in the finished tree has a declarator. -/
theorem State.Tidy.exists_declarator (hprog : tree.IsProgram) (hs : tree.Slotted)
    (hd : tree.DeclarationsFilled) (h : st.Tidy tree) {q : Path} {n : Node} {kind : String}
    (hn : (tree.edit st.forest.detached st.put []).at? q = some n)
    (hl : n.label = .variableDeclaration kind) :
    ∃ c ∈ n.row .declarations, c.label = .variableDeclarator := by
  rcases Node.at?_edit hn with ⟨r,d,hat,hnone,hin,rfl⟩ | ⟨r,u,s,hu,hat⟩
  · rw [Node.label_edit hnone] at hl
    have hvars : d.label.isVariables = true := Label.isVariables_iff.mpr ⟨kind,hl⟩
    have hne : r ≠ [] := by
      rintro rfl
      obtain ⟨sourceType,hprog⟩ := hprog
      obtain rfl := Option.some.inj hat
      cases hprog.symm.trans hl
    have hwhole := h.trimmed.whole
    obtain ⟨s,field,hheld⟩ := h.trimmed.filled r d (by rwa [hwhole]) hvars (hin hne)
    obtain ⟨hfield,-⟩ := Forest.held_declaration (by rwa [hwhole]) (by rwa [hwhole])
      (by rwa [hwhole]) hvars hheld
    obtain rfl : field = .declarations := hfield
    obtain ⟨d',i,c,hat',hc,rfl,hout⟩ := Forest.mem_held.mp hheld
    rw [hwhole] at hat'
    obtain rfl := Option.some.inj (hat.symm.trans hat')
    have hchild : tree.at? (r ++ [i]) = some c := by
      rw [Node.at?_append, hat]
      simp [Node.at?, hc]
    have hlabel := hd.label_child hat hvars hchild
    have hkept : st.put (r ++ [i]) = none := by
      by_contra hput
      obtain ⟨u,hu⟩ := Option.ne_none_iff_exists'.mp hput
      obtain ⟨-,hcall⟩ := h.label_of_put hu
      rw [Node.labelAt?, hchild, Option.map_some, hlabel] at hcall
      cases hcall
    have hmem := Node.mem_edit hnone hc hout
    refine ⟨_,List.mem_map_of_mem (List.mem_filter.mpr ⟨hmem,by simp⟩),?_⟩
    exact (Node.label_edit hkept).trans hlabel
  · obtain ⟨⟨t,rfl⟩,-⟩ := h.label_of_put hu
    cases s with
    | nil =>
      obtain rfl := Option.some.inj hat
      cases hl
    | cons i s => cases hat

end Finish

/-- A resolution touches nothing but its targets. The finished tree is the tree with some of the calls
recorded for decoders replaced by their strings, as many as are counted, and some tables, decoders,
rotations and declarators that pass a decoder's name on taken out, alone or with a declaration that
holds nothing else; all other nodes are there, in order. Every declaration of variables in it has a
declarator, and if no string was found the tree is as it was. -/
theorem resolve_frame (hprog : tree.IsProgram) (hs : tree.Slotted) (hd : tree.DeclarationsFilled)
    {st : State setup.engine.State} (h : ended setup rotate tree = .ok st) :
    resolve setup rotate tree = .ok st.finish ∧
      Node.Cleared (Target tree) (st.Records tree) [] tree st.finish.tree st.finish.replacements ∧
      (∀ q n kind, st.finish.tree.at? q = some n → n.label = .variableDeclaration kind →
        ∃ c ∈ n.row .declarations, c.label = .variableDeclarator) ∧
      (st.values = [] → st.finish.tree = tree) := by
  obtain ⟨hsound,htidy⟩ := tidy_ended hprog hs hd h
  have hfinish : st.finish.tree = tree.edit st.forest.detached st.put [] := by
    rw [← hsound.whole]
    rfl
  refine ⟨by rw [resolve_eq, h]; rfl,?_,fun q n kind hn hl => ?_,fun hnone => ?_⟩
  · rw [hfinish, State.replacements_eq hsound htidy]
    refine Node.cleared_edit htidy.trimmed.targets (fun r u hu => ?_)
      (fun r s hr hs' hrs => htidy.apart hs hr hs' hrs) tree fun g hg hnil => ?_
    · obtain ⟨t,rfl,ht⟩ := State.put_eq_some hu
      exact ⟨t,rfl,ht,htidy.calls _ ht⟩
    · obtain rfl := List.prefix_nil.mp hnil
      exact Forest.ne_nil_of_inRow (hsound.rows _ hg) rfl
  · rw [hfinish] at hn
    exact htidy.exists_declarator hprog hs hd hn hl
  · have hout : st.forest.detached = [] := by
      by_contra hout
      exact htidy.found hout hnone
    have hput : st.put = fun _ => none := by
      funext r
      simp [State.put, hnone]
    rw [hfinish, hout, hput]
    exact Node.without_eq_self tree (by simp)

/-- Two declarations beside that table, its decoder and a call: `var d = dec, n = d(1);` and
`var e = d;`. -/
def aliased : Node :=
  let one : Node := .mk (.literal (.number (.int 1)) (some (Text.ofString "1"))) []
  let declarator (name : String) (value : Node) : Field × Node :=
    (.declarations, .mk .variableDeclarator [(.id, .identifier name), (.init, value)])
  .mk (.program "script") (exposed.subtrees ++
    [(.body, .mk (.variableDeclaration "var")
      [declarator "d" (.identifier "dec"), declarator "n" (.call (.identifier "d") [one])]),
     (.body, .mk (.variableDeclaration "var") [declarator "e" (.identifier "d")])])

/-- Both calls are replaced. The first declaration keeps its other declarator and the second goes. -/
theorem resolve_frame_aliased :
    ∃ st, ended exposedSetup true aliased = .ok st ∧
      Node.Cleared (Target aliased) (st.Records aliased) [] aliased st.finish.tree 2 ∧
      (∃ n, st.finish.tree.at? [2] = some n ∧
        ∃ c ∈ n.row .declarations, c.label = .variableDeclarator) ∧
      st.finish.tree.at? [3] = none := by
  obtain ⟨-,hcleared,hfilled,-⟩ := resolve_frame ⟨"script",rfl⟩ (by decide : aliased.Slotted)
    (by decide) (rfl : ended exposedSetup true aliased = .ok _)
  exact ⟨_,rfl,hcleared,⟨_,rfl,hfilled [2] _ "var" rfl rfl⟩,rfl⟩

end Strings

end Unravel
