import Unravel.Proofs.Literals.Plain
import Unravel.Proofs.Scope.Listing
import Unravel.Proofs.Strings.Aliases
import Unravel.Proofs.Strings.Rounds
import Unravel.Scope.Rename

/-! References to removed functions that a resolution leaves behind: which there are, and when there
are none. -/

namespace Unravel

namespace Node
variable {tree n : Node} {p : Path}

/-- An identifier that the call at a position calls. -/
def NamesCall (tree : Node) (p q : Path) : Prop :=
  ∃ n j name, tree.at? p = some n ∧ n.label = .callExpression ∧ n.index? .callee = some j ∧
    q = p ++ [j] ∧ tree.labelAt? q = some (.identifier name)

theorem at?_index? {c : Node} {f : Field} {j : Nat} (hn : tree.at? p = some n)
    (hj : n.index? f = some j) (hc : n.child? f = some c) : tree.at? (p ++ [j]) = some c := by
  have he := getElem?_index? hj hc
  obtain ⟨m,l,cs⟩ := n
  rw [at?_append, hn, Option.bind_some, at?_cons, show cs[j]? = some (f, c) from he]
  rfl

private theorem findIdx?_of_filter {α : Type} {test : α → Bool} {xs : List α} {i : Nat} {x : α}
    (hi : xs[i]? = some x) (hx : test x = true) (h : (xs.filter test).length ≤ 1) :
    xs.findIdx? test = some i := by
  induction xs generalizing i with
  | nil => simp at hi
  | cons y xs ih =>
    cases i with
    | zero =>
      obtain rfl : y = x := by simpa using hi
      simp [List.findIdx?_cons, hx]
    | succ i =>
      have hi : xs[i]? = some x := by simpa using hi
      have hmem : x ∈ xs.filter test := List.mem_filter.mpr ⟨List.mem_of_getElem? hi,hx⟩
      have hpos := List.length_pos_of_mem hmem
      cases hy : test y with
      | true =>
        rw [List.filter_cons_of_pos hy, List.length_cons] at h
        omega
      | false =>
        rw [List.filter_cons_of_neg (by simp [hy])] at h
        simp [List.findIdx?_cons, hy, ih hi h]

/-- What hangs in a slot for one subtree is the first subtree in it. -/
theorem Slotted.index? (h : tree.Slotted) (hn : tree.at? p = some n) {f : Field}
    (hf : Slot.one f ∈ n.label.slots) {i : Nat} {c : Node} (hi : n.subtrees[i]? = some (f, c)) :
    n.index? f = some i := by
  refine findIdx?_of_filter hi (by simp) ?_
  simpa [row] using (h.at hn).2 f hf

/-- A kind without slots has nothing below it. -/
theorem Slotted.leaf (h : tree.Slotted) (hn : tree.at? p = some n) (hl : n.label.slots = []) {q : Path}
    {c : Node} (hc : n.at? q = some c) : q = [] := by
  cases q with
  | nil => rfl
  | cons i q =>
    obtain ⟨e,he,-⟩ := Option.bind_eq_some_iff.mp hc
    have := (h.at hn).1 e (List.mem_of_getElem? he)
    simp [hl] at this

/-- The only subtree in a slot for one subtree. -/
theorem Slotted.child? (h : tree.Slotted) (hn : tree.at? p = some n) {f : Field}
    (hf : Slot.one f ∈ n.label.slots) {i : Nat} {c : Node} (hi : n.subtrees[i]? = some (f, c)) :
    n.child? f = some c := by
  rw [child?_of_index? (h.index? hn hf hi), hi]
  rfl

/-- Nothing stands in a literal. -/
theorem Slotted.literal (h : tree.Slotted) (hn : tree.at? p = some n) {v : LiteralValue}
    {r : Option Text} (hl : n.label = .literal v r) {q : Path} {l : Label}
    (hq : n.labelAt? q = some l) : l = .literal v r := by
  obtain ⟨c,hc,rfl⟩ := Option.map_eq_some_iff.mp hq
  obtain rfl := h.leaf hn (by rw [hl]; rfl) hc
  rw [← Option.some.inj hc, hl]

/-- A plain argument is a literal, alone or under a minus. -/
theorem Slotted.literalArgument (h : tree.Slotted) (hn : tree.at? p = some n)
    (ha : n.literalArgument?.isSome) {q : Path} {l : Label} (hq : n.labelAt? q = some l) :
    (∃ v r, l = .literal v r) ∨ ∃ k, l = .unaryExpression "-" k := by
  rcases isSome_literalArgument?_iff.mp ha with @⟨t,r,hl⟩ | ⟨@⟨v,r,hl⟩ | @⟨k,a,v,r,hl,ha,har⟩⟩
  · exact .inl ⟨_,r,h.literal hn hl hq⟩
  · exact .inl ⟨_,r,h.literal hn hl hq⟩
  obtain ⟨m,l',cs⟩ := n
  obtain rfl : l' = .unaryExpression "-" k := hl
  cases q with
  | nil => exact .inr ⟨k,(Option.some.inj hq).symm⟩
  | cons i q =>
    rw [labelAt?_cons] at hq
    obtain ⟨⟨f,c⟩,hi,hq⟩ := Option.bind_eq_some_iff.mp hq
    have hfield := (h.at hn).1 (f, c) (List.mem_of_getElem? hi)
    obtain rfl : f = .argument := by simpa [label, Label.slots, Slot.field] using hfield
    have hc := h.child? hn (by simp [label, Label.slots]) hi
    obtain rfl := Option.some.inj (ha.symm.trans hc)
    have hat : tree.at? (p ++ [i]) = some a := by
      rw [at?_append, hn]
      simp [hi]
    exact .inl ⟨_,r,h.literal hat har hq⟩

/-- A call of a name with plain arguments holds nothing but that name and the arguments. -/
theorem Slotted.plainCall (h : tree.Slotted) (hn : tree.at? p = some n)
    (hl : n.label = .callExpression) {name : String}
    (hname : (n.child? .callee).bind identifierName? = some name)
    (hargs : (literalArguments? (n.row .arguments)).isSome) {q : Path} {l : Label}
    (hq : n.labelAt? q = some l) : q = [] ∧ l = .callExpression ∨ tree.NamesCall p (p ++ q) ∨
      (∃ v r, l = .literal v r) ∨ ∃ k, l = .unaryExpression "-" k := by
  obtain ⟨m,l',cs⟩ := n
  obtain rfl : l' = .callExpression := hl
  cases q with
  | nil => exact .inl ⟨rfl,(Option.some.inj hq).symm⟩
  | cons i q =>
    rw [labelAt?_cons] at hq
    obtain ⟨⟨f,c⟩,hi,hq⟩ := Option.bind_eq_some_iff.mp hq
    have hat : tree.at? (p ++ [i]) = some c := by
      rw [at?_append, hn]
      simp [hi]
    have hfield := (h.at hn).1 (f, c) (List.mem_of_getElem? hi)
    obtain rfl | rfl : f = .callee ∨ f = .arguments := by
      simpa [label, Label.slots, Slot.field] using hfield
    · -- The callee is a name, so nothing is below it.
      rw [h.child? hn (by simp [label, Label.slots]) hi] at hname
      obtain ⟨d,hd,rfl⟩ := Option.map_eq_some_iff.mp hq
      have hl := label_of_identifierName? hname
      obtain rfl := h.leaf hat (by rw [hl]; rfl) hd
      exact .inr (.inl ⟨_,i,name,hn,rfl,h.index? hn (by simp [label, Label.slots]) hi,rfl,
        by simp [labelAt?, hat, hl]⟩)
    · have hmem : c ∈ (marked m .callExpression cs).row .arguments :=
        List.mem_map.mpr ⟨(.arguments, c),List.mem_filter.mpr ⟨List.mem_of_getElem? hi,by simp⟩,rfl⟩
      have hplain := isSome_literalArgument?_iff.mpr (isSome_literalArguments?_iff.mp hargs c hmem)
      exact .inr (.inr (h.literalArgument hat hplain hq))

/-- The only name in such a call is the name called. -/
theorem Slotted.namesCall (h : tree.Slotted) (hn : tree.at? p = some n)
    (hl : n.label = .callExpression) {name : String}
    (hname : (n.child? .callee).bind identifierName? = some name)
    (hargs : (literalArguments? (n.row .arguments)).isSome) {q : Path} {l : Label}
    (hq : n.labelAt? q = some l) (ht : (Rename.takenName? l).isSome) : tree.NamesCall p (p ++ q) := by
  rcases h.plainCall hn hl hname hargs hq with ⟨-,rfl⟩ | hcall | ⟨v,r,rfl⟩ | ⟨k,rfl⟩
  · cases ht
  · exact hcall
  · cases ht
  · cases ht

end Node

namespace Strings
variable {σ : Type} {st : State σ} {tree : Node}

/-! ### What is left -/

namespace State

/-- The strings found, as literals at the positions of their calls. -/
def put (st : State σ) (p : Path) : Option Node :=
  (st.values.find? fun v => v.1 = p).map fun v => .ofText v.2

/-- The nodes of the tree that are left at the end, with the positions they had at the start. -/
def survivors (st : State σ) : List (Path × Label) :=
  st.forest.tree.survivors st.forest.detached st.put []

/-- What is found in the finished tree is left of the tree, if nothing is found in strings. -/
theorem found_finish {α : Type} (st : State σ) (find : Label → Option α)
    (hstring : ∀ t, (Node.ofText t).found find = []) :
    st.finish.tree.found find = st.survivors.filterMap fun e => find e.2 := by
  refine Node.found_edit (fun p c hc => ?_) st.forest.tree []
  obtain ⟨v,-,rfl⟩ := Option.map_eq_some_iff.mp hc
  exact hstring v.2

/-- The identifiers of the finished tree are those left, since strings have none. -/
theorem takenNames_finish (st : State σ) :
    Rename.takenNames st.finish.tree = st.survivors.filterMap fun e => Rename.takenName? e.2 :=
  st.found_finish Rename.takenName? fun _ => rfl

/-- A node is left if it stands in no node removed and in no call replaced. -/
theorem survives_iff (h : st.Sound tree) {q : Path} {l : Label} (hl : tree.labelAt? q = some l) :
    (∃ l, (q, l) ∈ st.survivors) ↔ ¬ st.forest.Removed q ∧ ∀ v ∈ st.values, ¬ v.1 <+: q := by
  have hput (p : Path) : st.put p = none ↔ ∀ v ∈ st.values, v.1 ≠ p := by
    simp [put]
  constructor
  · rintro ⟨l',hmem⟩
    obtain ⟨r,hr,-,hkept⟩ := Node.mem_survivors.mp hmem
    obtain rfl : q = r := hr
    constructor
    · rintro ⟨g,hg,hgq⟩
      exact (hkept g hgq).2 (Forest.ne_nil_of_inRow (h.rows g hg)) hg
    · intro v hv hvq
      exact (hput v.1).mp (hkept v.1 hvq).1 v hv rfl
  · rintro ⟨hr,hv⟩
    refine ⟨l,Node.mem_survivors.mpr ⟨q,rfl,by rw [h.whole]; exact hl,fun t ht => ⟨?_,fun _ hd => ?_⟩⟩⟩
    · refine (hput _).mpr fun v hmem hvt => hv v hmem ?_
      obtain rfl : v.1 = t := hvt
      exact ht
    · exact hr ⟨t,hd,ht⟩

/-- A reference to a binding that is left at the end. -/
def Dangles (st : State σ) (b : Binding) : Prop :=
  ∃ o ∈ b.references, ∃ l, (o.path, l) ∈ st.survivors

end State

/-- A binding that a function declaration declares. -/
def NamedFunction.Declares (tree : Node) (f : NamedFunction) (b : Binding) : Prop :=
  ∃ n j, tree.at? f.path = some n ∧ n.index? .id = some j ∧
    ∃ o ∈ b.declarations, o.path = f.path ++ [j]

private theorem takenName?_label (o : Occurrence) : Rename.takenName? o.label = some o.name := by
  unfold Occurrence.label
  split <;> rfl

/-- The label of an occurrence stands at its position. -/
private theorem labelAt?_occurrence {o : Occurrence} (h : o.In tree []) :
    tree.labelAt? o.path = some o.label := by
  obtain ⟨⟨q,hq,hl⟩,-⟩ := h
  obtain rfl : o.path = q := hq
  exact hl

theorem NamedFunction.Declares.name_eq (hprog : tree.IsProgram) {f : NamedFunction}
    (hf : f ∈ (Index.ofTree tree).functions) {b : Binding} (hb : b ∈ tree.scope.allBindings)
    (h : f.Declares tree b) : b.name = f.name := by
  obtain ⟨n,j,hn,hj,o,ho,hpath⟩ := h
  obtain ⟨m,hm,hf⟩ := mem_functions hf
  obtain rfl := Option.some.inj (hn.symm.trans hm)
  obtain ⟨-,-,hid⟩ := namedFunction?_some hf
  obtain ⟨c,hc,hname⟩ := Option.bind_eq_some_iff.mp hid
  obtain ⟨hin,hob⟩ := Node.listed_In hprog hb (List.mem_append_left _ ho)
  have hl := labelAt?_occurrence hin
  rw [hpath, Node.labelAt?, Node.at?_index? hn hj hc] at hl
  have hl := Option.some.inj hl
  rw [Node.label_of_identifierName? hname] at hl
  have hnames := congrArg Rename.takenName? hl
  rw [takenName?_label] at hnames
  exact hob.symm.trans (Option.some.inj hnames).symm

/-- An occurrence that a call calls makes the call one of the index, by the name it has. -/
theorem mem_calls_of_namesCall {o : Occurrence} (ho : o.In tree []) {p : Path}
    (h : tree.NamesCall p o.path) : ∃ c ∈ (Index.ofTree tree).calls, c.path = p ∧ c.name = o.name := by
  obtain ⟨n,j,name,hn,hl,hj,hpath,hname⟩ := h
  obtain ⟨hlt,hf,-⟩ := List.findIdx?_eq_some_iff_getElem.mp hj
  have hchild : n.child? .callee = some n.subtrees[j].2 := by
    rw [Node.child?_of_index? hj, List.getElem?_eq_getElem hlt]
    rfl
  have hlabel : n.subtrees[j].2.label = .identifier name := by
    rw [hpath, Node.labelAt?, Node.at?_index? hn hj hchild] at hname
    exact Option.some.inj hname
  have hnames := congrArg Rename.takenName?
    (Option.some.inj ((labelAt?_occurrence ho).symm.trans hname))
  rw [takenName?_label] at hnames
  refine ⟨⟨p, name, n.row .arguments⟩,mem_calls.mpr ⟨n,hn,hl,?_,rfl⟩,rfl,(Option.some.inj hnames).symm⟩
  rw [hchild]
  simp [Node.identifierName?, hlabel]

section Removed
variable {ε : Type} {setup : Setup ε} {rotate : Bool} {b : Binding}

/-- A reference to a binding is left if it stands in no node removed and names no call replaced. -/
theorem State.dangles_iff (hprog : tree.IsProgram) (hs : tree.Slotted) (h : st.Sound tree)
    (hb : b ∈ tree.scope.allBindings) :
    st.Dangles b ↔ ∃ o ∈ b.references, ¬ st.forest.Removed o.path ∧
      ∀ v ∈ st.values, ¬ tree.NamesCall v.1 o.path := by
  refine exists_congr fun o => and_congr_right fun ho => ?_
  obtain ⟨hin,-⟩ := Node.listed_In hprog hb (List.mem_append_right _ ho)
  have hl := labelAt?_occurrence hin
  rw [survives_iff h hl]
  refine and_congr_right fun _ => forall₂_congr fun v hv => not_congr ⟨?_,?_⟩
  · rintro ⟨q,hq⟩
    obtain ⟨c,hc,hcv,-,hargs⟩ := h.values v hv
    obtain ⟨n,hn,hcall,hname,harg⟩ := mem_calls.mp hc
    rw [hcv] at hn
    rw [harg] at hargs
    rw [← hq] at hl ⊢
    have hbelow : n.labelAt? q = some o.label := by
      rwa [Node.labelAt?, Node.at?_append, hn] at hl
    exact hs.namesCall hn hcall hname hargs hbelow (by simp [takenName?_label])
  · rintro ⟨n,j,name,-,-,-,hpath,-⟩
    rw [hpath]
    exact List.prefix_append v.1 [j]

/-- Of a removed decoder only references that are not called are left, if no provider had to stay. -/
theorem State.dangles_decoder_iff (hprog : tree.IsProgram) (hs : tree.Slotted) (h : st.Sound tree)
    (hb : b ∈ tree.scope.allBindings) {f : NamedFunction} (hf : f ∈ (Index.ofTree tree).functions)
    (hgone : f.path ∈ st.forest.detached) (hd : f.Declares tree b) (hnot : f.isProvider = false)
    (hrows : ∀ g ∈ (Index.ofTree tree).functions, g.isProvider = true →
      st.forest.inRow g.path = true) :
    st.Dangles b ↔ ∃ o ∈ b.references, ¬ st.forest.Removed o.path ∧ ∀ p, ¬ tree.NamesCall p o.path := by
  rw [dangles_iff hprog hs h hb]
  refine exists_congr fun o => and_congr_right fun ho => and_congr_right fun hr =>
    ⟨fun hleft p hcall => ?_,fun hleft v _ => hleft v.1⟩
  obtain ⟨hin,hname⟩ := Node.listed_In hprog hb (List.mem_append_right _ ho)
  obtain ⟨c,hc,rfl,hco⟩ := mem_calls_of_namesCall hin hcall
  have halias : c.name ∈ aliasesOf (Index.ofTree tree).aliases f.name := by
    rw [hco, hname, hd.name_eq hprog hf hb]
    exact self_mem_aliasesOf _ _
  rcases h.calls f hf hnot hgone c hc halias with ⟨v,hv,hvc⟩ | hgone | ⟨g,hg,hp,hrow,-⟩
  · exact hleft v hv (hvc ▸ hcall)
  · obtain ⟨n,j,name,-,-,-,hpath,-⟩ := hcall
    exact hr (hgone.below (hpath ▸ List.prefix_append c.path [j]))
  · rw [hrows g hg hp] at hrow
    cases hrow

/-- Of a removed provider every reference outside removed nodes is left, if no declarator takes its
name. -/
theorem State.dangles_provider_iff (hprog : tree.IsProgram) (hs : tree.Slotted) (h : st.Sound tree)
    (hb : b ∈ tree.scope.allBindings) {f : NamedFunction} (hf : f ∈ (Index.ofTree tree).functions)
    (hd : f.Declares tree b) (hp : f.isProvider = true)
    (hlinks : ∀ a ∈ (Index.ofTree tree).aliases, a.target ≠ f.name) :
    st.Dangles b ↔ ∃ o ∈ b.references, ¬ st.forest.Removed o.path := by
  rw [dangles_iff hprog hs h hb]
  refine exists_congr fun o => and_congr_right fun ho => and_iff_left fun v hv hcall => ?_
  obtain ⟨hin,hname⟩ := Node.listed_In hprog hb (List.mem_append_right _ ho)
  obtain ⟨c,hc,hcv,hco⟩ := mem_calls_of_namesCall hin hcall
  obtain ⟨c',hc',hcv',⟨d,hdec,hdc⟩,-⟩ := h.values v hv
  obtain rfl : c = c' := call_eq_of_path hc hc' (hcv.trans hcv'.symm)
  rw [hco, hname, hd.name_eq hprog hf hb] at hdc
  rcases mem_aliasesOf hdc with hdc | ⟨a,ha,hdc⟩
  · exact hdec.2 f hf hp hdc
  · exact hlinks a ha hdc

/-- When a resolution removes a function and leaves references to it behind. A reference is left
exactly if it stands in no removed node and names no replaced call. For a decoder these are the
references that call nothing, for a provider all of them: only the calls of decoders are looked at
before the machinery is removed. -/
theorem resolve_dangles_iff (hprog : tree.IsProgram) (hs : tree.Slotted)
    {st : State setup.engine.State} (h : ended setup rotate tree = .ok st) {f : NamedFunction}
    (hf : f ∈ (Index.ofTree tree).functions) (hgone : f.path ∈ st.forest.detached)
    (hb : b ∈ tree.scope.allBindings) (hd : f.Declares tree b) :
    resolve setup rotate tree = .ok st.finish ∧
      Rename.takenNames st.finish.tree = st.survivors.filterMap (fun e => Rename.takenName? e.2) ∧
      (st.Dangles b ↔ ∃ o ∈ b.references, ¬ st.forest.Removed o.path ∧
        ∀ v ∈ st.values, ¬ tree.NamesCall v.1 o.path) ∧
      (f.isProvider = false →
        (∀ g ∈ (Index.ofTree tree).functions, g.isProvider = true → st.forest.inRow g.path = true) →
        (st.Dangles b ↔ ∃ o ∈ b.references, ¬ st.forest.Removed o.path ∧
          ∀ p, ¬ tree.NamesCall p o.path)) ∧
      (f.isProvider = true → (∀ a ∈ (Index.ofTree tree).aliases, a.target ≠ f.name) →
        (st.Dangles b ↔ ∃ o ∈ b.references, ¬ st.forest.Removed o.path)) := by
  have hsound := sound_ended hprog hs h
  refine ⟨?_,st.takenNames_finish,State.dangles_iff hprog hs hsound hb,fun hnot hrows => ?_,
    fun hp hlinks => ?_⟩
  · rw [resolve_eq, h]
    rfl
  · exact State.dangles_decoder_iff hprog hs hsound hb hf hgone hd hnot hrows
  · exact State.dangles_provider_iff hprog hs hsound hb hf hd hp hlinks

end Removed

/-- A table that a decoder reads from, and that is read once more without the decoder. -/
def exposed : Node :=
  let table : Node := .mk .arrayExpression
    (["a", "b", "c", "d", "e", "f"].map fun s => (.elements, .ofText (Text.ofString s)))
  let item : Node := .mk (.memberExpression true)
    [(.object, .call (.identifier "arr") []), (.property, .identifier "i")]
  let one : Node := .mk (.literal (.number (.int 1)) (some (Text.ofString "1"))) []
  let assign (name : String) (value : Node) : Node := .mk (.expressionStatement none none)
    [(.expression, .mk (.assignmentExpression "=") [(.left, .identifier name), (.right, value)])]
  .mk (.program "script") [
    (.body, .mk (.functionDeclaration {} (some ⟨0, 57⟩)) [(.id, .identifier "arr"),
      (.body, .block [.mk .returnStatement [(.argument, table)]])]),
    (.body, .mk (.functionDeclaration {} (some ⟨58, 94⟩)) [(.id, .identifier "dec"),
      (.params, .identifier "i"), (.body, .block [.mk .returnStatement [(.argument, item)]])]),
    (.body, assign "x" (.call (.identifier "dec") [one])),
    (.body, assign "y" (.call (.identifier "arr") []))]

/-- The source of that program, and an engine that finds the string of its one decoder call. -/
def exposedSetup : Setup Unit where
  code := Text.ofString ("function arr() \x7b return [\"a\", \"b\", \"c\", \"d\", \"e\", \"f\"]; \x7d\n"
    ++ "function dec(i) \x7b return arr()[i]; \x7d\nx = dec(1);\ny = arr();")
  print _ := .error ()
  engine := .ofFunction fun _ => .ok (.text (Text.ofString "b"))

/-- The binding of its table, with the uses in the decoder and outside it. -/
def exposedTable : Binding :=
  ⟨"arr", .function, [⟨"arr", [0, 0], false⟩],
    [⟨"arr", [1, 2, 0, 0, 0, 0], false⟩, ⟨"arr", [3, 0, 1, 0], false⟩]⟩

theorem resolve_dangles_iff_exposed :
    ∃ st, ended exposedSetup true exposed = .ok st ∧ [0] ∈ st.forest.detached ∧
      exposedTable ∈ exposed.scope.allBindings ∧ st.Dangles exposedTable := by
  have hfunctions : (Index.ofTree exposed).functions =
      [⟨[0], "arr", [], true⟩, ⟨[1], "dec", ["arr", "i"], false⟩] := rfl
  have htable : exposedTable ∈ exposed.scope.allBindings := by decide
  refine ⟨_,rfl,by decide,htable,?_⟩
  obtain ⟨-,-,-,-,hprovider⟩ := resolve_dangles_iff (f := ⟨[0], "arr", [], true⟩) ⟨"script",rfl⟩
    (by decide : exposed.Slotted) (rfl : ended exposedSetup true exposed = .ok _)
    (by simp [hfunctions]) (by decide) htable ⟨_,0,rfl,rfl,_,List.mem_cons_self,rfl⟩
  exact (hprovider rfl (by decide)).mpr ⟨⟨"arr", [3, 0, 1, 0], false⟩,by decide,by decide⟩

end Strings

end Unravel
