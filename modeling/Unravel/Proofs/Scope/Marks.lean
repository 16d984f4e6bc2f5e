import Unravel.Proofs.Numbering
import Unravel.Proofs.Scope.Resolution
import Unravel.Proofs.Scope.Retouch
import Unravel.Scope.Rename

/-! Lexical scoping told by the marks of nodes instead of their places, so that it can be compared
between a tree and what a pass has made of it. -/

namespace Unravel

/-- The scopes around a place, innermost first, by the marks of their nodes. -/
abbrev Chain := List (Option Nat × Bool)

/-- A name with the mark of the identifier that stands for it. -/
abbrev Named := String × Option Nat

/-- A use or a declaration of a name. -/
inductive Part where
  | use (named : Named)
  | declare (reach : Reach) (named : Named)

def Part.named : Part → Named
  | .use x => x
  | .declare _ x => x

def Part.mark? (part : Part) : Option Nat := part.named.2

/-- The scope that a declaration lands in. -/
def Reach.target? : Reach → Chain → Option (Option Nat)
  | .here, chain => chain.head?.map Prod.fst
  | .function, chain => (chain.find? Prod.snd).map Prod.fst
  | .root, chain => chain.getLast?.map Prod.fst

theorem Reach.mem_of_target? {reach : Reach} {chain : Chain} {m : Option Nat}
    (h : reach.target? chain = some m) : ∃ s ∈ chain, s.1 = m := by
  cases reach with
  | here =>
    obtain ⟨s,hs,rfl⟩ := Option.map_eq_some_iff.mp h
    exact ⟨s,List.mem_of_head? hs,rfl⟩
  | function =>
    obtain ⟨s,hs,rfl⟩ := Option.map_eq_some_iff.mp h
    exact ⟨s,List.mem_of_find?_eq_some hs,rfl⟩
  | root =>
    obtain ⟨s,hs,rfl⟩ := Option.map_eq_some_iff.mp h
    exact ⟨s,List.mem_of_getLast? hs,rfl⟩

theorem Event.Sound.parts {n : Node} {p : Path} {e : Event} (hs : Sound n p e)
    {x : List Opened × Event} (hx : x ∈ e.parts) : Sound n p x.2 := by
  induction e using Event.inductionOn generalizing x with
  | declare reach kind o =>
    rw [Event.parts, List.mem_singleton] at hx
    exact hx ▸ hs
  | refer o =>
    rw [Event.parts, List.mem_singleton] at hx
    exact hx ▸ hs
  | scope q l f es ih =>
    rw [Event.parts, partsAll_eq] at hx
    obtain ⟨y,hy,rfl⟩ := List.mem_map.mp hx
    obtain ⟨e,he,hy⟩ := List.mem_flatMap.mp hy
    exact ih e he (soundAll_iff.mp hs.2 e he) (x := y) hy

namespace Node

/-! ### What a node tells of names -/

mutual
/-- The names a node binds, as a target or as a member of an object pattern. -/
def targets (member : Bool) : Node → List Named
  | .marked m l cs =>
    (match l with | .identifier name => [(name, m)] | _ => []) ++
      match l.target member with
      | some (f, b) => targetsAll f b cs
      | none => []
def targetsAll (f : Field) (member : Bool) : List (Field × Node) → List Named
  | [] => []
  | (g, n) :: rest => (if g = f then n.targets member else []) ++ targetsAll f member rest
end

/-- The names bound in a slot, the whole row. -/
def slotTargets (f : Field) (cs : List (Field × Node)) : List Named :=
  cs.flatMap fun c => if c.1 = f then c.2.targets false else []

/-- The names bound in one slot of a member. -/
def memberTargets (f : Field) (n : Node) : List Named :=
  (n.child? f).toList.flatMap (targets false)

/-- The base of a tag name. -/
def tagNamed? : Node → Option Named
  | .marked m (.jsxIdentifier name) _ => some (name, m)
  | .marked _ .jsxMemberExpression ((.object, o) :: _) => tagNamed? o
  | _ => none

/-- The component that a tag name stands for. -/
def component (n : Node) : List Named :=
  (n.tagNamed?.filter fun x => !Walk.tag.startsLower x.1).toList

def ownUses (n : Node) : List Named :=
  match n.label with
  | .identifier name => [(name, n.mark?)]
  | .jsxOpeningElement _ | .jsxClosingElement =>
    n.subtrees.flatMap fun c => if c.1 = .name then c.2.component else []
  | _ => []

def ownOutward (n : Node) : List (Reach × Named) :=
  match n.label with
  | .functionDeclaration .. | .classDeclaration =>
    (slotTargets .id n.subtrees).map fun x => (.here, x)
  | .variableDeclaration kind =>
    (n.subtrees.flatMap fun c => c.2.memberTargets .id).map fun x =>
      (if kind = "var" then .function else .here, x)
  | .importDeclaration =>
    (n.subtrees.flatMap fun c => if c.1 = .specifiers then c.2.memberTargets .localName else []).map
      fun x => (.root, x)
  | _ => []

def ownInward (n : Node) : List Named :=
  match n.label with
  | .functionDeclaration .. | .arrowFunctionExpression _ => slotTargets .params n.subtrees
  | .functionExpression _ => slotTargets .id n.subtrees ++ slotTargets .params n.subtrees
  | .catchClause => slotTargets .param n.subtrees
  | .classExpression => slotTargets .id n.subtrees
  | _ => []

/-- The scope that a node opens, unless it is the body of a function or handler. -/
def scopeAs (isBody : Bool) (n : Node) : Chain :=
  if isBody then [] else (n.label.opens.map fun f => (n.mark?, f)).toList

theorem mem_scopeAs {isBody : Bool} {n : Node} {s : Option Nat × Bool} (hs : s ∈ n.scopeAs isBody) :
    n.mark? = s.1 ∧ n.label.opens = some s.2 := by
  unfold scopeAs at hs
  split at hs
  · cases hs
  · obtain ⟨f,hf,rfl⟩ := Option.map_eq_some_iff.mp (Option.mem_toList.mp hs)
    exact ⟨rfl,hf⟩

/-- What a node itself uses and declares, and in which scope of its own, if in any. -/
def ownParts (n : Node) : List (Chain × Part) :=
  (n.ownUses.map fun x => ([], .use x))
    ++ (n.ownOutward.map fun d => ([], .declare d.1 d.2))
    ++ n.ownInward.map fun x => (n.scopeAs false, .declare .here x)

/-- A node tells of a use or declaration, in some scopes from the node on. -/
inductive Tells : Bool → Node → Chain → Part → Prop
  | own {isBody : Bool} {n : Node} {chain : Chain} {part : Part} (h : (chain, part) ∈ n.ownParts) :
    Tells isBody n chain part
  | inside {isBody : Bool} {n : Node} {c : Field × Node} {chain : Chain} {part : Part}
    (hc : c ∈ n.subtrees) (hw : n.label.walks c.1 = true)
    (h : Tells (n.label.isBody c.1 c.2) c.2 chain part) :
    Tells isBody n (chain ++ n.scopeAs isBody) part

/-! ### Places and marks -/

/-- The mark of the node at a place. -/
def markAt (n : Node) (q : Path) : Option Nat := (n.at? q).bind mark?

def named (root : Node) (o : Occurrence) : Named := (o.name, root.markAt o.path)

def chainOf (root : Node) (around : Enclosing) : Chain := around.map fun s => (root.markAt s.1, s.2)

def part? (root : Node) : Event → Option Part
  | .declare reach _ o => some (.declare reach (root.named o))
  | .refer o => some (.use (root.named o))
  | .scope .. => none

private theorem targetsAll_eq (f : Field) (member : Bool) (cs : List (Field × Node)) :
    targetsAll f member cs = cs.flatMap fun c => if c.1 = f then c.2.targets member else [] := by
  induction cs with
  | nil => rfl
  | cons c cs ih => rw [targetsAll, ih, List.flatMap_cons]

theorem targets_marked (m : Option Nat) (l : Label) (cs : List (Field × Node)) (member : Bool) :
    (marked m l cs).targets member =
      (match l with | .identifier name => [(name, m)] | _ => []) ++
        match l.target member with
        | some (f, b) => cs.flatMap fun c => if c.1 = f then c.2.targets b else []
        | none => [] := by
  have h : (marked m l cs).targets member =
      (match l with | .identifier name => [(name, m)] | _ => []) ++
        match l.target member with
        | some (f, b) => targetsAll f b cs
        | none => [] := targets.eq_def ..
  rw [h]
  cases l.target member with
  | none => rfl
  | some t => simp only [targetsAll_eq]

section Places
variable {root n : Node} {p : Path}

theorem at?_snoc (hn : root.at? p = some n) {c : Field × Node} {i : Nat}
    (hc : n.subtrees[i]? = some c) : root.at? (p ++ [i]) = some c.2 := by
  rw [at?_append, hn, Option.bind_some]
  simp only [at?, hc, Option.bind_some]

private theorem markAt_eq (hn : root.at? p = some n) : root.markAt p = n.mark? := by
  rw [markAt, hn, Option.bind_some]

/-- A list over the subtrees and their places comes to one over the subtrees. -/
private theorem map_zipIdx {α β : Type} {g : α → β} {cs : List (Field × Node)}
    {F : (Field × Node) × Nat → List α} {G : Field × Node → List β}
    (h : ∀ i c, cs[i]? = some c → (F (c, i)).map g = G c) :
    (cs.zipIdx.flatMap F).map g = cs.flatMap G := by
  rw [List.map_flatMap]
  conv_rhs => rw [← List.zipIdx_map_fst 0 cs, List.flatMap_map]
  refine List.flatMap_congr fun c hc => ?_
  exact h c.2 c.1 (List.mem_zipIdx_iff_getElem?.mp hc)

theorem map_bound (hn : root.at? p = some n) (member : Bool) :
    (n.bound member p).map root.named = n.targets member := by
  induction n using inductionOn generalizing p member with
  | marked m l cs ih =>
    rw [bound_marked, targets_marked, List.map_append]
    congr 1
    · cases l <;> simp [named, markAt_eq hn, mark?]
    · cases l.target member with
      | none => rfl
      | some t =>
        refine map_zipIdx fun i c hc => ?_
        dsimp only
        split
        · exact ih c (List.mem_of_getElem? hc) (at?_snoc hn hc) t.2
        · rfl

private theorem map_binds (hn : root.at? p = some n) (f : Field) :
    (n.binds f p).map root.named = slotTargets f n.subtrees := by
  refine map_zipIdx fun i c hc => ?_
  dsimp only
  split
  · exact map_bound (at?_snoc hn hc) false
  · rfl

private theorem map_memberBinds (hn : root.at? p = some n) (test : Field → Bool) (f : Field) :
    (n.memberBinds test f p).map root.named =
      n.subtrees.flatMap fun c => if test c.1 then c.2.memberTargets f else [] := by
  refine map_zipIdx fun i c hc => ?_
  dsimp only
  split
  · rw [memberTargets]
    cases hf : c.2.child? f with
    | none => cases c.2.index? f <;> rfl
    | some target =>
      obtain ⟨j,hj⟩ := exists_index? hf
      simp only [hj, Option.toList_some, List.flatMap_singleton]
      exact map_bound (at?_snoc (at?_snoc hn hc) (getElem?_index? hj hf)) false
  · rfl

theorem map_tagBase? (hn : root.at? p = some n) :
    (Walk.tagBase? n p).map root.named = n.tagNamed? := by
  induction n, p using Walk.tagBase?.induct with
  | case1 p m name cs => simp [Walk.tagBase?, tagNamed?, named, markAt_eq hn, mark?]
  | case2 m o rest p ih => exact ih (at?_snoc hn (c := (.object, o)) rfl)
  | case3 n p h1 h2 =>
    rw [Walk.tagBase?.eq_3 _ _ h1 h2, tagNamed?.eq_3 _ h1 h2, Option.map_none]

private theorem map_uses (hn : root.at? p = some n) : (n.uses p).map root.named = n.ownUses := by
  have htag : (n.subtrees.zipIdx.flatMap fun c =>
      if c.1.1 = .name then
        ((Walk.tagBase? c.1.2 (p ++ [c.2])).filter fun o => !Walk.tag.startsLower o.name).toList
      else []).map root.named =
        n.subtrees.flatMap fun c => if c.1 = .name then c.2.component else [] := by
    refine map_zipIdx fun i c hc => ?_
    dsimp only
    split
    · rw [component, ← map_tagBase? (at?_snoc hn hc)]
      cases Walk.tagBase? c.2 (p ++ [i]) with
      | none => rfl
      | some o => cases hs : Walk.tag.startsLower o.name <;> simp [Option.filter, named, hs]
    · rfl
  unfold uses ownUses
  cases n.label <;> first | exact htag | simp [named, markAt_eq hn]

private theorem map_outward (hn : root.at? p = some n) :
    (n.outward p).map (fun d => (d.1, root.named d.2.2)) = n.ownOutward := by
  have hid := map_binds hn .id
  have hvars := map_memberBinds hn (fun _ => true) .id
  have himports := map_memberBinds hn (· = .specifiers) .localName
  simp only [if_true, decide_eq_true_eq] at hvars himports
  unfold outward ownOutward
  cases n.label <;>
    simp only [List.map_map, List.map_nil, ← hid, ← hvars, ← himports] <;> rfl

private theorem map_inward (hn : root.at? p = some n) :
    (n.inward p).map (fun d => root.named d.2) = n.ownInward := by
  have hid := map_binds hn .id
  have hparam := map_binds hn .param
  have hparams := map_binds hn .params
  unfold inward ownInward
  cases n.label <;>
    simp only [List.map_append, List.map_map, List.map_nil, ← hid, ← hparam, ← hparams] <;> rfl

private theorem chainOf_opened (hn : root.at? p = some n) (isBody : Bool) :
    root.chainOf (n.label.opened isBody p) = n.scopeAs isBody := by
  unfold Label.opened scopeAs
  cases isBody with
  | true => rfl
  | false => cases n.label.opens <;> simp [chainOf, markAt_eq hn]

private theorem map_own (hn : root.at? p = some n) :
    (n.own p []).map (fun x => (root.chainOf x.1, root.part? x.2)) =
      n.ownParts.map fun x => (x.1, some x.2) := by
  simp only [own, ownParts, List.map_append, List.map_map, ← map_uses hn, ← map_outward hn,
    ← map_inward hn, ← chainOf_opened hn, List.append_nil]
  rfl

private theorem exists_own (hn : root.at? p = some n) {chain : Chain} {part : Part} :
    (∃ x ∈ n.own p [], root.chainOf x.1 = chain ∧ root.part? x.2 = some part) ↔
      (chain, part) ∈ n.ownParts := by
  have hmem := congrArg ((chain, some part) ∈ ·) (map_own hn)
  simp only [List.mem_map, Prod.mk.injEq, Option.some.injEq, eq_iff_iff] at hmem
  rw [hmem]
  constructor
  · rintro ⟨⟨_,_⟩,hx,rfl,rfl⟩
    exact hx
  · exact fun h => ⟨_,h,rfl,rfl⟩

/-- What a node tells is what its walk tells, with marks for places. -/
theorem tells_iff {isBody : Bool} (hn : root.at? p = some n)
    (hb : isBody = true → n.label = .blockStatement) {chain : Chain} {part : Part} :
    Tells isBody n chain part ↔
      ∃ x ∈ Event.placed (n.walkAs isBody p), root.chainOf x.1 = chain ∧
        root.part? x.2 = some part := by
  induction n using inductionOn generalizing isBody p chain with
  | marked m l cs ih =>
    constructor
    · rintro (h | @⟨_,_,c,chain,_,hc,hw,h⟩)
      · obtain ⟨x,hx,hchain,hpart⟩ := (exists_own hn).mpr h
        exact ⟨x,((mem_placed_step _ _ hb).mpr (.inl hx)),hchain,hpart⟩
      · obtain ⟨i,hi⟩ := List.mem_iff_getElem?.mp hc
        obtain ⟨x,hx,hchain,hpart⟩ := (ih c hc (at?_snoc hn hi) (by simp [Label.isBody])).mp h
        refine ⟨_,(mem_placed_step _ _ hb).mpr
          (.inr ⟨(c, i),List.mem_zipIdx_iff_getElem?.mpr hi,hw,x,hx,rfl⟩),?_,hpart⟩
        rw [← hchain, ← chainOf_opened hn]
        exact List.map_append
    · rintro ⟨x,hx,hchain,hpart⟩
      rcases (mem_placed_step _ _ hb).mp hx with hx | ⟨⟨c,i⟩,hi,hw,y,hy,rfl⟩
      · exact .own ((exists_own hn).mp ⟨x,hx,hchain,hpart⟩)
      · have hi := List.mem_zipIdx_iff_getElem?.mp hi
        have hc := List.mem_of_getElem? hi
        have h := (ih c hc (at?_snoc hn hi) (by simp [Label.isBody])).mpr ⟨y,hy,rfl,hpart⟩
        rw [← hchain, chainOf, List.map_append]
        have hopened := chainOf_opened hn isBody
        rw [chainOf] at hopened
        rw [hopened]
        exact .inside hc hw h

end Places

/-- The name at a place. -/
def nameAt? (n : Node) (q : Path) : Option String := (n.labelAt? q).bind Rename.takenName?

theorem nameAt?_of_In {n : Node} {o : Occurrence} (h : o.In n []) : n.nameAt? o.path = some o.name := by
  obtain ⟨⟨q,hq,hl⟩,-⟩ := h
  rw [nameAt?, hq, List.nil_append, hl, Option.bind_some, Occurrence.label]
  split <;> rfl

/-- Whatever holds of all marks of a tree holds of those that it tells. -/
def EveryMark (Q : Option Nat → Prop) (n : Node) : Prop := ∀ q a, n.at? q = some a → Q a.mark?

section EveryMark
variable {Q : Option Nat → Prop} {n : Node}

theorem EveryMark.mark? (h : n.EveryMark Q) : Q n.mark? := h [] n rfl

theorem EveryMark.subtree (h : n.EveryMark Q) {c : Field × Node} (hc : c ∈ n.subtrees) :
    c.2.EveryMark Q := by
  obtain ⟨i,hi⟩ := exists_at?_of_mem hc
  intro q a ha
  exact h ([i] ++ q) a (by rw [at?_append, hi, Option.bind_some, ha])

private theorem EveryMark.target (h : n.EveryMark Q) {member : Bool} {x : Named}
    (hx : x ∈ n.targets member) : Q x.2 := by
  induction n using inductionOn generalizing member with
  | marked m l cs ih =>
    rw [targets_marked, List.mem_append] at hx
    rcases hx with hx | hx
    · split at hx
      · rw [List.mem_singleton.mp hx]
        exact h.mark?
      · cases hx
    · split at hx
      · obtain ⟨c,hc,hx⟩ := List.mem_flatMap.mp hx
        exact ih c hc (h.subtree hc) (List.mem_ite_nil_right.mp hx).2
      · cases hx

private theorem EveryMark.slotTarget (h : n.EveryMark Q) {f : Field} {x : Named}
    (hx : x ∈ slotTargets f n.subtrees) : Q x.2 := by
  obtain ⟨c,hc,hx⟩ := List.mem_flatMap.mp hx
  exact (h.subtree hc).target (List.mem_ite_nil_right.mp hx).2

private theorem EveryMark.memberTarget (h : n.EveryMark Q) {f : Field} {x : Named}
    (hx : x ∈ n.memberTargets f) : Q x.2 := by
  obtain ⟨c,hc,hx⟩ := List.mem_flatMap.mp hx
  obtain ⟨e,he,rfl⟩ := Option.map_eq_some_iff.mp (Option.mem_toList.mp hc)
  exact (h.subtree (List.mem_of_find?_eq_some he)).target hx

private theorem EveryMark.tagNamed (h : n.EveryMark Q) {x : Named} (hx : n.tagNamed? = some x) :
    Q x.2 := by
  induction n using tagNamed?.induct with
  | case1 m name cs =>
    obtain rfl := Option.some.inj hx
    exact h.mark?
  | case2 m o rest ih => exact ih (h.subtree (c := (.object, o)) List.mem_cons_self) hx
  | case3 n h1 h2 =>
    rw [tagNamed?.eq_3 _ h1 h2] at hx
    cases hx

private theorem EveryMark.ownPart (h : n.EveryMark Q) {x : Chain × Part} (hx : x ∈ n.ownParts) :
    Q x.2.mark? ∧ ∀ s ∈ x.1, Q s.1 := by
  have huses : ∀ y ∈ n.ownUses, Q y.2 := by
    intro y hy
    have htag : y ∈ n.subtrees.flatMap (fun c => if c.1 = .name then c.2.component else []) →
        Q y.2 := by
      intro hy
      obtain ⟨c,hc,hy⟩ := List.mem_flatMap.mp hy
      have hy := Option.mem_toList.mp (List.mem_ite_nil_right.mp hy).2
      exact (h.subtree hc).tagNamed (Option.filter_eq_some_iff.mp hy).1
    unfold ownUses at hy
    split at hy
    · rw [List.mem_singleton.mp hy]
      exact h.mark?
    · exact htag hy
    · exact htag hy
    · cases hy
  have houtward : ∀ d ∈ n.ownOutward, Q d.2.2 := by
    intro d hd
    unfold ownOutward at hd
    split at hd
    · obtain ⟨y,hy,rfl⟩ := List.mem_map.mp hd
      exact h.slotTarget hy
    · obtain ⟨y,hy,rfl⟩ := List.mem_map.mp hd
      exact h.slotTarget hy
    · obtain ⟨y,hy,rfl⟩ := List.mem_map.mp hd
      obtain ⟨c,hc,hy⟩ := List.mem_flatMap.mp hy
      exact (h.subtree hc).memberTarget hy
    · obtain ⟨y,hy,rfl⟩ := List.mem_map.mp hd
      obtain ⟨c,hc,hy⟩ := List.mem_flatMap.mp hy
      exact (h.subtree hc).memberTarget (List.mem_ite_nil_right.mp hy).2
    · cases hd
  have hinward : ∀ y ∈ n.ownInward, Q y.2 := by
    intro y hy
    unfold ownInward at hy
    split at hy
    · exact h.slotTarget hy
    · exact h.slotTarget hy
    · exact (List.mem_append.mp hy).elim h.slotTarget h.slotTarget
    · exact h.slotTarget hy
    · exact h.slotTarget hy
    · cases hy
  simp only [ownParts, List.mem_append, List.mem_map] at hx
  rcases hx with (⟨y,hy,rfl⟩ | ⟨d,hd,rfl⟩) | ⟨y,hy,rfl⟩
  · exact ⟨huses y hy,by simp⟩
  · exact ⟨houtward d hd,by simp⟩
  · refine ⟨hinward y hy,fun s hs => ?_⟩
    obtain ⟨f,-,rfl⟩ := Option.map_eq_some_iff.mp (Option.mem_toList.mp hs)
    exact h.mark?

theorem Tells.every {isBody : Bool} {chain : Chain} {part : Part} (ht : Tells isBody n chain part)
    (h : n.EveryMark Q) : Q part.mark? ∧ ∀ s ∈ chain, Q s.1 := by
  induction ht with
  | own hx => exact h.ownPart hx
  | @inside isBody n c chain part hc _ _ ih =>
    obtain ⟨hpart,hchain⟩ := ih (h.subtree hc)
    refine ⟨hpart,List.forall_mem_append.mpr ⟨hchain,fun s hs => ?_⟩⟩
    rw [← (mem_scopeAs hs).1]
    exact h.mark?

theorem everyMark_mem (n : Node) : n.EveryMark fun m => ∀ k, m = some k → k ∈ n.marks :=
  fun _ _ ha _ hk => marks_at? ha (mark_mem_marks hk)

end EveryMark

/-- The scopes around what is told are opened by nodes that it is told of. -/
theorem Tells.exists_scope {isBody : Bool} {n : Node} {chain : Chain} {part : Part}
    (h : Tells isBody n chain part) {s : Option Nat × Bool} (hs : s ∈ chain) {k : Nat}
    (hk : part.mark? = some k) :
    ∃ q c, n.at? q = some c ∧ c.mark? = s.1 ∧ c.label.opens = some s.2 ∧ k ∈ c.marks := by
  induction h with
  | @own isBody n chain part h =>
    have htells : Tells isBody n chain part := .own h
    have hmem := (htells.every (everyMark_mem n)).1 k hk
    simp only [ownParts, List.mem_append, List.mem_map, Prod.mk.injEq] at h
    rcases h with (⟨_,-,rfl,-⟩ | ⟨_,-,rfl,-⟩) | ⟨_,-,rfl,-⟩
    · cases hs
    · cases hs
    · obtain ⟨hmark,hopens⟩ := mem_scopeAs hs
      exact ⟨[],n,rfl,hmark,hopens,hmem⟩
  | @inside isBody n c chain part hc hw h ih =>
    obtain ⟨i,hi⟩ := exists_at?_of_mem hc
    rcases List.mem_append.mp hs with hs | hs
    · obtain ⟨q,d,hd,hrest⟩ := ih hs hk
      exact ⟨[i] ++ q,d,by rw [at?_append, hi, Option.bind_some, hd],hrest⟩
    · obtain ⟨hmark,hopens⟩ := mem_scopeAs hs
      exact ⟨[],n,rfl,hmark,hopens,marks_at? hi ((h.every (everyMark_mem c.2)).1 k hk)⟩

/-! ### Scoping without marks -/

theorem plain_retouches : Retouches plain where
  marked m l cs := ⟨none,l,plain_marked m l cs,rfl⟩

theorem at?_plain (n : Node) (q : Path) : n.plain.at? q = (n.at? q).map plain := plain_retouches.at? n q

/-- Marks do not matter to the name at a place. -/
theorem nameAt?_plain (n : Node) (q : Path) : n.plain.nameAt? q = n.nameAt? q := by
  rw [nameAt?, nameAt?, labelAt?, labelAt?, at?_plain, Option.map_map]
  simp only [Function.comp_def, label_plain]

theorem events_plain (n : Node) : n.plain.events = n.events := plain_retouches.events n

/-- Scope analysis does not look at marks. -/
theorem scope_plain (n : Node) : n.plain.scope = n.scope := by
  simp only [scope, events_plain, label_plain]

/-! ### Bindings -/

/-- The identifier at a place belongs to a binding. -/
def IsBound (n : Node) (q : Path) : Prop :=
  ∃ b ∈ n.scope.allBindings, ∃ o ∈ b.occurrences, o.path = q

/-- The identifiers at two places belong to one binding. -/
def SameBinding (n : Node) (q r : Path) : Prop :=
  ∃ b ∈ n.scope.allBindings, (∃ o ∈ b.occurrences, o.path = q) ∧ ∃ o ∈ b.occurrences, o.path = r

theorem SameBinding.symm {n : Node} {q r : Path} (h : n.SameBinding q r) : n.SameBinding r q := by
  obtain ⟨b,hb,hq,hr⟩ := h
  exact ⟨b,hb,hr,hq⟩

theorem SameBinding.isBound {n : Node} {q r : Path} (h : n.SameBinding q r) : n.IsBound q := by
  obtain ⟨b,hb,hq,-⟩ := h
  exact ⟨b,hb,hq⟩

theorem nameAt?_of_mem {n : Node} (h : n.IsProgram) {b : Binding} (hb : b ∈ n.scope.allBindings)
    {o : Occurrence} (ho : o ∈ b.occurrences) : n.nameAt? o.path = some b.name := by
  obtain ⟨hin,hname⟩ := listed_In h hb ho
  rw [nameAt?_of_In hin, hname]

theorem SameBinding.nameAt?_eq {n : Node} (hn : n.IsProgram) {q r : Path} (h : n.SameBinding q r) :
    n.nameAt? q = n.nameAt? r := by
  obtain ⟨b,hb,⟨o,ho,rfl⟩,u,hu,rfl⟩ := h
  rw [nameAt?_of_mem hn hb ho, nameAt?_of_mem hn hb hu]

instance (n : Node) (q : Path) : Decidable (n.IsBound q) :=
  inferInstanceAs (Decidable (∃ b ∈ _, _))

instance (n : Node) (q r : Path) : Decidable (n.SameBinding q r) :=
  inferInstanceAs (Decidable (∃ b ∈ _, _))

theorem isBound_iff {n : Node} {q : Path} : n.IsBound q ↔ n.SameBinding q q := by
  simp only [IsBound, SameBinding, and_self]

/-- The identifier at a place belongs to what a scope binds under a name. -/
def BelongsTo (n : Node) (q s : Path) (name : String) : Prop :=
  (∃ kind o, n.DeclaredIn s kind o ∧ o.path = q ∧ o.name = name) ∨
    ∃ around o, n.RefersAt around o ∧ o.path = q ∧ o.name = name ∧ n.Innermost around name s

/-- Of lists that are apart only one can hold an element. -/
theorem eq_of_mem_flatMap {α β : Type} {xs : List α} {F : α → List β} (h : (xs.flatMap F).Nodup)
    {a b : α} (ha : a ∈ xs) (hb : b ∈ xs) {y : β} (hya : y ∈ F a) (hyb : y ∈ F b) : a = b := by
  have : Std.Symm (Function.onFun List.Disjoint F) := ⟨fun _ _ h _ hx hy => h hy hx⟩
  by_contra hne
  exact (List.nodup_flatMap.mp h).2.forall ha hb hne hya hyb

section Lexical
variable {n : Node} (h : n.IsProgram) (hd : n.DeclaratorsOnly)
include h hd

/-- An identifier belongs to one binding only. -/
theorem eq_of_mem_occurrences {b c : Binding} (hb : b ∈ n.scope.allBindings)
    (hc : c ∈ n.scope.allBindings) {o u : Occurrence} (ho : o ∈ b.occurrences)
    (hu : u ∈ c.occurrences) (hp : o.path = u.path) : b = c :=
  eq_of_mem_flatMap (occurrences_nodup h hd) hb hc (List.mem_map_of_mem ho)
    (hp ▸ List.mem_map_of_mem hu)

theorem belongsTo_iff {σ : Scope} (hσ : σ ∈ n.scope.walk) {b : Binding} (hb : b ∈ σ.bindings)
    {q : Path} : n.BelongsTo q σ.path b.name ↔ ∃ o ∈ b.occurrences, o.path = q := by
  have hlexical := scope_lexical h hd
  constructor
  · rintro (⟨kind,o,ho,hpath,hname⟩ | ⟨around,o,ho,hpath,hname,hinner⟩)
    · exact ⟨o,List.mem_append_left _ ((hlexical.declared σ hσ b hb o).mpr ⟨hname,kind,ho⟩),hpath⟩
    · refine ⟨o,List.mem_append_right _ ((hlexical.referred around o ho σ hσ b hb).mpr ?_),hpath⟩
      exact ⟨hname.symm,hname ▸ hinner⟩
  · rintro ⟨o,ho,hpath⟩
    rcases List.mem_append.mp ho with ho | ho
    · obtain ⟨hname,kind,hdecl⟩ := (hlexical.declared σ hσ b hb o).mp ho
      exact .inl ⟨kind,o,hdecl,hpath,hname⟩
    · obtain ⟨around,hrefers⟩ := hlexical.used b (mem_allBindings.mpr ⟨σ,hσ,hb⟩) o ho
      obtain ⟨hname,hinner⟩ := (hlexical.referred around o hrefers σ hσ b hb).mp ho
      exact .inr ⟨around,o,hrefers,hpath,hname.symm,hname ▸ hinner⟩

theorem BelongsTo.declares {q s : Path} {name : String} (hq : n.BelongsTo q s name) :
    ∃ σ ∈ n.scope.walk, ∃ b ∈ σ.bindings, σ.path = s ∧ b.name = name := by
  have hs : n.Declares s name := by
    rcases hq with ⟨kind,o,ho,-,hname⟩ | ⟨_,_,-,-,-,_,_,_,-,hs,-⟩
    · exact ⟨kind,o,ho,hname⟩
    · exact hs
  obtain ⟨σ,hσ,hpath,b,hb,hname⟩ := (declares_iff_bound h hd).mp hs
  exact ⟨σ,hσ,b,hb,hpath,hname⟩

/-- An identifier belongs to one thing in one scope. -/
theorem BelongsTo.eq {q s t : Path} {name name' : String} (hs : n.BelongsTo q s name)
    (ht : n.BelongsTo q t name') : s = t ∧ name = name' := by
  obtain ⟨σ,hσ,b,hb,rfl,rfl⟩ := hs.declares h hd
  obtain ⟨τ,hτ,c,hc,rfl,rfl⟩ := ht.declares h hd
  obtain ⟨o,ho,rfl⟩ := (belongsTo_iff h hd hσ hb).mp hs
  obtain ⟨u,hu,heq⟩ := (belongsTo_iff h hd hτ hc).mp ht
  have honce := occurrences_nodup h hd
  rw [Scope.allBindings, List.flatMap_assoc] at honce
  have hlisted {σ : Scope} {b : Binding} (hb : b ∈ σ.bindings) {o : Occurrence}
      (ho : o ∈ b.occurrences) : o.path ∈ σ.bindings.flatMap fun b => b.occurrences.map (·.path) :=
    List.mem_flatMap.mpr ⟨b,hb,List.mem_map_of_mem ho⟩
  obtain rfl := eq_of_mem_flatMap honce hσ hτ (hlisted hb ho) (heq ▸ hlisted hc hu)
  have hmem {b : Binding} (hb : b ∈ σ.bindings) := mem_allBindings.mpr ⟨σ,hσ,hb⟩
  obtain rfl := eq_of_mem_occurrences h hd (hmem hb) (hmem hc) ho hu heq.symm
  exact ⟨rfl,rfl⟩

theorem SameBinding.trans {q r s : Path} (hqr : n.SameBinding q r) (hrs : n.SameBinding r s) :
    n.SameBinding q s := by
  obtain ⟨b,hb,hq,o,ho,rfl⟩ := hqr
  obtain ⟨c,hc,⟨u,hu,heq⟩,hs⟩ := hrs
  obtain rfl := eq_of_mem_occurrences h hd hb hc ho hu heq.symm
  exact ⟨b,hb,hq,hs⟩

theorem sameBinding_iff {q r : Path} :
    n.SameBinding q r ↔ ∃ s name, n.BelongsTo q s name ∧ n.BelongsTo r s name := by
  constructor
  · rintro ⟨b,hb,hq,hr⟩
    obtain ⟨σ,hσ,hb⟩ := mem_allBindings.mp hb
    exact ⟨σ.path,b.name,(belongsTo_iff h hd hσ hb).mpr hq,(belongsTo_iff h hd hσ hb).mpr hr⟩
  · rintro ⟨s,name,hq,hr⟩
    obtain ⟨σ,hσ,b,hb,rfl,rfl⟩ := hq.declares h hd
    exact ⟨b,mem_allBindings.mpr ⟨σ,hσ,hb⟩,(belongsTo_iff h hd hσ hb).mp hq,
      (belongsTo_iff h hd hσ hb).mp hr⟩

end Lexical

/-! ### Bindings by marks -/

/-- A name is declared by the identifier with one mark in the scope of the node with another. -/
def Lands (n : Node) (name : String) (k m : Option Nat) : Prop :=
  ∃ chain reach, Tells false n chain (.declare reach (name, k)) ∧ reach.target? chain = some m

def Lists (n : Node) (name : String) (m : Option Nat) : Prop := ∃ k, n.Lands name k m

end Node

/-- Of a chain of scopes, the first one with a property. -/
def Chain.Nearest (P : Option Nat → Prop) : Chain → Option Nat → Prop
  | [], _ => False
  | t :: chain, m => (P t.1 ∧ t.1 = m) ∨ (¬P t.1 ∧ Chain.Nearest P chain m)

namespace Chain
variable {P : Option Nat → Prop} {chain : Chain}

theorem Nearest.eq {m m' : Option Nat} (h : chain.Nearest P m) (h' : chain.Nearest P m') :
    m = m' := by
  induction chain with
  | nil => cases h
  | cons t chain ih =>
    rcases h with ⟨ht,rfl⟩ | ⟨ht,h⟩ <;> rcases h' with ⟨ht',rfl⟩ | ⟨ht',h'⟩
    · rfl
    · exact absurd ht ht'
    · exact absurd ht' ht
    · exact ih h h'

theorem Nearest.mem {m : Option Nat} (h : chain.Nearest P m) : P m ∧ ∃ t ∈ chain, t.1 = m := by
  induction chain with
  | nil => cases h
  | cons t chain ih =>
    rcases h with ⟨ht,rfl⟩ | ⟨-,h⟩
    · exact ⟨ht,t,List.mem_cons_self,rfl⟩
    · obtain ⟨hm,u,hu,rfl⟩ := ih h
      exact ⟨hm,u,List.mem_cons_of_mem _ hu,rfl⟩

end Chain

namespace Node

/-- The identifier with a mark belongs to what the scope of the node with another mark binds under
a name. -/
def Resolves (n : Node) (k : Option Nat) (name : String) (m : Option Nat) : Prop :=
  n.Lands name k m ∨ (∀ name' m', ¬n.Lands name' k m') ∧
    ∃ chain, Tells false n chain (.use (name, k)) ∧ chain.Nearest (n.Lists name) m

section Program
variable {n : Node}

theorem markAt_inj (hm : n.marks.Nodup) {p q : Path} {k : Nat} (hp : n.markAt p = some k)
    (hq : n.markAt q = some k) : p = q := by
  obtain ⟨a,ha,hak⟩ := Option.bind_eq_some_iff.mp hp
  obtain ⟨b,hb,hbk⟩ := Option.bind_eq_some_iff.mp hq
  have hall : (n.marks.filter fun _ => true).Nodup := by rwa [List.filter_true]
  exact eq_of_mark hall ha hb hak hbk rfl

theorem exists_markAt {k : Nat} (hk : k ∈ n.marks) : ∃ q, n.markAt q = some k := by
  induction n using inductionOn with
  | marked m l cs ih =>
    rw [marks_marked, List.mem_append, List.mem_flatMap] at hk
    rcases hk with hk | ⟨c,hc,hk⟩
    · exact ⟨[],Option.mem_toList.mp hk⟩
    · obtain ⟨q,hq⟩ := ih c hc hk
      obtain ⟨i,hi⟩ := List.mem_iff_getElem?.mp hc
      refine ⟨i :: q,?_⟩
      rw [markAt, at?_cons, hi]
      exact hq

theorem markAt_mem {q : Path} {k : Nat} (h : n.markAt q = some k) : k ∈ n.marks := by
  obtain ⟨a,ha,hk⟩ := Option.bind_eq_some_iff.mp h
  exact marks_at? ha (mark_mem_marks hk)

theorem target?_chainOf (reach : Reach) (around : Enclosing) :
    reach.target? (n.chainOf around) = (reach.scope? around).map n.markAt := by
  cases reach with
  | here => simp [Reach.target?, Reach.scope?, chainOf, Function.comp_def]
  | function => simp [Reach.target?, Reach.scope?, chainOf, List.find?_map, Function.comp_def]
  | root => simp [Reach.target?, Reach.scope?, chainOf, Function.comp_def]

variable (h : n.IsProgram)
include h

theorem tells_topLevel {chain : Chain} {part : Part} : Tells false n chain part ↔
    ∃ x ∈ Event.placed [n.topLevel], n.chainOf x.1 = chain ∧ n.part? x.2 = some part := by
  rw [topLevel_eq h]
  exact tells_iff (p := []) rfl (by simp)

/-- What is told under a mark is told under the name at the place of the mark. -/
theorem Tells.nameAt? (hm : n.marks.Nodup) {chain : Chain} {part : Part}
    (ht : Tells false n chain part) {q : Path} {k : Nat} (hk : part.mark? = some k)
    (hq : n.markAt q = some k) : n.nameAt? q = some part.named.1 := by
  obtain ⟨_,hplaced,-,hpart⟩ := (tells_topLevel h).mp ht
  obtain ⟨⟨opened,e⟩,hx,rfl⟩ := List.mem_map.mp hplaced
  rw [Event.partsAll_eq, List.flatMap_singleton] at hx
  have hsound := (sound_topLevel h).parts hx
  have hnamed : ∃ o : Occurrence, o.In n [] ∧ part.named = n.named o := by
    cases e with
    | declare reach kind o =>
      obtain rfl := Option.some.inj hpart
      exact ⟨o,hsound.1,rfl⟩
    | refer o =>
      obtain rfl := Option.some.inj hpart
      exact ⟨o,hsound,rfl⟩
    | scope p l f es => cases hpart
  obtain ⟨o,ho,hnamed⟩ := hnamed
  rw [Part.mark?, hnamed] at hk
  obtain rfl := markAt_inj hm hk hq
  rw [nameAt?_of_In ho, hnamed]
  rfl

theorem lands_iff {name : String} {k m : Option Nat} : n.Lands name k m ↔
    ∃ s kind o, n.DeclaredIn s kind o ∧ o.name = name ∧ n.markAt o.path = k ∧ n.markAt s = m := by
  simp only [Lands, tells_topLevel h, declaredIn_iff h]
  constructor
  · rintro ⟨_,reach,⟨⟨around,e⟩,hx,rfl,hpart⟩,htarget⟩
    rw [target?_chainOf] at htarget
    obtain ⟨s,hs,hm⟩ := Option.map_eq_some_iff.mp htarget
    cases e with
    | declare reach' kind o =>
      obtain ⟨rfl,hnamed⟩ := Part.declare.inj (Option.some.inj hpart)
      obtain ⟨hname,hk⟩ := Prod.mk.inj hnamed
      exact ⟨s,kind,o,⟨around,reach',hx,hs⟩,hname,hk,hm⟩
    | refer o => cases hpart
    | scope p l f es => cases hpart
  · rintro ⟨s,kind,o,⟨around,reach,hx,hs⟩,rfl,rfl,rfl⟩
    exact ⟨_,reach,⟨_,hx,rfl,rfl⟩,by rw [target?_chainOf, hs, Option.map_some]⟩

theorem uses_iff {chain : Chain} {named : Named} : Tells false n chain (.use named) ↔
    ∃ around o, (∃ q c, n.Visits q c around ∧ o ∈ c.uses q) ∧ n.chainOf around = chain ∧
      n.named o = named := by
  simp only [tells_topLevel h, ← mem_placed_refer h]
  constructor
  · rintro ⟨⟨around,e⟩,hx,hchain,hpart⟩
    cases e with
    | declare reach kind o => cases hpart
    | refer o => exact ⟨around,o,hx,hchain,Part.use.inj (Option.some.inj hpart)⟩
    | scope p l f es => cases hpart
  · rintro ⟨around,o,hx,hchain,rfl⟩
    exact ⟨_,hx,hchain,rfl⟩

section Unique
variable (hm : n.marks.Nodup) {name : String} (hscopes : ∀ k m, n.Lands name k m → m.isSome)
include hm hscopes

private theorem declares_iff_lists {s : Path} :
    n.Declares s name ↔ n.Lists name (n.markAt s) ∧ (n.markAt s).isSome := by
  constructor
  · rintro ⟨kind,o,ho,hname⟩
    have hlands : n.Lands name (n.markAt o.path) (n.markAt s) :=
      (lands_iff h).mpr ⟨s,kind,o,ho,hname,rfl,rfl⟩
    exact ⟨⟨_,hlands⟩,hscopes _ _ hlands⟩
  · rintro ⟨⟨k,hlands⟩,hsome⟩
    obtain ⟨t,kind,o,ho,hname,-,ht⟩ := (lands_iff h).mp hlands
    obtain ⟨j,hj⟩ := Option.isSome_iff_exists.mp hsome
    obtain rfl := markAt_inj hm (ht.trans hj) hj
    exact ⟨kind,o,ho,hname⟩

private theorem nearest_iff {around : Enclosing} {m : Option Nat} :
    (n.chainOf around).Nearest (n.Lists name) m ↔
      ∃ s, n.Innermost around name s ∧ n.markAt s = m := by
  have hdeclares (s : Path) : n.Lists name (n.markAt s) ↔ n.Declares s name := by
    rw [declares_iff_lists h hm hscopes, iff_self_and]
    rintro ⟨k,hlands⟩
    exact hscopes _ _ hlands
  induction around with
  | nil => simp [chainOf, Chain.Nearest, Innermost]
  | cons t around ih =>
    simp only [innermost_cons]
    change (n.Lists name (n.markAt t.1) ∧ n.markAt t.1 = m) ∨
      (¬n.Lists name (n.markAt t.1) ∧ (n.chainOf around).Nearest (n.Lists name) m) ↔ _
    simp only [ih, hdeclares]
    constructor
    · rintro (⟨ht,rfl⟩ | ⟨ht,s,hs,rfl⟩)
      · exact ⟨t.1,.inl ⟨ht,rfl⟩,rfl⟩
      · exact ⟨s,.inr ⟨ht,hs⟩,rfl⟩
    · rintro ⟨s,⟨ht,rfl⟩ | ⟨ht,hs⟩,rfl⟩
      · exact .inl ⟨ht,rfl⟩
      · exact .inr ⟨ht,s,hs,rfl⟩

theorem resolves_iff {q : Path} {k : Nat} (hq : n.markAt q = some k) {m : Option Nat} :
    n.Resolves (some k) name m ↔ ∃ s, n.BelongsTo q s name ∧ n.markAt s = m := by
  constructor
  · rintro (hlands | ⟨hnone,chain,huse,hnear⟩)
    · obtain ⟨s,kind,o,ho,hname,hk,hs⟩ := (lands_iff h).mp hlands
      exact ⟨s,.inl ⟨kind,o,ho,markAt_inj hm hk hq,hname⟩,hs⟩
    · obtain ⟨around,o,ho,rfl,hnamed⟩ := (uses_iff h).mp huse
      obtain ⟨hname,hk⟩ := Prod.mk.inj hnamed
      obtain ⟨s,hs,hmark⟩ := (nearest_iff h hm hscopes).mp hnear
      refine ⟨s,.inr ⟨around,o,⟨ho,fun t kind d hd hpath => ?_⟩,markAt_inj hm hk hq,hname,hs⟩,hmark⟩
      exact hnone d.name _ ((lands_iff h).mpr ⟨t,kind,d,hd,rfl,by rw [hpath]; exact hk,rfl⟩)
  · rintro ⟨s,⟨kind,o,ho,rfl,hname⟩ | ⟨around,o,ho,rfl,rfl,hinner⟩,rfl⟩
    · exact .inl ((lands_iff h).mpr ⟨s,kind,o,ho,hname,hq,rfl⟩)
    · refine .inr ⟨fun name' m' hlands => ?_,_,(uses_iff h).mpr ⟨around,o,ho.1,rfl,?_⟩,
        (nearest_iff h hm hscopes).mpr ⟨s,hinner,rfl⟩⟩
      · obtain ⟨t,kind,d,hd,-,hk,-⟩ := (lands_iff h).mp hlands
        exact ho.2 t kind d hd (markAt_inj hm hk hq)
      · rw [named, hq]

end Unique

section Resolves
variable (hm : n.marks.Nodup) (hscopes : ∀ name k m, n.Lands name k m → m.isSome)
  (hd : n.DeclaratorsOnly) {q r : Path} {k j : Nat}
include hm hscopes hd

/-- An identifier belongs to one thing. -/
theorem Resolves.eq (hq : n.markAt q = some k) {name name' : String} {m m' : Option Nat}
    (hr : n.Resolves (some k) name m) (hr' : n.Resolves (some k) name' m') :
    name = name' ∧ m = m' := by
  obtain ⟨s,hs,rfl⟩ := (resolves_iff h hm (hscopes name) hq).mp hr
  obtain ⟨t,ht,rfl⟩ := (resolves_iff h hm (hscopes name') hq).mp hr'
  obtain ⟨rfl,rfl⟩ := hs.eq h hd ht
  exact ⟨rfl,rfl⟩

theorem sameBinding_iff_resolves (hq : n.markAt q = some k) (hr : n.markAt r = some j) :
    n.SameBinding q r ↔ ∃ name m, n.Resolves (some k) name m ∧ n.Resolves (some j) name m := by
  have hresolves {q : Path} {k : Nat} (hq : n.markAt q = some k) (name : String) (m : Option Nat) :
      n.Resolves (some k) name m ↔ ∃ s, n.BelongsTo q s name ∧ n.markAt s = m :=
    resolves_iff h hm (hscopes name) hq
  simp only [sameBinding_iff h hd, hresolves hq, hresolves hr]
  constructor
  · rintro ⟨s,name,hqs,hrs⟩
    exact ⟨name,_,⟨s,hqs,rfl⟩,s,hrs,rfl⟩
  · rintro ⟨name,_,⟨s,hqs,rfl⟩,t,hrt,ht⟩
    have hsome : (n.markAt s).isSome := by
      obtain ⟨σ,hσ,b,hb,rfl,rfl⟩ := hqs.declares h hd
      have hdeclares := (declares_iff_bound h hd).mpr ⟨σ,hσ,rfl,b,hb,rfl⟩
      exact ((declares_iff_lists h hm (hscopes b.name)).mp hdeclares).2
    obtain ⟨i,hi⟩ := Option.isSome_iff_exists.mp hsome
    obtain rfl := markAt_inj hm hi (ht.trans hi)
    exact ⟨s,name,hqs,hrt⟩

end Resolves
end Program

end Node

end Unravel
