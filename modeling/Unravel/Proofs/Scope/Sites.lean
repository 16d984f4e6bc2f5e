import Mathlib.Algebra.GroupWithZero.Nat
import Unravel.Proofs.Grammar.Visits
import Unravel.Proofs.Scope.Plan

/-! Where the events of a walk stand. Every occurrence is an identifier of the tree, and no position
is declared twice, used twice or opened twice. -/

namespace Unravel

/-- The label that an identifier has in the tree. -/
def Occurrence.label (o : Occurrence) : Label :=
  if o.isTag then .jsxIdentifier o.name else .identifier o.name

/-- An occurrence stands in a tree whose root is at `p`. A tag in lower case is none. -/
def Occurrence.In (o : Occurrence) (n : Node) (p : Path) : Prop :=
  (∃ q, o.path = p ++ q ∧ n.labelAt? q = some o.label) ∧
    (o.isTag = true → Walk.tag.startsLower o.name = false)

theorem Occurrence.In.lift {o : Occurrence} {m : Option Nat} {l : Label} {cs : List (Field × Node)}
    {i : Nat} {f : Field} {c : Node} {p : Path} (hc : cs[i]? = some (f, c)) (h : o.In c (p ++ [i])) :
    o.In (.marked m l cs) p := by
  obtain ⟨⟨q,hp,hl⟩,ht⟩ := h
  exact ⟨⟨i :: q,by simp [hp],by rw [Node.labelAt?_cons, hc]; exact hl⟩,ht⟩

/-- An occurrence is determined by the tree and its position. -/
theorem Occurrence.In.eq {o o' : Occurrence} {n : Node} {p : Path} (h : o.In n p) (h' : o'.In n p)
    (hp : o.path = o'.path) : o = o' := by
  obtain ⟨⟨q,hq,hl⟩,-⟩ := h
  obtain ⟨⟨q',hq',hl'⟩,-⟩ := h'
  have he : q = q' := List.append_cancel_left (hq.symm.trans (hp.trans hq'))
  subst he
  have hlabel := Option.some.inj (hl.symm.trans hl')
  obtain ⟨name,path,tag⟩ := o
  obtain ⟨name',path',tag'⟩ := o'
  cases tag <;> cases tag' <;> simp_all [Occurrence.label]

/-! ### Targets -/

/-- The slot in which a target has further targets, and whether these are members of an object
pattern. The first flag tells whether the node itself is taken as such a member. -/
def Label.target (member : Bool) : Label → Option (Field × Bool)
  | .assignmentPattern => some (.left, false)
  | .restElement => some (.argument, false)
  | .arrayPattern => some (.elements, false)
  | .objectPattern => some (.properties, true)
  | .property .. => if member then some (.value, false) else none
  | _ => none

namespace Node

/-- The identifiers a node binds, as a target or as a member of an object pattern. -/
def bound (member : Bool) (n : Node) (p : Path) : List Occurrence :=
  if member then (n.fold Targets.step).asMember p else (n.fold Targets.step).asTarget p

theorem boundIdentifiers_eq (n : Node) (p : Path) : n.boundIdentifiers p = n.bound false p := rfl

variable (m : Option Nat) (l : Label) (cs : List (Field × Node)) (p : Path)

private theorem below_eq (f : Field) (member : Bool) :
    Targets.below (cs.map fun c => (c.1, c.2, c.2.fold Targets.step)) f
      (if member then Targets.asMember else Targets.asTarget) p =
        cs.zipIdx.flatMap fun c => if c.1.1 = f then c.1.2.bound member (p ++ [c.2]) else [] := by
  simp only [Targets.below, List.zipIdx_map, List.flatMap_map]
  cases member <;> rfl

theorem bound_marked (member : Bool) :
    (marked m l cs).bound member p =
      (match l with | .identifier name => [⟨name,p,false⟩] | _ => []) ++
      (match l.target member with
        | some (f, b) => cs.zipIdx.flatMap fun c =>
            if c.1.1 = f then c.1.2.bound b (p ++ [c.2]) else []
        | none => []) := by
  have hf := fun f => below_eq cs p f false
  have ht := fun f => below_eq cs p f true
  simp only [Bool.false_eq_true, if_false, if_true] at hf ht
  cases member <;> cases l <;>
    simp [bound, fold_marked, Targets.step, Label.target, hf, ht]

theorem In_of_mem_bound {member : Bool} {n : Node} {p : Path} {o : Occurrence}
    (h : o ∈ n.bound member p) : o.In n p ∧ o.isTag = false := by
  induction n using inductionOn generalizing member p with
  | marked m l cs ih =>
    rw [bound_marked, List.mem_append] at h
    rcases h with h | h
    · cases l <;> simp at h
      subst h
      exact ⟨⟨⟨[],by simp,rfl⟩,by simp⟩,rfl⟩
    · cases ht : l.target member with
      | none => simp [ht] at h
      | some t =>
        simp only [ht, List.mem_flatMap, List.mem_ite_nil_right] at h
        obtain ⟨c,hc,-,ho⟩ := h
        have hc := List.mem_zipIdx_iff_getElem?.mp hc
        obtain ⟨hin,htag⟩ := ih c.1 (List.mem_of_getElem? hc) ho
        exact ⟨hin.lift hc,htag⟩

end Node

/-! ### Soundness -/

theorem Event.inductionOn {P : Event → Prop} (declare : ∀ reach kind o, P (.declare reach kind o))
    (refer : ∀ o, P (.refer o))
    (scope : ∀ p l f es, (∀ e ∈ es, P e) → P (.scope p l f es)) (e : Event) : P e :=
  @Event.rec P (fun es => ∀ e ∈ es, P e) declare refer scope (by simp)
    (fun _ _ he hes => List.forall_mem_cons.mpr ⟨he,hes⟩) e

namespace Event

mutual
/-- Whether all that an event tells stands in a tree whose root is at `p`. -/
def Sound (n : Node) (p : Path) : Event → Prop
  | .declare _ _ o => o.In n p ∧ o.isTag = false
  | .refer o => o.In n p
  | .scope q _ _ events => p <+: q ∧ SoundAll n p events
def SoundAll (n : Node) (p : Path) : List Event → Prop
  | [] => True
  | e :: rest => Sound n p e ∧ SoundAll n p rest
end

theorem soundAll_iff {n : Node} {p : Path} {es : List Event} :
    SoundAll n p es ↔ ∀ e ∈ es, Sound n p e := by
  induction es with
  | nil => simp [SoundAll]
  | cons e es ih => simp [SoundAll, ih]

theorem Sound.lift {m : Option Nat} {l : Label} {cs : List (Field × Node)} {i : Nat} {f : Field}
    {c : Node} {p : Path} {e : Event} (hc : cs[i]? = some (f, c)) (h : Sound c (p ++ [i]) e) :
    Sound (.marked m l cs) p e := by
  induction e using Event.inductionOn with
  | declare reach kind o => exact ⟨h.1.lift hc,h.2⟩
  | refer o => exact Occurrence.In.lift hc h
  | scope q l f es ih =>
    refine ⟨(List.prefix_append p [i]).trans h.1,soundAll_iff.mpr ?_⟩
    intro e he
    exact ih e he (soundAll_iff.mp h.2 e he)

end Event

namespace Node

private theorem sound_bound {n : Node} {p : Path} {reach : Reach} {kind : BindingKind} {e : Event}
    (h : e ∈ (n.boundIdentifiers p).map (.declare reach kind)) : e.Sound n p := by
  obtain ⟨o,ho,rfl⟩ := List.mem_map.mp h
  exact In_of_mem_bound (show o ∈ n.bound false p from ho)

private theorem sound_member {n : Node} {p : Path} {slot : Field} {reach : Reach} {e : Event}
    (h : e ∈ Piece.member slot reach n p) : e.Sound n p := by
  unfold Piece.member at h
  split at h
  · rename_i j target hj ht
    obtain ⟨m,l,cs⟩ := n
    exact (sound_bound h).lift (getElem?_index? hj ht)
  · simp at h

private theorem tagBase_In {n : Node} {p : Path} {o : Occurrence} (h : Walk.tagBase? n p = some o)
    (hs : Walk.tag.startsLower o.name = false) : o.In n p := by
  induction n, p using Walk.tagBase?.induct with
  | case1 p m name cs =>
    obtain rfl := Option.some.inj h
    exact ⟨⟨[],by simp,rfl⟩,fun _ => hs⟩
  | case2 p m c rest ih => exact (ih h).lift rfl
  | case3 n p h1 h2 => simp [Walk.tagBase?] at h

private theorem sound_component {n : Node} {p : Path} {e : Event} (h : e ∈ Piece.component n p) :
    e.Sound n p := by
  unfold Piece.component at h
  split at h
  · rename_i o ho
    obtain ⟨hs,h⟩ := List.mem_ite_nil_left.mp h
    obtain rfl := List.mem_singleton.mp h
    exact tagBase_In ho (by simpa using hs)
  · simp at h

private theorem sound_eventsAt {f : Field} {n : Node} {p : Path} {piece : Piece} {e : Event}
    (hv : ∀ e ∈ n.walk.visit p, e.Sound n p) (hi : ∀ e ∈ n.walk.inside p, e.Sound n p)
    (h : e ∈ piece.eventsAt f n p) : e.Sound n p := by
  cases piece with
  | declare g reach kind =>
    simp only [Piece.eventsAt, List.mem_ite_nil_right] at h
    exact sound_bound h.2
  | visit test =>
    simp only [Piece.eventsAt, List.mem_ite_nil_right] at h
    exact hv e h.2
  | body =>
    simp only [Piece.eventsAt, List.mem_ite_nil_right] at h
    split at h
    · exact hi e h.2
    · exact hv e h.2
  | tag =>
    simp only [Piece.eventsAt, List.mem_ite_nil_right] at h
    exact sound_component h.2
  | declarator reach => exact sound_member h
  | specifier =>
    simp only [Piece.eventsAt, List.mem_ite_nil_right] at h
    exact sound_member h.2

/-- All that the walk of a tree tells stands in the tree. -/
theorem sound_walk (n : Node) (p : Path) :
    (∀ e ∈ n.walk.visit p, e.Sound n p) ∧ ∀ e ∈ n.walk.inside p, e.Sound n p := by
  induction n using inductionOn generalizing p with
  | marked m l cs ih =>
    have hacross (piece : Piece) : ∀ e ∈ piece.across cs p, e.Sound (.marked m l cs) p := by
      intro e he
      obtain ⟨c,hc,he⟩ := List.mem_flatMap.mp he
      have hc := List.mem_zipIdx_iff_getElem?.mp hc
      obtain ⟨hv,hi⟩ := ih c.1 (List.mem_of_getElem? hc) (p ++ [c.2])
      exact (sound_eventsAt hv hi he).lift hc
    have hpieces (pieces : List Piece) :
        ∀ e ∈ pieces.flatMap (Piece.across cs p), e.Sound (.marked m l cs) p := by
      intro e he
      obtain ⟨piece,-,he⟩ := List.mem_flatMap.mp he
      exact hacross piece e he
    refine ⟨fun e he => ?_,fun e he => hacross _ e (by rwa [walk_inside] at he)⟩
    rw [walk_visit, Plan.events, List.append_assoc, List.mem_append, List.mem_append] at he
    rcases he with he | he | he
    · cases l <;> simp [Label.plan] at he
      subst he
      exact ⟨⟨[],by simp,rfl⟩,by simp⟩
    · exact hpieces _ e he
    · obtain ⟨s,-,rfl⟩ := Option.map_eq_some_iff.mp (Option.mem_toList.mp he)
      exact ⟨List.prefix_refl p,Event.soundAll_iff.mpr (hpieces s.2)⟩

end Node

/-! ### Uniqueness -/

/-- What an event does at a position. -/
inductive Site where
  | declared
  | referred
  | opened
deriving DecidableEq, Repr

namespace Event

mutual
/-- All that an event does, with the positions. -/
def sites : Event → List (Site × Path)
  | .declare _ _ o => [(.declared, o.path)]
  | .refer o => [(.referred, o.path)]
  | .scope p _ _ events => (.opened, p) :: sitesAll events
def sitesAll : List Event → List (Site × Path)
  | [] => []
  | e :: rest => sites e ++ sitesAll rest
end

theorem sitesAll_eq (es : List Event) : sitesAll es = es.flatMap sites := by
  induction es with
  | nil => rfl
  | cons e es ih => rw [sitesAll, ih, List.flatMap_cons]

theorem Sound.sites_below {n : Node} {p : Path} {e : Event} (h : Sound n p e) :
    ∀ x ∈ e.sites, p <+: x.2 := by
  induction e using Event.inductionOn with
  | declare reach kind o =>
    obtain ⟨⟨⟨q,hq,-⟩,-⟩,-⟩ := h
    simp [sites, hq]
  | refer o =>
    obtain ⟨⟨q,hq,-⟩,-⟩ := h
    simp [sites, hq]
  | scope q l f es ih =>
    intro x hx
    rw [sites, sitesAll_eq, List.mem_cons, List.mem_flatMap] at hx
    rcases hx with rfl | ⟨e,he,hx⟩
    · exact h.1
    · exact ih e he (soundAll_iff.mp h.2 e he) x hx

end Event

/-- Every member of a variable declaration is a declarator. -/
def Node.DeclaratorsOnly (n : Node) : Prop :=
  ∀ q d kind, n.at? q = some d → d.label = .variableDeclaration kind →
    ∀ c ∈ d.subtrees, c.2.label = .variableDeclarator

theorem Node.declaratorsOnly_marked {m : Option Nat} {l : Label} {cs : List (Field × Node)} :
    DeclaratorsOnly (.marked m l cs) ↔
      (∀ kind, l = .variableDeclaration kind → ∀ c ∈ cs, c.2.label = .variableDeclarator) ∧
        ∀ c ∈ cs, c.2.DeclaratorsOnly := by
  constructor
  · refine fun h => ⟨fun kind hl => h [] _ kind rfl hl,fun c hc => ?_⟩
    obtain ⟨i,hi⟩ := List.mem_iff_getElem?.mp hc
    intro q d kind hq
    exact h (i :: q) d kind (by rw [at?_cons, hi]; exact hq)
  · rintro ⟨hl,hcs⟩ (_ | ⟨i,q⟩) d kind hq
    · obtain rfl := Option.some.inj hq
      exact hl kind
    · rw [at?_cons] at hq
      obtain ⟨c,hc,hq⟩ := Option.bind_eq_some_iff.mp hq
      exact hcs c (List.mem_of_getElem? hc) q d kind hq

theorem Node.DeclaratorsOnly.subtree {m : Option Nat} {l : Label} {cs : List (Field × Node)}
    {c : Field × Node} (h : DeclaratorsOnly (.marked m l cs)) (hc : c ∈ cs) :
    c.2.DeclaratorsOnly := (declaratorsOnly_marked.mp h).2 c hc

theorem Node.declaratorsOnly_of_fits {known : Nat → Role → Bool} {s : Role} {n : Node}
    (h : n.fits known s = true) : n.DeclaratorsOnly := by
  induction n using inductionOn generalizing s with
  | marked m l cs ih =>
    obtain ⟨-,-,-,hcs⟩ := fits_marked.mp h
    refine declaratorsOnly_marked.mpr ⟨?_,fun c hc => ?_⟩
    · rintro kind rfl c hc
      obtain ⟨t,ht,hfits⟩ := hcs c hc
      obtain rfl : t = .declarator :=
        Label.forall_roles (P := fun t => t = .declarator) (by simp [Label.table]) c.1 t ht
      have hl := has_of_fits hfits
      cases hn : c.2.label <;> rw [hn] at hl <;> cases hl
    · obtain ⟨t,-,hfits⟩ := hcs c hc
      exact ih c hc hfits

section Count

/-- Of lists that stand each below its own index, only one can hold a given position. -/
private theorem count_zipIdx {α β : Type} [DecidableEq α] {F : β → Nat → List (α × Path)}
    {cs : List β} {p r : Path} {a : α} {i : Nat}
    (hF : ∀ c ∈ cs, ∀ j, ∀ x ∈ F c j, p ++ [j] <+: x.2) :
    (cs.zipIdx.flatMap fun c => F c.1 c.2).count (a, p ++ i :: r) =
      (cs[i]?.map fun c => (F c i).count (a, p ++ i :: r)).getD 0 := by
  have hne (c : β) (hc : c ∈ cs) (j : Nat) (hj : j ≠ i) : (F c j).count (a, p ++ i :: r) = 0 := by
    refine List.count_eq_zero.mpr fun hx => hj ?_
    have hp := hF c hc j _ hx
    rw [List.prefix_append_right_inj, List.cons_prefix_cons] at hp
    exact hp.1
  -- The offset of the index runs along, so the list is split at its head.
  suffices h : ∀ (ds : List β) (k : Nat), (∀ d ∈ ds, d ∈ cs) →
      ((ds.zipIdx k).flatMap fun c => F c.1 c.2).count (a, p ++ i :: r) =
        if k ≤ i then (ds[i - k]?.map fun c => (F c i).count (a, p ++ i :: r)).getD 0 else 0 by
    simpa using h cs 0 fun _ h => h
  intro ds
  induction ds with
  | nil => simp
  | cons d ds ih =>
    intro k hd
    rw [List.zipIdx_cons, List.flatMap_cons, List.count_append,
      ih (k+1) fun d h => hd d (List.mem_cons_of_mem _ h)]
    rcases Nat.lt_trichotomy k i with h | rfl | h
    · rw [hne d (hd d List.mem_cons_self) k (by omega), if_pos (by omega), if_pos (by omega),
        show i - k = (i - (k+1)) + 1 by omega, List.getElem?_cons_succ, Nat.zero_add]
    · rw [if_neg (by omega)]
      simp
    · rw [hne d (hd d List.mem_cons_self) k (by omega), if_neg (by omega), if_neg (by omega)]

private theorem count_zipIdx_self {α β : Type} [DecidableEq α] {F : β → Nat → List (α × Path)}
    {cs : List β} {p q : Path} {a : α} (hF : ∀ c ∈ cs, ∀ j, ∀ x ∈ F c j, p ++ [j] <+: x.2)
    (hq : ∀ i r, q ≠ p ++ i :: r) : (cs.zipIdx.flatMap fun c => F c.1 c.2).count (a, q) = 0 := by
  refine List.count_eq_zero.mpr fun hx => ?_
  obtain ⟨c,hc,hx⟩ := List.mem_flatMap.mp hx
  obtain ⟨r,hr⟩ := hF c.1 (List.fst_mem_of_mem_zipIdx hc) c.2 _ hx
  exact hq c.2 r (by simpa using hr.symm)

end Count

namespace Node
open Event

/-- The positions a node binds, as sites. -/
private def boundSites (member : Bool) (n : Node) (p : Path) : List (Site × Path) :=
  (n.bound member p).map fun o => (.declared, o.path)

private theorem sitesAll_declare (os : List Occurrence) (reach : Reach) (kind : BindingKind) :
    sitesAll (os.map (.declare reach kind)) = os.map fun o => (.declared, o.path) := by
  rw [sitesAll_eq, List.flatMap_map, List.map_eq_flatMap]
  rfl

/-- A position is done something to at most once by the walk of a node and by what its parent
declares in it. -/
private structure Once (n : Node) (p : Path) (x : Site × Path) : Prop where
  bound : ∀ b, (n.boundSites b p).count x + (sitesAll (n.walk.visit p)).count x ≤ 1
  inside : (sitesAll (n.walk.inside p)).count x ≤ 1
  member : ∀ slot reach, (sitesAll (Piece.member slot reach n p)).count x ≤ 1
  declarator : n.label = .variableDeclarator → ∀ reach,
    (sitesAll (Piece.member .id reach n p)).count x + (sitesAll (n.walk.visit p)).count x ≤ 1

private theorem count_component_le (n : Node) (p : Path) (x : Site × Path) :
    (sitesAll (Piece.component n p)).count x ≤ 1 := by
  unfold Piece.component
  split
  · split
    · simp [sitesAll]
    · exact Nat.le_trans List.count_le_length (by simp [sitesAll, sites])
  · simp [sitesAll]

variable {f : Field} {n : Node} {p : Path} {x : Site × Path}

private theorem below_eventsAt {piece : Piece} (h : x ∈ sitesAll (piece.eventsAt f n p)) :
    p <+: x.2 := by
  rw [sitesAll_eq] at h
  obtain ⟨e,he,hx⟩ := List.mem_flatMap.mp h
  exact (sound_eventsAt (sound_walk n p).1 (sound_walk n p).2 he).sites_below x hx

private theorem below_boundSites {b : Bool} (h : x ∈ n.boundSites b p) : p <+: x.2 := by
  obtain ⟨o,ho,rfl⟩ := List.mem_map.mp h
  obtain ⟨q,hq,-⟩ := (In_of_mem_bound ho).1.1
  exact ⟨q,hq.symm⟩

private theorem count_eventsAt (piece : Piece) :
    (sitesAll (piece.eventsAt f n p)).count x =
      match piece with
      | .declare g _ _ => if f = g then (n.boundSites false p).count x else 0
      | .visit test => if test f then (sitesAll (n.walk.visit p)).count x else 0
      | .body =>
        if f = .body then
          if n.label = .blockStatement then (sitesAll (n.walk.inside p)).count x
          else (sitesAll (n.walk.visit p)).count x
        else 0
      | .tag => if f = .name then (sitesAll (Piece.component n p)).count x else 0
      | .declarator reach => (sitesAll (Piece.member .id reach n p)).count x
      | .specifier =>
        if f = .specifiers then (sitesAll (Piece.member .localName .root n p)).count x else 0 := by
  cases piece <;> simp only [Piece.eventsAt] <;> split <;> (try split) <;>
    simp_all [sitesAll, sitesAll_declare, boundSites, boundIdentifiers_eq]

/-- No kind of node walks a subtree twice, or declares in a subtree what its walk declares. -/
private theorem sum_pieces_le (l : Label) (b : Bool) (h : Once n p x)
    (hd : ∀ kind, l = .variableDeclaration kind → n.label = .variableDeclarator) :
    (l.plan.pieces.map fun piece => (sitesAll (piece.eventsAt f n p)).count x).sum +
      (match l.target b with
        | some (g, c) => if f = g then (n.boundSites c p).count x else 0
        | none => 0) ≤ 1 := by
  have hf := h.bound false
  have ht := h.bound true
  have hi := h.inside
  have htag := count_component_le n p x
  have hl := h.member .localName .root
  simp only [count_eventsAt]
  cases l <;> simp only [Label.plan, Plan.pieces, Plan.slot, Plan.everything, Label.target]
  case variableDeclaration kind =>
    have := h.declarator (hd kind rfl) (if kind = "var" then .function else .here)
    simpa using this
  all_goals
    simp only [List.append_nil, List.nil_append, Option.map_some, Option.map_none, Option.getD_some,
      Option.getD_none, List.cons_append, List.map_cons, List.map_nil, List.sum_cons, List.sum_nil,
      if_true, Nat.add_zero]
  all_goals try omega
  all_goals grind

section Children
variable {cs : List (Field × Node)} {a : Site} {q r : Path} {i : Nat}

private theorem sitesAll_across (piece : Piece) :
    sitesAll (piece.across cs p) =
      cs.zipIdx.flatMap fun c => sitesAll (piece.eventsAt c.1.1 c.1.2 (p ++ [c.2])) := by
  simp only [sitesAll_eq, Piece.across, List.flatMap_assoc]

private theorem count_across (piece : Piece) :
    (sitesAll (piece.across cs p)).count (a, p ++ i :: r) =
      (cs[i]?.map fun c =>
        (sitesAll (piece.eventsAt c.1 c.2 (p ++ [i]))).count (a, p ++ i :: r)).getD 0 := by
  rw [sitesAll_across]
  exact count_zipIdx (F := fun (c : Field × Node) i => sitesAll (piece.eventsAt c.1 c.2 (p ++ [i])))
    fun c _ j x hx => below_eventsAt hx

private theorem count_across_self (piece : Piece) (hq : ∀ i r, q ≠ p ++ i :: r) :
    (sitesAll (piece.across cs p)).count (a, q) = 0 := by
  rw [sitesAll_across]
  exact count_zipIdx_self
    (F := fun (c : Field × Node) i => sitesAll (piece.eventsAt c.1 c.2 (p ++ [i])))
    (fun c _ j x hx => below_eventsAt hx) hq

private def targetSites (cs : List (Field × Node)) (p : Path) (t : Option (Field × Bool)) :
    List (Site × Path) :=
  match t with
  | some (f, b) => cs.zipIdx.flatMap fun c =>
      if c.1.1 = f then c.1.2.boundSites b (p ++ [c.2]) else []
  | none => []

private theorem below_ite_boundSites {b : Bool} {P : Prop} [Decidable P]
    (h : x ∈ if P then n.boundSites b p else []) : p <+: x.2 :=
  below_boundSites (List.mem_ite_nil_right.mp h).2

private theorem count_targetSites (t : Option (Field × Bool)) :
    (targetSites cs p t).count (a, p ++ i :: r) =
      (cs[i]?.map fun c =>
        match t with
        | some (f, b) =>
          if c.1 = f then (c.2.boundSites b (p ++ [i])).count (a, p ++ i :: r) else 0
        | none => 0).getD 0 := by
  unfold targetSites
  split
  · rename_i f b
    rw [count_zipIdx (F := fun (c : Field × Node) i =>
      if c.1 = f then c.2.boundSites b (p ++ [i]) else []) fun c _ j x hx => below_ite_boundSites hx]
    simp only [apply_ite (List.count _), List.count_nil]
  · cases cs[i]? <;> rfl

private theorem count_targetSites_self (t : Option (Field × Bool)) (hq : ∀ i r, q ≠ p ++ i :: r) :
    (targetSites cs p t).count (a, q) = 0 := by
  unfold targetSites
  split
  · rename_i f b
    exact count_zipIdx_self (F := fun (c : Field × Node) i =>
      if c.1 = f then c.2.boundSites b (p ++ [i]) else [])
      (fun c _ j x hx => below_ite_boundSites hx) hq
  · rfl

end Children

/-- What a node does at its own position. -/
private def ownSites (l : Label) (p : Path) : List (Site × Path) :=
  (l.plan.name.map fun _ => (.referred, p)).toList ++ (l.plan.scope.map fun _ => (.opened, p)).toList

private def ownBound (l : Label) (p : Path) : List (Site × Path) :=
  match l with
  | .identifier _ => [(.declared, p)]
  | _ => []

private theorem count_own_le (l : Label) (p : Path) (x : Site × Path) :
    (ownBound l p).count x + (ownSites l p).count x ≤ 1 := by
  rw [← List.count_append]
  refine List.nodup_iff_count_le_one.mp ?_ x
  cases l <;> simp [ownBound, ownSites, Label.plan]

private theorem count_own_below (l : Label) (p : Path) (a : Site) (i : Nat) (r : Path) :
    (ownBound l p).count (a, p ++ i :: r) = 0 ∧ (ownSites l p).count (a, p ++ i :: r) = 0 := by
  constructor <;> refine List.count_eq_zero.mpr fun h => ?_
  · cases l <;> simp [ownBound] at h
  · simp [ownSites] at h

private theorem boundSites_marked (m : Option Nat) (l : Label) (cs : List (Field × Node)) (b : Bool) :
    (marked m l cs).boundSites b p = ownBound l p ++ targetSites cs p (l.target b) := by
  rw [boundSites, bound_marked, List.map_append]
  congr 1
  · cases l <;> rfl
  · unfold targetSites
    split
    · simp only [List.map_flatMap, apply_ite (List.map _), boundSites, List.map_nil]
    · rfl

private theorem count_visit (m : Option Nat) (l : Label) (cs : List (Field × Node)) :
    (sitesAll ((marked m l cs).walk.visit p)).count x =
      (ownSites l p).count x +
        (l.plan.pieces.map fun piece => (sitesAll (piece.across cs p)).count x).sum := by
  have hpieces (pieces : List Piece) :
      (sitesAll (pieces.flatMap (Piece.across cs p))).count x =
        (pieces.map fun piece => (sitesAll (piece.across cs p)).count x).sum := by
    rw [sitesAll_eq, List.flatMap_assoc, List.count_flatMap]
    simp only [← sitesAll_eq]
    rfl
  rw [walk_visit, Plan.events, ownSites, ← hpieces, Plan.pieces]
  cases l.plan.name <;> cases l.plan.scope <;>
    simp [sitesAll_eq, sites, List.count_cons] <;> omega

private theorem count_member (m : Option Nat) (l : Label) (cs : List (Field × Node)) (slot : Field)
    (reach : Reach) (p : Path) (x : Site × Path) :
    (sitesAll (Piece.member slot reach (marked m l cs) p)).count x = 0 ∨
    ∃ j target, cs[j]? = some (slot, target) ∧ (∃ r, x.2 = p ++ j :: r) ∧
      (sitesAll (Piece.member slot reach (marked m l cs) p)).count x =
        (target.boundSites false (p ++ [j])).count x := by
  unfold Piece.member
  split
  · rename_i j target hj ht
    rw [sitesAll_declare]
    by_cases hx : x ∈ target.boundSites false (p ++ [j])
    · obtain ⟨r,hr⟩ := below_boundSites hx
      exact .inr ⟨j,target,getElem?_index? hj ht,⟨r,by simp [← hr]⟩,rfl⟩
    · exact .inl (List.count_eq_zero.mpr hx)
  · exact .inl rfl

private theorem count_marked_le {m : Option Nat} {l : Label} {cs : List (Field × Node)}
    (h : (marked m l cs).DeclaratorsOnly)
    (hchild : ∀ c ∈ cs, ∀ (p : Path) (x : Site × Path), Once c.2 p x) (p : Path) (x : Site × Path)
    (b : Bool) : ((marked m l cs).boundSites b p).count x +
      (sitesAll ((marked m l cs).walk.visit p)).count x ≤ 1 := by
  obtain ⟨a,q⟩ := x
  rw [boundSites_marked, count_visit, List.count_append]
  by_cases hq : ∃ i r, q = p ++ i :: r
  · obtain ⟨i,r,rfl⟩ := hq
    obtain ⟨hb,ho⟩ := count_own_below l p a i r
    simp only [hb, ho, count_targetSites, count_across, Nat.zero_add]
    cases hc : cs[i]? with
    | none => simp
    | some c =>
      have hc := List.mem_of_getElem? hc
      have hs := sum_pieces_le (f := c.1) l b (hchild c hc (p ++ [i]) (a, p ++ i :: r))
        fun kind hl => h [] _ kind rfl hl c hc
      simp only [Option.map_some, Option.getD_some]
      omega
  · push Not at hq
    have := count_own_le l p (a, q)
    simp only [count_targetSites_self _ hq, count_across_self _ hq]
    simpa using this

private theorem once (n : Node) (h : n.DeclaratorsOnly) (p : Path) (x : Site × Path) :
    Once n p x := by
  induction n using inductionOn generalizing p x with
  | marked m l cs ih =>
    have hchild (c : Field × Node) (hc : c ∈ cs) := ih c hc (h.subtree hc)
    have hbound := count_marked_le h hchild p x
    refine ⟨hbound,?_,?_,?_⟩
    · obtain ⟨a,q⟩ := x
      rw [walk_inside]
      by_cases hq : ∃ i r, q = p ++ i :: r
      · obtain ⟨i,r,rfl⟩ := hq
        rw [count_across]
        cases hc : cs[i]? with
        | none => simp
        | some c =>
          have := (hchild c (List.mem_of_getElem? hc) (p ++ [i]) (a, p ++ i :: r)).bound false
          simp only [Plan.everything, count_eventsAt, if_true, Option.map_some, Option.getD_some]
          omega
      · push Not at hq
        simp [count_across_self _ hq]
    · intro slot reach
      rcases count_member m l cs slot reach p x with hz | ⟨j,target,hj,-,he⟩
      · rw [hz]
        omega
      · have := (hchild (slot,target) (List.mem_of_getElem? hj) (p ++ [j]) x).bound false
        dsimp only at this
        omega
    · intro hl reach
      obtain rfl : l = .variableDeclarator := hl
      rcases count_member m .variableDeclarator cs .id reach p x with hz | ⟨j,target,hj,⟨r,hx⟩,he⟩
      · have := hbound false
        omega
      · have := (hchild _ (List.mem_of_getElem? hj) (p ++ [j]) x).bound false
        obtain ⟨a,q⟩ := x
        obtain rfl : q = p ++ j :: r := hx
        rw [he, count_visit, (count_own_below _ p a j r).2]
        simpa [Label.plan, Plan.pieces, Plan.everything, count_across, hj, count_eventsAt] using this

/-- No position is declared, referred from or opened more than once in the walk of a tree. -/
theorem sites_nodup (n : Node) (h : n.DeclaratorsOnly) (p : Path) :
    (sitesAll (n.walk.visit p)).Nodup := by
  refine List.nodup_iff_count_le_one.mpr fun x => ?_
  have := (once n h p x).bound false
  omega

end Node

end Unravel
