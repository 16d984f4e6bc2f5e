import Mathlib.Data.List.Nodup
import Unravel.Syntax.Forest
import Unravel.Syntax.Repeated

/-! Induction over syntax trees, and what is defined subtree by subtree as one list operation. -/

namespace Unravel.Label

def isVariables : Label → Bool
  | .variableDeclaration _ => true
  | _ => false

theorem isVariables_iff {l : Label} :
    l.isVariables = true ↔ ∃ kind, l = .variableDeclaration kind := by
  cases l <;> simp [isVariables]

end Unravel.Label

namespace Unravel.Node

/-- A property of all trees may be assumed of the subtrees, whatever slots they hang in. -/
theorem inductionOn {P : Node → Prop}
    (marked : ∀ m l cs, (∀ c ∈ cs, P c.2) → P (.marked m l cs)) (n : Node) : P n :=
  @Node.rec P (fun cs => ∀ c ∈ cs, P c.2) (fun c => P c.2) marked (by simp)
    (fun _ _ hc hcs => List.forall_mem_cons.mpr ⟨hc,hcs⟩) (fun _ _ h => h) n

def IsProgram (n : Node) : Prop := ∃ sourceType, n.label = .program sourceType

section Fold
variable {α : Type} (step : Label → List (Field × Node × α) → α)

private theorem foldAll_eq (cs : List (Field × Node)) :
    fold.foldAll step cs = cs.map fun c => (c.1, c.2, c.2.fold step) := by
  induction cs with
  | nil => rfl
  | cons c cs ih => simp only [fold.foldAll, ih, List.map_cons]

theorem fold_marked (m : Option Nat) (l : Label) (cs : List (Field × Node)) :
    (marked m l cs).fold step = step l (cs.map fun c => (c.1, c.2, c.2.fold step)) := by
  rw [fold, foldAll_eq]

end Fold

/-- The label at a position. -/
def labelAt? (n : Node) (q : Path) : Option Label := (n.at? q).map label

@[simp]
theorem at?_nil (n : Node) : n.at? [] = some n := rfl

@[simp]
theorem at?_cons (m : Option Nat) (l : Label) (cs : List (Field × Node)) (i : Nat) (q : Path) :
    (marked m l cs).at? (i :: q) = cs[i]?.bind fun c => c.2.at? q := rfl

@[simp]
theorem labelAt?_nil (m : Option Nat) (l : Label) (cs : List (Field × Node)) :
    (marked m l cs).labelAt? [] = some l := rfl

theorem labelAt?_cons (m : Option Nat) (l : Label) (cs : List (Field × Node)) (i : Nat) (q : Path) :
    (marked m l cs).labelAt? (i :: q) = cs[i]?.bind fun c => c.2.labelAt? q := by
  simp only [labelAt?, at?_cons]
  cases cs[i]? <;> rfl

theorem at?_append (n : Node) (p q : Path) : n.at? (p ++ q) = (n.at? p).bind fun c => c.at? q := by
  induction p generalizing n with
  | nil => rfl
  | cons i p ih =>
    obtain ⟨m,l,cs⟩ := n
    simp only [List.cons_append, at?_cons]
    cases cs[i]? with
    | none => rfl
    | some c => exact ih c.2

/-- The first subtree in a slot stands at the index of the slot. -/
theorem child?_of_index? {n : Node} {f : Field} {j : Nat} (h : n.index? f = some j) :
    n.child? f = (n.subtrees[j]?).map Prod.snd := by
  obtain ⟨hlt,hf,hmin⟩ := List.findIdx?_eq_some_iff_getElem.mp h
  have hfind : n.subtrees.find? (fun c => c.1 = f) = some n.subtrees[j] :=
    List.find?_eq_some_iff_getElem.mpr ⟨hf,j,hlt,rfl,fun i hi => by simpa using hmin i hi⟩
  rw [child?, hfind, List.getElem?_eq_getElem hlt]

theorem exists_index? {n c : Node} {f : Field} (h : n.child? f = some c) :
    ∃ i, n.index? f = some i := by
  obtain ⟨e,he,-⟩ := Option.map_eq_some_iff.mp h
  obtain ⟨hf,i,hi,rfl,hmin⟩ := List.find?_eq_some_iff_getElem.mp he
  exact ⟨i,List.findIdx?_eq_some_iff_getElem.mpr ⟨hi,hf,fun j hj => by simpa using hmin j hj⟩⟩

theorem getElem?_index? {n : Node} {f : Field} {j : Nat} {c : Node} (hj : n.index? f = some j)
    (hc : n.child? f = some c) : n.subtrees[j]? = some (f, c) := by
  obtain ⟨hlt,hf,-⟩ := List.findIdx?_eq_some_iff_getElem.mp hj
  rw [child?_of_index? hj, List.getElem?_eq_getElem hlt] at hc
  rw [List.getElem?_eq_getElem hlt, ← of_decide_eq_true hf, ← Option.some.inj hc]

theorem mem_row_of_child? {n c : Node} {f : Field} (h : n.child? f = some c) : c ∈ n.row f := by
  obtain ⟨e,he,rfl⟩ := Option.map_eq_some_iff.mp h
  refine List.mem_map_of_mem (List.mem_filter.mpr ⟨List.mem_of_find?_eq_some he,?_⟩)
  simpa using List.find?_some he

theorem exists_at?_of_mem {n : Node} {c : Field × Node} (h : c ∈ n.subtrees) :
    ∃ i, n.at? [i] = some c.2 := by
  obtain ⟨i,hi⟩ := List.mem_iff_getElem?.mp h
  refine ⟨i,?_⟩
  simp only [at?, hi, Option.bind_some]

theorem exists_at?_of_row {n c : Node} {f : Field} (h : c ∈ n.row f) : ∃ i, n.at? [i] = some c := by
  obtain ⟨e,he,rfl⟩ := List.mem_map.mp h
  exact exists_at?_of_mem (List.mem_filter.mp he).1

theorem exists_at?_of_child? {n c : Node} {f : Field} (h : n.child? f = some c) :
    ∃ i, n.at? [i] = some c := exists_at?_of_row (mem_row_of_child? h)

theorem label_of_identifierName? {n : Node} {name : String} (h : n.identifierName? = some name) :
    n.label = .identifier name := by
  unfold identifierName? at h
  split at h
  · rename_i hl
    rw [hl, Option.some.inj h]
  · cases h

private theorem positionsAll_eq (p : Path) (i : Nat) (cs : List (Field × Node)) :
    positionsAll p i cs = (cs.zipIdx i).flatMap fun c => c.1.2.positions (p ++ [c.2]) := by
  induction cs generalizing i with
  | nil => rfl
  | cons c cs ih => simp only [positionsAll, ih, List.zipIdx_cons, List.flatMap_cons]

theorem positions_marked (p : Path) (m : Option Nat) (l : Label) (cs : List (Field × Node)) :
    (marked m l cs).positions p =
      (p, l) :: cs.zipIdx.flatMap fun c => c.1.2.positions (p ++ [c.2]) := by
  rw [positions, positionsAll_eq]

/-- The listed positions are those at which a subtree stands, each with its label. -/
theorem mem_positions {n : Node} {p r : Path} {l : Label} :
    (r, l) ∈ n.positions p ↔ ∃ q, r = p ++ q ∧ n.labelAt? q = some l := by
  induction n using inductionOn generalizing p with
  | marked m l' cs ih =>
    simp only [positions_marked, List.mem_cons, Prod.mk.injEq, List.mem_flatMap, Prod.exists,
      List.mem_zipIdx_iff_getElem?]
    constructor
    · rintro (⟨rfl,rfl⟩ | ⟨f,c,i,hc,h⟩)
      · exact ⟨[],by simp,rfl⟩
      · obtain ⟨q,rfl,hq⟩ := (ih (f,c) (List.mem_of_getElem? hc)).mp h
        exact ⟨i :: q,by simp,by rw [labelAt?_cons, hc]; exact hq⟩
    · rintro ⟨q,rfl,hq⟩
      cases q with
      | nil => exact .inl ⟨by simp,(Option.some.inj hq).symm⟩
      | cons i q =>
        rw [labelAt?_cons] at hq
        obtain ⟨c,hc,hq⟩ := Option.bind_eq_some_iff.mp hq
        exact .inr ⟨c.1,c.2,i,hc,(ih c (List.mem_of_getElem? hc)).mpr ⟨q,by simp,hq⟩⟩

section Relabel
variable (f : Path → Label → Label)

private theorem relabelAll_eq (p : Path) (i : Nat) (cs : List (Field × Node)) :
    relabelAll f p i cs = (cs.zipIdx i).map fun c => (c.1.1, c.1.2.relabel f (p ++ [c.2])) := by
  induction cs generalizing i with
  | nil => rfl
  | cons c cs ih => simp only [relabelAll, ih, List.zipIdx_cons, List.map_cons]

theorem relabel_marked (p : Path) (m : Option Nat) (l : Label) (cs : List (Field × Node)) :
    (marked m l cs).relabel f p =
      .marked m (f p l) (cs.zipIdx.map fun c => (c.1.1, c.1.2.relabel f (p ++ [c.2]))) := by
  rw [relabel, relabelAll_eq]

@[simp]
theorem label_relabel (p : Path) (n : Node) : (n.relabel f p).label = f p n.label := by
  obtain ⟨m,l,cs⟩ := n
  rfl

end Relabel

theorem editAll_eq {gone : List Path} {put : Path → Option Node} (p : Path) (i : Nat)
    (cs : List (Field × Node)) :
    editAll gone put p i cs = (cs.zipIdx i).flatMap fun c =>
      if gone.contains (p ++ [c.2]) then [] else [(c.1.1, c.1.2.edit gone put (p ++ [c.2]))] := by
  induction cs generalizing i with
  | nil => rfl
  | cons c cs ih =>
    rw [editAll, ih, List.zipIdx_cons, List.flatMap_cons]
    split <;> rfl

/-! ### Marks -/

@[simp]
theorem update_self (n : Node) : n.update n.label n.subtrees = n := by
  obtain ⟨m,l,cs⟩ := n
  rfl

theorem marksAll_eq (cs : List (Field × Node)) : marksAll cs = cs.flatMap fun c => c.2.marks := by
  induction cs with
  | nil => rfl
  | cons c cs ih => rw [marksAll, ih, List.flatMap_cons]

theorem marks_marked (m : Option Nat) (l : Label) (cs : List (Field × Node)) :
    (marked m l cs).marks = m.toList ++ cs.flatMap fun c => c.2.marks := by
  rw [marks, marksAll_eq]

theorem marks_eq_nil {m : Option Nat} {l : Label} {cs : List (Field × Node)} :
    (marked m l cs).marks = [] ↔ m = none ∧ ∀ c ∈ cs, c.2.marks = [] := by
  rw [marks_marked]
  cases m <;> simp

theorem marks_of_mem_subtrees {n : Node} (h : n.marks = []) {c : Field × Node}
    (hc : c ∈ n.subtrees) : c.2.marks = [] := by
  obtain ⟨m,l,cs⟩ := n
  exact (marks_eq_nil.mp h).2 c hc

theorem marks_of_mem_row {n c : Node} {f : Field} (h : n.marks = []) (hc : c ∈ n.row f) :
    c.marks = [] := by
  obtain ⟨e,he,rfl⟩ := List.mem_map.mp hc
  exact marks_of_mem_subtrees h (List.mem_filter.mp he).1

theorem marks_of_child? {n c : Node} {f : Field} (h : n.marks = []) (hc : n.child? f = some c) :
    c.marks = [] := marks_of_mem_row h (mem_row_of_child? hc)

theorem hasMarks_eq_false {n : Node} : n.hasMarks = false ↔ n.marks = [] := by
  simp [hasMarks]

theorem numberAll_cons (next : Nat) (f : Field) (n : Node) (rest : List (Field × Node)) :
    numberAll next ((f, n) :: rest) =
      ((f, (n.number next).1) :: (numberAll (n.number next).2 rest).1,
        (numberAll (n.number next).2 rest).2) := rfl

theorem number_marked (next : Nat) (m : Option Nat) (l : Label) (cs : List (Field × Node)) :
    (marked m l cs).number next =
      (.marked (some (m.getD next)) l (numberAll (if m.isNone then next + 1 else next) cs).1,
        (numberAll (if m.isNone then next + 1 else next) cs).2) := rfl

/-- Every node of a tree has a mark. -/
def AllMarked (n : Node) : Prop := ∀ q a, n.at? q = some a → a.mark?.isSome

theorem allMarked_marked {m : Option Nat} {l : Label} {cs : List (Field × Node)} :
    (marked m l cs).AllMarked ↔ m.isSome ∧ ∀ c ∈ cs, c.2.AllMarked := by
  constructor
  · intro h
    refine ⟨h [] _ rfl,fun c hc q a ha => ?_⟩
    obtain ⟨i,hi⟩ := List.mem_iff_getElem?.mp hc
    refine h (i :: q) a ?_
    rw [at?_cons, hi]
    exact ha
  · rintro ⟨hm,hcs⟩ q a ha
    cases q with
    | nil =>
      obtain rfl := Option.some.inj ha
      exact hm
    | cons i q =>
      obtain ⟨c,hc,ha⟩ := Option.bind_eq_some_iff.mp ha
      exact hcs c (List.mem_of_getElem? hc) q a ha

private theorem numberAll_eq_self {cs : List (Field × Node)}
    (h : ∀ c ∈ cs, ∀ next, c.2.number next = (c.2, next)) (next : Nat) :
    numberAll next cs = (cs, next) := by
  induction cs with
  | nil => rfl
  | cons c cs ih =>
    obtain ⟨hc,hcs⟩ := List.forall_mem_cons.mp h
    rw [numberAll_cons, hc, ih hcs]

/-- Where everything is marked nothing is numbered. -/
theorem AllMarked.number {n : Node} (h : n.AllMarked) (next : Nat) : n.number next = (n, next) := by
  induction n using inductionOn generalizing next with
  | marked m l cs ih =>
    obtain ⟨hm,hcs⟩ := allMarked_marked.mp h
    obtain ⟨k,rfl⟩ := Option.isSome_iff_exists.mp hm
    have hall := numberAll_eq_self (fun c hc => ih c hc (hcs c hc)) next
    rw [number_marked]
    simp [hall]

theorem AllMarked.numberAll {cs : List (Field × Node)} (h : ∀ c ∈ cs, c.2.AllMarked) (next : Nat) :
    numberAll next cs = (cs, next) := numberAll_eq_self (fun c hc => (h c hc).number) next

theorem unmark_marked (test : Nat → Bool) (m : Option Nat) (l : Label) (cs : List (Field × Node)) :
    (marked m l cs).unmark test =
      .marked (m.filter test) l (cs.map fun c => (c.1, c.2.unmark test)) := by
  have hall : unmarkAll test cs = cs.map fun c => (c.1, c.2.unmark test) := by
    induction cs with
    | nil => rfl
    | cons c cs ih => rw [unmarkAll, ih, List.map_cons]
  rw [unmark, hall]

/-- Where all marks satisfy the test none is taken away. -/
theorem unmark_eq_self {test : Nat → Bool} {n : Node} (h : ∀ k ∈ n.marks, test k = true) :
    n.unmark test = n := by
  induction n using inductionOn with
  | marked m l cs ih =>
    rw [marks_marked] at h
    obtain ⟨hm,hcs⟩ := List.forall_mem_append.mp h
    have hall : cs.map (fun c => (c.1, c.2.unmark test)) = cs := by
      refine (List.map_congr_left fun c hc => ?_).trans (List.map_id cs)
      rw [ih c hc fun k hk => hcs k (List.mem_flatMap.mpr ⟨c,hc,hk⟩)]
      rfl
    rw [unmark_marked, hall]
    cases m with
    | none => rfl
    | some k => rw [Option.filter_some_pos (hm k (by simp))]

end Unravel.Node

namespace Unravel.Repeats

/-- Among the subtrees of a node nothing is new if all of them are marked. -/
theorem claim_eq_self {s : Repeats} {n : Node} {cs : List (Field × Node)}
    (h : n.mark?.isSome → ∀ c ∈ cs, c.2.AllMarked) : s.claim n cs = (cs, s) := by
  unfold claim
  split
  · rfl
  · rename_i hm
    have hcs := h (by simpa [Option.isSome_iff_ne_none] using hm)
    simp [Node.AllMarked.numberAll hcs]

@[simp]
theorem size_ofTree (n : Node) : (ofTree n).current.size = n.nextMark := by simp [ofTree]

/-- Before the first visit nothing is held for any mark. -/
theorem getD_ofTree (n : Node) (k : Nat) : (ofTree n).current.getD k none = none := by
  by_cases hk : k < n.nextMark <;> simp [ofTree, hk]

theorem getD_append_replicate {α : Type} (xs : Array (Option α)) (k n : Nat) :
    (xs ++ Array.replicate n none).getD k none = xs.getD k none := by
  simp only [Array.getD_eq_getD_getElem?, Array.getElem?_append]
  split
  · rfl
  · rename_i h
    have hnone : xs[k]? = none := Array.getElem?_eq_none (by omega)
    rw [hnone]
    cases hr : (Array.replicate n (none : Option α))[k - xs.size]? with
    | none => rfl
    | some v =>
      obtain ⟨-,rfl⟩ := by simpa [Array.getElem?_replicate] using hr
      rfl

theorem getD_set! {α : Type} (xs : Array (Option α)) (k m : Nat) (v : Option α) :
    (xs.set! m v).getD k none = v ∧ k = m ∨ (xs.set! m v).getD k none = xs.getD k none := by
  simp only [Array.set!_eq_setIfInBounds, Array.getD_eq_getD_getElem?,
    Array.getElem?_setIfInBounds]
  by_cases h : m = k
  · subst h
    by_cases hm : m < xs.size
    · simp [hm]
    · simp [hm]
  · simp [h]

end Unravel.Repeats

namespace Unravel.Rule

theorem visitAll_cons (r : Rule) (l : Label) (before : List (Field × Node)) (f : Field)
    (n : Node) (rest : List (Field × Node)) :
    r.visitAll l before ((f, n) :: rest) =
      let v := r.visit ⟨some l,f,(before.filter fun c => c.1 = f).map Prod.snd⟩ n
      let more := r.visitAll l (before ++ [(f, n)]) rest
      ((if n.isHole then [(f, n)] else place l f n v.result) ++ more.1,
        (if n.isHole then 0 else v.count) + more.2) := rfl

theorem visitRepeated_zero (rule : Rule) (ctx : Context) (n : Node) (s : Repeats) :
    rule.visitRepeated 0 ctx n s = (.keep n, s) := by
  rw [visitRepeated]
  rfl

theorem visitRepeated_early {rule : Rule} {fuel : Nat} {ctx : Context} {n : Node} {s : Repeats}
    {v : Visit} (h : rule.early (s.latest n) = some v) :
    rule.visitRepeated (fuel + 1) ctx n s =
      ({ v with kept := (s.note v.kept).1 }, (s.note v.kept).2) := by
  rw [visitRepeated]
  simp [bind, StateT.bind, get, getThe, MonadStateOf.get, StateT.get, pure, modifyGet,
    MonadStateOf.modifyGet, h]
  rfl

theorem visitRepeated_finish {rule : Rule} {fuel : Nat} {ctx : Context} {n : Node} {s : Repeats}
    (h : rule.early (s.latest n) = none) :
    rule.visitRepeated (fuel + 1) ctx n s =
      let n := s.latest n
      let visited := rule.visitAllRepeated fuel n.label [] n.subtrees s
      let claimed := visited.2.claim n visited.1.1
      let v := rule.finish ctx (n.update n.label claimed.1)
      ({ v with count := visited.1.2 + v.count, kept := (claimed.2.note v.kept).1 },
        (claimed.2.note v.kept).2) := by
  rw [visitRepeated]
  simp [bind, StateT.bind, get, getThe, MonadStateOf.get, StateT.get, pure, modifyGet,
    MonadStateOf.modifyGet, h]
  rfl

theorem visitAllRepeated_nil (rule : Rule) (fuel : Nat) (l : Label)
    (before : List (Field × Node)) (s : Repeats) :
    rule.visitAllRepeated fuel l before [] s = (([], 0), s) := by
  rw [visitAllRepeated]
  rfl

theorem visitAllRepeated_hole (rule : Rule) (fuel : Nat) (l : Label)
    (before : List (Field × Node)) (f : Field) {n : Node} (h : n.isHole = true)
    (rest : List (Field × Node)) (s : Repeats) :
    rule.visitAllRepeated fuel l before ((f, n) :: rest) s =
      let more := rule.visitAllRepeated fuel l (before ++ [(f, n)]) rest s
      (([(f, n)] ++ more.1.1, 0 + more.1.2), more.2) := by
  rw [visitAllRepeated]
  simp only [bind, pure, h, if_true]
  rfl

theorem visitAllRepeated_node (rule : Rule) (fuel : Nat) (l : Label)
    (before : List (Field × Node)) (f : Field) {n : Node} (h : n.isHole = false)
    (rest : List (Field × Node)) (s : Repeats) :
    rule.visitAllRepeated fuel l before ((f, n) :: rest) s =
      let v := rule.visitRepeated fuel ⟨some l,f,membersBefore before f n⟩ n s
      let more := rule.visitAllRepeated fuel l (before ++ [(f, n)]) rest v.2
      ((place l f n v.1.result ++ more.1.1, v.1.count + more.1.2), more.2) := by
  rw [visitAllRepeated]
  simp [bind, pure, h]
  rfl

end Unravel.Rule
