import Mathlib.Data.List.Nodup
import Mathlib.Logic.Relation
import Unravel.Scope.Table

/-! Scopes made one by one, with names declared in them and looked up from them in between. The
steps alone tell how the scopes are nested and what each one binds, and the table agrees. -/

namespace Unravel

/-- A step: to make a scope inside another, to declare a name in one, or to look one up from it and
note the use. -/
inductive ScopeStep where
  | child (parent : Nat) (isFunction : Bool)
  | declare (scope : Nat) (kind : BindingKind) (o : Occurrence)
  | refer (scope : Nat) (o : Occurrence)
deriving DecidableEq, Repr

namespace ScopeTable

def take (t : ScopeTable) : ScopeStep → ScopeTable
  | .child p f => (t.addChild p f).1
  | .declare i kind o => t.declare i kind o
  | .refer i o => (t.refer i o).1

/-- The table after steps from a single function scope. -/
def run (steps : List ScopeStep) : ScopeTable := steps.foldl take start

end ScopeTable

namespace ScopeStep

/-- The scope at which a step is taken. -/
def scope : ScopeStep → Nat
  | .child i _ | .declare i _ _ | .refer i _ => i

/-- The scope that a step makes: its parent, and whether it is a function's. -/
def made? : ScopeStep → Option (Option Nat × Bool)
  | .child p f => some (some p, f)
  | _ => none

/-- What a step declares in a scope under a name. -/
def declared? (i : Nat) (name : String) : ScopeStep → Option (BindingKind × Occurrence)
  | .declare j kind o => if j = i ∧ o.name = name then some (kind, o) else none
  | _ => none

/-- Whether steps are taken at scopes that are there, where so many are there before the first. -/
def legal : Nat → List ScopeStep → Bool
  | _, [] => true
  | n, s :: rest => s.scope < n && legal (if s.made?.isSome then n + 1 else n) rest

section Told
variable (steps : List ScopeStep)

/-- All scopes in order of creation. The first one is a function's and has no parent. -/
def scopes : List (Option Nat × Bool) := (none, true) :: steps.filterMap made?

def parent? (i : Nat) : Option Nat := (scopes steps)[i]?.bind Prod.fst

def IsFunction (i : Nat) : Prop := ∃ p, (scopes steps)[i]? = some (p, true)

/-- The scopes right inside a scope, in order of creation. -/
def children (i : Nat) : List Nat :=
  (List.range (scopes steps).length).filter fun j => parent? steps j = some i

/-- A scope is another one or lies inside it, at any depth. -/
def Within : Nat → Nat → Prop := Relation.ReflTransGen fun i p => parent? steps i = some p

/-- From a scope outwards, the first one with a property. -/
inductive Nearest (P : Nat → Prop) : Nat → Nat → Prop
  | here {i : Nat} (h : P i) : Nearest P i i
  | outer {i p j : Nat} (h : ¬P i) (hp : parent? steps i = some p) (hj : Nearest P p j) : Nearest P i j

/-- All declarations of a name in a scope, in order. -/
def declarations (i : Nat) (name : String) : List (BindingKind × Occurrence) :=
  steps.filterMap (declared? i name)

/-- Of the scopes around one, the nearest that declares a name. -/
def Binds (name : String) : Nat → Nat → Prop :=
  Nearest steps fun i => declarations steps i name ≠ []

/-- A step uses a name that is bound in a scope. -/
def Uses (i : Nat) (name : String) (s : ScopeStep) (o : Occurrence) : Prop :=
  ∃ k, s = .refer k o ∧ o.name = name ∧ Binds steps name k i

end Told

/-- The uses of a name that is bound in a scope, in order. What is declared later changes nothing
about an earlier use. -/
inductive Used (i : Nat) (name : String) : List ScopeStep → List Occurrence → Prop
  | none : Used i name [] []
  | use {steps : List ScopeStep} {os : List Occurrence} (h : Used i name steps os) {s : ScopeStep}
    {o : Occurrence} (hs : Uses steps i name s o) : Used i name (steps ++ [s]) (os ++ [o])
  | other {steps : List ScopeStep} {os : List Occurrence} (h : Used i name steps os) {s : ScopeStep}
    (hs : ∀ o, ¬Uses steps i name s o) : Used i name (steps ++ [s]) os

/-- A name as its declarations bind it: one of a function makes it a function's, else the first
tells the kind. -/
def boundBy (name : String) (uses : List Occurrence) :
    List (BindingKind × Occurrence) → Option Binding
  | [] => none
  | (kind, o) :: rest =>
    let kind := if .function ∈ ((kind, o) :: rest).map Prod.fst then .function else kind
    some ⟨name, kind, o :: rest.map Prod.snd, uses⟩

/-! ### One more step -/

variable {steps : List ScopeStep} {s : ScopeStep} {i j p : Nat} {name : String}

theorem scopes_append : scopes (steps ++ [s]) = scopes steps ++ s.made?.toList := by
  rw [scopes, List.filterMap_append, ← List.cons_append]
  cases s <;> rfl

theorem declarations_append :
    declarations (steps ++ [s]) i name = declarations steps i name ++ (s.declared? i name).toList := by
  rw [declarations, List.filterMap_append, declarations, List.filterMap_cons]
  cases s.declared? i name <;> rfl

theorem boundBy_append (name : String) (uses : List Occurrence) (ds : List (BindingKind × Occurrence))
    (kind : BindingKind) (o : Occurrence) :
    boundBy name uses (ds ++ [(kind, o)]) =
      some (((boundBy name uses ds).map fun b => b.redeclare kind o).getD ⟨name, kind, [o], uses⟩) := by
  cases ds with
  | nil => cases kind <;> rfl
  | cons d ds =>
    by_cases hd : d.1 = .function <;> by_cases hds : .function ∈ ds.map Prod.fst <;>
      by_cases hk : kind = .function <;> simp_all [boundBy, Binding.redeclare, eq_comm]

theorem Nearest.holds {P : Nat → Prop} (h : Nearest steps P i j) : P j := by
  induction h with
  | here h => exact h
  | outer _ _ _ ih => exact ih

theorem Nearest.within {P : Nat → Prop} (h : Nearest steps P i j) : Within steps i j := by
  induction h with
  | here => exact .refl
  | outer _ hp _ ih => exact .head hp ih

theorem Nearest.exists_of_within {P : Nat → Prop} (h : Within steps i j) (hj : P j) :
    ∃ k, Nearest steps P i k := by
  induction h using Relation.ReflTransGen.head_induction_on with
  | refl => exact ⟨j,.here hj⟩
  | @head i p hp _ ih =>
    by_cases hi : P i
    · exact ⟨i,.here hi⟩
    · obtain ⟨k,hk⟩ := ih
      exact ⟨k,.outer hi hp hk⟩

theorem Nearest.unique {P : Nat → Prop} {j' : Nat} (h : Nearest steps P i j)
    (h' : Nearest steps P i j') : j' = j := by
  induction h with
  | here h =>
    cases h' with
    | here => rfl
    | outer hn => exact absurd h hn
  | outer hn hp _ ih =>
    cases h' with
    | here h => exact absurd h hn
    | outer _ hp' hj' =>
      obtain rfl := Option.some.inj (hp.symm.trans hp')
      exact ih hj'

/-- All scopes but the first have a parent. -/
theorem exists_parent? (h0 : 0 < i) (hi : i < (scopes steps).length) : ∃ p, parent? steps i = some p := by
  obtain ⟨i,rfl⟩ := Nat.exists_eq_add_of_lt h0
  rw [Nat.zero_add] at hi ⊢
  have hmem := List.getElem_mem (l := steps.filterMap made?) (Nat.lt_of_succ_lt_succ hi)
  obtain ⟨s,-,hs⟩ := List.mem_filterMap.mp hmem
  rw [parent?, scopes, List.getElem?_cons_succ, List.getElem?_eq_getElem (Nat.lt_of_succ_lt_succ hi), ← hs]
  cases s with
  | child p f => exact ⟨p,rfl⟩
  | _ => cases hs

theorem getElem?_scopes_child (f : Bool) :
    (scopes (steps ++ [.child p f]))[i]? =
      if i = (scopes steps).length then some (some p, f) else (scopes steps)[i]? := by
  have happend : scopes (steps ++ [.child p f]) = scopes steps ++ [(some p, f)] := scopes_append
  rw [happend]
  split
  · rename_i hi
    rw [hi, List.getElem?_append_right (Nat.le_refl _), Nat.sub_self]
    rfl
  · by_cases hlt : i < (scopes steps).length
    · rw [List.getElem?_append_left hlt]
    · rw [List.getElem?_eq_none (by simp; omega), List.getElem?_eq_none (by omega)]

theorem parent?_child (f : Bool) :
    parent? (steps ++ [.child p f]) i = if i = (scopes steps).length then some p else parent? steps i := by
  rw [parent?, getElem?_scopes_child, parent?]
  split <;> rfl

theorem children_child (f : Bool) :
    children (steps ++ [.child p f]) i =
      children steps i ++ if p = i then [(scopes steps).length] else [] := by
  have hlength : (scopes (steps ++ [.child p f])).length = (scopes steps).length + 1 := by
    rw [scopes_append, List.length_append]
    rfl
  rw [children, hlength, List.range_succ, List.filter_append, children]
  congr 1
  · refine List.filter_congr fun j hj => ?_
    rw [parent?_child, if_neg (Nat.ne_of_lt (List.mem_range.mp hj))]
  · by_cases h : p = i <;> simp [parent?_child, h]

/-- A step that makes no scope leaves the nesting as it is. -/
theorem scopes_of_made? (h : s.made? = none) : scopes (steps ++ [s]) = scopes steps := by
  rw [scopes_append, h, Option.toList_none, List.append_nil]

theorem boundBy_use (name : String) (uses : List Occurrence) (ds : List (BindingKind × Occurrence))
    (o : Occurrence) :
    ((boundBy name uses ds).map fun b => { b with references := b.references ++ [o] }) =
      boundBy name (uses ++ [o]) ds := by
  cases ds <;> rfl

theorem Used.unused {os : List Occurrence} (h : Used i name steps os)
    (hs : ∀ k o, s ≠ .refer k o) : Used i name (steps ++ [s]) os :=
  h.other fun _ ho => by
    obtain ⟨k,rfl,-⟩ := ho
    exact hs k _ rfl

/-- A name that is not declared in a scope has no uses there. -/
theorem Used.eq_nil {os : List Occurrence} (h : Used i name steps os)
    (hd : declarations steps i name = []) : os = [] := by
  induction h with
  | none => rfl
  | use _ hs _ =>
    obtain ⟨k,rfl,rfl,hbinds⟩ := hs
    rw [declarations_append] at hd
    exact absurd (List.append_eq_nil_iff.mp hd).1 hbinds.holds
  | other _ _ ih =>
    rw [declarations_append] at hd
    exact ih (List.append_eq_nil_iff.mp hd).1

end ScopeStep

namespace Binding

theorem find?_declareIn (kind : BindingKind) (o : Occurrence) (bs : List Binding) (name : String) :
    find? name (declareIn kind o bs) =
      if o.name = name then
        some (((find? name bs).map fun b => b.redeclare kind o).getD ⟨name, kind, [o], []⟩)
      else find? name bs := by
  induction bs with
  | nil => by_cases h : o.name = name <;> simp [find?, declareIn, h]
  | cons b bs ih =>
    rw [declareIn]
    unfold find? at ih ⊢
    by_cases hb : b.name = o.name <;> by_cases h : o.name = name <;>
      simp_all [redeclare, List.find?_cons]

/-- A change that keeps the names of bindings is seen through the search. -/
theorem find?_map {f : Binding → Binding} (hf : ∀ b, (f b).name = b.name) (bs : List Binding)
    (name : String) : find? name (bs.map f) = (find? name bs).map f := by
  simp only [find?, List.find?_map, Function.comp_def, hf]

theorem find?_name {bs : List Binding} {name : String} {b : Binding} (h : find? name bs = some b) :
    b.name = name := by
  simpa using List.find?_some h

end Binding

namespace ScopeTable
open ScopeStep

/-! ### What a step does to an entry -/

theorem getElem?_addChild (t : ScopeTable) (p : Nat) (f : Bool) (i : Nat) :
    (t.addChild p f).1.entries[i]? =
      if i = t.entries.size then some ⟨some p, f, [], []⟩
      else (t.entries[i]?).map fun e =>
        if p = i then { e with children := e.children ++ [t.entries.size] } else e := by
  simp only [addChild, Array.getElem?_push, Array.size_modify, Array.getElem?_modify]
  split
  · rfl
  · split <;> simp

theorem getElem?_declare (t : ScopeTable) (k : Nat) (kind : BindingKind) (o : Occurrence) (i : Nat) :
    (t.declare k kind o).entries[i]? =
      (t.entries[i]?).map fun e =>
        if k = i then { e with bindings := Binding.declareIn kind o e.bindings } else e := by
  simp only [declare, Array.getElem?_modify]
  split <;> simp

/-- The binding with one more use of its name. -/
def noted (o : Occurrence) (b : Binding) : Binding :=
  if b.name = o.name then { b with references := b.references ++ [o] } else b

theorem noted_name (o : Occurrence) (b : Binding) : (noted o b).name = b.name := by
  unfold noted
  split <;> rfl

theorem getElem?_refer (t : ScopeTable) (k : Nat) (o : Occurrence) (i : Nat) :
    (t.refer k o).1.entries[i]? =
      (t.entries[i]?).map fun e =>
        if t.lookup? k o.name = some i then { e with bindings := e.bindings.map (noted o) } else e := by
  unfold refer
  cases t.lookup? k o.name with
  | none => simp
  | some j =>
    simp only [Array.getElem?_modify, Option.some.injEq]
    split
    · rfl
    · simp

/-! ### What a step does to a binding -/

theorem binding?_addChild (t : ScopeTable) (p : Nat) (f : Bool) (i : Nat) (name : String) :
    (t.addChild p f).1.binding? i name = t.binding? i name := by
  unfold binding?
  rw [getElem?_addChild]
  split
  · rename_i hi
    rw [Array.getElem?_eq_none (by omega)]
    rfl
  · rw [Option.bind_map]
    refine congrArg _ (funext fun e => ?_)
    simp only [Function.comp_apply]
    split <;> rfl

theorem binding?_declare {t : ScopeTable} {k : Nat} (hk : k < t.entries.size) (kind : BindingKind)
    (o : Occurrence) (i : Nat) (name : String) :
    (t.declare k kind o).binding? i name =
      if k = i ∧ o.name = name then
        some (((t.binding? i name).map fun b => b.redeclare kind o).getD ⟨name, kind, [o], []⟩)
      else t.binding? i name := by
  unfold binding?
  rw [getElem?_declare]
  by_cases hi : k = i
  · subst hi
    simp only [Array.getElem?_eq_getElem hk, Option.map_some, Option.bind_some, if_true, true_and,
      Binding.find?_declareIn]
  · simp [hi]

theorem binding?_refer (t : ScopeTable) (k : Nat) (o : Occurrence) (i : Nat) (name : String) :
    (t.refer k o).1.binding? i name =
      if t.lookup? k o.name = some i ∧ o.name = name then
        (t.binding? i name).map fun b => { b with references := b.references ++ [o] }
      else t.binding? i name := by
  unfold binding?
  rw [getElem?_refer]
  cases t.entries[i]? with
  | none => simp
  | some e =>
    simp only [Option.map_some, Option.bind_some]
    by_cases hfound : t.lookup? k o.name = some i
    · simp only [hfound, if_true, true_and, Binding.find?_map (noted_name o)]
      cases hb : Binding.find? name e.bindings with
      | none => simp
      | some b =>
        have hname := Binding.find?_name hb
        by_cases ho : o.name = name
        · simp [noted, ho, hname]
        · simp [noted, ho, hname, Ne.symm ho]
    · simp [hfound]

/-! ### The table told by the steps -/

/-- What an entry keeps from when it was made. -/
def frame (e : ScopeEntry) : Option Nat × Bool := (e.parent, e.isFunction)

/-- What is bound in a scope does not matter for how it is nested. -/
private theorem map_nesting (c : Prop) [Decidable c] (f : ScopeEntry → List Binding)
    (entry : Option ScopeEntry) :
    (entry.map fun e => if c then { e with bindings := f e } else e).map
        (fun e => (frame e, e.children)) = entry.map fun e => (frame e, e.children) := by
  rw [Option.map_map]
  refine congrArg (Option.map · entry) (funext fun e => ?_)
  simp only [Function.comp_apply]
  split <;> rfl

/-- A table agrees with the steps that led to it. -/
structure Agrees (steps : List ScopeStep) (t : ScopeTable) : Prop where
  made : ∀ i : Nat, (t.entries[i]?).map frame = (scopes steps)[i]?
  older : ∀ i p, parent? steps i = some p → p < i
  inner : ∀ (i : Nat) (e : ScopeEntry), t.entries[i]? = some e → e.children = children steps i
  bindings : ∀ i name, ∃ uses, Used i name steps uses ∧
    t.binding? i name = boundBy name uses (declarations steps i name)

namespace Agrees
variable {steps : List ScopeStep} {t : ScopeTable} (h : t.Agrees steps)
include h

theorem size_eq : t.entries.size = (scopes steps).length := by
  have hle (i : Nat) : t.entries.size ≤ i ↔ (scopes steps).length ≤ i := by
    rw [← Array.getElem?_eq_none_iff, ← List.getElem?_eq_none_iff, ← h.made, Option.map_eq_none_iff]
  exact Nat.le_antisymm ((hle _).mpr (Nat.le_refl _)) ((hle _).mp (Nat.le_refl _))

theorem parent_eq {i : Nat} {e : ScopeEntry} (he : t.entries[i]? = some e) :
    parent? steps i = e.parent := by
  rw [parent?, ← h.made i, he]
  rfl

/-- The search outwards finds the nearest scope with a property. -/
theorem nearest?_eq_some_iff {P : Nat → Prop} {test : ScopeEntry → Bool}
    (htest : ∀ i e, t.entries[i]? = some e → (test e = true ↔ P i)) {i j : Nat}
    (hi : i < t.entries.size) : t.nearest? test i = some j ↔ Nearest steps P i j := by
  induction i using Nat.strongRecOn with
  | ind i ih =>
    have he := Array.getElem?_eq_getElem hi
    generalize t.entries[i] = e at he
    have hparent := h.parent_eq he
    rw [nearest?, he]
    dsimp only
    by_cases hP : P i
    · rw [if_pos ((htest i e he).mpr hP), Option.some.injEq]
      constructor
      · rintro rfl
        exact .here hP
      · exact fun hj => hj.unique (.here hP)
    · rw [if_neg fun ht => hP ((htest i e he).mp ht)]
      cases hp : e.parent with
      | none =>
        refine ⟨fun hj => by simp at hj,fun hj => ?_⟩
        cases hj with
        | here h => exact absurd h hP
        | outer _ hp' => rw [hparent, hp] at hp'; cases hp'
      | some p =>
        rw [hp] at hparent
        have hlt := h.older i p hparent
        simp only [hlt, if_true]
        rw [ih p hlt (Nat.lt_trans hlt hi)]
        refine ⟨.outer hP hparent,fun hj => ?_⟩
        cases hj with
        | here h => exact absurd h hP
        | outer _ hp' hj =>
          obtain rfl := Option.some.inj (hparent.symm.trans hp')
          exact hj

theorem declares_iff (name : String) (i : Nat) (e : ScopeEntry) (he : t.entries[i]? = some e) :
    (Binding.find? name e.bindings).isSome = true ↔ declarations steps i name ≠ [] := by
  obtain ⟨uses,-,hb⟩ := h.bindings i name
  have hfound : t.binding? i name = Binding.find? name e.bindings := by
    rw [binding?, he]
    rfl
  rw [← hfound, hb]
  cases declarations steps i name <;> simp [boundBy]

theorem lookup?_eq_some_iff {i j : Nat} {name : String} (hi : i < t.entries.size) :
    t.lookup? i name = some j ↔ Binds steps name i j :=
  h.nearest?_eq_some_iff (h.declares_iff name) hi

/-- A scope that is not there yet has nothing inside it. -/
private theorem children_eq_nil {i : Nat} (hi : t.entries.size ≤ i) : children steps i = [] := by
  rw [children, List.filter_eq_nil_iff]
  intro j hj hparent
  have := h.older j i (by simpa using hparent)
  have := List.mem_range.mp hj
  have := h.size_eq
  omega

theorem take_child {p : Nat} (hp : p < t.entries.size) (f : Bool) :
    (t.addChild p f).1.Agrees (steps ++ [.child p f]) where
  made i := by
    have hframe : (frame ∘ fun e : ScopeEntry =>
        if p = i then { e with children := e.children ++ [t.entries.size] } else e) = frame := by
      funext e
      simp only [Function.comp_apply]
      split <;> rfl
    rw [getElem?_addChild, getElem?_scopes_child, ← h.size_eq]
    split
    · rfl
    · rw [Option.map_map, hframe, h.made]
  older i p' hparent := by
    rw [parent?_child] at hparent
    split at hparent
    · cases hparent
      rename_i hi
      rwa [hi, ← h.size_eq]
    · exact h.older i p' hparent
  inner i e he := by
    rw [getElem?_addChild] at he
    rw [children_child, ← h.size_eq]
    split at he
    · rename_i hi
      cases he
      have hnone := h.children_eq_nil (Nat.le_of_eq hi.symm)
      rw [hnone, if_neg (by omega)]
      rfl
    · obtain ⟨e',he',rfl⟩ := Option.map_eq_some_iff.mp he
      have hinner := h.inner i e' he'
      split <;> simp [hinner]
  bindings i name := by
    obtain ⟨uses,hused,hb⟩ := h.bindings i name
    refine ⟨uses,hused.unused nofun,?_⟩
    rw [binding?_addChild, hb, declarations_append]
    exact congrArg _ (List.append_nil _).symm

/-- A step that makes no scope keeps the frames of entries and their lists of children. -/
private theorem take_inside {s : ScopeStep} {t' : ScopeTable} (hs : s.made? = none)
    (hframe : ∀ i : Nat, (t'.entries[i]?).map (fun e => (frame e, e.children)) =
      (t.entries[i]?).map (fun e => (frame e, e.children)))
    (hbindings : ∀ i name, ∃ uses, Used i name (steps ++ [s]) uses ∧
      t'.binding? i name = boundBy name uses (declarations (steps ++ [s]) i name)) :
    t'.Agrees (steps ++ [s]) := by
  have hscopes : scopes (steps ++ [s]) = scopes steps := scopes_of_made? hs
  have hparent : parent? (steps ++ [s]) = parent? steps := by
    funext i
    rw [parent?, hscopes, parent?]
  refine ⟨fun i => ?_,fun i p hp => h.older i p (hparent ▸ hp),fun i e he => ?_,hbindings⟩
  · have hi := congrArg (Option.map Prod.fst) (hframe i)
    simp only [Option.map_map, Function.comp_def] at hi
    rw [hscopes, ← h.made]
    exact hi
  · have hi := hframe i
    rw [he, Option.map_some, eq_comm, Option.map_eq_some_iff] at hi
    obtain ⟨e',he',heq⟩ := hi
    rw [children, hscopes, hparent, ← (Prod.mk.inj heq).2]
    exact h.inner i e' he'

theorem take_declare {k : Nat} (hk : k < t.entries.size) (kind : BindingKind) (o : Occurrence) :
    (t.declare k kind o).Agrees (steps ++ [.declare k kind o]) := by
  refine h.take_inside rfl (fun i => ?_) fun i name => ?_
  · rw [getElem?_declare, map_nesting]
  · obtain ⟨uses,hused,hb⟩ := h.bindings i name
    refine ⟨uses,hused.unused nofun,?_⟩
    rw [binding?_declare hk, hb, declarations_append]
    simp only [declared?]
    split
    · rw [Option.toList_some, boundBy_append]
      cases hds : declarations steps i name with
      | nil => rw [hused.eq_nil hds]
      | cons d ds => rfl
    · rw [Option.toList_none, List.append_nil]

theorem take_refer {k : Nat} (hk : k < t.entries.size) (o : Occurrence) :
    (t.refer k o).1.Agrees (steps ++ [.refer k o]) := by
  refine h.take_inside rfl (fun i => ?_) fun i name => ?_
  · rw [getElem?_refer, map_nesting]
  · obtain ⟨uses,hused,hb⟩ := h.bindings i name
    have hdeclarations : declarations (steps ++ [.refer k o]) i name = declarations steps i name := by
      rw [declarations_append]
      exact List.append_nil _
    rw [binding?_refer, hb, hdeclarations]
    split
    · rename_i huse
      obtain ⟨hfound,rfl⟩ := huse
      have hbinds := (h.lookup?_eq_some_iff hk).mp hfound
      exact ⟨uses ++ [o],hused.use ⟨k,rfl,rfl,hbinds⟩,boundBy_use _ _ _ _⟩
    · rename_i hno
      refine ⟨uses,hused.other fun o' ho => ?_,rfl⟩
      obtain ⟨k',hs,hname,hbinds⟩ := ho
      cases hs
      exact hno ⟨(h.lookup?_eq_some_iff hk).mpr (hname ▸ hbinds),hname⟩

/-- A step at a scope that is there keeps the agreement. -/
theorem take {s : ScopeStep} (hs : s.scope < t.entries.size) : (t.take s).Agrees (steps ++ [s]) := by
  cases s with
  | child p f => exact h.take_child hs f
  | declare k kind o => exact h.take_declare hs kind o
  | refer k o => exact h.take_refer hs o

theorem foldl_take {more : List ScopeStep} (hlegal : legal t.entries.size more = true) :
    (more.foldl ScopeTable.take t).Agrees (steps ++ more) := by
  induction more generalizing steps t with
  | nil => rwa [List.append_nil]
  | cons s more ih =>
    simp only [legal, Bool.and_eq_true, decide_eq_true_eq] at hlegal
    have hnext := h.take hlegal.1
    have hsize : (t.take s).entries.size =
        if s.made?.isSome then t.entries.size + 1 else t.entries.size := by
      rw [hnext.size_eq, scopes_append, List.length_append, ← h.size_eq]
      cases s <;> rfl
    rw [List.foldl_cons, ← List.singleton_append, ← List.append_assoc]
    exact ih hnext (by rw [hsize]; exact hlegal.2)

end Agrees

theorem agrees_start : start.Agrees [] where
  made i := by
    cases i with
    | zero => rfl
    | succ i => rfl
  older i p hp := by
    cases i <;> simp [parent?, scopes] at hp
  inner i e he := by
    cases i with
    | zero =>
      cases he
      rfl
    | succ i => cases he
  bindings i name := by
    refine ⟨[],.none,?_⟩
    cases i <;> rfl

theorem agrees_run {steps : List ScopeStep} (h : legal 1 steps = true) : (run steps).Agrees steps :=
  agrees_start.foldl_take h

/-! ### Walks and searches -/

namespace Agrees
variable {steps : List ScopeStep} {t : ScopeTable} (h : t.Agrees steps) {i j : Nat}
include h

theorem lt_size_of_parent? {p : Nat} (hp : parent? steps i = some p) : i < t.entries.size := by
  rw [h.size_eq]
  by_contra hi
  rw [parent?, List.getElem?_eq_none (Nat.le_of_not_lt hi)] at hp
  cases hp

theorem mem_children_iff : j ∈ children steps i ↔ parent? steps j = some i := by
  rw [children, List.mem_filter, List.mem_range, ← h.size_eq, decide_eq_true_iff]
  exact and_iff_right_of_imp h.lt_size_of_parent?

/-- Induction from the innermost scopes outwards. -/
theorem outwards {motive : Nat → Prop}
    (step : ∀ i < t.entries.size, (∀ c ∈ children steps i, motive c) → motive i) :
    ∀ i < t.entries.size, motive i := by
  intro i hi
  induction hn : t.entries.size - i using Nat.strongRecOn generalizing i with
  | ind n ih =>
    refine step i hi fun c hc => ?_
    have hparent := h.mem_children_iff.mp hc
    have hc := h.lt_size_of_parent? hparent
    have := h.older c i hparent
    exact ih _ (by omega) c hc rfl

/-- Nesting is no deeper than there are scopes, so the fuel of a walk does not matter. -/
private theorem walkFrom_eq {fuel : Nat} (fuel' : Nat) (hi : i < t.entries.size)
    (hfuel : t.entries.size ≤ fuel + i) (hfuel' : t.entries.size ≤ fuel' + i) :
    t.walkFrom fuel i = t.walkFrom fuel' i := by
  induction fuel generalizing fuel' i with
  | zero => omega
  | succ fuel ih =>
    obtain _ | fuel' := fuel'
    · omega
    simp only [walkFrom, Array.getElem?_eq_getElem hi]
    congr 1
    refine List.flatMap_congr fun c hc => ?_
    rw [h.inner i _ (Array.getElem?_eq_getElem hi)] at hc
    have hparent := h.mem_children_iff.mp hc
    have := h.older c i hparent
    exact ih fuel' (h.lt_size_of_parent? hparent) (by omega) (by omega)

/-- A walk lists a scope before the walks of its children, in order of creation. -/
theorem walk_eq (hi : i < t.entries.size) : t.walk i = i :: (children steps i).flatMap t.walk := by
  rw [walk, h.walkFrom_eq (t.entries.size + 1) hi (by omega) (by omega), walkFrom]
  simp only [Array.getElem?_eq_getElem hi]
  rw [h.inner i _ (Array.getElem?_eq_getElem hi)]
  rfl

theorem mem_walk_iff (hi : i < t.entries.size) : j ∈ t.walk i ↔ Within steps j i := by
  refine h.outwards (motive := fun i => j ∈ t.walk i ↔ Within steps j i) (fun i hi ih => ?_) i hi
  rw [h.walk_eq hi, List.mem_cons, List.mem_flatMap, Within, Relation.ReflTransGen.cases_tail_iff,
    eq_comm]
  refine or_congr_right (exists_congr fun c => ?_)
  rw [h.mem_children_iff, and_comm]
  exact and_congr_left fun hc => ih c (h.mem_children_iff.mpr hc)

theorem le_of_within (hj : Within steps j i) : i ≤ j := by
  induction hj with
  | refl => exact Nat.le_refl _
  | tail _ hp ih => exact Nat.le_trans (Nat.le_of_lt (h.older _ _ hp)) ih

/-- A child of a scope lies inside no other child of it. -/
private theorem child_unique {c c' : Nat} (hc : parent? steps c = some i)
    (hc' : parent? steps c' = some i) (hcc' : Within steps c c') : c = c' := by
  obtain heq | ⟨p,hp,hp'⟩ := Relation.ReflTransGen.cases_head_iff.mp hcc'
  · exact heq
  · -- then the parent of both would lie inside the other
    obtain rfl := Option.some.inj (hc.symm.trans hp)
    have := h.le_of_within hp'
    have := h.older c' _ hc'
    omega

theorem walk_nodup (hi : i < t.entries.size) : (t.walk i).Nodup := by
  refine h.outwards (motive := fun i => (t.walk i).Nodup) (fun i hi ih => ?_) i hi
  have hlt {c : Nat} (hc : c ∈ children steps i) : c < t.entries.size :=
    h.lt_size_of_parent? (h.mem_children_iff.mp hc)
  rw [h.walk_eq hi, List.nodup_cons, List.nodup_flatMap]
  refine ⟨fun hmem => ?_,ih,?_⟩
  · obtain ⟨c,hc,hmem⟩ := List.mem_flatMap.mp hmem
    have := h.le_of_within ((h.mem_walk_iff (hlt hc)).mp hmem)
    have := h.older c i (h.mem_children_iff.mp hc)
    omega
  · have hnodup : (children steps i).Nodup := List.nodup_range.filter _
    refine hnodup.imp_of_mem fun hc hc' hne => ?_
    intro j hj hj'
    have hj := (h.mem_walk_iff (hlt hc)).mp hj
    have hj' := (h.mem_walk_iff (hlt hc')).mp hj'
    have hp := h.mem_children_iff.mp hc
    have hp' := h.mem_children_iff.mp hc'
    -- what is around one scope lies one inside the other
    have htotal := Relation.ReflTransGen.total_of_right_unique
      (fun _ _ _ ha hb => Option.some.inj (ha.symm.trans hb)) hj hj'
    rcases htotal with hcc' | hcc'
    · exact hne (h.child_unique hp hp' hcc')
    · exact hne (h.child_unique hp' hp hcc').symm

/-- Every chain of parents ends at the first scope. -/
theorem within_first (hi : i < t.entries.size) : Within steps i 0 := by
  induction i using Nat.strongRecOn with
  | ind i ih =>
    by_cases h0 : i = 0
    · exact h0 ▸ .refl
    · obtain ⟨p,hp⟩ := exists_parent? (Nat.pos_of_ne_zero h0) (h.size_eq ▸ hi)
      have hlt := h.older i p hp
      exact .head hp (ih p hlt (Nat.lt_trans hlt hi))

/-- The first scope is a function's, so there is a function around each scope. -/
theorem exists_functionScope? (hi : i < t.entries.size) :
    ∃ j, t.functionScope? i = some j ∧ Nearest steps (IsFunction steps) i j := by
  have htest (i : Nat) (e : ScopeEntry) (he : t.entries[i]? = some e) :
      e.isFunction = true ↔ IsFunction steps i := by
    rw [IsFunction, ← h.made, he]
    simp [frame]
  obtain ⟨j,hj⟩ := Nearest.exists_of_within (P := IsFunction steps) (h.within_first hi) ⟨none,rfl⟩
  exact ⟨j,(h.nearest?_eq_some_iff htest hi).mpr hj,hj⟩

theorem lookup?_eq_none_iff {name : String} (hi : i < t.entries.size) :
    t.lookup? i name = none ↔ ∀ j, Within steps i j → declarations steps j name = [] := by
  constructor
  · intro hnone j hj
    by_contra hd
    obtain ⟨k,hk⟩ := Nearest.exists_of_within (P := fun j => declarations steps j name ≠ []) hj hd
    rw [(h.lookup?_eq_some_iff hi).mpr hk] at hnone
    cases hnone
  · intro hnone
    cases hk : t.lookup? i name with
    | none => rfl
    | some k =>
      have hbinds := (h.lookup?_eq_some_iff hi).mp hk
      exact absurd (hnone k hbinds.within) hbinds.holds

end Agrees

/-- After any steps, a walk lists a scope and all inside it once, each before those inside it and in
order of creation; there is a function around every scope; a name is bound by its declarations in a
scope, in order; and a name is looked up in the nearest scope around that declares it. -/
theorem run_told (steps : List ScopeStep) (h : legal 1 steps = true) (i : Nat)
    (hi : i < (scopes steps).length) :
    ((run steps).walk i = i :: (children steps i).flatMap (run steps).walk ∧
      ((run steps).walk i).Nodup ∧ ∀ j, j ∈ (run steps).walk i ↔ Within steps j i) ∧
    (∃ j, (run steps).functionScope? i = some j ∧ Nearest steps (IsFunction steps) i j) ∧
    (∀ name, ∃ uses, Used i name steps uses ∧
      (run steps).binding? i name = boundBy name uses (declarations steps i name)) ∧
    ∀ name, (∀ j, (run steps).lookup? i name = some j ↔ Binds steps name i j) ∧
      ((run steps).lookup? i name = none ↔ ∀ j, Within steps i j → declarations steps j name = []) := by
  have ht := agrees_run h
  rw [← ht.size_eq] at hi
  exact ⟨⟨ht.walk_eq hi,ht.walk_nodup hi,fun _ => ht.mem_walk_iff hi⟩,ht.exists_functionScope? hi,
    ht.bindings i,fun _ => ⟨fun _ => ht.lookup?_eq_some_iff hi,ht.lookup?_eq_none_iff hi⟩⟩

/-- A parameter that hides a variable, used in a block, and declared again as a function. -/
def hidingSteps : List ScopeStep :=
  [.child 0 true, .child 1 false, .declare 0 .var ⟨"x", [0], false⟩, .declare 1 .param ⟨"x", [1], false⟩,
    .refer 2 ⟨"x", [2], false⟩, .declare 1 .function ⟨"x", [3], false⟩, .child 0 false]

theorem run_told_hiding :
    legal 1 hidingSteps = true ∧ 2 < (scopes hidingSteps).length ∧
      (run hidingSteps).lookup? 2 "x" = some 1 ∧ (run hidingSteps).lookup? 2 "y" = none ∧
      ∃ uses, Used 1 "x" hidingSteps uses ∧ (run hidingSteps).binding? 1 "x" =
        some ⟨"x", .function, [⟨"x", [1], false⟩, ⟨"x", [3], false⟩], uses⟩ := by
  have hlegal : legal 1 hidingSteps = true := by decide
  have hblock := run_told hidingSteps hlegal 2 (by decide)
  have hfunction := run_told hidingSteps hlegal 1 (by decide)
  refine ⟨hlegal,by decide,?_,?_,hfunction.2.2.1 "x"⟩
  · exact ((hblock.2.2.2 "x").1 1).mpr (.outer (by decide) rfl (.here (by decide)))
  · exact (hblock.2.2.2 "y").2.mpr fun j _ => by simp [declarations, hidingSteps, declared?]

end ScopeTable

end Unravel
