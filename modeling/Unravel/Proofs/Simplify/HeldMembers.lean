import Mathlib.Data.List.Induction
import Unravel.Proofs.Simplify.ProxyScope

/-! Members of proxy objects against the objects themselves. A literal is evaluated member by member,
and each replaces what one before it has left under its name, whatever its kind. The table looks at
the members it can use and passes over the others, which may have replaced what it holds. -/

namespace Unravel.Simplify
open Node

/-! ### Last members -/

section Last
variable {α : Type} {l : List α} {a b : α} {i : Nat}

/-- Nothing behind an index of a list passes a test. -/
def NoneAfter (l : List α) (i : Nat) (test : Nat → α → Bool) : Prop :=
  ∀ j later, i < j → l[j]? = some later → test j later = false

theorem noneAfter_iff {test : Nat → α → Bool} :
    NoneAfter l i test ↔ ∀ j, ∀ h : j < l.length, i < j → test j l[j] = false := by
  simp only [NoneAfter, List.getElem?_eq_some_iff]
  constructor
  · intro hall j h hj
    exact hall j _ hj ⟨h,rfl⟩
  · rintro hall j later hj ⟨h,rfl⟩
    exact hall j h hj

instance (l : List α) (i : Nat) (test : Nat → α → Bool) : Decidable (NoneAfter l i test) :=
  decidable_of_iff' _ noneAfter_iff

theorem NoneAfter.mono {test test' : Nat → α → Bool} (h : NoneAfter l i test)
    (htest : ∀ j b, test' j b = true → test j b = true) : NoneAfter l i test' := by
  intro j later hj hlater
  refine Bool.eq_false_iff.mpr fun hpasses => ?_
  exact absurd ((h j later hj hlater).symm.trans (htest j later hpasses)) nofun

private theorem getElem?_append_singleton :
    (l ++ [b])[i]? = some a ↔ l[i]? = some a ∨ i = l.length ∧ b = a := by
  rw [List.getElem?_append]
  split
  · rename_i hi
    simp [Nat.ne_of_lt hi]
  · rename_i hi
    rw [List.getElem?_eq_none (Nat.le_of_not_lt hi), List.getElem?_singleton]
    simp only [reduceCtorEq, false_or]
    split <;> simp <;> omega

private theorem find?_reverse_eq_some_iff {test : α → Bool} :
    l.reverse.find? test = some a ↔
      ∃ i : Nat, l[i]? = some a ∧ test a = true ∧ NoneAfter l i fun _ b => test b := by
  induction l using List.reverseRecOn with
  | nil => simp
  | append_singleton l b ih =>
    rw [List.reverse_concat, List.find?_cons]
    cases hb : test b with
    | true =>
      constructor
      · intro h
        obtain rfl := Option.some.inj h
        refine ⟨l.length,getElem?_append_singleton.mpr (.inr ⟨rfl,rfl⟩),hb,fun j later hj hlater => ?_⟩
        rw [List.getElem?_eq_none (by rw [List.length_append]; exact hj)] at hlater
        cases hlater
      · rintro ⟨i,hi,-,hlast⟩
        rcases getElem?_append_singleton.mp hi with hi | ⟨-,rfl⟩
        · obtain ⟨hlt,-⟩ := List.getElem?_eq_some_iff.mp hi
          have hfails := hlast l.length b hlt (getElem?_append_singleton.mpr (.inr ⟨rfl,rfl⟩))
          exact absurd (hb.symm.trans hfails) nofun
        · rfl
    | false =>
      simp only [ih]
      constructor
      · rintro ⟨i,hi,ha,hlast⟩
        refine ⟨i,getElem?_append_singleton.mpr (.inl hi),ha,fun j later hj hlater => ?_⟩
        rcases getElem?_append_singleton.mp hlater with hlater | ⟨-,rfl⟩
        · exact hlast j later hj hlater
        · exact hb
      · rintro ⟨i,hi,ha,hlast⟩
        rcases getElem?_append_singleton.mp hi with hi | ⟨-,rfl⟩
        · exact ⟨i,hi,ha,fun j later hj hlater =>
            hlast j later hj (getElem?_append_singleton.mpr (.inl hlater))⟩
        · rw [hb] at ha
          cases ha

private theorem getElem?_zipIdx_eq_some_iff {e : α × Nat} :
    l.zipIdx[i]? = some e ↔ l[i]? = some e.1 ∧ e.2 = i := by
  obtain ⟨a,k⟩ := e
  rw [List.getElem?_zipIdx, Option.map_eq_some_iff, Nat.zero_add]
  constructor
  · rintro ⟨b,hb,heq⟩
    obtain ⟨rfl,rfl⟩ := Prod.mk.inj heq
    exact ⟨hb,rfl⟩
  · rintro ⟨ha,rfl⟩
    exact ⟨a,ha,rfl⟩

end Last

/-! ### Objects right after their literals -/

/-- What an object holds under a name: the value of the member at an index of its literal, an
accessor, or something copied from what a member spreads. -/
inductive Held where
  | value (i : Nat)
  | accessor
  | copied
deriving DecidableEq

/-- What an evaluation adds to the text of a literal: the name that a computed key comes to, if it is
not a symbol, and the names of what is spread, each for the member at an index. Names are sequences of
code units. -/
structure Evaluation where
  computed : Nat → Option (List Nat)
  spreads : Nat → List Nat → Bool

/-- A member `__proto__: v`, which sets the prototype and leaves no property. -/
def setsPrototype (p : Node) : Bool :=
  match p.label with
  | .property false false false "init" =>
    (p.child? .key).bind (fun k => k.staticKey? false) = some (Text.ofString "__proto__")
  | _ => false

section Literals
-- How a number is written as the name of a property.
variable (spell : Number → List Nat)

/-- The name of a member whose key is a name or a literal. -/
def knownName? (p : Node) : Option (List Nat) :=
  match p.label with
  | .property computed _ _ _ =>
    (p.child? .key).bind fun k =>
      match k.staticKey? computed with
      | some t => some t.units
      | none => k.numberValue?.map spell
  | _ => none

/-- Whether the member at an index leaves something under a name. -/
def Evaluation.defines (run : Evaluation) (i : Nat) (p : Node) (name : List Nat) : Bool :=
  match p.label with
  | .property .. => !setsPrototype p && (knownName? spell p).or (run.computed i) = some name
  | .spreadElement => run.spreads i name
  | _ => false

/-- What the member at an index leaves under a name that it defines. -/
def heldFrom (i : Nat) (p : Node) : Held :=
  match p.label with
  | .property _ _ _ "init" => .value i
  | .property .. => .accessor
  | _ => .copied

/-- The object that the members of a literal, evaluated in order, come to. -/
def Evaluation.object (run : Evaluation) (members : List Node) : List Nat → Option Held :=
  members.zipIdx.foldl (fun before (p, i) name =>
    if run.defines spell i p name then some (heldFrom i p) else before name) fun _ => none

/-- Whether a member leaves something under a name in some evaluation: it has that name, or a
computed key, or spreads something. -/
def mayDefine (p : Node) (name : List Nat) : Bool :=
  match p.label with
  | .property .. => !setsPrototype p && (knownName? spell p).all fun known => known = name
  | .spreadElement => true
  | _ => false

variable {spell} {run : Evaluation} {name : List Nat}

theorem object_eq_find? (members : List Node) : run.object spell members name =
    (members.zipIdx.reverse.find? fun e => run.defines spell e.2 e.1 name).map
      fun e => heldFrom e.2 e.1 := by
  rw [Evaluation.object]
  induction members.zipIdx using List.reverseRecOn with
  | nil => rfl
  | append_singleton es e ih =>
    rw [List.foldl_concat, List.reverse_concat, List.find?_cons]
    cases h : run.defines spell e.2 e.1 name with
    | true => simp [h]
    | false => simpa [h] using ih

theorem eq_of_heldFrom {i k : Nat} {p : Node} (h : heldFrom k p = .value i) : k = i := by
  unfold heldFrom at h
  split at h
  · exact Held.value.inj h
  · cases h
  · cases h

/-- A name holds the value of a member if that is the last to define it. -/
theorem object_eq_value_iff {members : List Node} {i : Nat} :
    run.object spell members name = some (.value i) ↔
      ∃ p, members[i]? = some p ∧ heldFrom i p = .value i ∧ run.defines spell i p name = true ∧
        NoneAfter members i fun j later => run.defines spell j later name := by
  rw [object_eq_find?, Option.map_eq_some_iff]
  constructor
  · rintro ⟨⟨p,k⟩,hfind,hheld⟩
    obtain rfl := eq_of_heldFrom hheld
    obtain ⟨i,hi,hdefines,hlast⟩ := find?_reverse_eq_some_iff.mp hfind
    obtain ⟨hp,rfl⟩ := getElem?_zipIdx_eq_some_iff.mp hi
    refine ⟨p,hp,hheld,hdefines,fun j later hj hlater => ?_⟩
    exact hlast j (later, j) hj (getElem?_zipIdx_eq_some_iff.mpr ⟨hlater,rfl⟩)
  · rintro ⟨p,hp,hheld,hdefines,hlast⟩
    refine ⟨(p, i),find?_reverse_eq_some_iff.mpr ⟨i,?_,hdefines,?_⟩,hheld⟩
    · exact getElem?_zipIdx_eq_some_iff.mpr ⟨hp,rfl⟩
    · rintro j ⟨later,k⟩ hj hlater
      obtain ⟨hlater,rfl⟩ := getElem?_zipIdx_eq_some_iff.mp hlater
      exact hlast k later hj hlater

/-- The evaluation in which every computed key comes to one name, and everything spread has it. -/
def clash (name : List Nat) : Evaluation := ⟨fun _ => some name,fun _ _ => true⟩

theorem defines_clash (i : Nat) (p : Node) :
    (clash name).defines spell i p name = mayDefine spell p name := by
  unfold Evaluation.defines mayDefine clash
  split
  · cases knownName? spell p <;> simp
  · rfl
  · rfl

theorem mayDefine_of_defines {i : Nat} {p : Node} (h : run.defines spell i p name = true) :
    mayDefine spell p name = true := by
  unfold Evaluation.defines at h
  unfold mayDefine
  split at h
  · simp only [Bool.and_eq_true, decide_eq_true_eq] at h ⊢
    refine ⟨h.1,?_⟩
    cases hknown : knownName? spell p with
    | none => rfl
    | some known => simpa [hknown] using h.2
  · rfl
  · cases h

end Literals

/-! ### What the table files -/

/-- The key and the operation under which a member is filed. -/
def filed? (p : Node) : Option (Text × Operation) :=
  match p.label with
  | .property computed _ _ "init" => do
    let key ← (p.child? .key).bind fun k => k.staticKey? computed
    let op ← (p.child? .value).bind classify
    return (key, op)
  | _ => none

theorem filed?_eq_some_iff {p : Node} {key : Text} {op : Operation} :
    filed? p = some (key, op) ↔ ∃ computed method shorthand,
      p.label = .property computed method shorthand "init" ∧
      ((p.child? .key).bind fun k => k.staticKey? computed) = some key ∧
      (p.child? .value).bind classify = some op := by
  unfold filed?
  split
  · rename_i computed method shorthand hl
    constructor
    · intro h
      obtain ⟨_,hkey,h⟩ := Option.bind_eq_some_iff.mp h
      obtain ⟨_,hop,h⟩ := Option.bind_eq_some_iff.mp h
      obtain ⟨rfl,rfl⟩ := Prod.mk.inj (Option.some.inj h)
      exact ⟨computed,method,shorthand,hl,hkey,hop⟩
    · rintro ⟨_,_,_,hproperty,hkey,hop⟩
      cases hl.symm.trans hproperty
      rw [hkey, hop]
      rfl
  · rename_i hother
    constructor
    · intro h
      cases h
    · rintro ⟨_,_,_,hl,-⟩
      exact (hother _ _ _ hl).elim

theorem operations_eq (object : Node) :
    operations object = ((object.row .properties).filterMap filed?).reverse := by
  rw [operations]
  induction object.row .properties using List.reverseRecOn with
  | nil => rfl
  | append_singleton ps p ih =>
    rw [List.foldl_concat, ih, List.filterMap_append, List.reverse_append]
    cases hp : filed? p with
    | some m =>
      obtain ⟨_,_,_,hl,hkey,hop⟩ := filed?_eq_some_iff.mp hp
      simp only [hl, hkey, hop, List.filterMap_cons_some hp]
      rfl
    | none =>
      rw [List.filterMap_cons_none hp]
      split
      · rename_i hl
        split
        · rename_i hkey hop
          rw [filed?_eq_some_iff.mpr ⟨_,_,_,hl,hkey,hop⟩] at hp
          cases hp
        · rfl
      · rfl

/-- A member of an object literal is the last that is filed under a key. -/
structure Recorded (object : Node) (i : Nat) (p : Node) (key : Text) (op : Operation) : Prop where
  place : (object.row .properties)[i]? = some p
  filed : filed? p = some (key, op)
  last : NoneAfter (object.row .properties) i fun _ later => (filed? later).any fun m => m.1 = key

/-- The operation of a key is that of the last member filed under it. -/
theorem find?_operations_eq_some_iff {object : Node} {key : Text} {op : Operation} :
    ((operations object).find? fun m => m.1 = key) = some (key, op) ↔
      ∃ i p, Recorded object i p key op := by
  rw [operations_eq, ← List.filterMap_reverse, List.find?_filterMap, Option.bind_eq_some_iff]
  constructor
  · rintro ⟨p,hfind,hp⟩
    obtain ⟨i,hi,-,hlast⟩ := find?_reverse_eq_some_iff.mp hfind
    exact ⟨i,p,hi,hp,hlast⟩
  · rintro ⟨i,p,hi,hp,hlast⟩
    exact ⟨p,find?_reverse_eq_some_iff.mpr ⟨i,hi,by simp [hp],hlast⟩,hp⟩

section Filed
variable {spell : Number → List Nat} {p : Node} {key : Text} {op : Operation}

theorem heldFrom_of_filed (h : filed? p = some (key, op)) (i : Nat) : heldFrom i p = .value i := by
  obtain ⟨_,_,_,hl,-⟩ := filed?_eq_some_iff.mp h
  simp only [heldFrom, hl]

/-- A member that is filed under a key defines it, unless it sets the prototype. -/
theorem defines_of_filed (h : filed? p = some (key, op)) (run : Evaluation) (i : Nat) :
    run.defines spell i p key.units = !setsPrototype p := by
  obtain ⟨_,_,_,hl,hkey,-⟩ := filed?_eq_some_iff.mp h
  obtain ⟨k,hk,hkey⟩ := Option.bind_eq_some_iff.mp hkey
  have hknown : knownName? spell p = some key.units := by
    simp only [knownName?, hl, hk, Option.bind_some, hkey]
  simp [Evaluation.defines, hl, hknown]

end Filed

/-! ### The table against the objects -/

/-- An object literal is what a declarator of a tree gives a variable at first. -/
def Initialises (tree object : Node) (name : String) : Prop :=
  ∃ q d, tree.at? q = some d ∧ d.label = .variableDeclarator ∧
    (d.child? .id).bind identifierName? = some name ∧
    d.child? .init = some object ∧ object.label = .objectExpression

theorem Initialises.mem_proxies {tree object : Node} {name : String}
    (h : Initialises tree object name) (hne : operations object ≠ []) :
    (name, operations object) ∈ proxies [] tree := by
  obtain ⟨q,d,hd,hl,hname,hinit,hliteral⟩ := h
  refine mem_proxies_iff.mpr ⟨q,d,hd,hl,?_⟩
  exact proxyDeclared?_eq_some_iff.mpr ⟨hname,object,hinit,hliteral,rfl,hne⟩

section Recorded
variable {spell : Number → List Nat} {object p : Node} {i : Nat} {key : Text} {op : Operation}

theorem Recorded.object_eq_value_iff (h : Recorded object i p key op) (run : Evaluation) :
    run.object spell (object.row .properties) key.units = some (.value i) ↔
      setsPrototype p = false ∧ NoneAfter (object.row .properties) i fun j later =>
        run.defines spell j later key.units := by
  rw [Simplify.object_eq_value_iff]
  constructor
  · rintro ⟨_,hp,-,hdefines,hlast⟩
    obtain rfl := Option.some.inj (h.place.symm.trans hp)
    rw [defines_of_filed h.filed] at hdefines
    exact ⟨by simpa using hdefines,hlast⟩
  · rintro ⟨hprototype,hlast⟩
    refine ⟨p,h.place,heldFrom_of_filed h.filed i,?_,hlast⟩
    rw [defines_of_filed h.filed, hprototype]
    rfl

theorem Recorded.forall_object_eq_value_iff (h : Recorded object i p key op) :
    (∀ run : Evaluation, run.object spell (object.row .properties) key.units = some (.value i)) ↔
      setsPrototype p = false ∧ NoneAfter (object.row .properties) i fun _ later =>
        mayDefine spell later key.units := by
  constructor
  · intro hall
    obtain ⟨hprototype,hlast⟩ := (h.object_eq_value_iff (clash key.units)).mp (hall _)
    exact ⟨hprototype,hlast.mono fun j later hmay => (defines_clash j later).trans hmay⟩
  · rintro ⟨hprototype,hlast⟩ run
    exact (h.object_eq_value_iff run).mpr
      ⟨hprototype,hlast.mono fun _ _ hdefines => mayDefine_of_defines hdefines⟩

end Recorded

/-- The table against what objects hold. For every object literal that initialises a variable and
every key the operation in the table is that of the last member filed under the key. Right after
the literal the property is the value of this member exactly if the member does not set the
prototype and no later one, of whatever kind, defines the name in the evaluation; and it is so in every
evaluation exactly if no later member has that name or a computed key or spreads something. -/
theorem recorded_held_iff (spell : Number → List Nat) {tree object : Node} {name : String}
    (hobject : Initialises tree object name) (key : Text) (op : Operation) :
    (((operations object).find? fun m => m.1 = key) = some (key, op) ↔
      ∃ i p, Recorded object i p key op) ∧
    ∀ i p, Recorded object i p key op → (name, operations object) ∈ proxies [] tree ∧
      (∀ run : Evaluation, run.object spell (object.row .properties) key.units = some (.value i) ↔
        setsPrototype p = false ∧ NoneAfter (object.row .properties) i fun j later =>
          run.defines spell j later key.units) ∧
      ((∀ run : Evaluation,
          run.object spell (object.row .properties) key.units = some (.value i)) ↔
        setsPrototype p = false ∧ NoneAfter (object.row .properties) i fun _ later =>
          mayDefine spell later key.units) := by
  refine ⟨find?_operations_eq_some_iff,fun i p hrecorded => ⟨hobject.mem_proxies ?_,
    hrecorded.object_eq_value_iff,hrecorded.forall_object_eq_value_iff⟩⟩
  intro hnil
  have hfind := find?_operations_eq_some_iff.mpr ⟨i,p,hrecorded⟩
  rw [hnil] at hfind
  cases hfind

/-- The literal `{s: "a", t: "b", s: x}`. -/
def overridden : Node :=
  let member (key : String) (value : Node) : Field × Node :=
    (.properties, .mk (.property false false false "init")
      [(.key, .identifier key), (.value, value)])
  .mk .objectExpression
    [member "s" (.ofText (Text.ofString "a")), member "t" (.ofText (Text.ofString "b")),
     member "s" (.identifier "x")]

/-- The program `var p = {s: "a", t: "b", s: x};`. -/
def declaringOverridden : Node :=
  .mk (.program "script")
    [(.body, .mk (.variableDeclaration "var")
      [(.declarations, .mk .variableDeclarator [(.id, .identifier "p"), (.init, overridden)])])]

/-- The table has the first string for `s`, which the object never holds, and the string for `t`, which
it always holds. -/
theorem recorded_held_overridden :
    ("p", [(Text.ofString "t", .string (Text.ofString "b")),
        (Text.ofString "s", .string (Text.ofString "a"))]) ∈ proxies [] declaringOverridden ∧
      ∀ run : Evaluation,
        run.object (fun _ => []) (overridden.row .properties) (Text.ofString "s").units
          ≠ some (.value 0) ∧
        run.object (fun _ => []) (overridden.row .properties) (Text.ofString "t").units
          = some (.value 1) := by
  have hobject : Initialises declaringOverridden overridden "p" := ⟨[0, 0],_,rfl,rfl,rfl,rfl,rfl⟩
  have hs : Recorded overridden 0 _ (Text.ofString "s") (.string (Text.ofString "a")) :=
    ⟨rfl,rfl,by decide⟩
  have ht : Recorded overridden 1 _ (Text.ofString "t") (.string (Text.ofString "b")) :=
    ⟨rfl,rfl,by decide⟩
  obtain ⟨hlisted,heach,-⟩ := (recorded_held_iff (fun _ => []) hobject _ _).2 0 _ hs
  obtain ⟨-,-,hall⟩ := (recorded_held_iff (fun _ => []) hobject _ _).2 1 _ ht
  refine ⟨hlisted,fun run => ⟨fun hheld => ?_,hall.mpr ⟨rfl,by decide⟩ run⟩⟩
  -- The last member has the name in every evaluation.
  have hlast := ((heach run).mp hheld).2 2 _ (by decide) rfl
  exact absurd hlast nofun

end Unravel.Simplify
