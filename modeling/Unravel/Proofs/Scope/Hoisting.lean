import Unravel.Proofs.Scope.Interface
import Unravel.Proofs.Scope.Marks

/-! Where declarations are placed. What `var` declares belongs to the nearest function around the
declaration; what `let`, `const`, classes and functions declare stays in the nearest scope of any kind. -/

namespace Unravel

/-- Roles of nodes in which nothing is declared. -/
def Role.isPlain : Role → Bool
  | .name | .literal | .tagName | .importSpecifier => true
  | _ => false

namespace Label

/-- Declarations of variables, functions and classes. -/
def declares (l : Label) : Bool := l.isVariables || l.isNamedDeclaration

variable {l : Label} {r s : Role} {f : Field}

/-- A slot in which names are not used is for a plain role. -/
theorem walks_or_isPlain (hs : s ∈ l.roles r f) : l.walks f = true ∨ s.isPlain = true := by
  have htable : ∀ e ∈ l.table r, l.walks e.1 = true ∨ ∀ s ∈ e.2, s.isPlain = true := by
    cases l with
    | memberExpression computed | property computed | methodDefinition computed =>
      cases computed <;> simp [table, walks, Role.isPlain]
    | _ => simp [table, walks, Role.isPlain]
  obtain ⟨e,he,rfl,hmem⟩ := exists_mem_table hs
  exact (htable e he).imp_right fun hplain => hplain s hmem

theorem reach_eq_here (h : l ≠ .variableDeclaration "var") : l.reach = .here := by
  unfold reach
  split
  · rename_i kind
    exact if_neg fun hkind => h (congrArg variableDeclaration hkind)
  · rfl

/-- A node in a plain role holds plain roles only, and declares nothing. -/
theorem isPlain_roles (hr : r.isPlain = true) (hl : r.has l = true) :
    l.declares = false ∧ ∀ f, ∀ s ∈ l.roles r f, s.isPlain = true := by
  cases r <;> cases hr <;> cases l <;> cases hl <;>
    exact ⟨rfl,forall_roles (by simp [table, Role.isPlain])⟩

end Label

namespace Node
variable {known : Nat → Role → Bool} {r : Role} {n c : Node} {q : Path}

/-! ### Names of declarations -/

/-- A pattern binds the identifier at a place in it: it is that identifier, or has it in a part that
is assigned to. The flag tells a member of an object pattern. -/
inductive PatternBinds : Bool → Node → Path → String → Prop
  | name {member : Bool} {m : Option Nat} {name : String} {cs : List (Field × Node)} :
    PatternBinds member (.marked m (.identifier name) cs) [] name
  | part {member inner : Bool} {m : Option Nat} {l : Label} {cs : List (Field × Node)} {f : Field}
    {i : Nat} {c : Node} {r : Path} {name : String} (ht : l.target member = some (f, inner))
    (hc : cs[i]? = some (f, c)) (h : PatternBinds inner c r name) :
    PatternBinds member (.marked m l cs) (i :: r) name

/-- A declaration of variables declares what the patterns of its declarators bind, and one of a
function or class its name. -/
inductive DeclaresName (c : Node) (q : Path) : Occurrence → Prop
  | declarator {i j : Nat} {e : Field × Node} {target : Node} {r : Path} {name : String}
    (hl : c.label.isVariables = true) (he : c.subtrees[i]? = some e) (hj : e.2.index? .id = some j)
    (ht : e.2.child? .id = some target) (h : PatternBinds false target r name) :
    DeclaresName c q ⟨name,q ++ [i] ++ [j] ++ r,false⟩
  | named {i : Nat} {target : Node} {r : Path} {name : String}
    (hl : c.label.isNamedDeclaration = true) (he : c.subtrees[i]? = some (.id, target))
    (h : PatternBinds false target r name) : DeclaresName c q ⟨name,q ++ [i] ++ r,false⟩

theorem mem_bound_iff {member : Bool} {p : Path} {o : Occurrence} :
    o ∈ n.bound member p ↔ ∃ r name, PatternBinds member n r name ∧ o = ⟨name,p ++ r,false⟩ := by
  induction n using inductionOn generalizing member p with
  | marked m l cs ih =>
    rw [bound_marked, List.mem_append]
    constructor
    · rintro (ho | ho)
      · cases l <;> simp at ho
        rename_i name
        exact ⟨[],name,.name,by simp [ho]⟩
      · cases ht : l.target member with
        | none => simp [ht] at ho
        | some t =>
          simp only [ht, List.mem_flatMap, List.mem_ite_nil_right] at ho
          obtain ⟨⟨⟨f,c⟩,i⟩,hc,rfl,ho⟩ := ho
          obtain ⟨r,name,hbinds,rfl⟩ := (ih _ (List.fst_mem_of_mem_zipIdx hc)).mp ho
          exact ⟨i :: r,name,.part ht (List.mem_zipIdx_iff_getElem?.mp hc) hbinds,by simp⟩
    · rintro ⟨r,name,hbinds,rfl⟩
      cases hbinds with
      | name => exact .inl (by simp)
      | @part _ inner _ _ _ f i c r _ ht hc hbinds =>
        refine .inr ?_
        simp only [ht, List.mem_flatMap, List.mem_ite_nil_right]
        have hmem : ((f, c), i) ∈ cs.zipIdx := List.mem_zipIdx_iff_getElem?.mpr hc
        exact ⟨_,hmem,rfl,(ih _ (List.mem_of_getElem? hc)).mpr ⟨r,name,hbinds,by simp⟩⟩

theorem mem_declaredNames_iff {o : Occurrence} : o ∈ c.declaredNames q ↔ c.DeclaresName q o := by
  unfold declaredNames
  simp only [binds, memberBinds, boundIdentifiers_eq, if_true]
  constructor
  · intro ho
    split at ho
    · rename_i hl
      simp only [List.mem_flatMap, List.mem_ite_nil_right] at ho
      obtain ⟨⟨⟨f,target⟩,i⟩,hi,rfl,ho⟩ := ho
      obtain ⟨r,name,hbinds,rfl⟩ := mem_bound_iff.mp ho
      exact .named hl (List.mem_zipIdx_iff_getElem?.mp hi) hbinds
    · obtain ⟨hl,ho⟩ := List.mem_ite_nil_right.mp ho
      obtain ⟨⟨e,i⟩,hi,ho⟩ := List.mem_flatMap.mp ho
      split at ho
      · rename_i j target hj ht
        obtain ⟨r,name,hbinds,rfl⟩ := mem_bound_iff.mp ho
        exact .declarator hl (List.mem_zipIdx_iff_getElem?.mp hi) hj ht hbinds
      · cases ho
  · intro ho
    cases ho with
    | @declarator i j e target r name hl he hj ht h =>
      have hother : ¬ c.label.isNamedDeclaration = true := by
        obtain ⟨kind,hkind⟩ := Label.isVariables_iff.mp hl
        simp [hkind, Label.isNamedDeclaration]
      have hmem : (e, i) ∈ c.subtrees.zipIdx := List.mem_zipIdx_iff_getElem?.mpr he
      rw [if_neg hother, if_pos hl]
      refine List.mem_flatMap.mpr ⟨_,hmem,?_⟩
      simp only [hj, ht]
      exact mem_bound_iff.mpr ⟨r,name,h,rfl⟩
    | @named i target r name hl he h =>
      have hmem : ((Field.id, target), i) ∈ c.subtrees.zipIdx := List.mem_zipIdx_iff_getElem?.mpr he
      rw [if_pos hl]
      refine List.mem_flatMap.mpr ⟨_,hmem,?_⟩
      rw [if_pos rfl]
      exact mem_bound_iff.mpr ⟨r,name,h,rfl⟩

/-! ### Declarations are walked -/

theorem declares_eq_false_of_isPlain (h : n.fits known r = true) (hr : r.isPlain = true)
    (hc : n.at? q = some c) : c.label.declares = false := by
  induction q generalizing n r with
  | nil =>
    obtain rfl := Option.some.inj hc
    exact (Label.isPlain_roles hr (has_of_fits h)).1
  | cons i q ih =>
    obtain ⟨b,hb,hc⟩ := Option.bind_eq_some_iff.mp hc
    obtain ⟨s,hs,hfits⟩ := fits_of_mem h (List.mem_of_getElem? hb)
    exact ih hfits ((Label.isPlain_roles hr (has_of_fits h)).2 _ s hs) hc

/-- A declaration stands where names are used. -/
theorem exists_enclosing? (h : n.fits known r = true) (hc : n.at? q = some c)
    (hdecl : c.label.declares = true) (isBody : Bool) (p : Path) :
    ∃ around, n.enclosing? isBody p q = some around := by
  induction q generalizing n r isBody p with
  | nil => exact ⟨[],rfl⟩
  | cons i q ih =>
    obtain ⟨b,hb,hc⟩ := Option.bind_eq_some_iff.mp hc
    obtain ⟨s,hs,hfits⟩ := fits_of_mem h (List.mem_of_getElem? hb)
    rcases Label.walks_or_isPlain hs with hw | hs
    · obtain ⟨inner,hinner⟩ := ih hfits hc (n.label.isBody b.1 b.2) (p ++ [i])
      exact ⟨_,enclosing?_cons.mpr ⟨b,inner,hb,hw,hinner,rfl⟩⟩
    · rw [declares_eq_false_of_isPlain hfits hs hc] at hdecl
      cases hdecl

/-! ### Scopes around a place -/

/-- Scopes further out stand higher up. -/
theorem enclosing?_pairwise {isBody : Bool} {p : Path} {around : Enclosing}
    (h : n.enclosing? isBody p q = some around) :
    (∀ s ∈ around, p.length ≤ s.1.length) ∧
      around.Pairwise fun s t => t.1.length < s.1.length := by
  induction q generalizing isBody n p around with
  | nil =>
    obtain rfl := Option.some.inj h
    simp
  | cons i q ih =>
    obtain ⟨c,inner,-,-,hinner,rfl⟩ := enclosing?_cons.mp h
    obtain ⟨hlong,hpairwise⟩ := ih hinner
    have hopened : ∀ s ∈ n.label.opened isBody p, s.1 = p := by
      intro s hs
      unfold Label.opened at hs
      split at hs
      · cases hs
      · obtain ⟨f,-,rfl⟩ := Option.map_eq_some_iff.mp (Option.mem_toList.mp hs)
        rfl
    have hsingle : (n.label.opened isBody p).Pairwise fun s t => t.1.length < s.1.length := by
      unfold Label.opened
      split
      · exact .nil
      · cases n.label.opens <;> simp
    have hinside : ∀ s ∈ inner, p.length < s.1.length := by
      intro s hs
      have := hlong s hs
      simp only [List.length_append, List.length_singleton] at this
      omega
    constructor
    · intro s hs
      rcases List.mem_append.mp hs with hs | hs
      · exact Nat.le_of_lt (hinside s hs)
      · exact Nat.le_of_eq (congrArg List.length (hopened s hs)).symm
    · refine List.pairwise_append.mpr ⟨hpairwise,hsingle,fun s hs t ht => ?_⟩
      rw [hopened t ht]
      exact hinside s hs

/-- The outermost scope is that of the program. -/
theorem enclosing?_program (h : n.IsProgram) {around : Enclosing} (hq : q ≠ [])
    (haround : n.enclosing? false [] q = some around) : ∃ inner, around = inner ++ [([], true)] := by
  obtain ⟨sourceType,hl⟩ := h
  cases q with
  | nil => exact absurd rfl hq
  | cons i q =>
    obtain ⟨c,inner,-,-,-,rfl⟩ := enclosing?_cons.mp haround
    exact ⟨inner,by rw [hl]; rfl⟩

/-- The nearest function is the nearest scope if that is a function's. -/
private theorem function_eq_nearest_iff {nearest function : Path} {isFunction flag : Bool}
    {outer : Enclosing}
    (hhigher : ((nearest, isFunction) :: outer).Pairwise fun s t => t.1.length < s.1.length)
    (hfound : ((nearest, isFunction) :: outer).find? Prod.snd = some (function, flag)) :
    function = nearest ↔ isFunction = true := by
  cases isFunction with
  | true =>
    rw [List.find?_cons_of_pos rfl] at hfound
    have hsame : nearest = function := congrArg Prod.fst (Option.some.inj hfound)
    simp [hsame]
  | false =>
    rw [List.find?_cons_of_neg (by simp)] at hfound
    have hlt := (List.pairwise_cons.mp hhigher).1 _ (List.mem_of_find?_eq_some hfound)
    simp only [Bool.false_eq_true, iff_false]
    rintro rfl
    exact Nat.lt_irrefl _ hlt

/-! ### Placement -/

/-- An identifier is one of the declarations of a name in the scope at a place. -/
def BoundIn (n : Node) (s : Path) (o : Occurrence) : Prop :=
  ∃ σ ∈ n.scope.walk, σ.path = s ∧ ∃ b ∈ σ.bindings, b.name = o.name ∧ o ∈ b.declarations

instance (n : Node) (s : Path) (o : Occurrence) : Decidable (n.BoundIn s o) :=
  inferInstanceAs (Decidable (∃ σ ∈ n.scope.walk, σ.path = s ∧
    ∃ b ∈ σ.bindings, b.name = o.name ∧ o ∈ b.declarations))

section Placement
variable (h : n.IsProgram) (hd : n.DeclaratorsOnly) {s t : Path} {o : Occurrence}
include h hd

theorem boundIn_of_declaredIn {kind : BindingKind} (ho : n.DeclaredIn s kind o) : n.BoundIn s o := by
  obtain ⟨σ,hσ,hs,b,hb,hname⟩ := (declares_iff_bound h hd).mp ⟨kind,o,ho,rfl⟩
  refine ⟨σ,hσ,hs,b,hb,hname,?_⟩
  exact (mem_declarations_iff h hσ hb hd).mpr ⟨hname.symm,kind,hs ▸ ho⟩

/-- An identifier declares a name in one scope only. -/
theorem boundIn_unique (hs : n.BoundIn s o) (ht : n.BoundIn t o) : s = t := by
  obtain ⟨σ,hσ,rfl,b,hb,-,hbo⟩ := hs
  obtain ⟨τ,hτ,rfl,b',hb',-,hbo'⟩ := ht
  have honce := occurrences_nodup h hd
  rw [Scope.allBindings, List.flatMap_assoc] at honce
  have hlisted {σ : Scope} {b : Binding} (hb : b ∈ σ.bindings) (ho : o ∈ b.declarations) :
      o.path ∈ σ.bindings.flatMap fun b => b.occurrences.map (·.path) :=
    List.mem_flatMap.mpr ⟨b,hb,List.mem_map_of_mem (List.mem_append_left _ ho)⟩
  exact congrArg Scope.path (eq_of_mem_flatMap honce hσ hτ (hlisted hb hbo) (hlisted hb' hbo'))

theorem boundIn_iff_of_visits {around : Enclosing} {q : Path} {c : Node}
    (hc : n.Visits q c around) (ho : c.DeclaresName q o)
    (hs : c.label.reach.scope? around = some s) : n.BoundIn t o ↔ t = s := by
  obtain ⟨kind,hout⟩ := Rename.exists_mem_outward (mem_declaredNames_iff.mpr ho)
  have hbound : n.BoundIn s o :=
    boundIn_of_declaredIn h hd ⟨q,c,around,hc,.inl ⟨_,hout,hs⟩⟩
  constructor
  · intro ht
    exact boundIn_unique h hd ht hbound
  · rintro rfl
    exact hbound

end Placement

/-- The scope in which a program places what its declarations declare. The names of a `var`, however
deep in a pattern, are in the nearest function around it, and in no other scope. Those of `let`,
`const` and of classes are in the nearest scope of any kind, and so is the name of a function: it is in
the nearest function only where that is the nearest scope. -/
theorem declaresName_boundIn_iff (h : n.Grammatical) (hc : n.at? q = some c)
    (hdecl : c.label.declares = true) :
    ∃ nearest isFunction outer function,
      n.enclosing? false [] q = some ((nearest, isFunction) :: outer) ∧
      (((nearest, isFunction) :: outer).find? Prod.snd).map Prod.fst = some function ∧
      ∀ o, c.DeclaresName q o →
        (c.label = .variableDeclaration "var" → ∀ s, n.BoundIn s o ↔ s = function) ∧
        (c.label ≠ .variableDeclaration "var" → ∀ s, n.BoundIn s o ↔ s = nearest) ∧
        (c.label.isNamedDeclaration = true → (n.BoundIn function o ↔ isFunction = true)) := by
  have hprog := isProgram_of_fits h
  have hd := declaratorsOnly_of_fits h
  obtain ⟨around,haround⟩ := exists_enclosing? h hc hdecl false []
  have hq : q ≠ [] := by
    rintro rfl
    obtain rfl := Option.some.inj hc
    obtain ⟨sourceType,hl⟩ := hprog
    rw [hl] at hdecl
    cases hdecl
  obtain ⟨inner,rfl⟩ := enclosing?_program hprog hq haround
  have hvisits : n.Visits q c (inner ++ [([], true)]) := ⟨hc,haround⟩
  obtain ⟨-,hhigher⟩ := enclosing?_pairwise haround
  obtain ⟨⟨nearest,isFunction⟩,outer,hsplit⟩ : ∃ s outer, inner ++ [([], true)] = s :: outer := by
    cases inner <;> simp
  obtain ⟨⟨function,flag⟩,hfound⟩ : ∃ s, (inner ++ [([], true)]).find? Prod.snd = some s :=
    Option.isSome_iff_exists.mp (List.find?_isSome.mpr ⟨([], true),by simp,rfl⟩)
  rw [hsplit] at haround hvisits hhigher hfound
  refine ⟨nearest,isFunction,outer,function,haround,by rw [hfound]; rfl,fun o ho => ⟨?_,?_,?_⟩⟩
  · intro hvar s
    refine boundIn_iff_of_visits hprog hd hvisits ho ?_
    rw [hvar, Label.reach, if_pos rfl, Reach.scope?, hfound]
    rfl
  · intro hother s
    refine boundIn_iff_of_visits hprog hd hvisits ho ?_
    rw [Label.reach_eq_here hother]
    rfl
  · intro hnamed
    have hother : c.label ≠ .variableDeclaration "var" := by
      intro hvar
      rw [hvar] at hnamed
      cases hnamed
    have hhere : c.label.reach.scope? ((nearest, isFunction) :: outer) = some nearest := by
      rw [Label.reach_eq_here hother]
      rfl
    rw [boundIn_iff_of_visits hprog hd hvisits ho hhere]
    exact function_eq_nearest_iff hhigher hfound

/-- The program `{ function f() {} var [x] = y; let z; } f();`. -/
def blockFunction : Node :=
  let declaration (kind : String) (parts : List (Field × Node)) : Node :=
    .mk (.variableDeclaration kind) [(.declarations, .mk .variableDeclarator parts)]
  .mk (.program "script")
    [(.body, .block
      [.mk (.functionDeclaration {} none) [(.id, .identifier "f"), (.body, .block [])],
       declaration "var"
         [(.id, .mk .arrayPattern [(.elements, .identifier "x")]), (.init, .identifier "y")],
       declaration "let" [(.id, .identifier "z")]]),
     (.body, .mk (.expressionStatement none none) [(.expression, .call (.identifier "f") [])])]

/-- The function is in the block like `z`, and not in the program like `x`. -/
theorem declaresName_boundIn_blockFunction :
    (blockFunction.BoundIn [0] ⟨"f",[0, 0, 0],false⟩ ∧ ¬blockFunction.BoundIn [] ⟨"f",[0, 0, 0],false⟩) ∧
      (∀ s, blockFunction.BoundIn s ⟨"x",[0, 1, 0, 0, 0],false⟩ ↔ s = []) ∧
      ∀ s, blockFunction.BoundIn s ⟨"z",[0, 2, 0, 0],false⟩ ↔ s = [0] := by
  have hplaced (i : Nat) (c : Node) (hc : blockFunction.at? [0, i] = some c)
      (hdecl : c.label.declares = true)
      (haround : blockFunction.enclosing? false [] [0, i] = some [([0], false), ([], true)]) :
      ∀ o ∈ c.declaredNames [0, i],
        (c.label = .variableDeclaration "var" → ∀ s, blockFunction.BoundIn s o ↔ s = []) ∧
        (c.label ≠ .variableDeclaration "var" → ∀ s, blockFunction.BoundIn s o ↔ s = [0]) ∧
        (c.label.isNamedDeclaration = true → (blockFunction.BoundIn [] o ↔ false = true)) := by
    obtain ⟨s,g,outer,t,hs,ht,hall⟩ :=
      declaresName_boundIn_iff (by decide : blockFunction.Grammatical) hc hdecl
    cases haround.symm.trans hs
    cases ht
    exact fun o ho => hall o (mem_declaredNames_iff.mp ho)
  obtain ⟨-,hblock,hfunction⟩ := hplaced 0 _ rfl rfl rfl ⟨"f",[0, 0, 0],false⟩ (by decide)
  obtain ⟨hvar,-⟩ := hplaced 1 _ rfl rfl rfl ⟨"x",[0, 1, 0, 0, 0],false⟩ (by decide)
  obtain ⟨-,hlet,-⟩ := hplaced 2 _ rfl rfl rfl ⟨"z",[0, 2, 0, 0],false⟩ (by decide)
  refine ⟨⟨(hblock (by decide) [0]).mpr rfl,fun h => ?_⟩,hvar rfl,hlet (by decide)⟩
  exact absurd ((hfunction rfl).mp h) (by decide)

end Node

end Unravel
