import Unravel.Proofs.Scope.Retouch
import Unravel.Proofs.Simplify.ProxyMeaning
import Unravel.Proofs.Simplify.Work
import Unravel.Proofs.Strings.Rotation

/-! Accesses by plain names written with a dot. The key turns from a literal into an identifier, and
whatever reads names off a tree reads the same from both. -/

namespace Unravel

namespace Simplify

/-- A plain name has no surrogates, so it is the text of a string. -/
theorem ofString_toString {name : Text} (h : isPlainName name = true) :
    Text.ofString name.toString = name := by
  have hsmall : ∀ c ∈ name, c < 128 := by
    have hpart {c : Nat} (hc : isPlainPart c = true) : c < 128 := by
      simp only [isPlainPart, isPlainStart, Bool.or_eq_true, Bool.and_eq_true, decide_eq_true_eq] at hc
      omega
    cases name with
    | nil => cases h
    | cons c rest =>
      simp only [isPlainName, Bool.and_eq_true, List.all_eq_true] at h
      refine List.forall_mem_cons.mpr ⟨hpart ?_,fun d hd => hpart (h.2 d hd)⟩
      rw [isPlainPart, h.1, Bool.true_or]
  rw [Text.ofString, Text.toString, String.toList_ofList, List.map_map]
  refine (List.map_congr_left fun c hc => ?_).trans (List.map_id name)
  have hc := hsmall c hc
  have hnot : Text.isSurrogate c = false := by
    simp only [Text.isSurrogate, Bool.and_eq_false_iff, decide_eq_false_iff_not]
    omega
  have hvalid : c.isValidChar := .inl (by omega)
  have hchar : (Char.ofNat c).toNat = c := by
    rw [Char.ofNat, dif_pos hvalid]
    rfl
  simp [hnot, hchar]

end Simplify

namespace Node
open Simplify

/-- How a node may be spelled when its subtrees are: as it was, or with a dot if it is an access by a
plain name. Marks may change. -/
inductive Spells (f : Node → Node) : Node → Node → Prop
  | kept (m m' : Option Nat) (l : Label) (cs : List (Field × Node)) :
    Spells f (.marked m l cs) (.marked m' l (cs.map fun c => (c.1, f c.2)))
  | dotted (m m' k : Option Nat) (object : Node) (name : Text) (raw : Option Text)
    (hname : isPlainName name = true) :
    Spells f (.marked m (.memberExpression true)
        [(.object, object), (.property, .marked k (.literal (.text name) raw) [])])
      (.marked m' (.memberExpression false)
        [(.object, f object), (.property, .identifier name.toString)])

/-- A change of trees of a kind that spells each node. -/
structure Dots (P : Node → Prop) (f : Node → Node) : Prop where
  subtree : ∀ n, P n → ∀ c ∈ n.subtrees, P c.2
  spells : ∀ n, P n → Spells f n (f n)

namespace Dots
variable {P : Node → Prop} {f : Node → Node} (h : Dots P f) {n : Node} (hn : P n)
include h hn

theorem of_child? {g : Field} {c : Node} (hc : n.child? g = some c) : P c := by
  obtain ⟨i,hi⟩ := exists_index? hc
  exact h.subtree n hn (g, c) (List.mem_of_getElem? (getElem?_index? hi hc))

theorem of_row {g : Field} {c : Node} (hc : c ∈ n.row g) : P c := by
  obtain ⟨d,hd,rfl⟩ := List.mem_map.mp hc
  exact h.subtree n hn d (List.mem_filter.mp hd).1

theorem of_at? {q : Path} {c : Node} (hc : n.at? q = some c) : P c := by
  induction q generalizing n with
  | nil =>
    obtain rfl := Option.some.inj hc
    exact hn
  | cons i q ih =>
    obtain ⟨d,hd,hc⟩ := Option.bind_eq_some_iff.mp hc
    exact ih (h.subtree n hn d (List.mem_of_getElem? hd)) hc

/-! ### Labels and slots -/

theorem label_eq {l : Label} (hl : ∀ b, l ≠ .memberExpression b) : (f n).label = l ↔ n.label = l := by
  have hs := h.spells n hn
  generalize f n = n' at hs
  cases hs with
  | kept => rfl
  | dotted => exact ⟨fun he => absurd he.symm (hl false),fun he => absurd he.symm (hl true)⟩

theorem label_of_ne (hl : n.label ≠ .memberExpression true) : (f n).label = n.label := by
  have hs := h.spells n hn
  generalize f n = n' at hs
  cases hs with
  | kept => rfl
  | dotted => exact absurd rfl hl

theorem label_member (hl : n.label = .memberExpression true) :
    ∃ b, (f n).label = .memberExpression b := by
  have hs := h.spells n hn
  generalize f n = n' at hs
  cases hs with
  | kept => exact ⟨true,hl⟩
  | dotted => exact ⟨false,rfl⟩

theorem stringValue? : (f n).stringValue? = n.stringValue? := by
  have hs := h.spells n hn
  generalize f n = n' at hs
  cases hs <;> rfl

theorem identifierName? : (f n).identifierName? = n.identifierName? := by
  have hs := h.spells n hn
  generalize f n = n' at hs
  cases hs <;> rfl

theorem fields : (f n).subtrees.map Prod.fst = n.subtrees.map Prod.fst := by
  have hs := h.spells n hn
  generalize f n = n' at hs
  cases hs with
  | kept => simp [subtrees]
  | dotted => rfl

theorem index? (g : Field) : (f n).index? g = n.index? g := by
  have hs := h.spells n hn
  generalize f n = n' at hs
  cases hs with
  | kept m m' l cs =>
    simp only [Node.index?, subtrees, List.findIdx?_map]
    rfl
  | dotted => simp [Node.index?, subtrees, List.findIdx?_cons]

theorem child?_of_ne {g : Field} (hg : g ≠ .property) : (f n).child? g = (n.child? g).map f := by
  have hs := h.spells n hn
  generalize f n = n' at hs
  cases hs with
  | kept m m' l cs =>
    simp only [Node.child?, subtrees, List.find?_map, Option.map_map]
    rfl
  | dotted m m' k object name raw hname =>
    simp only [Node.child?, subtrees, List.find?_cons]
    cases g <;> first | rfl | exact absurd rfl hg

theorem row (hl : n.label ≠ .memberExpression true) (g : Field) : (f n).row g = (n.row g).map f := by
  have hs := h.spells n hn
  generalize f n = n' at hs
  cases hs with
  | kept m m' l cs =>
    simp only [Node.row, subtrees, List.filter_map, List.map_map]
    rfl
  | dotted => exact absurd rfl hl

/-- A member has the same name in both spellings. -/
theorem memberName? : (f n).memberName? = n.memberName? := by
  have hs := h.spells n hn
  have hsub := h.subtree n hn
  generalize f n = n' at hs
  cases hs with
  | kept m m' l cs =>
    simp only [Node.memberName?, label]
    cases l with
    | memberExpression computed =>
      simp only [Node.child?, subtrees, List.find?_map, Option.map_map]
      cases hc : cs.find? fun c => c.1 = .property with
      | none => simp [Function.comp_def, hc]
      | some c =>
        have hp := hsub c (List.mem_of_find?_eq_some hc)
        simp [Function.comp_def, hc, staticKey?, h.stringValue? hp, h.identifierName? hp]
    | _ => rfl
  | dotted m m' k object name raw hname =>
    exact congrArg some (ofString_toString hname)

/-! ### Scope analysis -/

theorem bound (member : Bool) (p : Path) : (f n).bound member p = n.bound member p := by
  induction n using inductionOn generalizing member p with
  | marked m l cs ih =>
    have hs := h.spells _ hn
    have hsub := h.subtree _ hn
    generalize f (.marked m l cs) = n' at hs
    cases hs with
    | kept _ m' =>
      rw [bound_marked, bound_marked]
      congr 1
      cases l.target member with
      | none => rfl
      | some t =>
        simp only [List.zipIdx_map, List.flatMap_map]
        refine List.flatMap_congr fun c hc => ?_
        have hmem := List.fst_mem_of_mem_zipIdx hc
        simp only [Prod.map, id, ih c.1 hmem (hsub c.1 hmem)]
    | dotted => simp [bound_marked, Label.target]

private theorem tagBase? (p : Path) : Walk.tagBase? (f n) p = Walk.tagBase? n p := by
  induction n, p using Walk.tagBase?.induct with
  | case1 m name cs p =>
    have hs := h.spells _ hn
    generalize f (.marked m (.jsxIdentifier name) cs) = n' at hs
    cases hs
    rfl
  | case2 m o rest p ih =>
    have hs := h.spells _ hn
    have ho := h.subtree _ hn (.object, o) List.mem_cons_self
    generalize f (.marked m .jsxMemberExpression ((.object, o) :: rest)) = n' at hs
    cases hs
    exact ih ho
  | case3 n p h1 h2 =>
    have hs := h.spells _ hn
    rw [Walk.tagBase?.eq_3 _ _ h1 h2]
    generalize f n = n' at hs
    cases hs with
    | kept m m' l cs =>
      refine Walk.tagBase?.eq_3 _ _ (fun m name cs' he => ?_) fun m o rest he => ?_
      · injection he with _ hl _
        exact h1 _ name cs (by rw [hl])
      · injection he with _ hl hcs
        cases cs with
        | nil => cases hcs
        | cons c cs =>
          obtain ⟨hc,-⟩ := List.cons.inj hcs
          obtain ⟨hf,-⟩ := Prod.mk.inj hc
          exact h2 _ c.2 cs (by rw [hl, ← hf])
    | dotted => rfl

private theorem member {g : Field} (hg : g ≠ .property) (reach : Reach) (p : Path) :
    Piece.member g reach (f n) p = Piece.member g reach n p := by
  unfold Piece.member
  rw [h.index? hn, h.child?_of_ne hn hg]
  cases n.index? g with
  | none => rfl
  | some j =>
    cases hc : n.child? g with
    | none => rfl
    | some target => exact congrArg (List.map _) (h.bound (h.of_child? hn hc) false _)

omit hn in
private theorem across {cs : List (Field × Node)} (hcs : ∀ c ∈ cs, P c.2) (p : Path)
    (ih : ∀ c ∈ cs, ∀ p, (f c.2).walk.visit p = c.2.walk.visit p ∧
      (c.2.label = .blockStatement → (f c.2).walk.inside p = c.2.walk.inside p)) (piece : Piece) :
    piece.across (cs.map fun c => (c.1, f c.2)) p = piece.across cs p := by
  simp only [Piece.across, List.zipIdx_map, List.flatMap_map]
  refine List.flatMap_congr fun c hc => ?_
  have hmem := List.fst_mem_of_mem_zipIdx hc
  have hp := hcs c.1 hmem
  obtain ⟨hvisit,hinside⟩ := ih c.1 hmem (p ++ [c.2])
  cases piece with
  | body =>
    simp only [Piece.eventsAt, Prod.map, id, h.label_eq hp (l := .blockStatement) (by simp), hvisit]
    split
    · split
      · rename_i hblock
        exact hinside hblock
      · rfl
    · rfl
  | declarator reach => exact h.member hp (by decide) _ _
  | specifier =>
    simp only [Piece.eventsAt, Prod.map, id, h.member hp (g := .localName) (by decide)]
  | _ =>
    simp only [Piece.eventsAt, Piece.component, Prod.map, id, hvisit, boundIdentifiers_eq,
      h.bound hp, h.tagBase? hp]

/-- The walk of a tree meets the same in both spellings: a literal key is no use of a name, and neither
is a name after a dot. -/
theorem walk (p : Path) : (f n).walk.visit p = n.walk.visit p ∧
    (n.label = .blockStatement → (f n).walk.inside p = n.walk.inside p) := by
  induction n using inductionOn generalizing p with
  | marked m l cs ih =>
    have hs := h.spells _ hn
    have hsub : ∀ c ∈ cs, P c.2 := h.subtree _ hn
    generalize f (.marked m l cs) = n' at hs
    cases hs with
    | kept _ m' =>
      have hacross := h.across hsub p fun c hc => ih c hc (hsub c hc)
      have hpieces : Piece.across (cs.map fun c => (c.1, f c.2)) p = Piece.across cs p :=
        funext hacross
      rw [walk_visit, walk_visit, walk_inside, walk_inside, hacross, Plan.events, Plan.events, hpieces]
      exact ⟨rfl,fun _ => rfl⟩
    | dotted _ m' k object name raw hname =>
      have hobject := (ih (.object, object) List.mem_cons_self (hsub _ List.mem_cons_self) (p ++ [0])).1
      have hkey : (marked k (.literal (.text name) raw) []).walk.visit (p ++ [1]) = [] := by
        rw [walk_visit]
        rfl
      rw [walk_visit, walk_visit]
      refine ⟨?_,by simp [label]⟩
      simp [Plan.events, Label.plan, Piece.across, Plan.slot, Piece.eventsAt, hobject, hkey]

theorem scope (hprogram : n.IsProgram) : (f n).scope = n.scope := by
  obtain ⟨sourceType,hl⟩ := hprogram
  have hl' := (h.label_eq hn (by simp)).mpr hl
  have hevents : (f n).events = n.events := (h.walk hn []).1
  simp only [Node.scope, hevents, hl, hl']

/-! ### Names and calls -/

theorem referencedNames : (f n).referencedNames = n.referencedNames := by
  have hname (m : Option Nat) (name : String) (cs : List (Field × Node)) :
      (marked m (.identifier name) cs).referencedNames = [name] := by
    rw [Node.referencedNames, fold_marked]
  have hinner (m : Option Nat) {l : Label} (hl : ∀ name, l ≠ .identifier name) (cs : List (Field × Node)) :
      (marked m l cs).referencedNames =
        cs.flatMap fun c => if namesUsed l c.1 then c.2.referencedNames else [] := by
    rw [Node.referencedNames, fold_marked]
    cases l <;> first | exact absurd rfl (hl _) | exact List.flatMap_map ..
  induction n using inductionOn with
  | marked m l cs ih =>
    have hs := h.spells _ hn
    have hsub := h.subtree _ hn
    generalize f (.marked m l cs) = n' at hs
    cases hs with
    | kept _ m' =>
      have hnames : ((cs.map fun c => (c.1, f c.2)).flatMap fun c =>
          if namesUsed l c.1 then c.2.referencedNames else []) =
            cs.flatMap fun c => if namesUsed l c.1 then c.2.referencedNames else [] := by
        rw [List.flatMap_map]
        exact List.flatMap_congr fun c hc => by rw [ih c hc (hsub c hc)]
      by_cases hl : ∃ name, l = .identifier name
      · obtain ⟨name,rfl⟩ := hl
        rw [hname, hname]
      · rw [hinner _ (fun name h => hl ⟨name,h⟩), hinner _ fun name h => hl ⟨name,h⟩]
        exact hnames
    | dotted _ m' k object name raw hname =>
      have hobject := ih (.object, object) List.mem_cons_self (hsub _ List.mem_cons_self)
      have hkey : (marked k (.literal (.text name) raw) []).referencedNames = [] := hinner k (by simp) []
      rw [hinner _ (by simp), hinner _ (by simp)]
      simp [namesUsed, hobject, hkey]

theorem memberCalls : (f n).memberCalls = n.memberCalls := by
  induction n using inductionOn with
  | marked m l cs ih =>
    have hcallee : ((f (.marked m l cs)).child? .callee).bind Node.memberName? =
        ((marked m l cs).child? .callee).bind Node.memberName? := by
      rw [h.child?_of_ne hn (by decide)]
      cases hc : (marked m l cs).child? .callee with
      | none => rfl
      | some callee => exact h.memberName? (h.of_child? hn hc)
    have hcall := h.label_eq hn (l := .callExpression) (by simp)
    have hsub := h.subtree _ hn
    have hinner : (f (.marked m l cs)).subtrees.flatMap (fun c => c.2.memberCalls) =
        (marked m l cs).subtrees.flatMap fun c => c.2.memberCalls := by
      have hs := h.spells _ hn
      clear hcallee hcall
      generalize f (.marked m l cs) = n' at hs
      cases hs with
      | kept _ m' =>
        simp only [subtrees, List.flatMap_map]
        exact List.flatMap_congr fun c hc => ih c hc (hsub c hc)
      | dotted _ m' k object name raw hname =>
        have hobject := ih (.object, object) List.mem_cons_self (hsub _ List.mem_cons_self)
        have hkeys : (Node.identifier name.toString).memberCalls =
            (marked k (.literal (.text name) raw) []).memberCalls := by
          rw [memberCalls_eq, memberCalls_eq]
          rfl
        simp only [subtrees, List.flatMap_cons, hobject, hkeys]
    rw [memberCalls_eq, memberCalls_eq, hinner, hcallee]
    simp only [hcall]

/-! ### Proxy objects -/

private theorem passedName? : Simplify.passedName? (f n) = Simplify.passedName? n := by
  have hs := h.spells n hn
  have harg : ((f n).child? .argument).bind Node.identifierName? =
      (n.child? .argument).bind Node.identifierName? := by
    rw [h.child?_of_ne hn (by decide)]
    cases hc : n.child? .argument with
    | none => rfl
    | some a => exact h.identifierName? (h.of_child? hn hc)
  unfold Simplify.passedName?
  rw [harg]
  generalize f n = n' at hs
  cases hs <;> rfl

private theorem isNamed (name : Option String) {g : Field} (hg : g ≠ .property) :
    Simplify.isNamed ((f n).child? g) name = Simplify.isNamed (n.child? g) name := by
  rw [h.child?_of_ne hn hg]
  unfold Simplify.isNamed
  cases hc : n.child? g with
  | none => rfl
  | some c => simp only [Option.map_some, Option.bind_some, h.identifierName? (h.of_child? hn hc)]

private theorem forwards (hl : n.label ≠ .memberExpression true) (params : List (Option String)) :
    Simplify.forwards ((f n).row .arguments) params = Simplify.forwards (n.row .arguments) params := by
  have hpass : ∀ a ∈ n.row .arguments, Simplify.passedName? (f a) = Simplify.passedName? a :=
    fun a ha => h.passedName? (h.of_row hn ha)
  rw [h.row hn hl]
  unfold Simplify.forwards
  rw [List.length_map, List.zip_map_left, List.all_map]
  congr 1
  rw [Bool.eq_iff_iff, List.all_eq_true, List.all_eq_true]
  refine forall₂_congr fun e he => ?_
  simp only [Function.comp_apply, Prod.map, id, hpass e.1 (List.of_mem_zip he).1]

private theorem wrapped? (params : List (Option String)) :
    Simplify.wrapped? params (f n) = Simplify.wrapped? params n := by
  unfold Simplify.wrapped?
  rw [h.isNamed hn _ (g := .left) (by decide), h.isNamed hn _ (g := .right) (by decide)]
  by_cases hl : n.label = .memberExpression true
  · obtain ⟨b,hb⟩ := h.label_member hn hl
    rw [hl, hb]
  · rw [h.label_of_ne hn hl]
    simp only [h.isNamed hn _ (g := .callee) (by decide), h.forwards hn hl]

private theorem returned? :
    Simplify.returned? (f n) = (Simplify.returned? n).map f := by
  unfold Simplify.returned?
  rw [h.child?_of_ne hn (by decide)]
  cases hbody : n.child? .body with
  | none => rfl
  | some body =>
    have hp := h.of_child? hn hbody
    have hblock := h.label_eq hp (l := .blockStatement) (by simp)
    simp only [Option.map_some, Option.bind_eq_bind, Option.bind_some, ne_eq, hblock]
    split
    · rfl
    · rename_i hb
      rw [h.row hp (by rw [not_not.mp hb]; simp)]
      match hrow : body.row .body with
      | [] => rfl
      | [s] =>
        have hs := h.of_row hp (g := .body) (by rw [hrow]; exact List.mem_singleton_self s)
        have hreturn := h.label_eq hs (l := .returnStatement) (by simp)
        simp only [List.map_cons, List.map_nil, hreturn]
        split
        · exact h.child?_of_ne hs (by decide)
        · rfl
      | _ :: _ :: _ => rfl

theorem classify : Simplify.classify (f n) = Simplify.classify n := by
  unfold Simplify.classify
  rw [h.stringValue? hn]
  cases n.stringValue? with
  | some t => rfl
  | none =>
    by_cases hl : n.label = .memberExpression true
    · obtain ⟨b,hb⟩ := h.label_member hn hl
      rw [hl, hb]
    · have hparams : ((f n).row .params).map Simplify.passedName? =
          (n.row .params).map Simplify.passedName? := by
        rw [h.row hn hl, List.map_map]
        exact List.map_congr_left fun p hp => h.passedName? (h.of_row hn hp)
      have hwrapped : (Simplify.returned? (f n)).bind
          (Simplify.wrapped? (((f n).row .params).map Simplify.passedName?)) =
            (Simplify.returned? n).bind
              (Simplify.wrapped? ((n.row .params).map Simplify.passedName?)) := by
        rw [hparams, h.returned? hn]
        cases he : Simplify.returned? n with
        | none => rfl
        | some e => exact h.wrapped? (h.of_at? hn (exists_at?_returned he).choose_spec) _
      rw [h.label_of_ne hn hl, hwrapped]

private theorem operations (hl : n.label ≠ .memberExpression true) :
    Simplify.operations (f n) = Simplify.operations n := by
  unfold Simplify.operations
  rw [h.row hn hl, List.foldl_map]
  refine List.foldl_ext _ _ _ fun found p hp => ?_
  replace hp := h.of_row hn hp
  by_cases hl : p.label = .memberExpression true
  · obtain ⟨b,hb⟩ := h.label_member hp hl
    rw [hl, hb]
  · have hkey (computed : Bool) : (((f p).child? .key).bind fun k => k.staticKey? computed) =
        (p.child? .key).bind fun k => k.staticKey? computed := by
      rw [h.child?_of_ne hp (by decide)]
      cases hk : p.child? .key with
      | none => rfl
      | some k =>
        have hk := h.of_child? hp hk
        simp only [Option.map_some, Option.bind_some, staticKey?, h.stringValue? hk,
          h.identifierName? hk]
    have hvalue : ((f p).child? .value).bind Simplify.classify =
        (p.child? .value).bind Simplify.classify := by
      rw [h.child?_of_ne hp (by decide)]
      cases hv : p.child? .value with
      | none => rfl
      | some v => exact h.classify (h.of_child? hp hv)
    rw [h.label_of_ne hp hl]
    simp only [hkey, hvalue]

private theorem proxyDeclared? : Simplify.proxyDeclared? (f n) = Simplify.proxyDeclared? n := by
  have hid : ((f n).child? .id).bind Node.identifierName? =
      (n.child? .id).bind Node.identifierName? := by
    rw [h.child?_of_ne hn (by decide)]
    cases hi : n.child? .id with
    | none => rfl
    | some i => exact h.identifierName? (h.of_child? hn hi)
  unfold Simplify.proxyDeclared?
  rw [hid, h.child?_of_ne hn (by decide)]
  cases n.child? .id with
  | none => rfl
  | some i =>
    cases ho : n.child? .init with
    | none => rfl
    | some object =>
      have hp := h.of_child? hn ho
      have hobject := h.label_eq hp (l := .objectExpression) (by simp)
      simp only [Option.map_some, Option.bind_eq_bind, Option.bind_some, hobject]
      split
      · rename_i hl
        rw [h.operations hp (by rw [hl]; simp)]
      · rfl

/-- The table of proxy objects is the same in both spellings. -/
theorem proxies (found : ProxyTable) : Simplify.proxies found (f n) = Simplify.proxies found n := by
  induction n using inductionOn generalizing found with
  | marked m l cs ih =>
    have hdeclared := h.proxyDeclared? hn
    have hs := h.spells _ hn
    have hsub : ∀ c ∈ cs, P c.2 := h.subtree _ hn
    generalize f (.marked m l cs) = n' at hs hdeclared
    cases hs with
    | kept _ m' =>
      have hall (found : ProxyTable) : Simplify.proxiesAll found (cs.map fun c => (c.1, f c.2)) =
          Simplify.proxiesAll found cs := by
        clear hdeclared hn
        induction cs generalizing found with
        | nil => rfl
        | cons c cs ihs =>
          obtain ⟨hc,hcs⟩ := List.forall_mem_cons.mp ih
          obtain ⟨hp,hsub⟩ := List.forall_mem_cons.mp hsub
          rw [List.map_cons, Simplify.proxiesAll, Simplify.proxiesAll, hc hp, ihs hcs hsub]
      rw [Simplify.proxies, Simplify.proxies, hall, hdeclared]
    | dotted _ m' k object name raw hname =>
      have hobject := ih (.object, object) List.mem_cons_self (hsub _ List.mem_cons_self)
      simp [Simplify.proxies, Simplify.proxiesAll, Node.identifier, hobject]

end Dots

end Node

end Unravel
