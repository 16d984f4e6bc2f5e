import Mathlib.Data.List.Sublists
import Unravel.Proofs.Grammar.Visits
import Unravel.Proofs.Settling.Counts
import Unravel.Proofs.Simplify.DecidedTests
import Unravel.Proofs.Simplify.Dotting

/-! Plain access as one change of a tree. Every computed access by a plain name is written with a dot, and
nothing else in the tree changes. -/

namespace Unravel

namespace Node
open Simplify

/-- Every computed access has an object and a key, in this order, and string literals have no parts. -/
def MembersWhole (n : Node) : Prop :=
  ∀ e ∈ n.located [],
    (e.2.label = .memberExpression true → e.2.subtrees.map Prod.fst = [.object, .property]) ∧
      (e.2.isString = true → e.2.subtrees.isEmpty = true)

instance (n : Node) : Decidable n.MembersWhole := inferInstanceAs (Decidable (∀ e ∈ _, _))

theorem MembersWhole.at? {n c : Node} {q : Path} (h : n.MembersWhole) (hc : n.at? q = some c) :
    c.MembersWhole := by
  intro e he
  obtain ⟨p,-,hp⟩ := mem_located.mp he
  apply h (q ++ p, e.2)
  exact mem_located.mpr ⟨q ++ p,rfl,by rw [at?_append, hc, Option.bind_some, hp]⟩

theorem MembersWhole.subtree {n : Node} (h : n.MembersWhole) {c : Field × Node}
    (hc : c ∈ n.subtrees) : c.2.MembersWhole := by
  obtain ⟨i,hi⟩ := exists_at?_of_mem hc
  exact h.at? hi

theorem MembersWhole.self {n : Node} (h : n.MembersWhole) :
    (n.label = .memberExpression true → n.subtrees.map Prod.fst = [.object, .property]) ∧
      (n.isString = true → n.subtrees = []) := by
  obtain ⟨hmember,hstring⟩ := h ([], n) (mem_located.mpr ⟨[],rfl,rfl⟩)
  exact ⟨hmember,fun hs => List.isEmpty_iff.mp (hstring hs)⟩

theorem membersWhole_marked {m : Option Nat} {l : Label} {cs : List (Field × Node)}
    (hmember : l = .memberExpression true → cs.map Prod.fst = [.object, .property])
    (hstring : (marked m l cs).isString = true → cs = []) (h : ∀ c ∈ cs, c.2.MembersWhole) :
    (marked m l cs).MembersWhole := by
  intro e he
  obtain ⟨q,-,ha⟩ := mem_located.mp he
  cases q with
  | nil =>
    rw [← Option.some.inj ha]
    exact ⟨hmember,fun hs => List.isEmpty_iff.mpr (hstring hs)⟩
  | cons i q =>
    obtain ⟨c,hc,hat⟩ := Option.bind_eq_some_iff.mp ha
    have hmem : c ∈ cs := List.mem_of_getElem? hc
    exact h c hmem (q, e.2) (mem_located.mpr ⟨q,rfl,hat⟩)

/-- Slots for one subtree each are filled in their order. -/
private theorem map_fst_slots? {fuel : Nat} {j : Json} {fields : List Field}
    {cs : List (Field × Node)} (h : slots? fuel j (fields.map Slot.one) = some cs) :
    (cs.map Prod.fst).Sublist fields := by
  induction fields generalizing fuel cs with
  | nil =>
    rw [slots?_nil h]
    exact List.Sublist.slnil
  | cons f fields ih =>
    cases fuel with
    | zero => cases h
    | succ fuel =>
      obtain ⟨more,hmore,h⟩ := Option.bind_eq_some_iff.mp h
      split at h
      · obtain rfl := Option.some.inj h
        exact (ih hmore).cons f
      · obtain rfl := Option.some.inj h
        exact (ih hmore).cons f
      · obtain ⟨c,-,h⟩ := Option.bind_eq_some_iff.mp h
        obtain rfl := Option.some.inj h
        exact (ih hmore).cons_cons f

private theorem eq_of_filled_memberExpression : ∀ fields ∈ [Field.object, .property].sublists,
    (Label.memberExpression true).filled fields = true → fields = [.object, .property] := by
  decide

/-- Where what is read from a record is grammatical, every access has its object and its key. -/
theorem Received.membersWhole {n : Node} (h : n.Received) {known : Nat → Role → Bool} {r : Role}
    (hfits : n.fits known r = true) : n.MembersWhole := by
  induction h generalizing r with
  | @node _ _ l cs hcs _ ih =>
    obtain ⟨-,-,hfilled,hparts⟩ := fits_marked.mp hfits
    refine membersWhole_marked (fun hl => ?_) (fun hs => ?_) fun c hc => ?_
    · subst hl
      have hsub : (cs.map Prod.fst).Sublist [.object, .property] := map_fst_slots? hcs
      exact eq_of_filled_memberExpression _ (List.mem_sublists.mpr hsub) hfilled
    · rw [isString, stringValue?] at hs
      split at hs
      · rename_i v raw hl
        obtain rfl : l = .literal (.text v) raw := hl
        exact slots?_nil hcs
      · cases hs
    · obtain ⟨s,-,hfits⟩ := hparts c hc
      exact ih c hc hfits

@[simp]
theorem isPlainAccess_plain (n : Node) : n.plain.isPlainAccess = n.isPlainAccess := by
  simp only [isPlainAccess, label_plain, child?_plain]
  cases n.child? .property <;> simp [isPlainString]

theorem MembersWhole.plain {n : Node} (h : n.MembersWhole) : n.plain.MembersWhole := by
  intro e he
  obtain ⟨p,-,hp⟩ := mem_located.mp he
  rw [at?_plain] at hp
  obtain ⟨c,hc,hplain⟩ := Option.map_eq_some_iff.mp hp
  obtain ⟨hmember,hstring⟩ := (h.at? hc).self
  obtain ⟨m,l,cs⟩ := c
  rw [← hplain, plain_marked]
  refine ⟨fun hl => ?_,fun hs => ?_⟩
  · have hfields := hmember hl
    simp only [subtrees, List.map_map] at hfields ⊢
    exact hfields
  · obtain rfl : cs = [] := hstring hs
    rfl

/-- What an access by a plain name consists of. -/
theorem MembersWhole.plainAccess {n : Node} (h : n.MembersWhole) (ha : n.isPlainAccess = true) :
    ∃ m k object name raw, isPlainName name = true ∧ n = .marked m (.memberExpression true)
      [(.object, object), (.property, .marked k (.literal (.text name) raw) [])] := by
  simp only [isPlainAccess, Bool.and_eq_true, decide_eq_true_eq] at ha
  obtain ⟨hl,hkey⟩ := ha
  have hfields := h.self.1 hl
  obtain ⟨m,l,cs⟩ := n
  obtain rfl : l = .memberExpression true := hl
  rcases cs with _ | ⟨⟨f,object⟩,_ | ⟨⟨g,key⟩,rest⟩⟩
  · cases hfields
  · simp [subtrees] at hfields
  · simp only [subtrees, List.map_cons, List.cons.injEq, List.map_eq_nil_iff] at hfields
    obtain ⟨rfl,rfl,rfl⟩ := hfields
    have hplain : key.isPlainString = true := hkey
    obtain ⟨name,hname,hplain⟩ := (Option.any_eq_true ..).mp hplain
    have hempty := (h.subtree (c := (.property, key)) (by simp [subtrees])).self.2
      (by rw [isString, hname]; rfl)
    obtain ⟨k,l,ds⟩ := key
    obtain rfl : ds = [] := hempty
    unfold stringValue? at hname
    split at hname
    · rename_i t raw hl
      obtain rfl := Option.some.inj hname
      obtain rfl : l = .literal (.text t) raw := hl
      exact ⟨m,k,object,t,raw,hplain,rfl⟩
    · cases hname

mutual
/-- A tree with each access by a plain name written with a dot. -/
def dotted : Node → Node
  | .marked m l cs => (accessRule.finish Rule.top (.marked m l (dottedAll cs))).kept
def dottedAll : List (Field × Node) → List (Field × Node)
  | [] => []
  | (f, n) :: rest => (f, n.dotted) :: dottedAll rest
end

theorem dottedAll_eq (cs : List (Field × Node)) : dottedAll cs = cs.map fun c => (c.1, c.2.dotted) := by
  induction cs with
  | nil => rfl
  | cons c cs ih => rw [dottedAll, ih, List.map_cons]

theorem dotted_marked (m : Option Nat) (l : Label) (cs : List (Field × Node)) :
    (marked m l cs).dotted =
      (accessRule.finish Rule.top (.marked m l (cs.map fun c => (c.1, c.2.dotted)))).kept := by
  rw [dotted, dottedAll_eq]

end Node

namespace Simplify
open Node

/-! ### What the rule does to a node -/

/-- The rule keeps what is no access by a plain name. -/
theorem accessRule_keep {n : Node} (h : n.isPlainAccess = false) (ctx : Context) :
    accessRule.finish ctx n = .keep n := by
  obtain hkeep | ⟨object,key,name,hl,hobject,hkey,hname,hplain,-⟩ := accessRule_cases ctx n
  · exact hkeep
  · simp [isPlainAccess, hl, hkey, isPlainString, hname, hplain] at h

/-- The rule writes an access by a plain name with a dot. -/
theorem accessRule_change (m k : Option Nat) (object : Node) {name : Text} (raw : Option Text)
    (h : isPlainName name = true) (ctx : Context) :
    accessRule.finish ctx (.marked m (.memberExpression true)
      [(.object, object), (.property, .marked k (.literal (.text name) raw) [])]) =
        .change (.marked m (.memberExpression false)
          [(.object, object), (.property, .identifier name.toString)]) := by
  simp [accessRule, Node.label, child?, subtrees, stringValue?, h, Node.update, mark?]

end Simplify

namespace Node
open Simplify

theorem stringValue?_dotted (n : Node) : n.dotted.stringValue? = n.stringValue? := by
  obtain ⟨m,l,cs⟩ := n
  rw [dotted_marked]
  rcases accessRule_cases Rule.top (.marked m l (cs.map fun c => (c.1, c.2.dotted)))
    with hkeep | ⟨_,_,_,hl,-,-,-,-,hchange⟩
  · rw [hkeep]
    rfl
  · rw [hchange]
    obtain rfl : l = .memberExpression true := hl
    rfl

/-- Whether a node is an access by a plain name does not change when its subtrees do. -/
theorem isPlainAccess_dotted (m : Option Nat) (l : Label) (cs : List (Field × Node)) :
    (marked m l (cs.map fun c => (c.1, c.2.dotted))).isPlainAccess = (marked m l cs).isPlainAccess := by
  simp only [isPlainAccess, label, child?, subtrees, List.find?_map, Option.map_map]
  congr 1
  have htest : ((fun c : Field × Node => decide (c.1 = .property)) ∘
      fun c : Field × Node => (c.1, c.2.dotted)) = fun c => decide (c.1 = .property) := rfl
  rw [htest]
  cases cs.find? fun c => c.1 = .property with
  | none => rfl
  | some c => simp [isPlainString, stringValue?_dotted]

theorem dotted_of_not {m : Option Nat} {l : Label} {cs : List (Field × Node)}
    (h : (marked m l cs).isPlainAccess = false) :
    (marked m l cs).dotted = .marked m l (cs.map fun c => (c.1, c.2.dotted)) := by
  rw [dotted_marked, accessRule_keep (by rwa [isPlainAccess_dotted])]
  rfl

theorem dotted_of_plainAccess (m k : Option Nat) (object : Node) {name : Text} (raw : Option Text)
    (h : isPlainName name = true) :
    (marked m (.memberExpression true)
      [(.object, object), (.property, .marked k (.literal (.text name) raw) [])]).dotted =
        .marked m (.memberExpression false)
          [(.object, object.dotted), (.property, .identifier name.toString)] := by
  have hkey : (marked k (.literal (.text name) raw) []).dotted = .marked k (.literal (.text name) raw) [] :=
    dotted_of_not rfl
  rw [dotted_marked]
  simp only [List.map_cons, List.map_nil, hkey, accessRule_change m k _ raw h]
  rfl

/-- Writing accesses with a dot is a change of spelling. -/
theorem dots_dotted : Dots MembersWhole dotted where
  subtree _ h _ := h.subtree
  spells n h := by
    cases ha : n.isPlainAccess with
    | true =>
      obtain ⟨m,k,object,name,raw,hname,rfl⟩ := h.plainAccess ha
      rw [dotted_of_plainAccess m k object raw hname]
      exact .dotted m m k object name raw hname
    | false =>
      obtain ⟨m,l,cs⟩ := n
      rw [dotted_of_not ha]
      exact .kept m m l cs

/-- So is taking marks away. -/
theorem dots_plain : Dots (fun _ => True) plain where
  subtree _ _ _ _ := trivial
  spells n _ := by
    obtain ⟨m,l,cs⟩ := n
    rw [plain_marked]
    exact .kept m none l cs

end Node

namespace Simplify
open Node

/-! ### Visits -/

/-- What the rule makes of a node whose subtrees are done. -/
theorem accessRule_finish {m : Option Nat} {l : Label} {cs : List (Field × Node)}
    (hw : (marked m l cs).MembersWhole) (ctx : Context) :
    accessRule.finish ctx (.marked m l (cs.map fun c => (c.1, c.2.dotted))) =
      ⟨(marked m l cs).dotted,none,(marked m l cs).isPlainAccess.toNat⟩ := by
  cases ha : (marked m l cs).isPlainAccess with
  | true =>
    obtain ⟨m',k,object,name,raw,hname,he⟩ := hw.plainAccess ha
    obtain ⟨rfl,rfl,rfl⟩ := Node.marked.inj he
    have hkey : (marked k (.literal (.text name) raw) []).dotted =
        .marked k (.literal (.text name) raw) [] := dotted_of_not rfl
    simp only [List.map_cons, List.map_nil, hkey, accessRule_change m k _ raw hname,
      dotted_of_plainAccess m k object raw hname]
    rfl
  | false =>
    rw [accessRule_keep (by rwa [isPlainAccess_dotted]), dotted_of_not ha]
    rfl

private theorem visitAll_dotted {cs : List (Field × Node)}
    (hvisit : ∀ c ∈ cs, ∀ ctx, accessRule.visit ctx c.2 = ⟨c.2.dotted,none,c.2.count isPlainAccess⟩)
    (hholes : ∀ c ∈ cs, c.2.EmptyHoles) (l : Label) (before : List (Field × Node)) :
    accessRule.visitAll l before cs =
      (cs.map fun c => (c.1, c.2.dotted), countAll isPlainAccess cs) := by
  induction cs generalizing before with
  | nil => rfl
  | cons c cs ih =>
    obtain ⟨f,n⟩ := c
    obtain ⟨hn,hvisit⟩ := List.forall_mem_cons.mp hvisit
    obtain ⟨hempty,hholes⟩ := List.forall_mem_cons.mp hholes
    rw [Rule.visitAll_cons, ih hvisit hholes (before ++ [(f, n)]), hn, List.map_cons, countAll]
    split
    · rename_i hhole
      have hleaf := hempty [] n rfl hhole
      obtain ⟨m,l,cs⟩ := n
      obtain rfl : cs = [] := hleaf
      obtain rfl : l = .hole := of_decide_eq_true hhole
      rfl
    · rfl

/-- A visit writes the accesses by plain names with a dot and counts them. -/
theorem accessRule_visit {n : Node} (hw : n.MembersWhole) (hholes : n.EmptyHoles) (ctx : Context) :
    accessRule.visit ctx n = ⟨n.dotted,none,n.count isPlainAccess⟩ := by
  induction n using inductionOn generalizing ctx with
  | marked m l cs ih =>
    have hall := visitAll_dotted (fun c hc ctx => ih c hc (hw.subtree hc) (hholes.subtree hc) ctx)
      (fun c hc => hholes.subtree hc) l []
    have hnone : accessRule.early (.marked m l cs) = none := rfl
    rw [Rule.visit]
    simp only [hnone, hall, accessRule_finish hw ctx]
    rw [count, Nat.add_comm]

theorem accessRule_leavesBe {n : Node} (h : n.isPlainAccess = false) : accessRule.LeavesBe n :=
  Rule.leavesBe_of_keep rfl (accessRule_keep h)

private theorem mem_of_child? {n c : Node} {f : Field} (h : n.child? f = some c) :
    (f, c) ∈ n.subtrees := by
  obtain ⟨i,hi⟩ := exists_index? h
  exact List.mem_of_getElem? (getElem?_index? hi h)

theorem accessRule_settles : accessRule.Settles where
  context _ _ := rfl
  plain_early _ := rfl
  plain_finish n := by
    have hkey : ((n.child? .property).map plain).bind stringValue? =
        (n.child? .property).bind stringValue? := by
      cases n.child? .property <;> simp
    by_cases hl : n.label = .memberExpression true
    · simp only [accessRule, label_plain, child?_plain, hkey, hl]
      cases n.child? .object with
      | none => rfl
      | some object =>
        cases (n.child? .property).bind stringValue? with
        | none => rfl
        | some name =>
          simp only [Option.map_some]
          split
          · obtain ⟨m,l,cs⟩ := n
            simp [Visit.change, Visit.plain, Node.update, plain_marked, Node.identifier, mark?]
          · rfl
    · have hnot : n.isPlainAccess = false := by simp [isPlainAccess, hl]
      have hnot' : n.plain.isPlainAccess = false := by simp [isPlainAccess, hl]
      rw [accessRule_keep hnot, accessRule_keep hnot']
      rfl
  reshapes n := by
    rcases accessRule_cases Rule.top n with hkeep | ⟨object,_,name,hl,hobject,-,-,-,hchange⟩
    · rw [hkeep]
      exact n.reshaped_self
    · rw [hchange]
      refine ⟨rfl,fun c hc => ?_,fun h => ?_⟩
      · rcases List.mem_pair.mp hc with rfl | rfl
        · exact .inl (mem_of_child? hobject)
        · exact .inr rfl
      · have hlabel := congrArg Node.label h
        rw [label_plain, label_plain, hl] at hlabel
        cases hlabel
  early _ _ h := by cases h
  late _ _ := rfl
  finish n h := by
    rcases accessRule_cases Rule.top n with hkeep | ⟨object,_,name,hl,hobject,-,-,-,hchange⟩
    · rw [hkeep]
      exact .keep (Rule.leavesBe_of_keep rfl fun _ => hkeep)
    · rw [hchange]
      refine .stays _ _ _ (accessRule_leavesBe (by simp [isPlainAccess, Node.update, Node.label]))
        fun c hc => ?_
      rcases List.mem_pair.mp hc with rfl | rfl
      · exact .inl (mem_of_child? hobject)
      · exact .inr (Rule.rests_leaf (accessRule_leavesBe rfl))
  framed n h := by
    apply accessRule_leavesBe
    rcases h with hl | hl | hl <;> simp [isPlainAccess, hl]

theorem accessRule_countsOnce {root : Node} (hw : root.MembersWhole) (hholes : root.EmptyHoles) :
    accessRule.CountsOnce isPlainAccess root where
  early _ := rfl
  stays ctx n := by
    rcases accessRule_cases ctx n with h | ⟨_,_,_,-,-,-,-,-,h⟩ <;> rw [h] <;> rfl
  idle n h := by
    rcases accessRule_cases Rule.top n with hkeep | ⟨_,_,_,hl,-,-,-,-,hchange⟩
    · rw [hkeep]
      rfl
    · have hkept := congrArg Node.label (h.kept Rule.top)
      rw [hchange, hl] at hkept
      cases hkept
  hole n h := by simp [isPlainAccess, of_decide_eq_true h]
  own q o ho := by
    obtain ⟨m,l,cs⟩ := o
    have hwo := (hw.at? ho).plain
    have hempty := (hholes.at? ho).plain
    rw [plain_marked] at hwo hempty
    have hall := visitAll_dotted (fun c hc ctx => accessRule_visit (hwo.subtree hc) (hempty.subtree hc) ctx)
      (fun c hc => hempty.subtree hc) l []
    have hfinish := congrArg Visit.count (accessRule_finish hwo Rule.top)
    simp only [subtrees] at hall
    simp only [label, subtrees, hall, hfinish, ← plain_marked m, isPlainAccess_plain]

end Simplify

/-! ### What stands where -/

namespace Node
open Simplify

/-- The name that a place has if it is the key of a computed access by a plain name. -/
def plainKey? (n : Node) : Path → Option Text
  | [] => none
  | [i] => if n.isPlainAccess && n.index? .property = some i then
      (n.child? .property).bind stringValue? else none
  | i :: q => (n.subtrees[i]?).bind fun c => c.2.plainKey? q

theorem plainKey?_below {n : Node} {i : Nat} {q : Path}
    (h : n.isPlainAccess = true → n.index? .property = some i → q ≠ []) :
    n.plainKey? (i :: q) = (n.subtrees[i]?).bind fun c => c.2.plainKey? q := by
  cases q with
  | cons => rfl
  | nil =>
    have hnot : ¬((n.isPlainAccess && n.index? .property = some i) = true) := by
      rw [Bool.and_eq_true, decide_eq_true_eq]
      exact fun ⟨ha,hi⟩ => h ha hi rfl
    rw [plainKey?, if_neg hnot]
    cases n.subtrees[i]? <;> rfl

theorem plainKey?_plain (n : Node) (q : Path) : n.plain.plainKey? q = n.plainKey? q := by
  induction q generalizing n with
  | nil => rfl
  | cons i q ih =>
    have hindex : n.plain.index? .property = n.index? .property := dots_plain.index? trivial _
    have hsub : n.plain.subtrees[i]? = (n.subtrees[i]?).map fun c => (c.1, c.2.plain) := by
      obtain ⟨m,l,cs⟩ := n
      rw [plain_marked]
      exact List.getElem?_map
    by_cases hkey : n.isPlainAccess = true → n.index? .property = some i → q ≠ []
    · rw [plainKey?_below hkey, plainKey?_below (by rwa [isPlainAccess_plain, hindex]), hsub]
      cases n.subtrees[i]? with
      | none => rfl
      | some c => exact ih c.2
    · obtain ⟨ha,hi,rfl⟩ : n.isPlainAccess = true ∧ n.index? .property = some i ∧ q = [] := by
        simpa using hkey
      have hvalue : (n.plain.child? .property).bind stringValue? =
          (n.child? .property).bind stringValue? := by
        rw [child?_plain]
        cases n.child? .property <;> simp
      simp only [plainKey?, isPlainAccess_plain, hindex, hvalue]

/-- What stands at the key of an access by a plain name. -/
theorem MembersWhole.at?_plainKey {n : Node} (h : n.MembersWhole) {q : Path} {name : Text}
    (hname : n.plainKey? q = some name) : isPlainName name = true ∧
      ∃ k raw, n.at? q = some (.marked k (.literal (.text name) raw) []) := by
  induction q generalizing n with
  | nil => cases hname
  | cons i q ih =>
    by_cases hkey : n.isPlainAccess = true → n.index? .property = some i → q ≠ []
    · rw [plainKey?_below hkey] at hname
      obtain ⟨c,hc,hname⟩ := Option.bind_eq_some_iff.mp hname
      obtain ⟨hplain,k,raw,hat⟩ := ih (h.subtree (List.mem_of_getElem? hc)) hname
      exact ⟨hplain,k,raw,by rw [Node.at?, hc]; exact hat⟩
    · obtain ⟨ha,hi,rfl⟩ : n.isPlainAccess = true ∧ n.index? .property = some i ∧ q = [] := by
        simpa using hkey
      obtain ⟨m,k,object,key,raw,hplain,rfl⟩ := h.plainAccess ha
      obtain rfl : 1 = i := Option.some.inj hi
      have hkey : key = name := by
        rw [plainKey?, if_pos (by rw [ha, hi]; rfl)] at hname
        exact Option.some.inj hname
      subst hkey
      exact ⟨hplain,k,raw,rfl⟩

/-- Where an access is written with a dot its key is an identifier, and elsewhere stands what stood
there. -/
theorem at?_dotted {n : Node} (h : n.MembersWhole) (q : Path) :
    n.dotted.at? q = match n.plainKey? q with
      | some name => some (.identifier name.toString)
      | none => (n.at? q).map dotted := by
  induction q generalizing n with
  | nil => rfl
  | cons i q ih =>
    cases ha : n.isPlainAccess with
    | true =>
      obtain ⟨m,k,object,name,raw,hname,rfl⟩ := h.plainAccess ha
      rw [dotted_of_plainAccess m k object raw hname]
      match i, q with
      | 0, q =>
        rw [plainKey?_below fun _ hi => by cases hi]
        exact ih (h.subtree (c := (.object, object)) (by simp [subtrees]))
      | 1, [] =>
        rw [plainKey?, if_pos (by rw [ha]; rfl)]
        rfl
      | 1, j :: q =>
        rw [plainKey?_below fun _ _ => List.cons_ne_nil j q]
        have hnone : (marked k (.literal (.text name) raw) []).plainKey? (j :: q) = none := by
          rw [plainKey?_below fun ha => by cases ha]
          rfl
        simp only [subtrees, List.getElem?_cons_succ, List.getElem?_cons_zero, Option.bind_some, hnone]
        rfl
      | i + 2, q =>
        rw [plainKey?_below fun _ hi => by cases hi]
        rfl
    | false =>
      have hkey : n.plainKey? (i :: q) = (n.subtrees[i]?).bind fun c => c.2.plainKey? q := by
        refine plainKey?_below fun ht => ?_
        rw [ha] at ht
        cases ht
      obtain ⟨m,l,cs⟩ := n
      rw [hkey, dotted_of_not ha, at?_cons, at?_cons, List.getElem?_map]
      cases hc : cs[i]? with
      | none => simp [subtrees, hc]
      | some c =>
        simp only [subtrees, hc, Option.map_some, Option.bind_some]
        exact ih (h.subtree (List.mem_of_getElem? hc))

end Node

namespace Simplify
open Node

/-- One tree is another with the computed accesses by plain names written with a dot, and nothing else.
An access keeps its object and gets an identifier for its key. Every other node is as it was, and no such
access is left. What reads a name off a member or collects names and calls sees no difference, in any
subtree that is not itself the literal some identifier has taken the place of. -/
structure DotsOnly (before after : Node) : Prop where
  slots : ∀ q, (after.at? q).map (fun n => n.subtrees.map Prod.fst) =
    (before.at? q).map fun n => n.subtrees.map Prod.fst
  access : ∀ q n, before.at? q = some n → n.isPlainAccess = true →
    after.labelAt? q = some (.memberExpression false)
  key : ∀ q name, before.plainKey? q = some name →
    after.labelAt? q = some (.identifier name.toString) ∧ Text.ofString name.toString = name
  rest : ∀ q n, before.at? q = some n → n.isPlainAccess = false → before.plainKey? q = none →
    after.labelAt? q = some n.label
  gone : ∀ q n, after.at? q = some n → n.isPlainAccess = false
  memberName : ∀ q n n', before.at? q = some n → after.at? q = some n' → n'.memberName? = n.memberName?
  memberCalls : ∀ q n n', before.at? q = some n → after.at? q = some n' →
    n'.memberCalls = n.memberCalls
  referencedNames : ∀ q n n', before.at? q = some n → after.at? q = some n' →
    before.plainKey? q = none → n'.referencedNames = n.referencedNames
  proxies : proxies [] after = proxies [] before
  scope : after.scope = before.scope

/-- What reads the same from both spellings, with and without marks, reads the same after. -/
private theorem read_same {α : Type} (read : Node → α) (hplain : ∀ n, read n.plain = read n)
    (hdotted : ∀ n : Node, n.MembersWhole → read n.dotted = read n) {n n' : Node} (hw : n.MembersWhole)
    (h : n'.plain = n.plain.dotted) : read n' = read n := by
  rw [← hplain n', h, hdotted _ hw.plain, hplain]

private theorem isPlainAccess_of_dotted {n : Node} (hw : n.MembersWhole) :
    n.dotted.isPlainAccess = false := by
  cases ha : n.isPlainAccess with
  | true =>
    obtain ⟨m,k,object,name,raw,hname,rfl⟩ := hw.plainAccess ha
    rw [dotted_of_plainAccess m k object raw hname]
    rfl
  | false =>
    obtain ⟨m,l,cs⟩ := n
    rw [dotted_of_not ha, isPlainAccess_dotted]
    exact ha

private theorem labelAt?_of_plain {root n d : Node} {q : Path} (hn : root.at? q = some n)
    (hd : n.plain = d) : root.labelAt? q = some d.label := by
  rw [labelAt?, hn, Option.map_some, ← label_plain, hd]

section Reading
variable {before after : Node} (hw : before.MembersWhole) (h : after.plain = before.plain.dotted)
include hw h

private theorem map_plain_after (q : Path) : (after.at? q).map plain = match before.plainKey? q with
    | some name => some (.identifier name.toString)
    | none => (before.at? q).map fun n => n.plain.dotted := by
  rw [← at?_plain, h, at?_dotted hw.plain, plainKey?_plain, at?_plain, Option.map_map]
  rfl

/-- At every place stands what stood there, or an identifier for the literal that stood there. -/
private theorem at?_after {q : Path} {n : Node} (hn : before.at? q = some n) :
    ∃ n', after.at? q = some n' ∧ (before.plainKey? q = none ∧ n'.plain = n.plain.dotted ∨
      ∃ name k raw, before.plainKey? q = some name ∧ isPlainName name = true ∧
        n = .marked k (.literal (.text name) raw) [] ∧ n'.plain = .identifier name.toString) := by
  have hplace := map_plain_after hw h q
  cases hkey : before.plainKey? q with
  | none =>
    rw [hkey, hn] at hplace
    obtain ⟨n',hn',hplain⟩ := Option.map_eq_some_iff.mp hplace
    exact ⟨n',hn',.inl ⟨rfl,hplain⟩⟩
  | some name =>
    rw [hkey] at hplace
    obtain ⟨hname,k,raw,hliteral⟩ := hw.at?_plainKey hkey
    obtain ⟨n',hn',hplain⟩ := Option.map_eq_some_iff.mp hplace
    obtain rfl := Option.some.inj (hn.symm.trans hliteral)
    exact ⟨n',hn',.inr ⟨name,k,raw,rfl,hname,rfl,hplain⟩⟩

private theorem at?_before {q : Path} {n' : Node} (hn' : after.at? q = some n') :
    ∃ n, before.at? q = some n := by
  have hplace := map_plain_after hw h q
  cases hkey : before.plainKey? q with
  | none =>
    rw [hkey, hn'] at hplace
    obtain ⟨n,hn,-⟩ := Option.map_eq_some_iff.mp hplace.symm
    exact ⟨n,hn⟩
  | some name =>
    obtain ⟨-,k,raw,hliteral⟩ := hw.at?_plainKey hkey
    exact ⟨_,hliteral⟩

private theorem after_cases {q : Path} {n n' : Node} (hn : before.at? q = some n)
    (hn' : after.at? q = some n') : before.plainKey? q = none ∧ n'.plain = n.plain.dotted ∨
      ∃ name k raw, before.plainKey? q = some name ∧ isPlainName name = true ∧
        n = .marked k (.literal (.text name) raw) [] ∧ n'.plain = .identifier name.toString := by
  obtain ⟨n'',hn'',hcases⟩ := at?_after hw h hn
  obtain rfl := Option.some.inj (hn'.symm.trans hn'')
  exact hcases

/-- A reader that sees neither marks nor keys reads the same at each place. -/
private theorem read_after {α : Type} (read : Node → α) (hplain : ∀ n, read n.plain = read n)
    (hdotted : ∀ n : Node, n.MembersWhole → read n.dotted = read n)
    (hkey : ∀ k name raw,
      read (.identifier name) = read (.marked k (.literal (.text (.ofString name)) raw) []))
    {q : Path} {n n' : Node} (hn : before.at? q = some n) (hn' : after.at? q = some n') :
    read n' = read n := by
  rcases after_cases hw h hn hn' with ⟨-,hsame⟩ | ⟨name,k,raw,-,hname,rfl,hnew⟩
  · exact read_same read hplain hdotted (hw.at? hn) hsame
  · rw [← hplain n', hnew, hkey k name.toString raw, ofString_toString hname]

private theorem isProgram_after (hprogram : before.IsProgram) :
    before.plain.IsProgram ∧ after.IsProgram := by
  obtain ⟨sourceType,hl⟩ := hprogram
  have hplain : before.plain.label = .program sourceType := by rw [label_plain, hl]
  refine ⟨⟨sourceType,hplain⟩,sourceType,?_⟩
  rw [← label_plain, h]
  exact (dots_dotted.label_eq hw.plain (by simp)).mpr hplain

theorem dotsOnly_of_plain (hprogram : before.IsProgram) : DotsOnly before after where
  slots q := by
    cases hn : before.at? q with
    | none =>
      cases hn' : after.at? q with
      | none => rfl
      | some n' =>
        obtain ⟨n,hn''⟩ := at?_before hw h hn'
        rw [hn] at hn''
        cases hn''
    | some n =>
      obtain ⟨n',hn',⟨-,hsame⟩ | ⟨name,k,raw,-,-,rfl,hnew⟩⟩ := at?_after hw h hn
      · have hfields := read_same (fun n => n.subtrees.map Prod.fst)
          (fun n => dots_plain.fields trivial) (fun n hn => dots_dotted.fields hn) (hw.at? hn) hsame
        rw [hn']
        exact congrArg some hfields
      · have hfields := dots_plain.fields (n := n') trivial
        rw [hnew] at hfields
        rw [hn']
        exact congrArg some hfields.symm
  access q n hn ha := by
    obtain ⟨n',hn',⟨-,hsame⟩ | ⟨name,k,raw,-,-,rfl,-⟩⟩ := at?_after hw h hn
    · obtain ⟨m,k,object,name,raw,hname,hshape⟩ :=
        (hw.at? hn).plain.plainAccess (by rwa [isPlainAccess_plain])
      rw [labelAt?_of_plain hn' hsame, hshape, dotted_of_plainAccess m k object raw hname]
      rfl
    · cases ha
  key q name hkey := by
    obtain ⟨hname,k,raw,hn⟩ := hw.at?_plainKey hkey
    obtain ⟨n',hn',⟨hnone,-⟩ | ⟨name',_,_,hkey',-,-,hnew⟩⟩ := at?_after hw h hn
    · rw [hkey] at hnone
      cases hnone
    · obtain rfl := Option.some.inj (hkey.symm.trans hkey')
      exact ⟨labelAt?_of_plain hn' hnew,ofString_toString hname⟩
  rest q n hn ha hkey := by
    obtain ⟨n',hn',⟨-,hsame⟩ | ⟨_,_,_,hkey',-⟩⟩ := at?_after hw h hn
    · have hnot : n.plain.isPlainAccess = false := by rwa [isPlainAccess_plain]
      rw [labelAt?_of_plain hn' hsame, ← label_plain n]
      generalize n.plain = p at hnot
      obtain ⟨m,l,cs⟩ := p
      rw [dotted_of_not hnot]
      rfl
    · rw [hkey] at hkey'
      cases hkey'
  gone q n' hn' := by
    obtain ⟨n,hn⟩ := at?_before hw h hn'
    rw [← isPlainAccess_plain]
    rcases after_cases hw h hn hn' with ⟨-,hsame⟩ | ⟨_,_,_,-,-,-,hnew⟩
    · rw [hsame]
      exact isPlainAccess_of_dotted (hw.at? hn).plain
    · rw [hnew]
      rfl
  memberName q n n' := read_after hw h Node.memberName? memberName?_plain
    (fun n hn => dots_dotted.memberName? hn) fun k name raw => rfl
  memberCalls q n n' := read_after hw h Node.memberCalls (fun n => dots_plain.memberCalls trivial)
    (fun n hn => dots_dotted.memberCalls hn) fun k name raw => by
      rw [memberCalls_eq, memberCalls_eq]
      rfl
  referencedNames q n n' hn hn' hkey := by
    rcases after_cases hw h hn hn' with ⟨-,hsame⟩ | ⟨_,_,_,hkey',-⟩
    · exact read_same Node.referencedNames (fun n => dots_plain.referencedNames trivial)
        (fun n hn => dots_dotted.referencedNames hn) (hw.at? hn) hsame
    · rw [hkey] at hkey'
      cases hkey'
  proxies := read_same (Simplify.proxies []) (fun n => dots_plain.proxies trivial [])
    (fun n hn => dots_dotted.proxies hn []) hw h
  scope := by
    obtain ⟨hplain,hafter⟩ := isProgram_after hw h hprogram
    rw [← dots_plain.scope trivial hprogram, ← dots_dotted.scope hw.plain hplain, ← h,
      dots_plain.scope trivial hafter]

end Reading

/-- Object access simplification counts the computed accesses by plain names, each shared node once, and
writes each of them with a dot. Whatever reads names, calls, proxy objects or scopes sees no difference. -/
theorem access_dots {tree : Node} (hprogram : tree.IsProgram) (h : tree.Coherent)
    (hholes : tree.EmptyHoles) (hw : tree.MembersWhole) :
    (access tree).2 = tree.countOnce isPlainAccess ∧ DotsOnly tree (access tree).1 := by
  have hnone : (accessRule.visit Rule.top tree).replaced = none := by
    rw [accessRule_visit hw hholes]
  have hhole : tree.isHole = false := by
    obtain ⟨sourceType,hl⟩ := hprogram
    simp [isHole, hl]
  constructor
  · apply Rule.run_counts accessRule_settles (accessRule_countsOnce hw hholes) h hholes hhole
    intro _
    rw [accessRule_visit hw hholes]
  · apply dotsOnly_of_plain hw _ hprogram
    have hrun := (accessRule_settles.run_plain hholes hnone h).2
    rwa [Rule.runOnce, accessRule_visit hw.plain hholes.plain] at hrun

/-- The expression `o['p']`, one node wherever it stands. -/
def keyed : Node :=
  .marked (some 0) (.memberExpression true) [(.object, .marked (some 1) (.identifier "o") []),
    (.property, .marked (some 2) (.literal (.text [112]) (some [39, 112, 39])) [])]

/-- The script `o['p']['q'](o['a b'], o.r); o['p'];`, where the two accesses `o['p']` are one node. -/
def keyedTwice : Node :=
  let text (value : String) : Node := .ofText (Text.ofString value)
  .mk (.program "script") [
    (.body, .mk (.expressionStatement none none) [(.expression, .mk .callExpression [
      (.callee, .mk (.memberExpression true) [(.object, keyed), (.property, text "q")]),
      (.arguments, .mk (.memberExpression true) [(.object, .identifier "o"), (.property, text "a b")]),
      (.arguments, .mk (.memberExpression false)
        [(.object, .identifier "o"), (.property, .identifier "r")])])]),
    (.body, .mk (.expressionStatement none none) [(.expression, keyed)])]

theorem access_dots_keyedTwice :
    keyedTwice.IsProgram ∧ keyedTwice.Coherent ∧ keyedTwice.EmptyHoles ∧ keyedTwice.MembersWhole ∧
      (access keyedTwice).2 = 2 ∧ DotsOnly keyedTwice (access keyedTwice).1 := by
  have hprogram : keyedTwice.IsProgram := ⟨"script",rfl⟩
  have hcoherent : keyedTwice.Coherent := by
    let table (k : Nat) : Option Node :=
      match k with
      | 0 => keyed.at? []
      | 1 => keyed.at? [0]
      | _ => keyed.at? [1]
    have hkeyed : keyed.Filed table := by
      simp [keyed, filed_marked, allMarked_marked, table]
    suffices hfiled : keyedTwice.Filed table from hfiled.coherent
    simp [keyedTwice, Node.mk, filed_marked, hkeyed, Node.ofText, Node.identifier]
  have hholes : keyedTwice.EmptyHoles := EveryLabel.emptyHoles (by decide)
  have hw : keyedTwice.MembersWhole := by decide
  have htwo : keyedTwice.countOnce isPlainAccess = 2 := by decide
  obtain ⟨hcount,hdots⟩ := access_dots hprogram hcoherent hholes hw
  exact ⟨hprogram,hcoherent,hholes,hw,hcount.trans htwo,hdots⟩

end Simplify

end Unravel
