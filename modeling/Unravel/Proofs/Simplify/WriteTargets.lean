import Unravel.Proofs.Grammar.Visits
import Unravel.Proofs.Scope.Ways
import Unravel.Proofs.Simplify.ProxyScope

/-! Writes to members of proxy objects. What is assigned to is told from what is read by the node
right above it, so that what a loop or a pattern assigns to is taken for a read. -/

namespace Unravel

namespace Label

/-- The slots that hold what an operation assigns to or deletes. -/
def writes : Label → Field → Bool
  | .assignmentExpression _, f => f = .left
  | .updateExpression .., f => f = .argument
  | .unaryExpression operator _, f => operator = "delete" ∧ f = .argument
  | _, _ => false

/-- The slots that hold what a loop assigns to. -/
def iterates : Label → Field → Bool
  | .forInStatement _, f | .forOfStatement, f => f = .left
  | _, _ => false

/-- The slots of a pattern in which the parts of a value are assigned. -/
def distributes : Label → Field → Bool
  | .arrayPattern, f => f = .elements
  | .objectPattern, f => f = .properties
  | .property .., f => f = .value
  | .restElement, f => f = .argument
  | .assignmentPattern, f => f = .left
  | _, _ => false

/-- An operation is seen to write, a loop or a pattern is not. -/
theorem isTarget_iff {ctx : Context} {l : Label} (hl : ctx.parent = some l)
    (h : l.writes ctx.field = true ∨ l.iterates ctx.field = true ∨ l.distributes ctx.field = true) :
    Simplify.Context.isTarget ctx = l.writes ctx.field := by
  unfold Simplify.Context.isTarget
  rw [hl]
  cases l <;> simp_all [writes, iterates, distributes]

end Label

namespace Node

/-- Whether the slots above a node, innermost first, make it what is assigned to or deleted. -/
def assignedAlong : List (Label × Field) → Bool
  | [] => false
  | (l, f) :: above => l.writes f || l.iterates f || (l.distributes f && assignedAlong above)

/-- Whether the node at a position is assigned to, by itself or as a part of a pattern, or deleted. -/
def isWritten (n : Node) (q : Path) : Bool := assignedAlong (n.ways q)

theorem slot_of_isWritten {n d : Node} {q : Path} {i : Nat} {c : Field × Node}
    (hd : n.at? q = some d) (hc : d.subtrees[i]? = some c) (h : n.isWritten (q ++ [i]) = true) :
    d.label.writes c.1 = true ∨ d.label.iterates c.1 = true ∨ d.label.distributes c.1 = true := by
  rw [isWritten, ways_append hd, ways_cons hc] at h
  simp only [ways, List.nil_append, List.cons_append, assignedAlong, Bool.or_eq_true,
    Bool.and_eq_true] at h
  obtain (h | h) | ⟨h,-⟩ := h
  · exact .inl h
  · exact .inr (.inl h)
  · exact .inr (.inr h)

theorem exists_fits_at? {known : Nat → Role → Bool} {r : Role} {n c : Node} {q : Path}
    (h : n.fits known r = true) (hc : n.at? q = some c) : ∃ s, c.fits known s = true := by
  induction q generalizing n r with
  | nil =>
    obtain rfl := Option.some.inj hc
    exact ⟨r,h⟩
  | cons i q ih =>
    obtain ⟨b,hb,hat⟩ := Option.bind_eq_some_iff.mp hc
    obtain ⟨s,-,hfits⟩ := fits_of_mem h (List.mem_of_getElem? hb)
    exact ih hfits hat

/-- Nothing hangs below the hole of an array. -/
theorem not_isHole_of_fits {known : Nat → Role → Bool} {r : Role} {n : Node}
    (h : n.fits known r = true) {i : Nat} {c : Field × Node} (hc : n.subtrees[i]? = some c) :
    n.isHole = false := by
  refine decide_eq_false fun hl => ?_
  obtain ⟨s,hs,-⟩ := fits_of_mem h (List.mem_of_getElem? hc)
  rw [hl] at hs
  simp [Label.roles, Label.table] at hs

end Node

namespace Simplify
open Node

/-! ### Visits to the nodes of a tree -/

section Visits
variable {t : ProxyTable}

theorem mem_visits_self (ctx : Context) (p : Path) (n : Node) :
    ⟨p,ctx,(proxyRule t).visit ctx n⟩ ∈ (proxyRule t).visits ctx p n := by
  obtain ⟨m,l,cs⟩ := n
  rw [Rule.visits]
  exact List.mem_append_right _ (List.mem_singleton_self _)

/-- Each subtree that is not a hole is visited, and what it becomes stands in its place. -/
private theorem exists_visitsAll {l : Label} {p : Path} (before : List (Field × Node))
    {cs : List (Field × Node)} {i : Nat} {f : Field} {c : Node} (hc : cs[i]? = some (f, c))
    (hh : c.isHole = false) : ∃ earlier d,
    ((proxyRule t).visit ⟨some l,f,earlier⟩ c).result = .node d ∧
      ((proxyRule t).visitAll l before cs).1[i]? = some (f, d) ∧
      ∀ x ∈ (proxyRule t).visits ⟨some l,f,earlier⟩ (p ++ [before.length + i]) c,
        x ∈ (proxyRule t).visitsAll l p before cs := by
  induction cs generalizing before i with
  | nil => cases hc
  | cons b cs ih =>
    obtain ⟨g,b⟩ := b
    cases i with
    | zero =>
      obtain ⟨rfl,rfl⟩ := Prod.mk.inj (Option.some.inj hc)
      obtain ⟨d,hd⟩ := result_visit (t := t)
        ⟨some l,g,(before.filter fun c => c.1 = g).map Prod.snd⟩ b
      refine ⟨_,d,hd,?_,fun x hx => ?_⟩
      · rw [Rule.visitAll_cons]
        simp [hh, hd, Rule.place]
      · rw [Rule.visitsAll, hh]
        exact List.mem_append_left _ hx
    | succ i =>
      obtain ⟨earlier,d,hd,hget,hvisits⟩ := ih (before ++ [(g, b)]) hc
      refine ⟨earlier,d,hd,?_,fun x hx => ?_⟩
      · rw [Rule.visitAll_cons]
        obtain ⟨e,he⟩ := result_visit (t := t)
          ⟨some l,g,(before.filter fun c => c.1 = g).map Prod.snd⟩ b
        cases hb : b.isHole <;> simpa [hb, he, Rule.place] using hget
      · rw [Rule.visitsAll]
        refine List.mem_append_right _ (hvisits x ?_)
        rwa [List.length_append, List.length_singleton, Nat.add_assoc, Nat.add_comm 1]

/-- A node is visited with all that hangs below it. -/
private theorem exists_visits {known : Nat → Role → Bool} {r : Role} {n c : Node} {q : Path}
    (h : n.fits known r = true) (hc : n.at? q = some c) (hh : c.isHole = false) (ctx : Context)
    (p : Path) : ∃ ctx', ∀ x ∈ (proxyRule t).visits ctx' (p ++ q) c,
      x ∈ (proxyRule t).visits ctx p n := by
  induction q generalizing n r ctx p with
  | nil =>
    obtain rfl := Option.some.inj hc
    exact ⟨ctx,fun x hx => by rwa [List.append_nil] at hx⟩
  | cons i q ih =>
    obtain ⟨⟨f,b⟩,hb,hat⟩ := Option.bind_eq_some_iff.mp hc
    obtain ⟨s,-,hfits⟩ := fits_of_mem h (List.mem_of_getElem? hb)
    have hhole : b.isHole = false := by
      cases q with
      | nil =>
        obtain rfl := Option.some.inj hat
        exact hh
      | cons j q =>
        obtain ⟨e,he,-⟩ := Option.bind_eq_some_iff.mp hat
        exact not_isHole_of_fits hfits he
    obtain ⟨m,l,cs⟩ := n
    obtain ⟨earlier,-,-,-,hbelow⟩ := exists_visitsAll (t := t) (l := l) (p := p) [] hb hhole
    rw [List.length_nil, Nat.zero_add] at hbelow
    obtain ⟨ctx',hvisits⟩ := ih hfits hat ⟨some l,f,earlier⟩ (p ++ [i])
    refine ⟨ctx',fun x hx => ?_⟩
    rw [Rule.visits]
    refine List.mem_append_left _ (hbelow x (hvisits x ?_))
    rwa [List.append_assoc, List.singleton_append]

/-- A node and what stands in a slot of it are visited, and what becomes of the one stands in the slot
of the other. -/
theorem exists_visits_slot {known : Nat → Role → Bool} {r : Role} {n d c : Node} {q : Path} {i : Nat}
    {f : Field} (h : n.fits known r = true) (hd : n.at? q = some d)
    (hc : d.subtrees[i]? = some (f, c)) (hh : c.isHole = false) (ctx : Context) :
    ∃ above earlier e,
      ⟨q,above,(proxyRule t).visit above d⟩ ∈ (proxyRule t).visits ctx [] n ∧
      ⟨q ++ [i],⟨some d.label,f,earlier⟩,(proxyRule t).visit ⟨some d.label,f,earlier⟩ c⟩ ∈
        (proxyRule t).visits ctx [] n ∧
      ((proxyRule t).visit ⟨some d.label,f,earlier⟩ c).result = .node e ∧
      ((proxyRule t).visit above d).kept.subtrees[i]? = some (f, e) := by
  obtain ⟨r,hfits⟩ := exists_fits_at? h hd
  obtain ⟨above,hvisits⟩ := exists_visits (t := t) h hd (not_isHole_of_fits hfits hc) ctx []
  rw [List.nil_append] at hvisits
  obtain ⟨m,l,cs⟩ := d
  obtain ⟨earlier,e,he,hget,hbelow⟩ := exists_visitsAll (t := t) (l := l) (p := q) [] hc hh
  rw [List.length_nil, Nat.zero_add] at hbelow
  refine ⟨above,earlier,e,hvisits _ (mem_visits_self above q _),hvisits _ ?_,he,?_⟩
  · rw [Rule.visits]
    exact List.mem_append_left _ (hbelow _ (mem_visits_self _ _ c))
  · rw [kept_visit]
    exact hget

end Visits

/-! ### Accesses that are written -/

/-- An access names a string of a proxy object: of the declarators of such objects under the name of
its object the last one is read, and the key is that of the visited access. -/
def NamesString (tree : Node) (x : Rule.Visited) (s : Text) : Prop :=
  ∃ o d ops key, ((tree.at? x.place).bind fun c => c.accessed? x.place) = some o ∧
    d.name = o.name ∧ tree.Supplies d ops ∧ x.outcome.kept.memberName? = some key ∧
      (ops.find? fun m => m.1 = key).map Prod.snd = some (.string s)

theorem ofText_injective {s s' : Text} (h : ofText s = ofText s') : s = s' := by
  simp only [ofText, marked.injEq, Label.literal.injEq, LiteralValue.text.injEq] at h
  exact h.2.1.1

variable {tree : Node} {x : Rule.Visited}

/-- The string that an access names takes its place where the access is not seen to be written. -/
theorem inlines_access_iff {computed : Bool}
    (hl : tree.labelAt? x.place = some (.memberExpression computed))
    (hkept : x.outcome.kept.label = .memberExpression computed) (r : Node) :
    (∃ o d, Inlines tree x o d r) ↔
      Context.isTarget x.context = false ∧ ∃ s, NamesString tree x s ∧ r = .ofText s := by
  have hthrough : ((tree.at? x.place).bind fun c => c.through? x.place) =
      (tree.at? x.place).bind fun c => c.accessed? x.place := by
    obtain ⟨c,hc,hcl⟩ := Option.map_eq_some_iff.mp hl
    rw [hc, Option.bind_some, Option.bind_some, through?, hcl]
  have haccess : x.outcome.kept.access?.bind memberName? = x.outcome.kept.memberName? := by
    rw [access?_of_ne (by simp [hkept]), Option.bind_some]
  have houtcome (op : Operation) :
      op.outcome? x.outcome.kept = some r ↔ ∃ s, op = .string s ∧ r = .ofText s := by
    unfold Operation.outcome?
    rw [if_neg (by simp [hkept])]
    cases op <;> simp [@eq_comm _ r]
  constructor
  · rintro ⟨o,d,hinlines⟩
    obtain ⟨ops,key,op,hsupplies,hkey,hop,hr⟩ := hinlines.supplied
    obtain ⟨s,rfl,rfl⟩ := (houtcome op).mp hr
    exact ⟨hinlines.read (by simp [hl]),s,⟨o,d,ops,key,hthrough ▸ hinlines.accessed,hinlines.named,
      hsupplies,haccess ▸ hkey,hop⟩,rfl⟩
  · rintro ⟨hread,s,⟨o,d,ops,key,ho,hd,hsupplies,hkey,hop⟩,rfl⟩
    exact ⟨o,d,⟨hthrough ▸ ho,fun _ => hread,hd,
      ops,key,_,hsupplies,haccess ▸ hkey,hop,(houtcome _).mpr ⟨s,rfl,rfl⟩⟩⟩

private theorem replaced_access_iff (hx : x ∈ proxyVisits tree) {computed : Bool}
    (hl : tree.labelAt? x.place = some (.memberExpression computed))
    (hkept : x.outcome.kept.label = .memberExpression computed) (e : Replacement) :
    x.outcome.replaced = some e ↔
      Context.isTarget x.context = false ∧ ∃ s, NamesString tree x s ∧ e = .node (.ofText s) := by
  rw [replaced_iff hx]
  constructor
  · rintro ⟨o,d,r,hinlines,rfl⟩
    obtain ⟨hread,s,hnames,rfl⟩ := (inlines_access_iff hl hkept r).mp ⟨o,d,hinlines⟩
    exact ⟨hread,s,hnames,rfl⟩
  · rintro ⟨hread,s,hnames,rfl⟩
    obtain ⟨o,d,hinlines⟩ := (inlines_access_iff hl hkept _).mpr ⟨hread,s,hnames,rfl⟩
    exact ⟨o,d,_,hinlines,rfl⟩

/-- An access becomes the string that it names, or stays. -/
theorem result_access (hx : x ∈ proxyVisits tree) {computed : Bool}
    (hl : tree.labelAt? x.place = some (.memberExpression computed))
    (hkept : x.outcome.kept.label = .memberExpression computed) {e : Node}
    (he : x.outcome.result = .node e) :
    (∀ s, e = .ofText s ↔ Context.isTarget x.context = false ∧ NamesString tree x s) ∧
      ((∃ s, e = .ofText s) ∨ e = x.outcome.kept) := by
  have hreplaced := replaced_access_iff hx hl hkept
  cases hr : x.outcome.replaced with
  | none =>
    rw [Visit.result, hr] at he
    obtain rfl : x.outcome.kept = e := Replacement.node.inj he
    refine ⟨fun s => iff_of_false (fun htext => ?_) fun h => ?_,.inr rfl⟩
    · rw [htext] at hkept
      cases hkept
    · have hsome := (hreplaced _).mpr ⟨h.1,s,h.2,rfl⟩
      rw [hr] at hsome
      cases hsome
  | some replacement =>
    obtain ⟨hread,s,hnames,rfl⟩ := (hreplaced _).mp hr
    rw [Visit.result, hr] at he
    obtain rfl : ofText s = e := Replacement.node.inj he
    refine ⟨fun s' => ⟨fun htext => ?_,fun h => ?_⟩,.inl ⟨s,rfl⟩⟩
    · obtain rfl := ofText_injective htext
      exact ⟨hread,hnames⟩
    · have hsome := (hreplaced _).mpr ⟨h.1,s',h.2,rfl⟩
      rw [hr] at hsome
      exact Replacement.node.inj (Option.some.inj hsome)

/-- What inlining makes of an access that is written: `x` is the visit to it, and `y` that to the
node above, in whose slot `f` it stands. -/
structure WriteOutcome (tree : Node) (q : Path) (i : Nat) (l : Label) (f : Field)
    (x y : Rule.Visited) : Prop where
  place : x.place = q ++ [i]
  above : y.place = q
  outcome : ∃ e, y.outcome.kept.subtrees[i]? = some (f, e) ∧
    (∀ s, e = .ofText s ↔ l.writes f = false ∧ NamesString tree x s) ∧
      ((∃ s, e = .ofText s) ∨ e = x.outcome.kept)

/-- Of the members that a program writes, a literal takes the place of those that name a string of a
proxy object and that a loop or a pattern assigns to. Where an assignment, an update or a deletion is
right above the access it stays. -/
theorem proxyCalls_writes (tree : Node) (h : tree.Grammatical) (hm : tree.hasMarks = false) :
    (proxyCalls tree).2 = (proxyVisits tree).countP (fun x => x.outcome.replaced.isSome) ∧
      ∀ q d i f c computed, tree.at? q = some d → d.subtrees[i]? = some (f, c) →
        c.label = .memberExpression computed → tree.isWritten (q ++ [i]) = true →
          ∃ x ∈ proxyVisits tree, ∃ y ∈ proxyVisits tree, WriteOutcome tree q i d.label f x y := by
  refine ⟨count_proxyCalls hm,fun q d i f c computed hd hc hl hw => ?_⟩
  obtain ⟨above,earlier,e,hy,hx,he,hget⟩ := exists_visits_slot (t := proxies [] tree) h hd hc
    (by rw [isHole, hl]; rfl) Rule.top
  have hlabel : tree.labelAt? (q ++ [i]) = some (.memberExpression computed) := by
    rw [labelAt?, at?_append, hd, Option.bind_some, Node.at?, hc]
    exact congrArg some hl
  have hkept : ((proxyRule (proxies [] tree)).visit ⟨some d.label,f,earlier⟩ c).kept.label =
      .memberExpression computed := by
    obtain ⟨m,l,cs⟩ := c
    rw [kept_visit]
    exact hl
  have htarget : Context.isTarget ⟨some d.label,f,earlier⟩ = d.label.writes f :=
    Label.isTarget_iff rfl (slot_of_isWritten hd hc hw)
  refine ⟨_,hx,_,hy,rfl,rfl,e,hget,?_⟩
  rw [← htarget]
  exact result_access hx hlabel hkept he

/-- `var p = { s: "a" }; for (p.s of o) ; [p.s] = o; p.s = o; delete p.s;`. -/
def assigning : Node :=
  let access : Node :=
    .mk (.memberExpression false) [(.object, .identifier "p"), (.property, .identifier "s")]
  let run (e : Node) : Field × Node :=
    (.body, .mk (.expressionStatement none none) [(.expression, e)])
  let assignment (target : Node) : Node :=
    .mk (.assignmentExpression "=") [(.left, target), (.right, .identifier "o")]
  .mk (.program "script")
    [(.body, .mk (.variableDeclaration "var") [(.declarations, .mk .variableDeclarator
        [(.id, .identifier "p"), (.init, .mk .objectExpression
          [(.properties, .mk (.property false false false "init")
            [(.key, .identifier "s"), (.value, .ofText (Text.ofString "a"))])])])]),
     (.body, .mk .forOfStatement
        [(.left, access), (.right, .identifier "o"), (.body, .empty)]),
     run (assignment (.mk .arrayPattern [(.elements, access)])), run (assignment access),
     run (.mk (.unaryExpression "delete" true) [(.argument, access)])]

/-- The loop and the pattern assign to a literal afterwards, the assignment and the deletion are left
with the member. -/
theorem proxyCalls_writes_assigning :
    assigning.Grammatical ∧ assigning.hasMarks = false ∧
      (∃ x ∈ proxyVisits assigning, ∃ y ∈ proxyVisits assigning,
        WriteOutcome assigning [1] 0 .forOfStatement .left x y) ∧
      (∃ x ∈ proxyVisits assigning, ∃ y ∈ proxyVisits assigning,
        WriteOutcome assigning [2, 0, 0] 0 .arrayPattern .elements x y) ∧
      (∃ x ∈ proxyVisits assigning, ∃ y ∈ proxyVisits assigning,
        WriteOutcome assigning [3, 0] 0 (.assignmentExpression "=") .left x y) ∧
      (∃ x ∈ proxyVisits assigning, ∃ y ∈ proxyVisits assigning,
        WriteOutcome assigning [4, 0] 0 (.unaryExpression "delete" true) .argument x y) ∧
      (proxyCalls assigning).2 = 2 ∧
      [[1, 0], [2, 0, 0, 0], [3, 0, 0], [4, 0, 0]].map (proxyCalls assigning).1.labelAt? =
        [some (ofText (Text.ofString "a")).label, some (ofText (Text.ofString "a")).label,
          some (.memberExpression false), some (.memberExpression false)] := by
  have h : assigning.Grammatical := by decide +kernel
  have hm : assigning.hasMarks = false := by decide
  obtain ⟨hcount,hwrites⟩ := proxyCalls_writes assigning h hm
  refine ⟨h,hm,hwrites [1] _ 0 _ _ false rfl rfl rfl (by decide),
    hwrites [2, 0, 0] _ 0 _ _ false rfl rfl rfl (by decide),
    hwrites [3, 0] _ 0 _ _ false rfl rfl rfl (by decide),
    hwrites [4, 0] _ 0 _ _ false rfl rfl rfl (by decide),?_,by decide +kernel⟩
  rw [hcount]
  decide +kernel

end Simplify

end Unravel
