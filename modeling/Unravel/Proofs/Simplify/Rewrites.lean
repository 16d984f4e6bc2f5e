import Unravel.Proofs.Tree
import Unravel.Simplify.Access
import Unravel.Simplify.DeadCode
import Unravel.Simplify.Escapes
import Unravel.Simplify.Expression
import Unravel.Simplify.Flattening
import Unravel.Simplify.Proxy

/-! What each simplification makes of a node whose subtrees are visited. A rule keeps the node as it is or
rewrites it in one of a few ways; what a pass keeps, and what it counts, is shown way by way. -/

namespace Unravel.Simplify
open Node
variable {n : Node} {v : Visit}

/-! ### Constant expressions -/

theorem expressionRule_early (h : expressionRule.early n = some v) :
    isNegated (isNegated isEmptyArray) n = true ∧ v = .replace n (.node (.ofBool true)) := by
  obtain ⟨hn,hv⟩ := Option.ite_none_right_eq_some.mp h
  exact ⟨hn,(Option.some.inj hv).symm⟩

/-- The ways to fold a node. -/
inductive Folding (n : Node) : Visit → Prop
  | keep : Folding n (.keep n)
  | negation (h : isNegated isEmptyArray n = true) : Folding n (.replace n (.node (.ofBool false)))
  | void {p : Bool} {a : Number} (hl : n.label = .unaryExpression "void" p)
    (ha : (n.child? .argument).bind numberValue? = some a) (hzero : a.isZero = true) :
    Folding n (.replace n (.node (.identifier "undefined")))
  | numbers {op : String} {l r : Node} {d : Double} (hl : n.label = .binaryExpression op)
    (hleft : n.child? .left = some l) (hright : n.child? .right = some r)
    (hd : foldNumbers op l r = some d) : Folding n (.replace n (.node (.ofNumber (.double d))))
  | strings {op : String} {l r : Node} {t : Text} (hl : n.label = .binaryExpression op)
    (hleft : n.child? .left = some l) (hright : n.child? .right = some r)
    (ht : foldStrings op l r = some t) : Folding n (.replace n (.node (.ofText t)))
  | spelling {a : Number} {raw : Text} (hl : n.label = .literal (.number a) (some raw))
    (hraw : isHexSpelling raw = true) :
    Folding n (.change (n.update (.literal (.number a) (some (Text.ofString a.text))) n.subtrees))

theorem foldUnary_folding (n : Node) : Folding n (foldUnary n) := by
  unfold foldUnary
  split
  · rename_i hnegated
    exact .negation hnegated
  · split
    · rename_i hl ha
      split
      · rename_i hzero
        exact .void hl ha hzero
      · exact .keep
    · exact .keep

theorem foldBinary_folding {op : String} (hl : n.label = .binaryExpression op) :
    Folding n (foldBinary op n) := by
  unfold foldBinary
  split
  · rename_i hleft hright
    split
    · rename_i hd
      exact .numbers hl hleft hright hd
    · split
      · rename_i ht
        exact .strings hl hleft hright ht
      · exact .keep
  · exact .keep

theorem expressionRule_folding (ctx : Context) (n : Node) : Folding n (expressionRule.finish ctx n) := by
  simp only [expressionRule]
  split
  · exact foldUnary_folding n
  · rename_i hl
    exact foldBinary_folding hl
  · rename_i hl
    split
    · rename_i hraw
      exact .spelling hl hraw
    · exact .keep
  · exact .keep

/-- What is under a negation. -/
theorem label_of_isNegated {test : Node → Bool} (h : isNegated test n = true) :
    ∃ p a, n.label = .unaryExpression "!" p ∧ n.child? .argument = some a ∧ test a = true := by
  unfold isNegated at h
  split at h
  · rename_i hl
    obtain ⟨a,ha,htest⟩ := (Option.any_eq_true ..).mp h
    exact ⟨_,a,hl,ha,htest⟩
  · cases h

/-! ### Branches -/

/-- The ways to decide a test. -/
inductive Deciding (n : Node) : Visit → Prop
  | keep (h : ∀ b, n.label = .ifStatement ∨ n.label = .conditionalExpression →
      (n.child? .test).bind staticTest ≠ some b) : Deciding n (.keep n)
  | nothing {b : Bool} (hl : n.label = .ifStatement ∨ n.label = .conditionalExpression)
    (hb : (n.child? .test).bind staticTest = some b) (hnone : branch n b = none) :
    Deciding n (.replace n .nothing)
  | taken {b : Bool} {c : Node} (hl : n.label = .ifStatement ∨ n.label = .conditionalExpression)
    (hb : (n.child? .test).bind staticTest = some b) (hc : branch n b = some c) :
    Deciding n (.replace n (.node c))
  | opened {b : Bool} {c : Node} (hl : n.label = .ifStatement)
    (hb : (n.child? .test).bind staticTest = some b) (hc : branch n b = some c)
    (hblock : c.label = .blockStatement) (hlexical : declaresLexically c = false) :
    Deciding n (.replace n (.statements (c.row .body)))

theorem deadCodeRule_deciding (ctx : Context) (n : Node) : Deciding n (deadCodeRule.finish ctx n) := by
  simp only [deadCodeRule]
  split
  · rename_i hl hb
    split
    · rename_i hc
      exact .taken (.inr hl) hb hc
    · rename_i hnone
      exact .nothing (.inr hl) hb hnone
  · rename_i b hl hb
    cases hc : branch n b with
    | none => exact .nothing (.inl hl) hb hc
    | some c =>
      simp only [takenBranch]
      split
      · rename_i hopen
        simp only [Bool.and_eq_true, decide_eq_true_eq, Bool.not_eq_true'] at hopen
        exact .opened hl hb hc hopen.1 hopen.2
      · exact .taken (.inl hl) hb hc
  · rename_i hcond hif
    exact .keep fun b hl hb => hl.elim (fun hl => hif b hl hb) fun hl => hcond b hl hb

/-! ### Access, spelling, loops and proxies -/

/-- The rule writes an access by a plain name with a dot. -/
theorem accessRule_cases (ctx : Context) (n : Node) : accessRule.finish ctx n = .keep n ∨
    ∃ object key name, n.label = .memberExpression true ∧ n.child? .object = some object ∧
      n.child? .property = some key ∧ key.stringValue? = some name ∧ isPlainName name = true ∧
        accessRule.finish ctx n = .change (n.update (.memberExpression false)
          [(.object, object), (.property, .identifier name.toString)]) := by
  simp only [accessRule]
  split
  · rename_i object name hl hobject hname
    obtain ⟨key,hkey,hname⟩ := Option.bind_eq_some_iff.mp hname
    split
    · rename_i hplain
      exact .inr ⟨object,key,name,hl,hobject,hkey,hname,hplain,rfl⟩
    · exact .inl rfl
  · exact .inl rfl

/-- The rule spells a string literal anew that is written with escapes. -/
theorem escapeRule_cases (ctx : Context) (n : Node) : escapeRule.finish ctx n = .keep n ∨
    ∃ t raw, n.label = .literal (.text t) (some raw) ∧ hasEscape raw = true ∧
      escapeRule.finish ctx n =
        .change (n.update (.literal (.text t) (some t.quoted)) n.subtrees) := by
  simp only [escapeRule]
  split
  · rename_i t raw hl
    split
    · rename_i hraw
      exact .inr ⟨t,raw,hl,hraw,rfl⟩
    · exact .inl rfl
  · exact .inl rfl

/-- The rule leaves a node as it is, or it is a loop that gives up statements. -/
theorem flatteningRule_cases (ctx : Context) (n : Node) :
    flatteningRule.finish ctx n = .keep n ∧
        (n.label = .whileStatement → unflatten? ctx.earlier n = none) ∨
      ∃ ss, n.label = .whileStatement ∧ unflatten? ctx.earlier n = some ss ∧
        flatteningRule.finish ctx n = .replace n (.statements ss) := by
  simp only [flatteningRule]
  split
  · rename_i hl
    cases hss : unflatten? ctx.earlier n with
    | none => exact .inl ⟨rfl,fun _ => rfl⟩
    | some ss => exact .inr ⟨ss,hl,rfl,rfl⟩
  · rename_i hl
    exact .inl ⟨rfl,fun h => absurd h hl⟩

/-- A loop gives up the cases of the first switch in its block, in the order that this reads. -/
theorem unflatten?_eq_some {earlier ss : List Node} {loop : Node} :
    unflatten? earlier loop = some ss ↔
      ∃ body switch d order, loop.child? .body = some body ∧ body.label = .blockStatement ∧
        (body.row .body).find? (fun s => s.label = .switchStatement) = some switch ∧
          switch.child? .discriminant = some d ∧ dispatchOrder earlier d = some order ∧
            order.flatMap (caseBody (switch.row .cases)) = ss ∧ ss ≠ [] := by
  constructor
  · intro h
    obtain ⟨body,hbody,h⟩ := Option.bind_eq_some_iff.mp h
    by_cases hblock : body.label = .blockStatement
    case neg => simp [hblock] at h
    simp only [ne_eq, hblock, not_true_eq_false, if_false] at h
    obtain ⟨switch,hswitch,h⟩ := Option.bind_eq_some_iff.mp h
    obtain ⟨order,horder,h⟩ := Option.bind_eq_some_iff.mp h
    obtain ⟨d,hd,horder⟩ := Option.bind_eq_some_iff.mp horder
    split at h
    · cases h
    · rename_i hne
      obtain rfl := Option.some.inj h
      exact ⟨body,switch,d,order,hbody,hblock,hswitch,hd,horder,rfl,hne⟩
  · rintro ⟨body,switch,d,order,hbody,hblock,hswitch,hd,horder,rfl,hne⟩
    simp only [unflatten?, hbody, Option.bind_eq_bind, Option.bind_some, hblock, ne_eq,
      not_true_eq_false, if_false, hswitch, hd, horder]

/-- What the cases give up stands in their rows. -/
theorem exists_case {cases : List Node} {order : List Text} {s : Node}
    (h : s ∈ order.flatMap (caseBody cases)) : ∃ c ∈ cases, s ∈ c.row .consequent := by
  obtain ⟨label,-,hs⟩ := List.mem_flatMap.mp h
  unfold caseBody at hs
  split at hs
  · rename_i c hc
    exact ⟨c,List.mem_reverse.mp (List.mem_of_find?_eq_some hc),(List.mem_filter.mp hs).1⟩
  · cases hs

theorem flatteningRule_finish_kept (ctx : Context) (n : Node) :
    (flatteningRule.finish ctx n).kept = n := by
  obtain ⟨h,-⟩ | ⟨ss,-,-,h⟩ := flatteningRule_cases ctx n <;> rw [h] <;> rfl

/-- The rule inlines a call through a proxy member, or the string behind one. -/
theorem proxyRule_cases (t : ProxyTable) (ctx : Context) (n : Node) :
    (proxyRule t).finish ctx n = .keep n ∨
      (∃ e, n.label = .callExpression ∧ inlineCall? t n = some e ∧
        (proxyRule t).finish ctx n = .replace n (.node e)) ∨
        ∃ s, t.member? n = some (.string s) ∧
          (proxyRule t).finish ctx n = .replace n (.node (.ofText s)) := by
  simp only [proxyRule]
  split
  · rename_i hl
    split
    · rename_i e he
      exact .inr (.inl ⟨e,hl,he,rfl⟩)
    · exact .inl rfl
  · split
    · exact .inl rfl
    · split
      · rename_i s hs
        exact .inr (.inr ⟨s,hs,rfl⟩)
      · exact .inl rfl
  · exact .inl rfl

/-- A call through a proxy member becomes an operation on its arguments, or a call of the first
with the others. -/
theorem inlineCall?_cases {t : ProxyTable} {n e : Node} (h : inlineCall? t n = some e) :
    (∃ callee op, n.child? .callee = some callee ∧ t.member? callee = some op) ∧
      ((∃ o a b, n.row .arguments = [a, b] ∧ e = .binary o a b) ∨
        ∃ f args, n.row .arguments = f :: args ∧ e = .call f args) := by
  obtain ⟨op,hop,h⟩ := Option.bind_eq_some_iff.mp h
  obtain ⟨callee,hcallee,hmember⟩ := Option.bind_eq_some_iff.mp hop
  refine ⟨⟨callee,op,hcallee,hmember⟩,?_⟩
  split at h
  · rename_i o a b hrow
    split at h
    · cases h
    · exact .inl ⟨o,a,b,hrow,(Option.some.inj h).symm⟩
  · rename_i o a b hrow
    split at h
    · cases h
    · exact .inl ⟨o,a,b,hrow,(Option.some.inj h).symm⟩
  · rename_i f args hrow
    split at h
    · cases h
    · exact .inr ⟨f,args,hrow,(Option.some.inj h).symm⟩
  · cases h

end Unravel.Simplify
