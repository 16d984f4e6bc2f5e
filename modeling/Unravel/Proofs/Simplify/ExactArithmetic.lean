import Unravel.Proofs.Number.Exact
import Unravel.Proofs.Scope.Marks
import Unravel.Proofs.Settling.Grafts
import Unravel.Proofs.Simplify.Folding

/-! Folding of arithmetic on integers. Where the integers stay below two to the power of 53 the folded number
has the value of the expression, and it has its sign unless an operand is a negative zero. -/

namespace Unravel.Simplify
open Node Double

/-- The operators that keep integers integers. -/
inductive Operator where
  | sum
  | difference
  | product

namespace Operator

def text : Operator → String
  | sum => "+"
  | difference => "-"
  | product => "*"

def onIntegers : Operator → Int → Int → Int
  | sum => (· + ·)
  | difference => (· - ·)
  | product => (· * ·)

def onDoubles : Operator → Double → Double → Double
  | sum => .add
  | difference => .sub
  | product => .mul

end Operator

/-- An integer as a literal, or as a minus before one, and the number it is read as. -/
inductive SignedLiteral : Node → Int → Double → Prop
  | literal (m : Option Nat) (raw : Option Text) (k : Nat) (h : k < 2 ^ 53) :
    SignedLiteral (.marked m (.literal (.number (.int k)) raw) []) k (.ofInt k)
  | minus (m m' : Option Nat) (b : Bool) (raw : Option Text) (k : Nat) (h : k < 2 ^ 53) :
    SignedLiteral (.marked m (.unaryExpression "-" b)
      [(.argument, .marked m' (.literal (.number (.int k)) raw) [])]) (-k) (Double.ofInt k).neg

/-- An expression of sums, differences and products of integers, its value as an integer, and the number it
evaluates to. No value on the way reaches two to the power of 53. -/
inductive Computes : Node → Int → Double → Prop
  | integer {n : Node} {k : Int} {x : Double} (h : SignedLiteral n k x) : Computes n k x
  | operation (m : Option Nat) (o : Operator) {op : String} (hop : o.text = op) {l r : Node} {a b : Int}
    {x y : Double} (hl : Computes l a x) (hr : Computes r b y) (h : (o.onIntegers a b).natAbs < 2 ^ 53) :
    Computes (.marked m (.binaryExpression op) [(.left, l), (.right, r)]) (o.onIntegers a b)
      (o.onDoubles x y)

/-- An operation on a negative zero that makes a difference: with a plain zero instead it evaluates to
something else. -/
inductive MissesSign : Node → Prop
  | operation (m : Option Nat) (o : Operator) {op : String} (hop : o.text = op) {l r : Node} {a b : Int}
    {x y : Double} (hl : Computes l a x) (hr : Computes r b y)
    (h : o.onDoubles (.ofInt a) (.ofInt b) ≠ o.onDoubles x y) :
    MissesSign (.marked m (.binaryExpression op) [(.left, l), (.right, r)])

/-! ### Values -/

namespace Operator

theorem text_injective {o o' : Operator} (h : o.text = o'.text) : o = o' := by
  cases o <;> cases o' <;> first | rfl | exact absurd h (by decide)

variable (o : Operator) {a b : Int} (ha : a.natAbs < 2 ^ 53) (hb : b.natAbs < 2 ^ 53)
include ha hb

theorem onDoubles_exact (z w : Bool) :
    ∃ s, o.onDoubles (exact z a) (exact w b) = exact s (o.onIntegers a b) := by
  cases o with
  | sum => exact ⟨_,add_exact z w ha hb⟩
  | difference =>
    refine ⟨signOf z a && signOf (!w) (-b),?_⟩
    rw [onDoubles, Double.sub, neg_exact, add_exact z _ ha (by rwa [Int.natAbs_neg]), ← Int.sub_eq_add_neg]
    rfl
  | product => exact ⟨_,mul_exact z w ha hb⟩

/-- Operands are read as integers, so that a zero among them has no sign. -/
theorem folds (hresult : (o.onIntegers a b).natAbs < 2 ^ 53) :
    foldArithmetic o.text (.int a) (.int b) = some (o.onDoubles (.ofInt a) (.ofInt b)) := by
  have hread {v : Int} (hv : v.natAbs < 2 ^ 53) : (Number.int v).toDouble? = some (.ofInt v) := by
    have hfinite := isFinite_exact false hv
    rw [exact_false] at hfinite
    exact if_pos hfinite
  obtain ⟨s,hs⟩ := o.onDoubles_exact ha hb false false
  have hfinite : (o.onDoubles (.ofInt a) (.ofInt b)).isFinite = true := by
    rw [← exact_false, ← exact_false, hs]
    exact isFinite_exact s hresult
  cases o <;> simp_all [foldArithmetic, text, onDoubles]

end Operator

theorem SignedLiteral.eq_exact {n : Node} {k : Int} {x : Double} (h : SignedLiteral n k x) :
    k.natAbs < 2 ^ 53 ∧ ∃ z, x = .exact z k := by
  cases h with
  | literal m raw k hk => exact ⟨hk,false,(exact_false k).symm⟩
  | minus m m' b raw k hk =>
    refine ⟨by rwa [Int.natAbs_neg],true,?_⟩
    rw [← exact_false, neg_exact]
    rfl

/-- An expression evaluates to its value exactly. -/
theorem Computes.eq_exact {n : Node} {k : Int} {x : Double} (h : Computes n k x) :
    k.natAbs < 2 ^ 53 ∧ ∃ z, x = .exact z k := by
  induction h with
  | integer h => exact h.eq_exact
  | operation m o hop hl hr h ihl ihr =>
    obtain ⟨ha,z,rfl⟩ := ihl
    obtain ⟨hb,w,rfl⟩ := ihr
    exact ⟨h,o.onDoubles_exact ha hb z w⟩

theorem Computes.unique {n : Node} {k k' : Int} {x x' : Double} (h : Computes n k x)
    (h' : Computes n k' x') : k' = k ∧ x' = x := by
  induction h generalizing k' x' with
  | integer h =>
    cases h with
    | literal =>
      cases h' with
      | integer h' =>
        cases h'
        exact ⟨rfl,rfl⟩
    | minus =>
      cases h' with
      | integer h' =>
        cases h'
        exact ⟨rfl,rfl⟩
  | operation m o hop hl hr h ihl ihr =>
    cases h' with
    | integer h' => cases h'
    | operation _ o' hop' hl' hr' _ =>
      obtain rfl := Operator.text_injective (hop.trans hop'.symm)
      obtain ⟨rfl,rfl⟩ := ihl hl'
      obtain ⟨rfl,rfl⟩ := ihr hr'
      exact ⟨rfl,rfl⟩

/-- A negative zero among the operands is what makes a difference. -/
theorem MissesSign.operand {n : Node} (h : MissesSign n) :
    ∃ c ∈ n.subtrees, Computes c.2 0 Double.zero.neg := by
  cases h with
  | @operation m o op hop l r a b x y hl hr h =>
    have hread {c : Node} {k : Int} {x : Double} (hc : Computes c k x) (hnot : ¬Computes c 0 Double.zero.neg) :
        x = .ofInt k := by
      obtain ⟨-,z,rfl⟩ := hc.eq_exact
      rw [← exact_false]
      by_cases hk : k = 0
      · subst hk
        cases z with
        | false => rfl
        | true => exact absurd hc hnot
      · exact exact_of_ne hk z false
    by_contra hnone
    have hnot (c : Field × Node) (hc : c ∈ [(Field.left, l), (.right, r)]) :
        ¬Computes c.2 0 Double.zero.neg := fun hzero => hnone ⟨c,hc,hzero⟩
    apply h
    rw [hread hl (hnot _ List.mem_cons_self), hread hr (hnot (.right, r) (by simp))]

/-! ### Folds -/

theorem ofMagnitude_exact (z : Bool) {k : Nat} (hk : k < 2 ^ 53) :
    ∃ raw, Node.ofMagnitude (.double (exact z k)) = .marked none (.literal (.number (.int k)) raw) [] := by
  refine ⟨some (Text.ofString (Number.double (exact z k)).text),?_⟩
  rw [Node.ofMagnitude, Number.normalize, toInt?_exact z (v := k) hk]

/-- A folded number is a literal or a minus before one, by the sign that it has. -/
theorem signedLiteral_ofNumber (s : Bool) {v : Int} (hv : v.natAbs < 2 ^ 53) :
    SignedLiteral (.ofNumber (.double (exact s v))) v (exact s v) := by
  have hsame (t : Bool) (h : v = 0 → s = t) : exact s v = exact t v := by
    by_cases hzero : v = 0
    · rw [h hzero]
    · exact exact_of_ne hzero s t
  rw [Node.ofNumber, Number.isNegative, isNegative_exact s hv]
  cases hs : signOf s v with
  | true =>
    have hnonpos : -v = v.natAbs ∧ (v = 0 → s = true) := by
      unfold signOf at hs
      split at hs
      · exact ⟨by omega,fun _ => hs⟩
      · have hneg := of_decide_eq_true hs
        exact ⟨by omega,by omega⟩
    obtain ⟨raw,hraw⟩ := ofMagnitude_exact (!s) hv
    have hvalue : v = -(v.natAbs : Int) := by omega
    have hnumber : exact s v = (Double.ofInt v.natAbs).neg := by
      rw [← exact_false, neg_exact, ← hvalue]
      exact hsame true hnonpos.2
    rw [if_pos rfl, Number.neg, neg_exact, hnonpos.1, hraw, hnumber]
    have hliteral := SignedLiteral.minus none none true raw v.natAbs hv
    rwa [← hvalue] at hliteral
  | false =>
    have hnonneg : v = v.natAbs ∧ (v = 0 → s = false) := by
      unfold signOf at hs
      split at hs
      · exact ⟨by omega,fun _ => hs⟩
      · have hneg := of_decide_eq_false hs
        exact ⟨by omega,by omega⟩
    obtain ⟨raw,hraw⟩ := ofMagnitude_exact s hv
    rw [← hnonneg.1] at hraw
    have hliteral := SignedLiteral.literal none raw v.natAbs hv
    rw [← hnonneg.1, ← exact_false] at hliteral
    rw [if_neg Bool.false_ne_true, hraw, hsame false hnonneg.2]
    exact hliteral

theorem SignedLiteral.numericValue? {n : Node} {k : Int} {x : Double} (h : SignedLiteral n k x) :
    n.numericValue? = some (.int k) := by
  cases h with
  | literal => rfl
  | minus => rfl

theorem Computes.isHole {n : Node} {k : Int} {x : Double} (h : Computes n k x) : n.isHole = false := by
  cases h with
  | integer h => cases h <;> rfl
  | operation => rfl

private theorem visit_literal (m : Option Nat) (raw : Option Text) (k : Nat) :
    ∃ raw', ∀ ctx, (expressionRule.visit ctx (.marked m (.literal (.number (.int k)) raw) [])).result =
      .node (.marked m (.literal (.number (.int k)) raw') []) := by
  cases raw with
  | none => exact ⟨none,fun _ => rfl⟩
  | some raw =>
    cases hraw : isHexSpelling raw with
    | false =>
      refine ⟨some raw,fun ctx => ?_⟩
      simp [Rule.visit, Rule.visitAll, expressionRule, foldEarly, isNegated, Node.label, hraw, Visit.keep,
        Visit.result]
    | true =>
      refine ⟨some (Text.ofString (Number.int k).text),fun ctx => ?_⟩
      simp [Rule.visit, Rule.visitAll, expressionRule, foldEarly, isNegated, Node.label, hraw, Visit.change,
        Visit.result, Node.update, Node.mark?, Node.subtrees]

/-- A visit spells a literal in plain digits. -/
theorem SignedLiteral.visit {n : Node} {k : Int} {x : Double} (h : SignedLiteral n k x) :
    ∃ v, SignedLiteral v k x ∧ ∀ ctx, (expressionRule.visit ctx n).result = .node v := by
  cases h with
  | literal m raw k hk =>
    obtain ⟨raw',hvisit⟩ := visit_literal m raw k
    exact ⟨_,.literal m raw' k hk,hvisit⟩
  | minus m m' b raw k hk =>
    obtain ⟨raw',hvisit⟩ := visit_literal m' raw k
    refine ⟨_,.minus m m' b raw' k hk,fun ctx => ?_⟩
    have hearly : expressionRule.early (.marked m (.unaryExpression "-" b)
        [(.argument, .marked m' (.literal (.number (.int k)) raw) [])]) = none := rfl
    rw [Rule.visit, hearly]
    simp only [Rule.visitAll_cons, hvisit]
    rfl

/-- A visit folds an expression to a number of its value. The number differs from what the expression
evaluates to in the sign of a zero only, and does so where an operation misses a sign. -/
theorem Computes.visit {n : Node} {k : Int} {x : Double} (h : Computes n k x) :
    ∃ v y, SignedLiteral v k y ∧ (∀ ctx, (expressionRule.visit ctx n).result = .node v) ∧
      (¬MissesSign n ∧ y = x ∨ MissesSign n ∧ k = 0 ∧ y = x.neg) := by
  induction h with
  | integer h =>
    obtain ⟨v,hv,hvisit⟩ := h.visit
    refine ⟨v,_,hv,hvisit,.inl ⟨fun hmisses => ?_,rfl⟩⟩
    cases hmisses
    cases h
  | @operation m o op hop l r a b x y hl hr h ihl ihr =>
    obtain ⟨vl,_,hvl,hvisitl,-⟩ := ihl
    obtain ⟨vr,_,hvr,hvisitr,-⟩ := ihr
    obtain ⟨ha,z,hx⟩ := hl.eq_exact
    obtain ⟨hb,w,hy⟩ := hr.eq_exact
    obtain ⟨s,hs⟩ := o.onDoubles_exact ha hb z w
    obtain ⟨t,ht⟩ := o.onDoubles_exact ha hb false false
    have hread : exact t (o.onIntegers a b) = o.onDoubles (.ofInt a) (.ofInt b) := by
      rw [← ht, exact_false, exact_false]
    have hfold := o.folds ha hb h
    refine ⟨_,_,signedLiteral_ofNumber t h,fun ctx => ?_,?_⟩
    · have hearly : expressionRule.early
          (.marked m (.binaryExpression op) [(.left, l), (.right, r)]) = none := rfl
      have hall : (expressionRule.visitAll (.binaryExpression op) [] [(.left, l), (.right, r)]).1 =
          [(.left, vl), (.right, vr)] := by
        simp only [Rule.visitAll_cons, hl.isHole, hr.isHole, hvisitl, hvisitr]
        rfl
      have hnumbers : foldNumbers op vl vr = some (exact t (o.onIntegers a b)) := by
        rw [hread, ← hfold, hop, foldNumbers, hvl.numericValue?, hvr.numericValue?]
        rfl
      have hfinish : expressionRule.finish ctx (.marked m (.binaryExpression op) [(.left, vl), (.right, vr)]) =
          .replace (.marked m (.binaryExpression op) [(.left, vl), (.right, vr)])
            (.node (.ofNumber (.double (exact t (o.onIntegers a b))))) := by
        simp [expressionRule, Node.label, foldBinary, child?, subtrees, hnumbers]
      rw [Rule.visit, hearly]
      simp only [hall, hfinish]
      rfl
    · rw [hread]
      by_cases hsame : o.onDoubles (.ofInt a) (.ofInt b) = o.onDoubles x y
      · refine .inl ⟨fun hmisses => ?_,hsame⟩
        cases hmisses with
        | operation _ o' hop' hl' hr' hne =>
          obtain rfl := Operator.text_injective (hop.trans hop'.symm)
          obtain ⟨rfl,rfl⟩ := hl.unique hl'
          obtain ⟨rfl,rfl⟩ := hr.unique hr'
          exact hne hsame
      · refine .inr ⟨.operation m o hop hl hr hsame,?_⟩
        rw [← hread, hx, hy, hs] at hsame ⊢
        by_cases hzero : o.onIntegers a b = 0
        · refine ⟨hzero,?_⟩
          rw [hzero] at hsame ⊢
          rw [neg_exact]
          cases s <;> cases t <;> first | rfl | exact absurd rfl hsame
        · exact absurd (exact_of_ne hzero t s) hsame

/-! ### In the place of the expression -/

section Swaps
variable {old new : Node} {test : Node → Bool}

private theorem isNegated_of_label {n : Node} (h : ∀ b, n.label ≠ .unaryExpression "!" b) :
    isNegated test n = false := by
  unfold isNegated
  split
  · exact absurd ‹_› (h _)
  · rfl

private theorem isNegated_swaps (htest : ∀ t t', Swaps old new t t' → test t' = test t)
    (hbase : isNegated test new = isNegated test old) {t t' : Node} (h : Swaps old new t t') :
    isNegated test t' = isNegated test t := by
  cases h with
  | here => exact hbase
  | inside m l before f c c' after h =>
    have hargument : ((marked m l (before ++ (f, c') :: after)).child? .argument).any test =
        ((marked m l (before ++ (f, c) :: after)).child? .argument).any test := by
      simp only [child?, subtrees, List.find?_append, List.find?_cons]
      cases before.find? fun c => decide (c.1 = .argument) with
      | some b => rfl
      | none =>
        by_cases hf : f = .argument
        · simp [hf, htest _ _ h]
        · simp [hf]
    simp only [isNegated, Node.label, hargument]

private theorem isEmptyArray_swaps (hold : isEmptyArray old = false) (hnew : isEmptyArray new = false)
    {t t' : Node} (h : Swaps old new t t') : isEmptyArray t' = isEmptyArray t := by
  cases h with
  | here => rw [hold, hnew]
  | inside m l before f c c' after _ => cases before <;> rfl

/-- Nodes that are no arrays and no negations can be swapped without an early fold around them. -/
private theorem foldEarly_swaps (hold : old.label ≠ .arrayExpression) (hnew : new.label ≠ .arrayExpression)
    (hold' : ∀ b, old.label ≠ .unaryExpression "!" b) (hnew' : ∀ b, new.label ≠ .unaryExpression "!" b)
    (t t' : Node) (h : Swaps old new t t') :
    (foldEarly t').map Visit.replaced = (foldEarly t).map Visit.replaced := by
  have hempty : ∀ t t', Swaps old new t t' → isEmptyArray t' = isEmptyArray t :=
    fun t t' h => isEmptyArray_swaps (by simp [isEmptyArray, hold]) (by simp [isEmptyArray, hnew]) h
  have hnegated {test : Node → Bool} : isNegated test new = isNegated test old := by
    rw [isNegated_of_label hold', isNegated_of_label hnew']
  have hdouble := isNegated_swaps (fun t t' => isNegated_swaps hempty hnegated) hnegated h
  unfold foldEarly
  rw [hdouble]
  split <;> rfl

end Swaps

theorem SignedLiteral.plain {n : Node} {k : Int} {x : Double} (h : SignedLiteral n k x) :
    SignedLiteral n.plain k x := by
  cases h with
  | literal m raw k hk =>
    rw [plain_marked, List.map_nil]
    exact .literal none raw k hk
  | minus m m' b raw k hk =>
    rw [plain_marked, List.map_cons, List.map_nil, plain_marked, List.map_nil]
    exact .minus none none b raw k hk

theorem Computes.label {n : Node} {k : Int} {x : Double} (h : Computes n k x) :
    n.label ≠ .arrayExpression ∧ (∀ b, n.label ≠ .unaryExpression "!" b) ∧ n.label.isStatement = false ∧
      ∀ s, n.label ≠ .program s := by
  cases h with
  | integer h => cases h <;> simp [Node.label, Label.isStatement]
  | operation => simp [Node.label, Label.isStatement]

theorem expressionRule_settles : expressionRule.Settles := by
  rw [← expressionRuleWith_foldArithmetic]
  exact expressionRuleWith_settles foldArithmetic

/-- Arithmetic on integers is folded to a number of its value, wherever it stands. The number is what the
expression evaluates to, but for the sign of a zero that an operation has from a negative zero among its
operands. -/
theorem expressions_exact {tree : Node} (hprogram : tree.IsProgram) (hcoherent : tree.Coherent)
    (hholes : tree.EmptyHoles) {q : Path} {n : Node} (hn : tree.at? q = some n) {k : Int} {x : Double}
    (h : Computes n k x) :
    x.toInt? = some k ∧ ∃ v y, (∀ ctx, (expressionRule.visit ctx n.plain).result = .node v) ∧
      (expressions tree).1.plain = (expressions (tree.plain.graft q v)).1 ∧
        SignedLiteral v k y ∧ y.toInt? = some k ∧
          (¬MissesSign n ∧ y = x ∨ MissesSign n ∧ k = 0 ∧ y = x.neg ∧
            ∃ c ∈ n.subtrees, Computes c.2 0 Double.zero.neg) := by
  obtain ⟨v,y,hv,hvisit,hsign⟩ := h.visit
  have hexact : ∀ {n : Node} {k : Int} {x : Double}, Computes n k x → x.toInt? = some k := by
    intro n k x h
    obtain ⟨hk,z,rfl⟩ := h.eq_exact
    exact toInt?_exact z hk
  have hplace (ctx : Context) : (expressionRule.visit ctx n.plain).result = .node v.plain := by
    rw [expressionRule_settles.visit_plain, Visit.result_plain, hvisit]
    rfl
  have hat : tree.plain.at? q = some n.plain := by
    rw [at?_plain, hn]
    rfl
  obtain ⟨harray,hnot,hstatement,hprog⟩ := h.label
  obtain ⟨harray',hnot',hstatement',-⟩ := (Computes.integer hv).label
  have hrests : expressionRule.Rests v.plain := by
    apply (expressionRule_settles.visit_settled n.plain (hholes.at? hn).plain Rule.top).result
    rw [hplace]
    exact List.mem_singleton_self _
  have halike : expressionRule.Alike n.plain v.plain := by
    refine ⟨fun ctx => ?_,⟨?_,?_⟩,?_,foldEarly_swaps ?_ ?_ ?_ ?_⟩
    · rw [hplace, expressionRule_settles.visit_rests hrests]
      rfl
    · rw [isHole_plain, h.isHole]
    · rw [isHole_plain, (Computes.integer hv).isHole]
    · rw [isStatement, isStatement, label_plain, label_plain, hstatement, hstatement']
    · rwa [label_plain]
    · rwa [label_plain]
    · rwa [label_plain]
    · rwa [label_plain]
  have hnone : ¬n.plain.IsProgram := by
    rintro ⟨s,hs⟩
    rw [label_plain] at hs
    exact hprog s hs
  refine ⟨hexact h,v.plain,y,hplace,?_,hv.plain,hexact (.integer hv),?_⟩
  · exact halike.run expressionRule_settles expressionRule_programs hprogram hcoherent hholes hat hnone
      (marks_plain v)
  · rcases hsign with hsame | ⟨hmisses,hk,hy⟩
    · exact .inl hsame
    · exact .inr ⟨hmisses,hk,hy,hmisses.operand⟩

/-- The script `0 * -1 * 1;`, which evaluates to a negative zero. -/
def lostSign : Node :=
  .mk (.program "script") [(.body, .mk (.expressionStatement none none) [(.expression,
    .binary "*" (.binary "*" (.ofNumber (.int 0)) (.ofNumber (.int (-1)))) (.ofNumber (.int 1)))])]

theorem expressions_exact_lostSign :
    lostSign.IsProgram ∧ lostSign.Coherent ∧ lostSign.EmptyHoles ∧ ∃ n, lostSign.at? [0, 0] = some n ∧
      Computes n 0 Double.zero.neg ∧ ∃ v, SignedLiteral v 0 Double.zero ∧
        (expressions lostSign).1.plain = (expressions (lostSign.plain.graft [0, 0] v)).1 := by
  have hprogram : lostSign.IsProgram := ⟨"script",rfl⟩
  have hcoherent : lostSign.Coherent := coherent_of_marks (by decide)
  have hholes : lostSign.EmptyHoles := EveryLabel.emptyHoles (by decide)
  have hzero : Computes (.ofNumber (.int 0)) 0 (.ofInt 0) := .integer (.literal none _ 0 (by decide))
  have hminus : Computes (.ofNumber (.int (-1))) (-1) (Double.ofInt 1).neg :=
    .integer (.minus none none true _ 1 (by decide))
  have hone : Computes (.ofNumber (.int 1)) 1 (.ofInt 1) := .integer (.literal none _ 1 (by decide))
  have hinner := Computes.operation none .product rfl hzero hminus (by decide)
  have houter := Computes.operation none .product rfl hinner hone (by decide)
  have hvalue : Operator.product.onDoubles (Operator.product.onDoubles (.ofInt 0) (Double.ofInt 1).neg)
      (.ofInt 1) = Double.zero.neg := by decide
  rw [hvalue] at houter
  refine ⟨hprogram,hcoherent,hholes,_,rfl,houter,?_⟩
  obtain ⟨-,v,y,-,hrun,hv,-,⟨hnot,-⟩ | ⟨-,-,rfl,-⟩⟩ :=
    expressions_exact hprogram hcoherent hholes (q := [0, 0]) rfl houter
  · exact absurd (.operation none .product rfl hinner hone (by decide)) hnot
  · exact ⟨v,hv,hrun⟩

end Unravel.Simplify
