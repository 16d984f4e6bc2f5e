import Unravel.Proofs.Simplify.Work

/-! Simplification passes in any order. Each takes at least as much work from a program as it
counts, so that what all of them count together is bounded from the start. -/

namespace Unravel

/-- Nothing that a visit leaves behind stands at several places. -/
def Visit.Unmarked (v : Visit) : Prop :=
  v.kept.marks = [] ∧
    match v.replaced with
    | some (.node c) => c.marks = []
    | some (.statements cs) => ∀ c ∈ cs, c.marks = []
    | _ => True

namespace Rule

/-- A rule that puts no node at two places. -/
structure KeepsSingle (r : Rule) : Prop where
  early : ∀ n v, n.marks = [] → r.early n = some v → v.Unmarked
  finish : ∀ ctx n, n.marks = [] → (r.finish ctx n).Unmarked

private theorem marks_place {v : Visit} (h : v.Unmarked) (l : Label) (f : Field) (n : Node) :
    ∀ c ∈ place l f n v.result, c.2.marks = [] := by
  obtain ⟨kept,replaced,k⟩ := v
  obtain ⟨hkept,hreplaced⟩ := h
  match replaced with
  | none => simpa [place, Visit.result] using hkept
  | some (.node c) => simpa [place, Visit.result] using hreplaced
  | some (.statements cs) =>
    have hcs : ∀ c ∈ cs, c.marks = [] := hreplaced
    simp only [Visit.result, Option.getD_some, place]
    split
    · simpa using hcs
    · simpa [Node.block, Node.marks_eq_nil] using hcs
  | some .nothing =>
    simp only [Visit.result, Option.getD_some, place]
    split
    · simp
    · split
      · simp [Node.empty, Node.marks_eq_nil]
      · simp

private theorem marks_visitAll {r : Rule} (l : Label) (before : List (Field × Node))
    {cs : List (Field × Node)} (hcs : ∀ c ∈ cs, c.2.marks = [])
    (h : ∀ c ∈ cs, ∀ ctx, (r.visit ctx c.2).Unmarked) :
    ∀ c ∈ (r.visitAll l before cs).1, c.2.marks = [] := by
  induction cs generalizing before with
  | nil => simp [visitAll]
  | cons c cs ih =>
    obtain ⟨f,n⟩ := c
    obtain ⟨hn,hcs⟩ := List.forall_mem_cons.mp hcs
    obtain ⟨hv,h⟩ := List.forall_mem_cons.mp h
    rw [visitAll_cons]
    refine List.forall_mem_append.mpr ⟨?_,ih _ hcs h⟩
    split
    · simpa using hn
    · exact marks_place (hv _) l f n

theorem KeepsSingle.visit {r : Rule} (hr : r.KeepsSingle) (n : Node) (h : n.marks = [])
    (ctx : Context) : (r.visit ctx n).Unmarked := by
  induction n using Node.inductionOn generalizing ctx with
  | marked m l cs ih =>
    obtain ⟨hm,hcs⟩ := Node.marks_eq_nil.mp h
    rw [Rule.visit]
    split
    · rename_i v hv
      exact hr.early _ v h hv
    · exact hr.finish ctx _ (Node.marks_eq_nil.mpr
        ⟨hm,marks_visitAll l [] hcs fun c hc => ih c hc (hcs c hc)⟩)

/-- A rule that leaves the root of a program alone. -/
structure KeepsPrograms (r : Rule) : Prop where
  early : ∀ n : Node, n.IsProgram → r.early n = none
  finish : ∀ ctx (n : Node), n.IsProgram → r.finish ctx n = .keep n

theorem KeepsPrograms.visit {r : Rule} (hr : r.KeepsPrograms) {n : Node} (h : n.IsProgram)
    (ctx : Context) : (r.visit ctx n).replaced = none ∧ (r.visit ctx n).kept.IsProgram := by
  obtain ⟨m,l,cs⟩ := n
  rw [Rule.visit, hr.early _ h]
  have hp : (Node.marked m l (r.visitAll l [] cs).1).IsProgram := h
  simp only [hr.finish ctx _ hp]
  exact ⟨rfl,hp⟩

end Rule

/-- A program in which every node stands at one place. -/
structure Node.IsSingleProgram (n : Node) : Prop where
  isProgram : n.IsProgram
  unmarked : n.hasMarks = false

namespace Rule

/-- A rule takes from a program what it counts, and leaves a program. -/
theorem run_work {r : Rule} (hs : r.Sheds) (hm : r.KeepsSingle) (hp : r.KeepsPrograms) {tree : Node}
    (h : tree.IsSingleProgram) :
    (r.run tree).1.work + (r.run tree).2 ≤ tree.work ∧ (r.run tree).1.IsSingleProgram := by
  have hmarks := Node.hasMarks_eq_false.mp h.unmarked
  obtain ⟨hnone,hkept⟩ := hp.visit h.isProgram top
  have hsheds := hs.visit tree top
  simp only [Visit.Sheds, hnone] at hsheds
  simp only [run, h.unmarked, Bool.false_eq_true, if_false, runOnce]
  exact ⟨hsheds.1,hkept,Node.hasMarks_eq_false.mpr (hm.visit tree hmarks top).1⟩

end Rule

namespace Visit
variable {n : Node} (h : n.marks = [])
include h

theorem unmarked_keep : (keep n).Unmarked := ⟨h,trivial⟩

theorem unmarked_replace {c : Node} (hc : c.marks = []) : (replace n (.node c)).Unmarked := ⟨h,hc⟩

end Visit

namespace Simplify
open Node

theorem marks_ofNumber (v : Number) : (ofNumber v).marks = [] := by
  unfold ofNumber
  split <;> rfl

theorem expressionRule_single : expressionRule.KeepsSingle := by
  constructor
  · intro n v h hv
    obtain ⟨-,rfl⟩ := expressionRule_early hv
    exact Visit.unmarked_replace h rfl
  · intro ctx n h
    have hfolding := expressionRule_folding ctx n
    generalize expressionRule.finish ctx n = v at hfolding ⊢
    cases hfolding with
    | keep => exact Visit.unmarked_keep h
    | negation => exact Visit.unmarked_replace h rfl
    | void => exact Visit.unmarked_replace h rfl
    | numbers => exact Visit.unmarked_replace h (marks_ofNumber _)
    | strings => exact Visit.unmarked_replace h rfl
    | spelling =>
      obtain ⟨m,l,cs⟩ := n
      exact ⟨Node.marks_eq_nil.mpr (Node.marks_eq_nil.mp h),trivial⟩

theorem accessRule_single : accessRule.KeepsSingle := by
  constructor
  · intro n v _ hv
    cases hv
  · intro ctx n h
    obtain hkeep | ⟨object,_,name,-,hobject,-,-,-,hchange⟩ := accessRule_cases ctx n
    · rw [hkeep]
      exact Visit.unmarked_keep h
    · rw [hchange]
      have ho := marks_of_child? h hobject
      obtain ⟨m,l,cs⟩ := n
      refine ⟨Node.marks_eq_nil.mpr ⟨(Node.marks_eq_nil.mp h).1,?_⟩,trivial⟩
      simp [ho, Node.identifier, marks_eq_nil]

theorem deadCodeRule_single : deadCodeRule.KeepsSingle := by
  constructor
  · intro n v _ hv
    cases hv
  · intro ctx n h
    have hdeciding := deadCodeRule_deciding ctx n
    generalize deadCodeRule.finish ctx n = v at hdeciding ⊢
    cases hdeciding with
    | keep => exact Visit.unmarked_keep h
    | nothing => exact ⟨h,trivial⟩
    | taken _ _ hc => exact Visit.unmarked_replace h (marks_of_child? h hc)
    | opened _ _ hc => exact ⟨h,fun d hd => marks_of_mem_row (marks_of_child? h hc) hd⟩

theorem proxyRule_single (t : ProxyTable) : (proxyRule t).KeepsSingle := by
  constructor
  · intro n v _ hv
    cases hv
  · intro ctx n h
    obtain hkeep | ⟨e,-,he,hput⟩ | ⟨s,-,hput⟩ := proxyRule_cases t ctx n
    · rw [hkeep]
      exact Visit.unmarked_keep h
    · rw [hput]
      have hargs {c : Node} (hc : c ∈ n.row .arguments) : c.marks = [] := marks_of_mem_row h hc
      obtain ⟨-,⟨o,a,b,hrow,rfl⟩ | ⟨f,args,hrow,rfl⟩⟩ := inlineCall?_cases he
      · refine Visit.unmarked_replace h (Node.marks_eq_nil.mpr ⟨rfl,?_⟩)
        simp [hargs (c := a) (by simp [hrow]), hargs (c := b) (by simp [hrow])]
      · refine Visit.unmarked_replace h (Node.marks_eq_nil.mpr ⟨rfl,?_⟩)
        simp only [List.mem_cons, List.mem_map]
        rintro c (rfl | ⟨d,hd,rfl⟩)
        · exact hargs (by simp [hrow])
        · exact hargs (by simp [hrow, hd])
    · rw [hput]
      exact Visit.unmarked_replace h rfl

theorem expressionRule_programs : expressionRule.KeepsPrograms := by
  constructor
  · rintro n ⟨s,hs⟩
    simp [expressionRule, foldEarly, isNegated, hs]
  · rintro ctx n ⟨s,hs⟩
    simp [expressionRule, hs]

theorem accessRule_programs : accessRule.KeepsPrograms := by
  constructor
  · intro n _
    rfl
  · rintro ctx n ⟨s,hs⟩
    simp [accessRule, hs]

theorem deadCodeRule_programs : deadCodeRule.KeepsPrograms := by
  constructor
  · intro n _
    rfl
  · rintro ctx n ⟨s,hs⟩
    simp [deadCodeRule, hs]

theorem proxyRule_programs (t : ProxyTable) : (proxyRule t).KeepsPrograms := by
  constructor
  · intro n _
    rfl
  · rintro ctx n ⟨s,hs⟩
    simp [proxyRule, hs]

/-- A simplification: the tree it leaves, and how many changes it counts. -/
abbrev Pass := Node → Node × Nat

/-- The simplifications that shrink a tree. -/
def shrinking : List Pass := [expressions, proxyCalls, deadCode, access]

/-- Runs simplifications one after the other; their counts are added up. -/
def runPasses : List Pass → Pass
  | [], tree => (tree, 0)
  | pass :: rest, tree =>
    let (tree, k) := pass tree
    let (tree, more) := runPasses rest tree
    (tree, k + more)

/-- A shrinking simplification counts at most the work it takes from a program. -/
theorem shrinking_work {pass : Pass} (hpass : pass ∈ shrinking) {tree : Node}
    (h : tree.IsSingleProgram) :
    (pass tree).1.work + (pass tree).2 ≤ tree.work ∧ (pass tree).1.IsSingleProgram := by
  simp only [shrinking, List.mem_cons, List.not_mem_nil, or_false] at hpass
  rcases hpass with rfl | rfl | rfl | rfl
  · exact Rule.run_work expressionRule_sheds expressionRule_single expressionRule_programs h
  · unfold proxyCalls
    split
    · exact ⟨Nat.le_refl _,h⟩
    · exact Rule.run_work (proxyRule_sheds _) (proxyRule_single _) (proxyRule_programs _) h
  · exact Rule.run_work deadCodeRule_sheds deadCodeRule_single deadCodeRule_programs h
  · exact Rule.run_work accessRule_sheds accessRule_single accessRule_programs h

theorem runPasses_work {passes : List Pass} (hp : ∀ pass ∈ passes, pass ∈ shrinking) {tree : Node}
    (h : tree.IsSingleProgram) :
    (runPasses passes tree).1.work + (runPasses passes tree).2 ≤ tree.work := by
  induction passes generalizing tree with
  | nil => simp [runPasses]
  | cons pass passes ih =>
    obtain ⟨hpass,hrest⟩ := List.forall_mem_cons.mp hp
    obtain ⟨hwork,hsingle⟩ := shrinking_work hpass h
    have := ih hrest hsingle
    simp only [runPasses]
    omega

/-- No order of the shrinking simplifications goes on for ever. Each takes from any program at
least as much work as it counts, so all that a run of them counts is at most the work at first. -/
theorem shrinking_passes_bounded (tree : Node) (h : tree.IsSingleProgram) :
    (∀ pass ∈ shrinking, (pass tree).1.work + (pass tree).2 ≤ tree.work) ∧
      ∀ passes : List Pass, (∀ pass ∈ passes, pass ∈ shrinking) →
        (runPasses passes tree).2 ≤ tree.work := by
  refine ⟨fun pass hpass => (shrinking_work hpass h).1,fun passes hp => ?_⟩
  have := runPasses_work hp h
  omega

/-- An access whose key is a plain name only once two strings are joined, `table['to' + 'String']`. -/
def joinedKey : Node :=
  .mk (.program "script") [(.body, .mk (.expressionStatement none none) [(.expression,
    .mk (.memberExpression true) [(.object, .identifier "table"),
      (.property, .binary "+" (.ofText (Text.ofString "to")) (.ofText (Text.ofString "String")))])])]

theorem shrinking_passes_bounded_joinedKey :
    joinedKey.IsSingleProgram ∧ (runPasses [access, expressions, access] joinedKey).2 ≤ 14 := by
  have h : joinedKey.IsSingleProgram := ⟨⟨"script",rfl⟩,by decide⟩
  have hwork : joinedKey.work = 14 := by decide
  exact ⟨h,hwork ▸ (shrinking_passes_bounded joinedKey h).2 _ (by simp [shrinking])⟩

end Simplify
end Unravel
