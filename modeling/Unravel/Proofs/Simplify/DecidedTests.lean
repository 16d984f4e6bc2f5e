import Unravel.Proofs.Settling.Order
import Unravel.Proofs.Settling.Shared
import Unravel.Proofs.Simplify.DeadCodeScope

/-! Removal of branches leaves no test that is decided. A test that is decided only once conditionals in
it are gone is decided in the same run, and what is left keeps its order. -/

namespace Unravel.Simplify
open Node

/-- The test of a node, if it is an `if` or a conditional expression, is not decided. -/
def Undecided (n : Node) : Prop := n.label = .ifStatement ∨ n.label = .conditionalExpression →
  ∀ test, n.child? .test = some test → staticTest test = none

/-- Where the rule puts nothing in the place of a node it leaves the node as it is, and counts nothing. -/
theorem undecided_of_finish {ctx : Context} {n : Node} (h : (deadCodeRule.finish ctx n).replaced = none) :
    Undecided n ∧ deadCodeRule.finish ctx n = .keep n := by
  have hdeciding := deadCodeRule_deciding ctx n
  generalize deadCodeRule.finish ctx n = v at h hdeciding
  cases hdeciding with
  | keep hnone =>
    refine ⟨fun hl test htest => Option.eq_none_iff_forall_ne_some.mpr fun b hb => ?_,rfl⟩
    apply hnone b hl
    rw [htest]
    exact hb
  | nothing => cases h
  | taken => cases h
  | opened => cases h

/-- What the rule puts in the place of a node comes from inside it. -/
theorem Decided.exists_at? {n : Node} {rep : Replacement} (h : Decided n rep) :
    ∀ d ∈ rep.nodes, ∃ c ∈ n.subtrees, ∃ q, c.2.at? q = some d := by
  intro d hd
  cases h with
  | nothing => cases hd
  | branch hc =>
    obtain rfl := List.mem_singleton.mp hd
    obtain ⟨c,hmem,rfl⟩ := List.mem_map.mp hc
    exact ⟨c,(List.mem_filter.mp hmem).1,[],rfl⟩
  | body _ hc _ _ =>
    obtain ⟨c,hmem,rfl⟩ := List.mem_map.mp hc
    obtain ⟨i,hi⟩ := exists_at?_of_row hd
    exact ⟨c,(List.mem_filter.mp hmem).1,[i],hi⟩

theorem deadCodeRule_settles : deadCodeRule.Settles where
  context _ _ := rfl
  plain_early _ := rfl
  plain_finish n := deadCodeRule_ignoresMarks.plain Rule.top n
  reshapes n := by
    rw [(deadCodeRule_decided Rule.top n).1]
    exact n.reshaped_self
  early _ _ h := by cases h
  late _ _ := rfl
  finish n h := by
    obtain ⟨hkept,hdecided⟩ := deadCodeRule_decided Rule.top n
    have hkeep (h : (deadCodeRule.finish Rule.top n).replaced = none) := undecided_of_finish h
    generalize hv : deadCodeRule.finish Rule.top n = v at hkept hdecided hkeep
    obtain ⟨kept,replaced,k⟩ := v
    obtain rfl : kept = n := hkept
    cases replaced with
    | none =>
      have hkeep := (hkeep rfl).2
      rw [hkeep]
      exact .keep (Rule.leavesBe_of_keep rfl fun _ => hv.trans hkeep)
    | some rep =>
      refine .yields rep k fun d hd => ?_
      obtain ⟨c,hc,q,hq⟩ := (hdecided rep rfl).2.exists_at? d hd
      exact ⟨(h c hc).at? hq,.inr ⟨c,hc,q,hq⟩⟩
  framed n h := by
    apply Rule.leavesBe_of_keep rfl
    intro ctx
    rcases h with hl | hl | hl <;> simp [deadCodeRule, hl]

theorem deadCodeRule_thins : deadCodeRule.Thins where
  early _ := rfl
  kept ctx n := (deadCodeRule_decided ctx n).1
  inside ctx n rep hrep := ((deadCodeRule_decided ctx n).2 rep hrep).2.exists_at?
  holes ctx n h := by simp [deadCodeRule, of_decide_eq_true h, Visit.keep]
  ordered ctx n rep hrep := by
    have hdecided := ((deadCodeRule_decided ctx n).2 rep hrep).2
    cases hdecided with
    | nothing => exact List.nil_sublist _
    | branch hc =>
      obtain ⟨c,hmem,rfl⟩ := List.mem_map.mp hc
      simpa [Replacement.nodes] using marks_sublist (List.mem_filter.mp hmem).1
    | body _ hc _ _ =>
      obtain ⟨c,hmem,rfl⟩ := List.mem_map.mp hc
      exact (row_marks_sublist c.2 .body).trans (marks_sublist (List.mem_filter.mp hmem).1)

/-- Removal of branches is done in one run. After a run no test of an `if` or of a conditional expression
is decided, and a second run counts nothing and changes nothing. What is there after the run was there
before, or is a new block or empty statement; and it is in the order it was in, be it statements of one
list or nodes far from each other. Places of a shared node count as nodes of their own. -/
theorem deadCode_decided {tree : Node} (hprogram : tree.IsProgram) (h : tree.Coherent)
    (hholes : tree.EmptyHoles) :
    (∀ q n, (deadCode tree).1.at? q = some n → Undecided n) ∧
      deadCode (deadCode tree).1 = ((deadCode tree).1, 0) ∧
      (∀ q' n', (deadCode tree).1.at? q' = some n' →
        (∃ q n, deadCodeRule.Carries tree.plain q q' ∧ tree.at? q = some n ∧ n.label = n'.label) ∨
          n'.label = .blockStatement ∨ n'.label = .emptyStatement) ∧
      ∀ p p' q q', deadCodeRule.Carries tree.plain p p' → deadCodeRule.Carries tree.plain q q' →
        (p < q ↔ p' < q') := by
  have hkeeps := (deadCodeRule_programs.visit hprogram Rule.top).1
  have hrests := deadCodeRule_settles.run_leaves hholes hkeeps h
  have hfinish : ∀ q n, (deadCode tree).1.at? q = some n →
      Undecided n ∧ deadCodeRule.finish Rule.top n = .keep n :=
    fun q n hn => undecided_of_finish ((hrests q n hn).replaced Rule.top)
  refine ⟨fun q n hn => (hfinish q n hn).1,?_,fun q' n' hn' => ?_,fun p p' q q' hp hq => ?_⟩
  · have hagain := deadCodeRule_settles.run_again hholes hkeeps h
    rw [Rule.idle_eq_zero fun q a ha => ?_] at hagain
    · exact hagain
    · rw [(hfinish q a ha).2]
      rfl
  · have hrun := (deadCodeRule_settles.run_plain hholes hkeeps h).2
    have hplace : (deadCodeRule.runOnce tree.plain).1.at? q' = some n'.plain := by
      rw [← hrun, at?_plain]
      exact congrArg (Option.map plain) hn'
    have hkeeps' : (deadCodeRule.visit Rule.top tree.plain).replaced = none := by
      rw [deadCodeRule_settles.visit_plain, Visit.plain, hkeeps, Option.map_none]
    have horigin := deadCodeRule_thins.carries_or_new deadCodeRule_ignoresMarks (marks_plain tree)
      hholes.plain hkeeps' hplace
    rw [label_plain] at horigin
    refine horigin.imp_left ?_
    rintro ⟨q,n,hq,hn,hl,-⟩
    rw [at?_plain] at hn
    obtain ⟨a,ha,rfl⟩ := Option.map_eq_some_iff.mp hn
    exact ⟨q,a,hq,ha,by rw [← hl, label_plain]⟩
  · exact deadCodeRule_thins.carries_lt_iff (marks_plain tree) hp hq

/-- The script `if ((true ? 'a' : 'b') === 'a') { f; g; } else k; if (c) h;`. -/
def nestedTests : Node :=
  let reads (name : String) : Node := .mk (.expressionStatement none none) [(.expression, .identifier name)]
  let text (value : String) : Node := .ofText (Text.ofString value)
  .mk (.program "script") [
    (.body, .mk .ifStatement [
      (.test, .binary "===" (.mk .conditionalExpression
        [(.test, .ofBool true), (.consequent, text "a"), (.alternate, text "b")]) (text "a")),
      (.consequent, .block [reads "f", reads "g"]), (.alternate, reads "k")]),
    (.body, .mk .ifStatement [(.test, .identifier "c"), (.consequent, reads "h")])]

theorem deadCode_decided_nestedTests :
    nestedTests.IsProgram ∧ nestedTests.Coherent ∧ nestedTests.EmptyHoles ∧
      (deadCode nestedTests).2 = 2 ∧
        deadCode (deadCode nestedTests).1 = ((deadCode nestedTests).1, 0) := by
  have hprogram : nestedTests.IsProgram := ⟨"script",rfl⟩
  have hcoherent : nestedTests.Coherent := coherent_of_marks (by decide)
  have hholes : nestedTests.EmptyHoles := EveryLabel.emptyHoles (by decide)
  have hcount : (deadCode nestedTests).2 = 2 := by decide
  obtain ⟨-,hagain,-,-⟩ := deadCode_decided hprogram hcoherent hholes
  exact ⟨hprogram,hcoherent,hholes,hcount,hagain⟩

end Unravel.Simplify
