import Unravel.Proofs.Grammar.Passes
import Unravel.Proofs.Literals.Labels
import Unravel.Proofs.Literals.Reading
import Unravel.Proofs.Simplify.Dispatch
import Unravel.Simplify.Proxy
import Unravel.Strings.Resolver

/-! String literals that are written as they are read: what stands between the quotes spells the
value. Simplification, renaming and the inlining of strings keep them so, in any order. -/

namespace Unravel

/-- Whether a label is no string literal, or one whose spelling is read as its value. -/
def Label.readsBack : Label → Bool
  | .literal (.text t) raw => raw.bind Text.readLiteral = some t
  | _ => true

/-- Every string literal of a tree is spelled as JavaScript reads its value. -/
def Node.ReadsBack (n : Node) : Prop := n.EveryLabel fun l => l.readsBack = true

instance (n : Node) : Decidable n.ReadsBack := inferInstanceAs (Decidable (n.EveryLabel _))

namespace Node

@[simp]
theorem readsBack_marked {m : Option Nat} {l : Label} {cs : List (Field × Node)} :
    (marked m l cs).ReadsBack ↔ l.readsBack = true ∧ ∀ c ∈ cs, c.2.ReadsBack := everyLabel_marked

theorem readsBack_identifier (name : String) : (identifier name).ReadsBack :=
  readsBack_marked.mpr ⟨rfl,by simp⟩

theorem readsBack_ofText (t : Text) : (ofText t).ReadsBack := by
  simp [ofText, Label.readsBack, Text.readLiteral_quoted]

theorem readsBack_ofBool (b : Bool) : (ofBool b).ReadsBack := by simp [ofBool, Label.readsBack]

theorem readsBack_ofNumber (v : Number) : (ofNumber v).ReadsBack := by
  unfold ofNumber
  split <;> simp [unary, ofMagnitude, Label.readsBack]

theorem readsBack_binary (op : String) {a b : Node} (ha : a.ReadsBack) (hb : b.ReadsBack) :
    (binary op a b).ReadsBack := by
  unfold binary
  split <;> simp [Label.readsBack, ha, hb]

theorem readsBack_call {f : Node} {args : List Node} (hf : f.ReadsBack)
    (hargs : ∀ a ∈ args, a.ReadsBack) : (call f args).ReadsBack := by
  refine readsBack_marked.mpr ⟨rfl,List.forall_mem_cons.mpr ⟨hf,?_⟩⟩
  simp only [List.mem_map]
  rintro _ ⟨a,ha,rfl⟩
  exact hargs a ha

end Node

/-- A rule that keeps string literals spelled as they are read. -/
abbrev Rule.KeepsReading (r : Rule) : Prop := r.KeepsLabels fun l => l.readsBack = true

namespace Simplify
open Node

private theorem early_none {v : Visit} {n : Node} (_ : n.ReadsBack) (h : (none : Option Visit) = some v) :
    v.EveryLabel fun l => l.readsBack = true := by cases h

theorem expressionRule_reading : expressionRule.KeepsReading := by
  refine ⟨rfl,rfl,fun n v h hv => ?_,fun ctx n h => ?_⟩
  · obtain ⟨-,rfl⟩ := expressionRule_early hv
    exact Visit.everyLabel_replace h (readsBack_ofBool true)
  · have hfolding := expressionRule_folding ctx n
    generalize expressionRule.finish ctx n = v at hfolding ⊢
    cases hfolding with
    | keep => exact Visit.everyLabel_keep h
    | negation => exact Visit.everyLabel_replace h (readsBack_ofBool false)
    | void => exact Visit.everyLabel_replace h (readsBack_identifier _)
    | numbers => exact Visit.everyLabel_replace h (readsBack_ofNumber _)
    -- Two joined strings are spelled anew.
    | strings => exact Visit.everyLabel_replace h (readsBack_ofText _)
    | spelling =>
      obtain ⟨m,l,cs⟩ := n
      exact Visit.everyLabel_change (everyLabel_marked.mpr ⟨rfl,(everyLabel_marked.mp h).2⟩)

theorem escapeRule_reading : escapeRule.KeepsReading := by
  refine ⟨rfl,rfl,fun n v h hv => early_none h hv,fun ctx n h => ?_⟩
  obtain hkeep | ⟨t,raw,-,-,hchange⟩ := escapeRule_cases ctx n
  · rw [hkeep]
    exact Visit.everyLabel_keep h
  · rw [hchange]
    obtain ⟨m,l,cs⟩ := n
    have hl : (Label.literal (.text t) (some t.quoted)).readsBack = true := by
      simp [Label.readsBack, Text.readLiteral_quoted]
    exact Visit.everyLabel_change (everyLabel_marked.mpr ⟨hl,(everyLabel_marked.mp h).2⟩)

theorem accessRule_reading : accessRule.KeepsReading := by
  refine ⟨rfl,rfl,fun n v h hv => early_none h hv,fun ctx n h => ?_⟩
  obtain hkeep | ⟨object,_,name,-,hobject,-,-,-,hchange⟩ := accessRule_cases ctx n
  · rw [hkeep]
    exact Visit.everyLabel_keep h
  · rw [hchange]
    have ho : object.ReadsBack := h.child? hobject
    exact Visit.everyLabel_change (everyLabel_marked.mpr
      ⟨rfl,by simpa using ⟨ho,readsBack_identifier name.toString⟩⟩)

theorem deadCodeRule_reading : deadCodeRule.KeepsReading := by
  refine ⟨rfl,rfl,fun n v h hv => early_none h hv,fun ctx n h => ?_⟩
  have hdeciding := deadCodeRule_deciding ctx n
  generalize deadCodeRule.finish ctx n = v at hdeciding ⊢
  cases hdeciding with
  | keep => exact Visit.everyLabel_keep h
  | nothing => exact ⟨h,trivial⟩
  | taken _ _ hc => exact Visit.everyLabel_replace h (h.child? hc)
  | opened _ _ hc => exact ⟨h,fun d hd => (h.child? hc).row hd⟩

/-- A string of a proxy object is spelled anew where it is read. -/
theorem proxyRule_reading (t : ProxyTable) : (proxyRule t).KeepsReading := by
  refine ⟨rfl,rfl,fun n v h hv => early_none h hv,fun ctx n h => ?_⟩
  obtain hkeep | ⟨e,-,he,hput⟩ | ⟨s,-,hput⟩ := proxyRule_cases t ctx n
  · rw [hkeep]
    exact Visit.everyLabel_keep h
  · rw [hput]
    have hargs {c : Node} (hc : c ∈ n.row .arguments) : c.ReadsBack := h.row hc
    obtain ⟨-,⟨o,a,b,hrow,rfl⟩ | ⟨f,args,hrow,rfl⟩⟩ := inlineCall?_cases he
    · exact Visit.everyLabel_replace h
        (readsBack_binary o (hargs (by simp [hrow])) (hargs (by simp [hrow])))
    · exact Visit.everyLabel_replace h
        (readsBack_call (hargs (by simp [hrow])) fun a ha => hargs (by simp [hrow, ha]))
  · rw [hput]
    exact Visit.everyLabel_replace h (readsBack_ofText _)

theorem flatteningRule_reading : flatteningRule.KeepsReading := by
  refine ⟨rfl,rfl,fun n v h hv => early_none h hv,fun ctx n h => ?_⟩
  obtain ⟨hkeep,-⟩ | ⟨ss,-,hss,hgives⟩ := flatteningRule_cases ctx n
  · rw [hkeep]
    exact Visit.everyLabel_keep h
  · rw [hgives]
    refine ⟨h,fun s hs => ?_⟩
    obtain ⟨q,hq⟩ := unflatten?_inside hss s hs
    exact h.at? hq

theorem flattening_readsBack {tree : Node} (h : tree.ReadsBack) : (flattening tree).1.ReadsBack := by
  unfold flattening
  split
  · exact unmark_everyLabel (flatteningRule_reading.runRepeated (number_everyLabel h _)) _
  · exact flatteningRule_reading.run h

theorem splitShorthand_readsBack {n : Node} (h : n.ReadsBack) :
    (Rename.splitShorthand n).ReadsBack := by
  induction n using inductionOn with
  | marked m l cs ih =>
    obtain ⟨l',hsplit,hl'⟩ := Rename.splitShorthand_marked m l cs
    obtain ⟨hl,hcs⟩ := readsBack_marked.mp h
    rw [hsplit]
    refine readsBack_marked.mpr ⟨?_,?_⟩
    · obtain rfl | ⟨method,kind,s,s',rfl,rfl⟩ := hl'
      · exact hl
      · rfl
    · simp only [List.mem_map]
      rintro _ ⟨c,hc,rfl⟩
      exact ih c hc (hcs c hc)

/-- Renaming changes no literal. -/
theorem renameGenerated_readsBack {n : Node} (h : n.ReadsBack) : (renameGenerated n).1.ReadsBack := by
  have hrename (names : List (Path × String)) :
      (Rename.rename names (Rename.splitShorthand n)).ReadsBack := by
    refine relabel_everyLabel (fun p l hl => ?_) (splitShorthand_readsBack h) []
    split
    · rfl
    · rfl
    · exact hl
  unfold renameGenerated
  simp only
  split <;> exact hrename _

/-- The inlining of strings as a pass: nodes are taken out, and strings put in the place of
others. -/
def inlining (removed : List Path) (strings : List (Path × Text)) : Pass := fun tree =>
  let st : Strings.State Unit :=
    { forest := Forest.link { tree := tree, detached := removed }, machine := (), values := strings }
  (st.finish.tree, st.finish.replacements)

theorem inlining_readsBack (removed : List Path) (strings : List (Path × Text)) {tree : Node}
    (h : tree.ReadsBack) : (inlining removed strings tree).1.ReadsBack := by
  refine edit_everyLabel (fun p c hc => ?_) h []
  obtain ⟨v,-,rfl⟩ := Option.map_eq_some_iff.mp hc
  exact readsBack_ofText v.2

/-- The passes that read or spell literals. -/
def literate (pass : Pass) : Prop :=
  pass ∈ [expressions, proxyCalls, deadCode, flattening, access, escapes, renameGenerated] ∨
    ∃ removed strings, pass = inlining removed strings

theorem literate_readsBack {pass : Pass} (hpass : literate pass) {tree : Node}
    (h : tree.ReadsBack) : (pass tree).1.ReadsBack := by
  obtain hpass | ⟨removed,strings,rfl⟩ := hpass
  · simp only [List.mem_cons, List.not_mem_nil, or_false] at hpass
    rcases hpass with rfl | rfl | rfl | rfl | rfl | rfl | rfl
    · exact expressionRule_reading.run h
    · unfold proxyCalls
      split
      · exact h
      · exact (proxyRule_reading _).run h
    · exact deadCodeRule_reading.run h
    · exact flattening_readsBack h
    · exact accessRule_reading.run h
    · exact escapeRule_reading.run h
    · exact renameGenerated_readsBack h
  · exact inlining_readsBack removed strings h

theorem runPasses_readsBack {passes : List Pass} (hp : ∀ pass ∈ passes, literate pass) {tree : Node}
    (h : tree.ReadsBack) : (runPasses passes tree).1.ReadsBack := by
  induction passes generalizing tree with
  | nil => exact h
  | cons pass passes ih =>
    obtain ⟨hpass,hrest⟩ := List.forall_mem_cons.mp hp
    exact ih hrest (literate_readsBack hpass h)

end Simplify
end Unravel
