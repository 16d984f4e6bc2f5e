import Unravel.Proofs.Scope.Marks
import Unravel.Proofs.Scope.Relabel
import Unravel.Proofs.Settling.Shared

/-! Plain spelling of escaped string literals. A control character without a short escape has no plain
spelling: a literal that holds one keeps an escape, and every run respells it as it is. -/

namespace Unravel

namespace Text
open Simplify

/-- A control character without a short escape, which quoting spells by its number. -/
def isNumbered (c : Nat) : Bool := c < 32 && !([8, 9, 10, 12, 13].contains c)

/-- A character that stands for itself is no backslash and not spelled by its number. -/
private theorem escapesFrom_plain {c : Nat} (h : escaped? c = none) (rest : Text) :
    escapesFrom false (c :: rest) = (isNumbered c || escapesFrom false rest) := by
  have hslash : c ≠ 92 := by
    rintro rfl
    cases h
  have hlarge : ¬ c < 32 := by
    intro hc
    unfold escaped? at h
    split at h
    case h_8 => simp [hc] at h
    all_goals cases h
  rw [escapesFrom]
  · simp [isNumbered, hlarge]
  · exact hslash

/-- The escape of a character goes on with `u` if the character is spelled by its number. -/
private theorem escapesFrom_escaped {c : Nat} {e : Text} (h : escaped? c = some e) (rest : Text) :
    escapesFrom false (e ++ rest) = (isNumbered c || escapesFrom false rest) := by
  unfold escaped? at h
  split at h
  case h_8 =>
    split at h
    · obtain rfl := Option.some.inj h
      have hnumbered : isNumbered c = true := by simp_all [isNumbered]
      simp [hnumbered, escapesFrom]
    · cases h
  all_goals
    obtain rfl := Option.some.inj h
    simp [isNumbered, escapesFrom]

/-- A quoted text holds an escape by number just where the text holds such a character. -/
theorem hasEscape_quoted (t : Text) : hasEscape t.quoted = t.any isNumbered := by
  have hbody (t : Text) : escapesFrom false (t.flatMap (fun c => (escaped? c).getD [c]) ++ [34]) =
      t.any isNumbered := by
    induction t with
    | nil => rfl
    | cons c t ih =>
      rw [List.flatMap_cons, List.append_assoc, List.any_cons]
      cases he : escaped? c with
      | none => rw [Option.getD_none, List.singleton_append, escapesFrom_plain he, ih]
      | some e => rw [Option.getD_some, escapesFrom_escaped he, ih]
  exact hbody t

end Text

namespace Node
variable {P : Label → Bool}

/-- How many nodes of a tree have a label of a kind. -/
def countLabels (P : Label → Bool) (n : Node) : Nat :=
  n.fold fun l cs => (cs.map fun c => c.2.2).sum + if P l then 1 else 0

theorem countLabels_marked (m : Option Nat) (l : Label) (cs : List (Field × Node)) :
    (marked m l cs).countLabels P = (cs.map fun c => c.2.countLabels P).sum + if P l then 1 else 0 := by
  rw [countLabels, fold_marked, List.map_map]
  rfl

theorem countLabels_plain (n : Node) : n.plain.countLabels P = n.countLabels P := by
  induction n using inductionOn with
  | marked m l cs ih =>
    rw [plain_marked, mk, countLabels_marked, countLabels_marked, List.map_map]
    congr 2
    exact List.map_congr_left ih

theorem countLabels_relabel (g : Label → Label) (n : Node) (p : Path) :
    (n.relabel (fun _ => g) p).countLabels P = n.countLabels fun l => P (g l) := by
  induction n using inductionOn generalizing p with
  | marked m l cs ih =>
    have hall (i : Nat) : ((cs.zipIdx i).map fun c =>
        (c.1.2.relabel (fun _ => g) (p ++ [c.2])).countLabels P) =
          cs.map fun c => c.2.countLabels fun l => P (g l) := by
      induction cs generalizing i with
      | nil => rfl
      | cons c cs ihs =>
        obtain ⟨ihc,ih⟩ := List.forall_mem_cons.mp ih
        rw [List.zipIdx_cons, List.map_cons, List.map_cons, ihc, ihs ih]
    rw [relabel_marked, countLabels_marked, countLabels_marked, List.map_map]
    exact congrArg (List.sum · + _) (hall 0)

end Node

namespace Simplify
open Node

/-- A string literal whose spelling holds an escape. -/
def isEscaped : Label → Bool
  | .literal (.text _) (some raw) => hasEscape raw
  | _ => false

/-- The label after the pass: an escaped literal is spelled anew. -/
def decoded (l : Label) : Label :=
  match l with
  | .literal (.text t) (some _) => if isEscaped l then .literal (.text t) (some t.quoted) else l
  | _ => l

/-- An escaped literal whose new spelling holds an escape too. -/
def staysEscaped (l : Label) : Bool :=
  match l with
  | .literal (.text t) _ => isEscaped l && t.any Text.isNumbered
  | _ => false

theorem exists_of_isEscaped {l : Label} (h : isEscaped l = true) :
    ∃ t raw, l = .literal (.text t) (some raw) ∧ decoded l = .literal (.text t) (some t.quoted) := by
  unfold isEscaped at h
  split at h
  · rename_i t raw
    exact ⟨t,raw,rfl,if_pos h⟩
  · cases h

theorem decoded_of_plain {l : Label} (h : isEscaped l = false) : decoded l = l := by
  unfold decoded
  split
  · rw [h]
    rfl
  · rfl

/-- What holds an escape after the pass held one before, and is a literal of a numbered character. -/
theorem isEscaped_decoded (l : Label) : isEscaped (decoded l) = staysEscaped l := by
  cases h : isEscaped l with
  | true =>
    obtain ⟨t,raw,rfl,hl⟩ := exists_of_isEscaped h
    rw [hl, staysEscaped, h, Bool.true_and, isEscaped, Text.hasEscape_quoted]
  | false =>
    rw [decoded_of_plain h, h]
    unfold staysEscaped
    split
    · rw [h, Bool.false_and]
    · rfl

theorem decoded_decoded (l : Label) : decoded (decoded l) = decoded l := by
  cases h : isEscaped l with
  | true =>
    obtain ⟨t,raw,-,hl⟩ := exists_of_isEscaped h
    rw [hl, decoded]
    exact ite_self _
  | false => rw [decoded_of_plain h, decoded_of_plain h]

/-- What the rule does to a node. -/
theorem escapeRule_finish (ctx : Context) (n : Node) : escapeRule.finish ctx n =
    ⟨n.update (decoded n.label) n.subtrees,none,if isEscaped n.label then 1 else 0⟩ := by
  obtain ⟨m,l,cs⟩ := n
  cases h : isEscaped l with
  | true =>
    obtain ⟨t,raw,rfl,hl⟩ := exists_of_isEscaped h
    have hraw : hasEscape raw = true := h
    simp only [escapeRule, Node.label, hraw, if_true, hl, h]
    rfl
  | false =>
    simp only [Node.label, decoded_of_plain h, h, escapeRule]
    split
    · rename_i t raw
      have hraw : hasEscape raw = false := h
      simp only [hraw, Bool.false_eq_true, if_false]
      rfl
    · rfl

theorem escapeRule_leavesBe {n : Node} (h : decoded n.label = n.label) : escapeRule.LeavesBe n := by
  refine ⟨rfl,fun ctx => ?_,fun ctx => ?_⟩
  · rw [escapeRule_finish, h, update_self]
  · rw [escapeRule_finish]

theorem escapeRule_settles : escapeRule.Settles where
  context ctx n := by rw [escapeRule_finish, escapeRule_finish]
  plain_early _ := rfl
  plain_finish n := by
    rw [escapeRule_finish, escapeRule_finish, label_plain, Visit.plain, plain_update]
    rfl
  reshapes n := by
    rw [escapeRule_finish]
    exact n.reshaped_update _
  early _ _ h := by cases h
  late _ _ := rfl
  finish n _ := by
    rw [escapeRule_finish]
    exact .stays _ _ _ (escapeRule_leavesBe (decoded_decoded n.label)) fun _ => .inl
  framed n h := by
    apply escapeRule_leavesBe
    rcases h with hl | hl | hl <;> rw [hl] <;> rfl

/-- Where the rule leaves a tree as it is, what it counts are the literals that are still escaped. -/
theorem escapeRule_idle {n : Node} (h : n.EmptyHoles) : escapeRule.idle n = n.countLabels isEscaped := by
  induction n using inductionOn with
  | marked m l cs ih =>
    have hall : escapeRule.idleAll cs = (cs.map fun c => c.2.countLabels isEscaped).sum := by
      have hcs : ∀ c ∈ cs, c.2.EmptyHoles := fun c hc => h.subtree hc
      clear h
      induction cs with
      | nil => rfl
      | cons c cs ihs =>
        obtain ⟨f,n⟩ := c
        obtain ⟨ihn,ih⟩ := List.forall_mem_cons.mp ih
        obtain ⟨hn,hcs⟩ := List.forall_mem_cons.mp hcs
        rw [Rule.idleAll_cons, ihs ih hcs, List.map_cons, List.sum_cons]
        congr 1
        split
        · rename_i hhole
          have hempty := hn [] n rfl hhole
          obtain ⟨m',l',cs'⟩ := n
          obtain rfl : cs' = [] := hempty
          obtain rfl : l' = .hole := of_decide_eq_true hhole
          rfl
        · exact ihn hn
    rw [Rule.idle_marked, countLabels_marked, hall, escapeRule_finish]
    rfl

/-- A visit spells every escaped literal anew and leaves everything else as it is. -/
theorem escapeRule_visit {n : Node} (h : n.EmptyHoles) (ctx : Context) (p : Path) :
    (escapeRule.visit ctx n).kept = n.relabel (fun _ => decoded) p ∧
      (escapeRule.visit ctx n).replaced = none := by
  induction n using inductionOn generalizing ctx p with
  | marked m l cs ih =>
    have hcs : ∀ c ∈ cs, c.2.EmptyHoles := fun c hc => h.subtree hc
    have hall (before : List (Field × Node)) (i : Nat) : (escapeRule.visitAll l before cs).1 =
        (cs.zipIdx i).map fun c => (c.1.1, c.1.2.relabel (fun _ => decoded) (p ++ [c.2])) := by
      clear h
      induction cs generalizing before i with
      | nil => rfl
      | cons c cs ihs =>
        obtain ⟨f,n⟩ := c
        obtain ⟨ihn,ih⟩ := List.forall_mem_cons.mp ih
        obtain ⟨hn,hcs⟩ := List.forall_mem_cons.mp hcs
        rw [Rule.visitAll_cons, List.zipIdx_cons, List.map_cons]
        dsimp only
        rw [ihs ih hcs (before ++ [(f, n)]) (i + 1)]
        split
        · rename_i hhole
          have hempty := hn [] n rfl hhole
          obtain ⟨m',l',cs'⟩ := n
          obtain rfl : cs' = [] := hempty
          obtain rfl : l' = .hole := of_decide_eq_true hhole
          rfl
        · obtain ⟨hkept,hnone⟩ := ihn hn
            ⟨some l,f,(before.filter fun c => c.1 = f).map Prod.snd⟩ (p ++ [i])
          simp only [Visit.result, hkept, hnone, Option.getD_none, Rule.place, List.singleton_append]
    rw [Rule.visit, relabel_marked]
    simp only [escapeRule_finish, hall [] 0]
    exact ⟨rfl,rfl⟩

private theorem emptyHoles_decoded {n : Node} (h : n.EmptyHoles) :
    (n.relabel (fun _ => decoded) []).EmptyHoles := by
  intro q a ha hhole
  rw [at?_relabel] at ha
  obtain ⟨b,hb,rfl⟩ := Option.map_eq_some_iff.mp ha
  have hlabel : decoded b.label = .hole := by
    have hlabel := of_decide_eq_true hhole
    rwa [label_relabel] at hlabel
  have hsame : decoded b.label = b.label := by
    apply decoded_of_plain
    rw [← Bool.not_eq_true]
    intro hescaped
    obtain ⟨t,raw,-,hl⟩ := exists_of_isEscaped hescaped
    rw [hl] at hlabel
    cases hlabel
  rw [subtrees_relabel, h q b hb (decide_eq_true (hsame.symm.trans hlabel))]
  rfl

private theorem labelAt?_plain (n : Node) (q : Path) : n.plain.labelAt? q = n.labelAt? q := by
  rw [labelAt?, labelAt?, at?_plain, Option.map_map]
  simp only [Function.comp_def, label_plain]

/-- A run spells every escaped literal by quoting its value and changes nothing else. The literals that
hold an escape after it are those that held one before and whose value holds a control character without
a short escape. A second run counts these and changes nothing at all. -/
theorem escapes_again {tree : Node} (h : tree.Coherent) (hholes : tree.EmptyHoles) :
    (escapes tree).1.plain = tree.plain.relabel (fun _ => decoded) [] ∧
      (∀ q l, (escapes tree).1.labelAt? q = some l →
        (isEscaped l = true ↔ ∃ old, tree.labelAt? q = some old ∧ staysEscaped old = true)) ∧
        escapes (escapes tree).1 = ((escapes tree).1, tree.countLabels staysEscaped) := by
  have hkeeps := (escapeRule_visit hholes Rule.top []).2
  have hrun : (escapes tree).1.plain = tree.plain.relabel (fun _ => decoded) [] := by
    rw [escapes, (escapeRule_settles.run_plain hholes hkeeps h).2]
    exact (escapeRule_visit hholes.plain Rule.top []).1
  refine ⟨hrun,fun q l hl => ?_,?_⟩
  · rw [← labelAt?_plain, hrun, labelAt?_relabel, labelAt?_plain] at hl
    obtain ⟨old,hold,rfl⟩ := Option.map_eq_some_iff.mp hl
    rw [isEscaped_decoded]
    constructor
    · exact fun hstays => ⟨old,hold,hstays⟩
    · rintro ⟨old',hold',hstays⟩
      rw [hold] at hold'
      rwa [Option.some.inj hold']
  · have hagain := escapeRule_settles.run_again hholes hkeeps h
    have hidle : escapeRule.idle (escapes tree).1 = tree.countLabels staysEscaped := by
      rw [← escapeRule_settles.idle_plain, hrun, escapeRule_idle (emptyHoles_decoded hholes.plain),
        countLabels_relabel, countLabels_plain]
      simp only [isEscaped_decoded]
    rw [← hidle]
    exact hagain

/-- The script `'\x41'; '\x41\x01';`. -/
def controlled : Node :=
  let spelled (value : Text) (raw : String) : Field × Node :=
    (.body, .mk (.expressionStatement none none)
      [(.expression, .mk (.literal (.text value) (some (Text.ofString raw))) [])])
  .mk (.program "script") [spelled [65] "'\\x41'", spelled [65, 1] "'\\x41\\x01'"]

theorem escapes_again_controlled :
    controlled.Coherent ∧ controlled.EmptyHoles ∧
      (escapes controlled).1.labelAt? [0, 0] =
        some (.literal (.text [65]) (some (Text.ofString "\"A\""))) ∧
      (escapes controlled).1.labelAt? [1, 0] =
        some (.literal (.text [65, 1]) (some (Text.ofString "\"A\\u0001\""))) ∧
      (escapes controlled).2 = 2 ∧
        escapes (escapes controlled).1 = ((escapes controlled).1, 1) := by
  have hcoherent : controlled.Coherent := coherent_of_marks (by decide)
  have hholes : controlled.EmptyHoles := EveryLabel.emptyHoles (by decide)
  obtain ⟨-,-,hagain⟩ := escapes_again hcoherent hholes
  exact ⟨hcoherent,hholes,by decide,by decide,by decide,hagain⟩

end Simplify
end Unravel
