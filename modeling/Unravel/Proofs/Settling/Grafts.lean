import Unravel.Proofs.Settling.Shared
import Unravel.Proofs.Simplify.Termination

/-! Trees with another node at a place. Where visits put the same in the place of two nodes, a run comes to
the same tree whichever of the two it starts with. -/

namespace Unravel

namespace Node

/-- A tree with another node at a place. -/
def graft : Node → Path → Node → Node
  | _, [], c => c
  | .marked m l cs, i :: q, c => .marked m l (cs.modify i fun d => (d.1, d.2.graft q c))

/-- One tree is another with a node put in the place of another. -/
inductive Swaps (old new : Node) : Node → Node → Prop
  | here : Swaps old new old new
  | inside (m : Option Nat) (l : Label) (before : List (Field × Node)) (f : Field) (c c' : Node)
    (after : List (Field × Node)) (h : Swaps old new c c') :
    Swaps old new (.marked m l (before ++ (f, c) :: after)) (.marked m l (before ++ (f, c') :: after))

theorem graft_append {n a : Node} {q : Path} (h : n.at? q = some a) (p : Path) (c : Node) :
    n.graft (q ++ p) c = n.graft q (a.graft p c) := by
  induction q generalizing n with
  | nil =>
    obtain rfl := Option.some.inj h
    rfl
  | cons i q ih =>
    obtain ⟨m,l,cs⟩ := n
    obtain ⟨d,hd,h⟩ := Option.bind_eq_some_iff.mp h
    obtain ⟨hi,rfl⟩ : ∃ hi : i < cs.length, cs[i] = d := List.getElem?_eq_some_iff.mp hd
    rw [List.cons_append, graft, graft, List.modify_eq_take_cons_drop hi, List.modify_eq_take_cons_drop hi,
      ih h]

theorem swaps_graft {n old : Node} {q : Path} (h : n.at? q = some old) (new : Node) :
    Swaps old new n (n.graft q new) := by
  induction q generalizing n with
  | nil =>
    obtain rfl := Option.some.inj h
    exact .here
  | cons i q ih =>
    obtain ⟨m,l,cs⟩ := n
    obtain ⟨c,hc,h⟩ := Option.bind_eq_some_iff.mp h
    obtain ⟨hi,rfl⟩ : ∃ hi : i < cs.length, cs[i] = c := List.getElem?_eq_some_iff.mp hc
    have hsplit : cs.take i ++ cs[i] :: cs.drop (i + 1) = cs := by
      rw [← List.drop_eq_getElem_cons hi, List.take_append_drop]
    have hinside := Swaps.inside m l (cs.take i) cs[i].1 cs[i].2 _ (cs.drop (i + 1)) (ih h)
    rw [hsplit] at hinside
    rwa [graft, List.modify_eq_take_cons_drop hi]

namespace Swaps
variable {old new t t' : Node} (h : Swaps old new t t')
include h

/-- What looks at labels only and does not tell the two nodes apart does not tell the trees apart. -/
theorem of_label {α : Type} (read : Label → α) (hread : read new.label = read old.label) :
    read t'.label = read t.label := by
  cases h with
  | here => exact hread
  | inside => rfl

theorem marks (hnew : new.marks = []) (ht : t.marks = []) : t'.marks = [] := by
  induction h with
  | here => exact hnew
  | inside m l before f c c' after h ih =>
    obtain ⟨rfl,hcs⟩ := marks_eq_nil.mp ht
    rw [List.forall_mem_append, List.forall_mem_cons] at hcs
    obtain ⟨hbefore,hc,hafter⟩ := hcs
    refine marks_eq_nil.mpr ⟨rfl,?_⟩
    rw [List.forall_mem_append, List.forall_mem_cons]
    exact ⟨hbefore,ih hc,hafter⟩

theorem isProgram (hold : ¬old.IsProgram) (ht : t.IsProgram) : t'.IsProgram := by
  cases h with
  | here => exact absurd ht hold
  | inside => exact ht

/-- What holds nothing is not looked into. -/
theorem isHole (hold : old.isHole = false) (hholes : t.EmptyHoles) : t.isHole = false := by
  cases h with
  | here => exact hold
  | inside m l before f c c' after _ =>
    rw [← Bool.not_eq_true]
    intro hhole
    have hempty := hholes [] _ rfl hhole
    simp [subtrees] at hempty

end Swaps

end Node

theorem Visit.result_plain (v : Visit) : v.plain.result = v.result.plain := by
  simp only [Visit.result, Visit.plain]
  cases v.replaced <;> rfl

namespace Rule
variable {r : Rule} {old new : Node}

/-- Two nodes in whose place a visit puts the same. What a rule settles around them before it comes to them
it settles alike. -/
structure Alike (r : Rule) (old new : Node) : Prop where
  result : ∀ ctx, (r.visit ctx new).result = (r.visit ctx old).result
  hole : old.isHole = false ∧ new.isHole = false
  statement : new.isStatement = old.isStatement
  early : ∀ t t', Node.Swaps old new t t' → (r.early t').map Visit.replaced = (r.early t).map Visit.replaced

variable (hr : r.Settles) (h : r.Alike old new)
include hr h

private theorem visitAll_swaps {l : Label} (start before after : List (Field × Node)) (f : Field) {c c' : Node}
    (hswap : Node.Swaps old new c c') (hhole : c.isHole = false)
    (hc : ∀ ctx, (r.visit ctx c').result = (r.visit ctx c).result) :
    (r.visitAll l start (before ++ (f, c') :: after)).1 =
      (r.visitAll l start (before ++ (f, c) :: after)).1 := by
  induction before generalizing start with
  | nil =>
    have hhole' : c'.isHole = false :=
      (hswap.of_label (fun l => decide (l = .hole)) (h.hole.2.trans h.hole.1.symm)).trans hhole
    have hstatement : c'.isStatement = c.isStatement :=
      hswap.of_label Label.isStatement h.statement
    have hplace (rep : Replacement) : place l f c' rep = place l f c rep := by
      simp only [place, hstatement]
    rw [List.nil_append, List.nil_append, visitAll_cons, visitAll_cons]
    simp only [hhole, hhole', hc, hplace, hr.visitAll_before l (start ++ [(f, c')]) (start ++ [(f, c)]),
      Bool.false_eq_true, if_false]
  | cons b before ih =>
    obtain ⟨g,n⟩ := b
    rw [List.cons_append, List.cons_append, visitAll_cons, visitAll_cons]
    exact congrArg (_ ++ ·) (ih _)

/-- A visit comes to the same whether it starts with the one node or with the other. -/
theorem Alike.visit {t t' : Node} (hswap : Node.Swaps old new t t') (hholes : t.EmptyHoles) (ctx : Context) :
    (r.visit ctx t').result = (r.visit ctx t).result := by
  induction hswap generalizing ctx with
  | here => exact h.result ctx
  | inside m l before f c c' after hswap ih =>
    have hinside : c.EmptyHoles := hholes.subtree (c := (f, c)) (by simp [Node.subtrees])
    have hearly := h.early _ _ (.inside m l before f c c' after hswap)
    rw [Rule.visit, Rule.visit]
    cases he : r.early (.marked m l (before ++ (f, c) :: after)) with
    | some v =>
      rw [he] at hearly
      obtain ⟨v',he',hreplaced⟩ := Option.map_eq_some_iff.mp hearly
      obtain ⟨-,d,hd,-⟩ := hr.early _ _ he
      rw [he']
      simp only [Visit.result, hreplaced, hd, Option.getD_some]
    | none =>
      rw [he] at hearly
      rw [Option.map_eq_none_iff.mp hearly]
      simp only [visitAll_swaps hr h [] before after f hswap (hswap.isHole h.hole.1 hinside)
        (ih hinside), Visit.result]

/-- A run over a program comes to the same with the one node at a place as with the other. -/
theorem Alike.run {tree : Node} (hkeeps : r.KeepsPrograms) (hprogram : tree.IsProgram) (hcoherent : tree.Coherent)
    (hholes : tree.EmptyHoles) {q : Path} (hold : tree.plain.at? q = some old) (hnot : ¬old.IsProgram)
    (hnew : new.marks = []) :
    (r.run tree).1.plain = (r.run (tree.plain.graft q new)).1 := by
  have hplain : tree.plain.IsProgram := by
    obtain ⟨sourceType,hl⟩ := hprogram
    exact ⟨sourceType,by rw [Node.label_plain, hl]⟩
  have hswap := Node.swaps_graft hold new
  have hgraft := hswap.isProgram hnot hplain
  have hunmarked : ¬(tree.plain.graft q new).hasMarks = true := by
    rw [Bool.not_eq_true]
    exact Node.hasMarks_eq_false.mpr (hswap.marks hnew tree.marks_plain)
  have hresult := h.visit hr hswap hholes.plain top
  rw [Visit.result, Visit.result, (hkeeps.visit hplain top).1, (hkeeps.visit hgraft top).1] at hresult
  have hrun := (hr.run_plain hholes (hkeeps.visit hprogram top).1 hcoherent).2
  rw [hrun, Rule.run, if_neg hunmarked]
  exact (Replacement.node.inj hresult).symm

end Rule

end Unravel
