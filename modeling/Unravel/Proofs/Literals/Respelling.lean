import Unravel.Proofs.Literals.Agreement
import Unravel.Proofs.Strings.Survivors

/-! Respelling of string literals: it changes how they are written and nothing else. The places of a
mark hold one node, which may be respelled at one of them and is then met so at the others. -/

namespace Unravel

/-- A label without the spelling of a string literal. -/
def Label.unspelled : Label → Label
  | .literal (.text t) _ => .literal (.text t) none
  | l => l

namespace Node

/-- A tree without the spellings of its string literals, and without marks. -/
def unspelled (n : Node) : Node :=
  n.fold fun l cs => .mk l.unspelled (cs.map fun c => (c.1, c.2.2))

theorem unspelled_marked (m : Option Nat) (l : Label) (cs : List (Field × Node)) :
    (marked m l cs).unspelled = .mk l.unspelled (cs.map fun c => (c.1, c.2.unspelled)) := by
  rw [unspelled, fold_marked, List.map_map]
  rfl

/-- Marks stand for shared nodes: the places of a mark hold one node, and everything inside it is
marked too. -/
structure Coherent (n : Node) : Prop where
  same : ∀ p q a b, n.at? p = some a → n.at? q = some b → a.mark?.isSome → a.mark? = b.mark? → a = b
  inside : ∀ p a, n.at? p = some a → a.mark?.isSome → ∀ c ∈ a.subtrees, c.2.mark?.isSome

theorem mark?_of_marks {n a : Node} {p : Path} (h : n.marks = []) (hp : n.at? p = some a) :
    a.mark? = none := by
  induction p generalizing n with
  | nil =>
    obtain rfl := Option.some.inj hp
    obtain ⟨m,l,cs⟩ := n
    exact (marks_eq_nil.mp h).1
  | cons i p ih =>
    obtain ⟨m,l,cs⟩ := n
    obtain ⟨c,hc,hp⟩ := Option.bind_eq_some_iff.mp hp
    exact ih (marks_of_mem_subtrees h (List.mem_of_getElem? hc)) hp

theorem coherent_of_marks {n : Node} (h : n.marks = []) : n.Coherent := by
  constructor
  · intro p q a b ha _ hm _
    rw [mark?_of_marks h ha] at hm
    cases hm
  · intro p a ha hm
    rw [mark?_of_marks h ha] at hm
    cases hm

/-- The marks of a tree stand for given contents, and everything inside a marked node is marked. -/
def Shows (table : Nat → Option Node) (n : Node) : Prop :=
  ∀ q a k, n.at? q = some a → a.mark? = some k →
    table k = some a.unspelled ∧ ∀ c ∈ a.subtrees, c.2.mark?.isSome

variable {table : Nat → Option Node}

theorem shows_marked {m : Option Nat} {l : Label} {cs : List (Field × Node)} :
    (marked m l cs).Shows table ↔
      (∀ k, m = some k → table k = some (marked m l cs).unspelled ∧ ∀ c ∈ cs, c.2.mark?.isSome) ∧
        ∀ c ∈ cs, c.2.Shows table := by
  constructor
  · intro h
    refine ⟨fun k hk => h [] _ k rfl hk,fun c hc q a k ha hk => ?_⟩
    obtain ⟨i,hi⟩ := List.mem_iff_getElem?.mp hc
    refine h (i :: q) a k ?_ hk
    rw [at?_cons, hi]
    exact ha
  · rintro ⟨htop,hcs⟩ q a k ha hk
    cases q with
    | nil =>
      obtain rfl := Option.some.inj ha
      exact htop k hk
    | cons i q =>
      obtain ⟨c,hc,ha⟩ := Option.bind_eq_some_iff.mp ha
      exact hcs c (List.mem_of_getElem? hc) q a k ha hk

/-- In a coherent tree each mark stands for the node at its places. -/
theorem Coherent.exists_table {n : Node} (h : n.Coherent) : ∃ table : Nat → Option Node,
    ∀ q a k, n.at? q = some a → a.mark? = some k → table k = some a := by
  refine ⟨fun k => ((n.located []).find? fun e => e.2.mark? = some k).map Prod.snd,?_⟩
  intro q a k ha hk
  cases hfind : (n.located []).find? fun e => e.2.mark? = some k with
  | none =>
    have hnot := List.find?_eq_none.mp hfind (q, a) (mem_located.mpr ⟨q,by simp,ha⟩)
    exact absurd hk (by simpa using hnot)
  | some e =>
    obtain ⟨p,-,hp⟩ := mem_located.mp (List.mem_of_find?_eq_some hfind)
    have he : e.2.mark? = some k := by simpa using List.find?_some hfind
    have hsome : a.mark?.isSome := by rw [hk]; rfl
    simp only [hfind, Option.map_some, h.same q p a e.2 ha hp hsome (hk.trans he.symm)]

theorem Coherent.exists_shows {n : Node} (h : n.Coherent) : ∃ table, n.Shows table := by
  obtain ⟨table,htable⟩ := h.exists_table
  refine ⟨fun k => (table k).map unspelled,fun q a k ha hk => ⟨?_,h.inside q a ha (by rw [hk]; rfl)⟩⟩
  exact congrArg (Option.map unspelled) (htable q a k ha hk)

/-- Everything inside a marked node is marked. -/
theorem Shows.allMarked {n : Node} (h : n.Shows table) (hm : n.mark?.isSome) : n.AllMarked := by
  induction n using inductionOn with
  | marked m l cs ih =>
    obtain ⟨k,rfl⟩ := Option.isSome_iff_exists.mp hm
    obtain ⟨htop,hcs⟩ := shows_marked.mp h
    have hmarked := (htop k rfl).2
    exact allMarked_marked.mpr ⟨rfl,fun c hc => ih c hc (hcs c hc) (hmarked c hc)⟩

/-- The same node, maybe with other spellings inside. -/
structure Respelled (table : Nat → Option Node) (n n' : Node) : Prop where
  mark : n'.mark? = n.mark?
  content : n'.unspelled = n.unspelled
  shows : n'.Shows table

theorem Respelled.refl {n : Node} (h : n.Shows table) : n.Respelled table n := ⟨rfl,rfl,h⟩

theorem Respelled.trans {n n' n'' : Node} (h : n.Respelled table n') (h' : n'.Respelled table n'') :
    n.Respelled table n'' := ⟨h'.mark.trans h.mark,h'.content.trans h.content,h'.shows⟩

/-- Subtrees in the same slots, maybe with other spellings inside. -/
def RespelledAll (table : Nat → Option Node) : List (Field × Node) → List (Field × Node) → Prop :=
  List.Forall₂ fun c d => d.1 = c.1 ∧ c.2.Respelled table d.2

/-- A node is respelled by respelling its subtrees and its own label. -/
theorem RespelledAll.node {m : Option Nat} {l l' : Label} {cs ds : List (Field × Node)}
    (h : RespelledAll table cs ds) (hl : l'.unspelled = l.unspelled)
    (hn : (marked m l cs).Shows table) : (marked m l cs).Respelled table (marked m l' ds) := by
  obtain ⟨htop,-⟩ := shows_marked.mp hn
  have hcontents : ds.map (fun c => (c.1, c.2.unspelled)) = cs.map fun c => (c.1, c.2.unspelled) := by
    clear htop hn
    induction h with
    | nil => rfl
    | cons hc _ ih => rw [List.map_cons, List.map_cons, ih, hc.1, hc.2.content]
  have hcontent : (marked m l' ds).unspelled = (marked m l cs).unspelled := by
    rw [unspelled_marked, unspelled_marked, hl, hcontents]
  have hds : ∀ d ∈ ds, ∃ c ∈ cs, c.2.Respelled table d.2 := by
    clear htop hn hcontents hcontent
    induction h with
    | nil => simp
    | cons hc _ ih =>
      refine List.forall_mem_cons.mpr ⟨⟨_,by simp,hc.2⟩,fun d hd => ?_⟩
      obtain ⟨c,hmem,hc⟩ := ih d hd
      exact ⟨c,List.mem_cons_of_mem _ hmem,hc⟩
  refine ⟨rfl,hcontent,shows_marked.mpr ⟨fun k hk => ?_,fun d hd => ?_⟩⟩
  · obtain ⟨htable,hmarked⟩ := htop k hk
    refine ⟨by rw [hcontent, htable],fun d hd => ?_⟩
    obtain ⟨c,hc,hcd⟩ := hds d hd
    rw [hcd.mark]
    exact hmarked c hc
  · obtain ⟨c,-,hcd⟩ := hds d hd
    exact hcd.shows

end Node

namespace Repeats
variable {table : Nat → Option Node} {s : Repeats} {n : Node}

/-- Every node held for a mark has this mark, and the marks inside it stand for given contents. -/
def Shows (table : Nat → Option Node) (s : Repeats) : Prop :=
  ∀ k n, s.current.getD k none = some n → n.mark? = some k ∧ n.Shows table

theorem Shows.latest (hs : s.Shows table) (hn : n.Shows table) : n.Respelled table (s.latest n) := by
  unfold Repeats.latest
  split
  · exact .refl hn
  · rename_i k hk
    cases hc : s.current.getD k none with
    | none => exact .refl hn
    | some c =>
      obtain ⟨hmark,hshows⟩ := hs k c hc
      have htable := (hn [] n k rfl hk).1.symm.trans (hshows [] c k rfl hmark).1
      exact ⟨hmark.trans hk.symm,(Option.some.inj htable).symm,hshows⟩

/-- The subtrees of a marked node are marked already. -/
theorem claim_eq (h : n.Shows table) : s.claim n n.subtrees = (n.subtrees, s) := by
  refine claim_eq_self fun hm => ?_
  have hall := h.allMarked hm
  obtain ⟨m,l,cs⟩ := n
  exact (Node.allMarked_marked.mp hall).2

theorem Shows.note (hs : s.Shows table) (hn : n.Shows table) :
    (s.note n).1 = n ∧ (s.note n).2.Shows table := by
  unfold Repeats.note
  split
  · exact ⟨rfl,hs⟩
  · rename_i k hk
    rw [claim_eq hn]
    simp only [Node.update_self, true_and]
    intro j c hc
    obtain ⟨hv,rfl⟩ | hold := getD_set! s.current j k (some n)
    · obtain rfl := Option.some.inj (hv.symm.trans hc)
      exact ⟨hk,hn⟩
    · exact hs j c (hold ▸ hc)

theorem Shows.refresh (hs : s.Shows table) (fuel : Nat) (hn : n.Shows table) :
    n.Respelled table (s.refresh fuel n) := by
  induction fuel generalizing n with
  | zero => simpa [Repeats.refresh] using Node.Respelled.refl hn
  | succ fuel ih =>
    have hlatest := hs.latest hn
    refine hlatest.trans ?_
    rw [Repeats.refresh]
    generalize s.latest n = n at hlatest
    obtain ⟨m,l,cs⟩ := n
    refine Node.RespelledAll.node ?_ rfl hlatest.shows
    have hcs := (Node.shows_marked.mp hlatest.shows).2
    simp only [refreshAll, Node.RespelledAll, List.forall₂_map_right_iff, Node.subtrees]
    exact List.forall₂_same.mpr fun c hc => ⟨rfl,ih (hcs c hc)⟩

end Repeats

namespace Rule

/-- A rule that changes the spelling of a literal at most. -/
structure Respells (r : Rule) : Prop where
  early : ∀ n, r.early n = none
  finish : ∀ ctx n, ∃ l k, l.unspelled = n.label.unspelled ∧
    r.finish ctx n = ⟨n.update l n.subtrees,none,k⟩

namespace Respells
variable {table : Nat → Option Node} {r : Rule}

private theorem visitAllRepeated {fuel : Nat} {l : Label}
    (hvisit : ∀ ctx (n : Node) (s : Repeats), s.Shows table → n.Shows table →
      (r.visitRepeated fuel ctx n s).1.replaced = none ∧
        n.Respelled table (r.visitRepeated fuel ctx n s).1.kept ∧
          (r.visitRepeated fuel ctx n s).2.Shows table)
    (before : List (Field × Node)) {cs : List (Field × Node)} {s : Repeats} (hs : s.Shows table)
    (hcs : ∀ c ∈ cs, c.2.Shows table) :
    Node.RespelledAll table cs (r.visitAllRepeated fuel l before cs s).1.1 ∧
      (r.visitAllRepeated fuel l before cs s).2.Shows table := by
  induction cs generalizing before s with
  | nil =>
    rw [visitAllRepeated_nil]
    exact ⟨.nil,hs⟩
  | cons c cs ih =>
    obtain ⟨f,n⟩ := c
    obtain ⟨hn,hcs⟩ := List.forall_mem_cons.mp hcs
    cases hhole : n.isHole
    case true =>
      rw [visitAllRepeated_hole _ _ _ _ _ hhole]
      obtain ⟨hmore,hs'⟩ := ih (before ++ [(f, n)]) hs hcs
      exact ⟨.cons ⟨rfl,.refl hn⟩ hmore,hs'⟩
    case false =>
      rw [visitAllRepeated_node _ _ _ _ _ hhole]
      obtain ⟨hnone,hv,hs'⟩ := hvisit ⟨some l,f,membersBefore before f n⟩ n s hs hn
      obtain ⟨hmore,hs''⟩ := ih (before ++ [(f, n)]) hs' hcs
      simp only [Visit.result, hnone, Option.getD_none, place]
      exact ⟨.cons ⟨rfl,hv⟩ hmore,hs''⟩

variable (hr : r.Respells)
include hr

theorem visitRepeated (fuel : Nat) (ctx : Context) (n : Node) (s : Repeats) (hs : s.Shows table)
    (hn : n.Shows table) :
    (r.visitRepeated fuel ctx n s).1.replaced = none ∧
      n.Respelled table (r.visitRepeated fuel ctx n s).1.kept ∧
        (r.visitRepeated fuel ctx n s).2.Shows table := by
  induction fuel generalizing ctx n s with
  | zero =>
    rw [visitRepeated_zero]
    exact ⟨rfl,.refl hn,hs⟩
  | succ fuel ih =>
    have hlatest := hs.latest hn
    rw [visitRepeated_finish (hr.early _)]
    generalize s.latest n = n' at hlatest
    obtain ⟨m,l,cs⟩ := n'
    obtain ⟨-,hcs⟩ := Node.shows_marked.mp hlatest.shows
    obtain ⟨hdone,hs₁⟩ := visitAllRepeated (l := l) ih [] hs hcs
    simp only [Node.label, Node.subtrees]
    generalize r.visitAllRepeated fuel l [] cs s = visited at hs₁ hdone
    -- The visited node keeps its marks, so nothing in it is numbered.
    have hvisited := hdone.node (m := m) rfl hlatest.shows
    have hclaim : visited.2.claim (.marked m l cs) visited.1.1 = (visited.1.1, visited.2) :=
      Repeats.claim_eq hvisited.shows
    obtain ⟨l',k,hl',hfinish⟩ := hr.finish ctx (.marked m l visited.1.1)
    have hkept := hdone.node (m := m) hl' hlatest.shows
    obtain ⟨hnoted,hs₂⟩ := hs₁.note hkept.shows
    rw [hclaim]
    simp only [Node.update, Node.mark?] at hfinish ⊢
    rw [hfinish]
    simp only [Node.subtrees, hnoted, true_and]
    exact ⟨hlatest.trans hkept,hs₂⟩

private theorem visit (n : Node) (ctx : Context) :
    (r.visit ctx n).replaced = none ∧ (r.visit ctx n).kept.unspelled = n.unspelled := by
  induction n using Node.inductionOn generalizing ctx with
  | marked m l cs ih =>
    have hall (before : List (Field × Node)) :
        (r.visitAll l before cs).1.map (fun c => (c.1, c.2.unspelled)) =
          cs.map fun c => (c.1, c.2.unspelled) := by
      induction cs generalizing before with
      | nil => rfl
      | cons c cs ihcs =>
        obtain ⟨f,n⟩ := c
        obtain ⟨hn,hcs⟩ := List.forall_mem_cons.mp ih
        obtain ⟨hnone,hv⟩ := hn ⟨some l,f,(before.filter fun c => c.1 = f).map Prod.snd⟩
        rw [visitAll_cons]
        simp only [List.map_append, ihcs hcs, List.map_cons]
        split
        · rfl
        · simp [Visit.result, hnone, place, hv]
    rw [Rule.visit, hr.early]
    obtain ⟨l',k,hl',hfinish⟩ := hr.finish ctx (.marked m l (r.visitAll l [] cs).1)
    simp only [hfinish, Node.update, Node.mark?, Node.subtrees, Node.unspelled_marked, hall, true_and]
    rw [hl']
    rfl

/-- A run of the rule changes spellings only. -/
theorem run {tree : Node} (h : tree.Coherent) : (r.run tree).1.unspelled = tree.unspelled := by
  unfold Rule.run
  split
  · obtain ⟨table,hshows⟩ := h.exists_shows
    have hs : (Repeats.ofTree tree).Shows table := by
      intro k n hk
      rw [Repeats.getD_ofTree] at hk
      cases hk
    obtain ⟨-,hv,hs'⟩ := hr.visitRepeated (2 * tree.size + 2) top tree _ hs hshows
    exact (hv.trans (hs'.refresh _ hv.shows)).content
  · exact (hr.visit tree top).2

end Respells
end Rule

namespace Simplify

theorem escapeRule_respells : escapeRule.Respells := by
  refine ⟨fun _ => rfl,fun ctx n => ?_⟩
  obtain h | ⟨t,raw,hl,-,h⟩ := escapeRule_cases ctx n
  · exact ⟨n.label,0,rfl,by rw [h, Node.update_self]; rfl⟩
  · exact ⟨.literal (.text t) (some t.quoted),1,by rw [hl]; rfl,h⟩

/-- String literals stay readable. A quoted text is read back as it was; every sequence of passes
leads from a tree whose literals are read as their values to another one; and respelling escapes
changes no value, nor anything else but spellings. -/
theorem literals_readBack :
    (∀ t : Text, t.quoted.readLiteral = some t) ∧
      (∀ tree : Node, tree.ReadsBack → ∀ passes : List Pass, (∀ pass ∈ passes, literate pass) →
        (runPasses passes tree).1.ReadsBack) ∧
      ∀ tree : Node, tree.Coherent → (escapes tree).1.unspelled = tree.unspelled :=
  ⟨Text.readLiteral_quoted,fun _ h _ hp => runPasses_readsBack hp h,
    fun _ h => escapeRule_respells.run h⟩

/-- Two strings that are joined, one with an escape, and a call that a string takes the place of. -/
def escapedJoin : Node :=
  .mk (.program "script") [(.body, .mk (.expressionStatement none none) [(.expression,
    .mk .sequenceExpression [
      (.expressions, .binary "+"
        (.mk (.literal (.text (Text.ofString "a\n")) (some (Text.ofString "'\\x61\\n'"))) [])
        (.ofText (Text.ofString "\""))),
      (.expressions, .call (.identifier "decode") [])])])]

theorem literals_readBack_escapedJoin :
    escapedJoin.ReadsBack ∧ escapedJoin.Coherent ∧
      (runPasses [escapes, expressions, inlining [] [([0, 0, 1], [0xD83D])], flattening]
        escapedJoin).1.ReadsBack ∧
      (escapes escapedJoin).1.unspelled = escapedJoin.unspelled := by
  have hread : escapedJoin.ReadsBack := by decide
  have hcoherent : escapedJoin.Coherent := Node.coherent_of_marks (by decide)
  refine ⟨hread,hcoherent,literals_readBack.2.1 _ hread _ ?_,literals_readBack.2.2 _ hcoherent⟩
  have hinline : literate (inlining [] [([0, 0, 1], [0xD83D])]) := .inr ⟨_,_,rfl⟩
  simpa [hinline] using ⟨.inl (by simp),.inl (by simp),.inl (by simp)⟩

end Simplify
end Unravel
