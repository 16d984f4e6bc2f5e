import Unravel.Proofs.Simplify.Unflattening
import Unravel.Syntax.Interchange

/-! Places that arrays leave empty. A tree that is read from a record has nothing in them, and no node of it
is shared. -/

namespace Unravel

namespace Node

theorem EmptyHoles.at? {n a : Node} {p : Path} (h : n.EmptyHoles) (ha : n.at? p = some a) :
    a.EmptyHoles := by
  intro q b hb
  apply h (p ++ q) b
  rw [at?_append, ha, Option.bind_some, hb]

theorem EmptyHoles.subtree {n : Node} (h : n.EmptyHoles) {c : Field × Node} (hc : c ∈ n.subtrees) :
    c.2.EmptyHoles := by
  obtain ⟨i,hi⟩ := exists_at?_of_mem hc
  exact h.at? hi

theorem emptyHoles_marked {m : Option Nat} {l : Label} {cs : List (Field × Node)} :
    (marked m l cs).EmptyHoles ↔ (l = .hole → cs = []) ∧ ∀ c ∈ cs, c.2.EmptyHoles := by
  constructor
  · intro h
    exact ⟨fun hl => h [] _ rfl (decide_eq_true hl),fun c hc => h.subtree hc⟩
  · rintro ⟨htop,hcs⟩ q a ha hhole
    cases q with
    | nil =>
      obtain rfl := Option.some.inj ha
      exact htop (of_decide_eq_true hhole)
    | cons i q =>
      obtain ⟨c,hc,ha⟩ := Option.bind_eq_some_iff.mp ha
      exact hcs c (List.mem_of_getElem? hc) q a ha hhole

theorem emptyHoles_plain {n : Node} : n.plain.EmptyHoles ↔ n.EmptyHoles := by
  induction n using inductionOn with
  | marked m l cs ih =>
    rw [plain_marked, mk, emptyHoles_marked, emptyHoles_marked, List.map_eq_nil_iff, List.forall_mem_map]
    exact and_congr_right fun _ => forall₂_congr ih

theorem EmptyHoles.plain {n : Node} (h : n.EmptyHoles) : n.plain.EmptyHoles := emptyHoles_plain.mpr h

/-! ### Trees from records -/

private theorem exists_of_mem_mapM {α β : Type} {f : α → Option β} {as : List α} {bs : List β}
    (h : as.mapM f = some bs) {b : β} (hb : b ∈ bs) : ∃ a, f a = some b := by
  induction as generalizing bs with
  | nil =>
    obtain rfl : [] = bs := by simpa using h
    cases hb
  | cons a as ih =>
    rw [List.mapM_cons] at h
    obtain ⟨c,hc,h⟩ := Option.bind_eq_some_iff.mp h
    obtain ⟨cs,hcs,h⟩ := Option.bind_eq_some_iff.mp h
    obtain rfl : c :: cs = bs := by simpa using h
    rcases List.mem_cons.mp hb with rfl | hb
    · exact ⟨a,hc⟩
    · exact ih hcs hb

/-- A tree that is put together from records. No node of it is shared, and each has what its record
gives for the slots of its kind. -/
inductive Received : Node → Prop
  | node {fuel : Nat} {j : Json} {l : Label} {cs : List (Field × Node)}
      (hcs : slots? fuel j l.slots = some cs) (h : ∀ c ∈ cs, c.2.Received) : Received (.mk l cs)

private theorem received (fuel : Nat) :
    (∀ j n, ofJson? fuel j = some n → n.Received) ∧
      ∀ j slots cs, slots? fuel j slots = some cs → ∀ c ∈ cs, c.2.Received := by
  induction fuel with
  | zero => exact ⟨nofun,nofun⟩
  | succ fuel ih =>
    obtain ⟨hnode,hslots⟩ := ih
    constructor
    · intro j n h
      unfold ofJson? at h
      split at h
      · obtain rfl := Option.some.inj h
        exact .node (show slots? 1 .null Label.hole.slots = some [] from rfl) (by simp)
      · obtain ⟨l,-,h⟩ := Option.bind_eq_some_iff.mp h
        obtain ⟨cs,hcs,h⟩ := Option.bind_eq_some_iff.mp h
        obtain rfl := Option.some.inj h
        exact .node hcs (hslots _ _ _ hcs)
    · intro j slots cs h
      unfold slots? at h
      split at h
      · obtain rfl := Option.some.inj h
        simp
      · obtain ⟨more,hmore,h⟩ := Option.bind_eq_some_iff.mp h
        have hrest := hslots _ _ _ hmore
        split at h
        · obtain rfl := Option.some.inj h
          exact hrest
        · obtain rfl := Option.some.inj h
          exact hrest
        · obtain ⟨c,hc,h⟩ := Option.bind_eq_some_iff.mp h
          obtain rfl := Option.some.inj h
          exact List.forall_mem_cons.mpr ⟨hnode _ _ hc,hrest⟩
      · obtain ⟨more,hmore,h⟩ := Option.bind_eq_some_iff.mp h
        have hrest := hslots _ _ _ hmore
        split at h
        · obtain ⟨row,hrow,h⟩ := Option.bind_eq_some_iff.mp h
          obtain rfl := Option.some.inj h
          refine List.forall_mem_append.mpr ⟨List.forall_mem_map.mpr fun n hn => ?_,hrest⟩
          obtain ⟨item,hitem⟩ := exists_of_mem_mapM hrow hn
          exact hnode _ _ hitem
        · obtain rfl := Option.some.inj h
          exact hrest

theorem received_ofJson? {fuel : Nat} {j : Json} {n : Node} (h : ofJson? fuel j = some n) :
    n.Received := (received fuel).1 j n h

/-- A kind without slots is a leaf. -/
theorem slots?_nil {fuel : Nat} {j : Json} {cs : List (Field × Node)}
    (h : slots? fuel j [] = some cs) : cs = [] := by
  cases fuel with
  | zero => cases h
  | succ fuel => exact (Option.some.inj h).symm

theorem Received.marks {n : Node} (h : n.Received) : n.marks = [] := by
  induction h with
  | node _ _ ih => exact marks_eq_nil.mpr ⟨rfl,ih⟩

theorem Received.emptyHoles {n : Node} (h : n.Received) : n.EmptyHoles := by
  induction h with
  | @node _ _ l _ hcs _ ih =>
    refine emptyHoles_marked.mpr ⟨fun hhole => ?_,ih⟩
    rw [hhole] at hcs
    exact slots?_nil hcs

/-- In a tree that is read from a record no node is shared, and holes are empty. -/
theorem ofJson?_received {fuel : Nat} {j : Json} {n : Node} (h : ofJson? fuel j = some n) :
    n.marks = [] ∧ n.EmptyHoles := ⟨(received_ofJson? h).marks,(received_ofJson? h).emptyHoles⟩

end Node
end Unravel
