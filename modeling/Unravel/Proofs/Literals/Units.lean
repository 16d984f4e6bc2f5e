import Mathlib.Data.List.Chain
import Unravel.Text

/-! Texts and their code units. A text in which no surrogate pair is spelled by its two halves can be read
back from its units, so two such texts with the same units are the same. -/

namespace Unravel.Text

/-- A surrogate that starts a pair. -/
def isHigh (c : Nat) : Bool := 0xD800 ≤ c && c < 0xDC00

/-- A surrogate that ends a pair. -/
def isLow (c : Nat) : Bool := 0xDC00 ≤ c && c < 0xE000

/-- Code points of which no two neighbours make a surrogate pair. -/
structure Joined (t : Text) : Prop where
  points : ∀ c ∈ t, c < 0x110000
  apart : t.IsChain fun c d => ¬(isHigh c = true ∧ isLow d = true)

theorem ofUnits_pair {u v : Nat} (rest : List Nat) (hu : isHigh u = true) (hv : isLow v = true) :
    ofUnits (u :: v :: rest) = (0x10000 + (u - 0xD800) * 0x400 + (v - 0xDC00)) :: ofUnits rest := by
  simp only [isHigh, isLow, Bool.and_eq_true] at hu hv
  simp [ofUnits, hu, hv]

theorem ofUnits_apart {u v : Nat} (rest : List Nat) (h : ¬(isHigh u = true ∧ isLow v = true)) :
    ofUnits (u :: v :: rest) = u :: ofUnits (v :: rest) := by
  rw [ofUnits, if_neg]
  simpa [isHigh, isLow, and_assoc] using h

/-- The first unit of a code point ends a pair only if it is the code point. -/
theorem exists_unitsOf {c : Nat} (h : c < 0x110000) :
    ∃ u rest, unitsOf c = u :: rest ∧ (isLow u = true → u = c) := by
  unfold unitsOf
  split
  · exact ⟨c,[],rfl,fun _ => rfl⟩
  · refine ⟨_,_,rfl,fun hlow => ?_⟩
    simp only [isLow, Bool.and_eq_true, decide_eq_true_eq] at hlow
    omega

theorem ofUnits_units {t : Text} (h : Joined t) : ofUnits (units t) = t := by
  induction t with
  | nil => rfl
  | cons c t ih =>
    have ih := ih ⟨fun d hd => h.points d (List.mem_cons_of_mem c hd),h.apart.tail⟩
    have hc := h.points c List.mem_cons_self
    rw [units, List.flatMap_cons, unitsOf]
    split
    · cases t with
      | nil => rfl
      | cons d t =>
        obtain ⟨u,rest,hu,hlow⟩ := exists_unitsOf (h.points d (by simp))
        have hunits : units (d :: t) = u :: (rest ++ units t) := by
          rw [units, List.flatMap_cons, hu]
          rfl
        have hnot : ¬(isHigh c = true ∧ isLow u = true) := by
          rintro ⟨hhigh,hsecond⟩
          obtain rfl := hlow hsecond
          exact h.apart.rel ⟨hhigh,hsecond⟩
        rw [hunits] at ih
        rw [← units, hunits, List.singleton_append, ofUnits_apart _ hnot, ih]
    · rw [List.cons_append, List.cons_append, List.nil_append, ofUnits_pair, ← units, ih]
      · refine congrArg (· :: t) ?_
        omega
      · simp only [isHigh, Bool.and_eq_true, decide_eq_true_eq]
        omega
      · simp only [isLow, Bool.and_eq_true, decide_eq_true_eq]
        omega

/-- Texts without such pairs are told apart by their units. -/
theorem eq_of_units {s t : Text} (hs : Joined s) (ht : Joined t) (h : units s = units t) : s = t := by
  rw [← ofUnits_units hs, h, ofUnits_units ht]

end Unravel.Text
