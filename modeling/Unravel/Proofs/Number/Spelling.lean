import Unravel.Simplify.Expression

/-! The characters in which numbers are written. None of them marks a hexadecimal spelling, so a
number written anew is spelled in plain digits. -/

namespace Unravel

/-- The characters that texts of numbers are made of. -/
def Number.isNumeral (c : Char) : Bool :=
  c.isDigit || ['-', '+', '.', 'e', 'n', 'a', 'i', 'f'].contains c

namespace Decimal
open Number

private theorem isNumeral_toDigits {n : Nat} {c : Char} (h : c ∈ Nat.toDigits 10 n) :
    isNumeral c = true := by
  simp [isNumeral, Nat.isDigit_of_mem_toDigits (by decide) (by decide) h]

private theorem isNumeral_zeros {n : Nat} {c : Char} (h : c ∈ zeros n) : isNumeral c = true := by
  rw [List.eq_of_mem_replicate h]
  decide

theorem isNumeral_write (layout : Layout) (d : Decimal) :
    ∀ c ∈ (d.write layout).toList, isNumeral c = true := by
  have hd {c : Char} (h : c ∈ Nat.toDigits 10 d.digits) : isNumeral c = true := isNumeral_toDigits h
  have hz {n : Nat} {c : Char} (h : c ∈ zeros n) : isNumeral c = true := isNumeral_zeros h
  have hpoint : isNumeral '.' = true := by decide
  have hzero : isNumeral '0' = true := by decide
  intro c hc
  unfold write at hc
  simp only at hc
  split at hc
  · split at hc
    · simp only [String.toList_ofList, List.mem_append] at hc
      rcases hc with (hc | hc) | hc
      · exact hd hc
      · exact hz hc
      · split at hc <;> simp only [List.mem_cons, List.not_mem_nil, or_false] at hc
        rcases hc with rfl | rfl
        · exact hpoint
        · exact hzero
    · split at hc
      · simp only [String.toList_ofList, List.mem_append, List.mem_singleton] at hc
        rcases hc with (hc | rfl) | hc
        · exact hd (List.mem_of_mem_take hc)
        · exact hpoint
        · exact hd (List.mem_of_mem_drop hc)
      · simp only [String.toList_ofList, List.mem_append, List.mem_cons, List.not_mem_nil,
          or_false] at hc
        rcases hc with ((rfl | rfl) | hc) | hc
        · exact hzero
        · exact hpoint
        · exact hz hc
        · exact hd hc
  · simp only [String.toList_ofList, List.mem_append] at hc
    rcases hc with (hc | hc) | hc | hc
    · split at hc
      · simp at hc
      · rename_i hds
        exact hd (hds ▸ hc)
      · rename_i hds
        rcases List.mem_cons.mp hc with rfl | hc
        · exact hd (hds ▸ List.mem_cons_self)
        rcases List.mem_cons.mp hc with rfl | hc
        · exact hpoint
        · exact hd (hds ▸ List.mem_cons_of_mem _ hc)
    · split at hc <;> simp only [List.mem_cons, List.not_mem_nil, or_false] at hc <;>
        rcases hc with rfl | rfl <;> decide
    · exact hz hc
    · exact isNumeral_toDigits hc

end Decimal

namespace Number

private theorem isNumeral_sign {s : String} (h : ∀ c ∈ s.toList, isNumeral c = true) :
    ∀ c ∈ ("-" ++ s).toList, isNumeral c = true := by
  intro c hc
  rw [String.toList_append] at hc
  rcases List.mem_append.mp hc with hc | hc
  · obtain rfl : c = '-' := by simpa using hc
    decide
  · exact h c hc

theorem isNumeral_text (n : Number) : ∀ c ∈ n.text.toList, isNumeral c = true := by
  unfold text
  split
  · rename_i i _
    have hr : ∀ c ∈ (Nat.repr i.natAbs).toList, isNumeral c = true := by
      intro c hc
      rw [Nat.toList_repr] at hc
      exact Decimal.isNumeral_toDigits hc
    unfold intText
    split
    · exact isNumeral_sign hr
    · exact hr
  · rename_i d _
    cases d with
    | nan => exact List.all_eq_true.mp rfl
    | infinite s => cases s <;> exact List.all_eq_true.mp rfl
    | finite s m e =>
      have hb : ∀ c ∈ (if m = 0 then "0.0" else (Decimal.shortest m e).write .exact).toList,
          isNumeral c = true := by
        split
        · exact List.all_eq_true.mp rfl
        · exact Decimal.isNumeral_write _ _
      cases s
      · exact hb
      · exact isNumeral_sign hb

/-- A number is never written in hexadecimal. -/
theorem isHexSpelling_text (n : Number) :
    Simplify.isHexSpelling (Text.ofString n.text) = false := by
  have hn := n.isNumeral_text
  unfold Simplify.isHexSpelling
  split
  · rename_i x rest hx
    have hmem : x ∈ Text.ofString n.text := by simp [hx]
    obtain ⟨c,hc,rfl⟩ := List.mem_map.mp hmem
    have hc := hn c hc
    simp only [Bool.or_eq_false_iff, decide_eq_false_iff_not]
    constructor
    · intro h
      obtain rfl : c = 'x' := Char.toNat_inj.mp h
      simp [isNumeral] at hc
    · intro h
      obtain rfl : c = 'X' := Char.toNat_inj.mp h
      simp [isNumeral] at hc
  · rfl

end Number

end Unravel
