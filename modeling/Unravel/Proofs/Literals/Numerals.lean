import Unravel.Proofs.Literals.Reading
import Unravel.Proofs.Number.Exact

/-! Numeric literals as JavaScript reads them: digits to a base behind its mark, or decimal digits with
a fraction and an exponent. An integer that is written in plain digits is read as its double, however
many digits it has. -/

namespace Unravel

namespace Double

attribute [local instance(5000)] instPowNat

/-- A number of that many binary places is beyond the finite range. -/
theorem ofRatio_of_log2 (s : Bool) {m : Nat} (h : 1025 ≤ m.log2) : ofRatio s m 1 = .infinite s := by
  have hm : m ≠ 0 := by
    rintro rfl
    simp at h
  have hone : Nat.log2 1 = 0 := by decide
  simp only [ofRatio, if_neg hm, hone]
  refine if_pos ?_
  unfold maxExponent minExponent
  split_ifs <;> simp only <;> omega

/-- A decimal digit holds three binary ones. -/
private theorem le_log2_of_lt_length {n k : Nat} (hn : n ≠ 0) (hk : 0 < k)
    (h : k < (Nat.toDigits 10 n).length) : 3 * k ≤ n.log2 := by
  have hten : ¬n < 10 ^ k := fun hlt =>
    Nat.not_le.mpr h ((Nat.length_toDigits_le_iff (by decide) hk).mpr hlt)
  refine (Nat.le_log2 hn).mpr ?_
  calc
    2 ^ (3 * k) = (2 ^ 3) ^ k := Nat.pow_mul ..
    _ ≤ 10 ^ k := Nat.pow_le_pow_left (by decide) k
    _ ≤ n := Nat.not_lt.mp hten

/-- Digits without a fraction and an exponent stand for the double of their integer. -/
theorem ofDecimal_zero (s : Bool) (n : Nat) : ofDecimal s n 0 = ofRatio s n 1 := by
  by_cases hn : n = 0
  · simp [ofDecimal, ofRatio, hn]
  simp only [ofDecimal, if_neg hn]
  split
  · have hlog := le_log2_of_lt_length hn (show 0 < 400 by decide) (by omega)
    exact (ofRatio_of_log2 s (by omega)).symm
  · rw [if_neg (by omega), if_pos (Int.le_refl 0)]
    exact congrArg (ofRatio s · 1) (Nat.mul_one n)

end Double

namespace Text
open Source.Parse

/-- Whether a character is a digit to a base. -/
def isDigitOf (base c : Nat) : Bool := (hexDigit? c).any (· < base)

/-- The base that the letter behind a leading zero stands for. -/
def baseOf? : Nat → Option Nat
  | 120 | 88 => some 16
  | 111 | 79 => some 8
  | 98 | 66 => some 2
  | _ => none

/-- The exponent that a text starts with, zero if it has none, and what is left. -/
def exponent? (t : Text) : Option (Int × Text) :=
  if t.head? = some 101 || t.head? = some 69 then
    let sign := t.tail.head?
    let t := if sign = some 43 || sign = some 45 then t.tail.tail else t.tail
    let digits := t.takeWhile (isDigitOf 10)
    let v : Int := valueIn 10 digits
    if digits.isEmpty then none else some (if sign = some 45 then -v else v, t.drop digits.length)
  else some (0, t)

/-- The decimal numeral that a text starts with, and what is left. A zero before other digits belongs
to an older spelling, which is not read. -/
def decimal? (t : Text) : Option (Double × Text) :=
  let whole := t.takeWhile (isDigitOf 10)
  let t := t.drop whole.length
  let fraction := if t.head? = some 46 then t.tail.takeWhile (isDigitOf 10) else []
  let t := if t.head? = some 46 then t.tail.drop fraction.length else t
  if (whole ++ fraction).isEmpty || whole.head? = some 48 && 1 < whole.length then none
  else (exponent? t).map fun (e, t) =>
    (Double.ofDecimal false (valueIn 10 (whole ++ fraction)) (e - fraction.length), t)

/-- The numeral to a base that a text starts with behind its mark, and what is left. -/
def based? (base : Nat) (t : Text) : Option (Double × Text) :=
  let digits := t.takeWhile (isDigitOf base)
  if digits.isEmpty then none else some (Double.ofNat (valueIn base digits), t.drop digits.length)

/-- The numeric literal that a text starts with, and what is left. What follows must not run on. -/
def numeral? (t : Text) : Option (Double × Text) := do
  let base? := if t.head? = some 48 then t.tail.head?.bind baseOf? else none
  let (x, rest) ← match base? with
    | some base => based? base (t.drop 2)
    | none => decimal? t
  if rest.head?.any fun c => isNameStart c || isAsciiDigit c then none else some (x, rest)

/-- Each base, a fraction and an exponent; what an older spelling or a name follows is none. -/
example : ([["0x1F,", "0b101,", "0o17,", "2.5e1)"], ["017,", "3px", "."]].map fun ts =>
    ts.map fun t => (numeral? (ofString t)).map fun (x, rest) => (x.toInt?, rest)) =
    [[some (some 31, [44]), some (some 5, [44]), some (some 15, [44]), some (some 25, [41])],
      [none, none, none]] := by decide

/-- The digits of a number. -/
private def digitsOf (n : Nat) : Text := (Nat.toDigits 10 n).map Char.toNat

private theorem toNat_of_isDigit {c : Char} (h : c.isDigit = true) : 48 ≤ c.toNat ∧ c.toNat ≤ 57 := by
  simpa [Char.isDigit, UInt32.le_iff_toNat_le] using h

private theorem hexDigit?_of_isDigit {c : Char} (h : c.isDigit = true) :
    hexDigit? c.toNat = some (c.toNat - 48) := by
  simp [hexDigit?, toNat_of_isDigit h]

private theorem valueIn_map (ds : List Char) (h : ∀ c ∈ ds, c.isDigit = true) (v : Nat) :
    (ds.map Char.toNat).foldl (fun n c => n * 10 + (hexDigit? c).getD 0) v = Nat.ofDigitChars 10 ds v := by
  induction ds generalizing v with
  | nil => rfl
  | cons c ds ih =>
    rw [List.forall_mem_cons] at h
    rw [List.map_cons, List.foldl_cons, ih h.2, hexDigit?_of_isDigit h.1, Option.getD_some,
      Nat.mul_comm]
    rfl

private theorem valueIn_digitsOf (n : Nat) : valueIn 10 (digitsOf n) = n :=
  (valueIn_map _ (fun _ => Nat.isDigit_of_mem_toDigits (by decide) (by decide)) 0).trans
    Nat.ofDigitChars_ten_toDigits

private theorem digit_of_mem {n c : Nat} (h : c ∈ digitsOf n) :
    (48 ≤ c ∧ c ≤ 57) ∧ isDigitOf 10 c = true := by
  obtain ⟨d,hd,rfl⟩ := List.mem_map.mp h
  have hd := Nat.isDigit_of_mem_toDigits (by decide) (by decide) hd
  have hrange := toNat_of_isDigit hd
  refine ⟨hrange,?_⟩
  simp [isDigitOf, hexDigit?_of_isDigit hd]
  omega

private theorem digitsOf_ne_nil (n : Nat) : digitsOf n ≠ [] := by
  simp [digitsOf, Nat.toDigits_ne_nil]

/-- Only zero is written with a zero in front. -/
private theorem head?_digitsOf {n : Nat} (h : (digitsOf n).head? = some 48) : n = 0 := by
  have hdigit : ∀ d < 10, [d.digitChar].map Char.toNat = [48] → d = 0 := by decide
  induction n using Nat.strongRecOn with
  | ind n ih =>
    rcases Nat.lt_or_ge n 10 with hlt | hge
    · rw [digitsOf, Nat.toDigits_of_lt_base hlt] at h
      exact hdigit n hlt (by simpa using h)
    · have hne := digitsOf_ne_nil (n / 10)
      rw [digitsOf, Nat.toDigits_of_base_le (by decide) hge, List.map_append, List.head?_append,
        ← digitsOf, List.head?_eq_some_head hne, Option.some_or, ← List.head?_eq_some_head hne] at h
      have := ih (n / 10) (by omega) h
      omega

/-- What may follow a literal in a list: a comma or the closing parenthesis. -/
inductive EndsLiteral : Text → Prop
  | comma (rest : Text) : EndsLiteral (44 :: rest)
  | closing (rest : Text) : EndsLiteral (41 :: rest)

private theorem decimal?_digitsOf (n : Nat) {rest : Text} (h : EndsLiteral rest) :
    decimal? (digitsOf n ++ rest) = some (Double.ofNat n, rest) := by
  have hrest : rest.takeWhile (isDigitOf 10) = [] ∧ rest.head? ≠ some 46 ∧
      exponent? rest = some (0, rest) := by
    cases h <;> exact ⟨rfl,by simp,rfl⟩
  have hwhole : (digitsOf n ++ rest).takeWhile (isDigitOf 10) = digitsOf n := by
    rw [List.takeWhile_append_of_pos fun c hc => (digit_of_mem hc).2, hrest.1, List.append_nil]
  -- a zero in front is the only digit
  have hfront : ¬((digitsOf n).head? = some 48 ∧ 1 < (digitsOf n).length) := by
    rintro ⟨hhead,hlength⟩
    obtain rfl := head?_digitsOf hhead
    exact absurd hlength (by decide)
  simp only [decimal?, hwhole, List.drop_left, if_neg hrest.2.1, List.append_nil, hrest.2.2]
  rw [if_neg (by simpa [digitsOf_ne_nil] using hfront)]
  simp [valueIn_digitsOf, Double.ofDecimal_zero, Double.ofNat]

private theorem ofString_repr (n : Nat) : ofString (Nat.repr n) = digitsOf n :=
  congrArg (List.map Char.toNat) Nat.toList_repr

/-- A number is written with a digit in front. -/
theorem exists_repr (n : Nat) :
    ∃ c digits, ofString (Nat.repr n) = c :: digits ∧ 48 ≤ c ∧ c ≤ 57 := by
  obtain ⟨c,digits,hdigits⟩ := List.exists_cons_of_ne_nil (digitsOf_ne_nil n)
  exact ⟨c,digits,(ofString_repr n).trans hdigits,(digit_of_mem (hdigits ▸ List.mem_cons_self)).1⟩

/-- A number in plain digits is read as its double. -/
theorem numeral?_repr (n : Nat) {rest : Text} (h : EndsLiteral rest) :
    numeral? (ofString (Nat.repr n) ++ rest) = some (Double.ofNat n, rest) := by
  have hbase : (if (digitsOf n ++ rest).head? = some 48
      then (digitsOf n ++ rest).tail.head?.bind baseOf? else none) = none := by
    split
    · rename_i hzero
      rw [List.head?_append, List.head?_eq_some_head (digitsOf_ne_nil n), Option.some_or,
        ← List.head?_eq_some_head] at hzero
      obtain rfl := head?_digitsOf hzero
      cases h <;> rfl
    · rfl
  have hend : (rest.head?.any fun c => isNameStart c || isAsciiDigit c) = false := by
    cases h <;> rfl
  simp only [numeral?, ofString_repr, hbase, decimal?_digitsOf n h, Option.bind_eq_bind, Option.bind_some,
    hend]
  rfl

end Text

end Unravel
