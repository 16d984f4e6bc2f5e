import Mathlib.Algebra.Order.Ring.Int
import Unravel.Number.Basic

/-! Doubles that are integers. Sums, differences and products of integers below two to the power of 53 are
exact as long as the result is below it too, and a result of zero has a sign. -/

namespace Unravel.Double

attribute [local instance(5000)] instPowNat

theorem nearest_scale (num den k : Nat) : nearest (num * 2 ^ k) (den * 2 ^ k) = nearest num den := by
  have hk : 0 < 2 ^ k := Nat.two_pow_pos k
  have hlt (a b : Nat) : a * 2 ^ k < b * 2 ^ k ↔ a < b := Nat.mul_lt_mul_right hk
  have hdouble : 2 * (num % den * 2 ^ k) = 2 * (num % den) * 2 ^ k := (Nat.mul_assoc ..).symm
  simp only [nearest, Nat.mul_div_mul_right _ _ hk, Nat.mul_mod_mul_right, hdouble, hlt]

theorem scaled_scale (num den k : Nat) (e : Int) :
    scaled (num * 2 ^ k) (den * 2 ^ k) e = ((scaled num den e).1 * 2 ^ k, (scaled num den e).2 * 2 ^ k) := by
  unfold scaled
  split <;> simp only [Nat.mul_right_comm]

theorem log2_scale {m : Nat} (h : m ≠ 0) (k : Nat) : (m * 2 ^ k).log2 = m.log2 + k := by
  have hk : 0 < 2 ^ k := Nat.two_pow_pos k
  rw [Nat.log2_eq_iff (Nat.mul_ne_zero h hk.ne'), Nat.pow_add, Nat.add_right_comm, Nat.pow_add]
  exact ⟨Nat.mul_le_mul_right _ (Nat.log2_self_le h),(Nat.mul_lt_mul_right hk).mpr Nat.lt_log2_self⟩

/-- Powers of two that numerator and denominator share do not matter. -/
theorem ofRatio_scale (s : Bool) (num : Nat) {den : Nat} (hden : den ≠ 0) (k : Nat) :
    ofRatio s (num * 2 ^ k) (den * 2 ^ k) = ofRatio s num den := by
  have hk : 0 < 2 ^ k := Nat.two_pow_pos k
  by_cases hnum : num = 0
  · simp [ofRatio, hnum]
  have hlow : (((num * 2 ^ k).log2 : Int) - (den * 2 ^ k).log2 - 53) = num.log2 - den.log2 - 53 := by
    rw [log2_scale hnum, log2_scale hden]
    omega
  have hzero : num * 2 ^ k ≠ 0 := Nat.mul_ne_zero hnum hk.ne'
  simp only [ofRatio, if_neg hnum, if_neg hzero, hlow, scaled_scale, nearest_scale,
    Nat.mul_div_mul_right _ _ hk]

theorem scaled_one (m j : Nat) : scaled m 1 (-j) = (m * 2 ^ j, 1) := by
  unfold scaled
  split
  · obtain rfl : j = 0 := by omega
    rw [Nat.pow_zero, Nat.mul_one]
    rfl
  · rw [Int.neg_neg, Int.toNat_natCast]

theorem nearest_one (m : Nat) : nearest m 1 = m := by
  simp [nearest, Nat.mod_one]

/-- The double of a natural number with a sign. -/
def whole (s : Bool) (m : Nat) : Double := ofRatio s m 1

/-- A number below the limit is spelled by it and a power of two. -/
theorem exists_whole (s : Bool) {m : Nat} (h : m < 2 ^ 53) :
    ∃ j : Nat, whole s m = .finite s (m * 2 ^ j) (-j) := by
  by_cases hm : m = 0
  · have hzero (j : Nat) : whole s m = .finite s (m * 2 ^ j) minExponent := by
      rw [whole, ofRatio, if_pos hm, hm, Nat.zero_mul]
    exact ⟨1074,hzero 1074⟩
  have hlog : m.log2 < 53 := (Nat.log2_lt hm).mpr h
  refine ⟨52 - m.log2,?_⟩
  have hlow : (m.log2 : Int) - (Nat.log2 1 : Nat) - 53 = -(53 - m.log2 : Nat) := by
    have hone : Nat.log2 1 = 0 := by decide
    omega
  have hexponent : max (-((53 - m.log2 : Nat) : Int) + 1) minExponent = -(52 - m.log2 : Nat) := by
    unfold minExponent
    omega
  have hle : 0x20000000000000 ≤ m * 2 ^ (53 - m.log2) := calc
    2 ^ 53 = 2 ^ m.log2 * 2 ^ (53 - m.log2) := by rw [← Nat.pow_add, Nat.add_sub_of_le hlog.le]
    _ ≤ m * 2 ^ (53 - m.log2) := Nat.mul_le_mul_right _ (Nat.log2_self_le hm)
  have hlt : m * 2 ^ (52 - m.log2) < 0x20000000000000 := calc
    m * 2 ^ (52 - m.log2) < 2 ^ (m.log2 + 1) * 2 ^ (52 - m.log2) :=
      (Nat.mul_lt_mul_right (Nat.two_pow_pos _)).mpr Nat.lt_log2_self
    _ = 2 ^ 53 := by rw [← Nat.pow_add]; congr 1; omega
  have hmax : ¬(maxExponent < -(52 - m.log2 : Nat)) := by
    unfold maxExponent
    omega
  simp only [whole, ofRatio, if_neg hm, hlow, scaled_one, Nat.div_one, if_neg hle.not_gt, hexponent,
    nearest_one, if_neg hlt.ne, if_neg hmax]

/-! ### Integers with a sign for zero -/

/-- The sign of an integer, where zero has the given one. -/
def signOf (z : Bool) (v : Int) : Bool := if v = 0 then z else v < 0

/-- The double of an integer, where zero has the given sign. -/
def exact (z : Bool) (v : Int) : Double := whole (signOf z v) v.natAbs

theorem exact_false (v : Int) : exact false v = ofInt v := by
  unfold exact signOf ofInt
  split
  · subst v
    rfl
  · rfl

theorem exact_of_ne {v : Int} (h : v ≠ 0) (z z' : Bool) : exact z v = exact z' v := by
  simp only [exact, signOf, if_neg h]

/-- How an integer below the limit is spelled. -/
theorem exists_exact (z : Bool) {v : Int} (h : v.natAbs < 2 ^ 53) :
    ∃ j : Nat, exact z v = .finite (signOf z v) (v.natAbs * 2 ^ j) (-j) :=
  exists_whole _ h

theorem signed_natAbs (z : Bool) (v : Int) : (if signOf z v then -(v.natAbs : Int) else v.natAbs) = v := by
  by_cases hzero : v = 0
  · simp [hzero]
  · simp only [signOf, if_neg hzero, decide_eq_true_eq]
    split <;> omega

theorem signedAt_exact (z : Bool) (v : Int) (j k : Nat) :
    signedAt (signOf z v) (v.natAbs * 2 ^ j) (-j) (-(j + k : Nat)) = v * 2 ^ (j + k) := by
  have hshift : (-(j : Int) - -(j + k : Nat)).toNat = k := by omega
  have hvalue : ((v.natAbs * 2 ^ j : Nat) : Int) * 2 ^ k = v.natAbs * 2 ^ (j + k) := by
    rw [Int.natCast_mul, Int.natCast_pow, Int.mul_assoc, Int.pow_add]
    rfl
  have hsigned := signed_natAbs z v
  simp only [signedAt, hshift, hvalue]
  split at hsigned
  · rw [if_pos ‹_›, ← Int.neg_mul, hsigned]
  · rw [if_neg ‹_›, hsigned]

/-- An integer times a power of two that is taken back is rounded to the integer. -/
theorem ofScaled_scale (z : Bool) (v : Int) (k : Nat) : ofScaled z (v * 2 ^ k) (-k) = exact z v := by
  have hk : (0 : Int) < 2 ^ k := Int.pow_pos (by decide)
  by_cases hv : v = 0
  · simp [hv, ofScaled, exact, whole, ofRatio, signOf]
  have hne : v * 2 ^ k ≠ 0 := Int.mul_ne_zero hv hk.ne'
  have hneg : v * 2 ^ k < 0 * 2 ^ k ↔ v < 0 := mul_lt_mul_iff_left₀ hk
  have habs : (v * 2 ^ k).natAbs = v.natAbs * 2 ^ k := by
    rw [Int.natAbs_mul, Int.natAbs_pow]
    rfl
  rw [Int.zero_mul] at hneg
  simp only [ofScaled, if_neg hne, hneg, habs, exact, whole, signOf, if_neg hv]
  split
  · obtain rfl : k = 0 := by omega
    rw [Nat.pow_zero, Nat.mul_one]
    exact congrArg (ofRatio _ · 1) (Nat.mul_one _)
  · have hscale := ofRatio_scale (decide (v < 0)) v.natAbs Nat.one_ne_zero k
    rw [Nat.one_mul] at hscale
    rw [Int.neg_neg, Int.toNat_natCast, hscale]

variable (z w : Bool) {v u : Int}

theorem add_exact (hv : v.natAbs < 2 ^ 53) (hu : u.natAbs < 2 ^ 53) :
    (exact z v).add (exact w u) = exact (signOf z v && signOf w u) (v + u) := by
  obtain ⟨i,hi⟩ := exists_exact z hv
  obtain ⟨j,hj⟩ := exists_exact w hu
  -- the lower of the two exponents is common to both
  have hcommon : ∃ k a b, k = i + a ∧ k = j + b ∧ min (-(i : Int)) (-j) = -(k : Nat) :=
    ⟨max i j,max i j - i,max i j - j,by omega,by omega,by omega⟩
  obtain ⟨k,a,b,hki,hkj,hmin⟩ := hcommon
  have h₁ := signedAt_exact z v i a
  have h₂ := signedAt_exact w u j b
  rw [← hki] at h₁
  rw [← hkj] at h₂
  rw [hi, hj]
  simp only [add, hmin, h₁, h₂, zeroSign]
  rw [← Int.add_mul, ofScaled_scale]

theorem mul_exact (hv : v.natAbs < 2 ^ 53) (hu : u.natAbs < 2 ^ 53) :
    (exact z v).mul (exact w u) = exact (signOf z v != signOf w u) (v * u) := by
  obtain ⟨i,hi⟩ := exists_exact z hv
  obtain ⟨j,hj⟩ := exists_exact w hu
  have hsign (s t : Bool) (a b : Int) :
      (if (s != t) = true then -(a * b) else a * b) = (if s then -a else a) * if t then -b else b := by
    cases s <;> cases t <;> simp
  have hvalue : ((v.natAbs * 2 ^ i : Nat) : Int) * (u.natAbs * 2 ^ j : Nat) =
      (v.natAbs * u.natAbs) * 2 ^ (i + j) := by
    rw [Int.pow_add]
    push_cast
    ac_rfl
  have hexponent : -(i : Int) + -j = -(i + j : Nat) := by omega
  have hproduct := hsign (signOf z v) (signOf w u) v.natAbs u.natAbs
  rw [signed_natAbs, signed_natAbs] at hproduct
  rw [hi, hj]
  simp only [mul, hvalue, hexponent]
  rw [← ofScaled_scale, ← hproduct]
  split
  · rw [Int.neg_mul]
  · rfl

theorem neg_exact : (exact z v).neg = exact (!z) (-v) := by
  have hratio (s : Bool) (num den : Nat) : (ofRatio s num den).neg = ofRatio (!s) num den := by
    simp only [ofRatio, apply_ite neg]
    rfl
  have hsign : signOf (!z) (-v) = !signOf z v := by
    by_cases hzero : v = 0
    · simp [signOf, hzero]
    · by_cases hneg : v < 0
      · simp [signOf, hzero, hneg, hneg.le, Int.not_lt.mpr]
      · simp [signOf, hzero, hneg]
        omega
  rw [exact, whole, hratio, exact, whole, hsign, Int.natAbs_neg]

theorem toInt?_exact (hv : v.natAbs < 2 ^ 53) : (exact z v).toInt? = some v := by
  obtain ⟨j,hj⟩ := exists_exact z hv
  have hsigned := signed_natAbs z v
  have hmod : v.natAbs * 2 ^ j % 2 ^ j = 0 := Nat.mul_mod_left ..
  have hdiv : v.natAbs * 2 ^ j / 2 ^ j = v.natAbs := Nat.mul_div_cancel _ (Nat.two_pow_pos j)
  simp only [hj, toInt?, Int.neg_neg, Int.toNat_natCast, hmod, hdiv, if_true]
  split
  · obtain rfl : j = 0 := by omega
    simpa using hsigned
  · exact congrArg some hsigned

theorem isNegative_exact (hv : v.natAbs < 2 ^ 53) : (exact z v).isNegative = signOf z v := by
  obtain ⟨j,hj⟩ := exists_exact z hv
  rw [hj, isNegative]

theorem isFinite_exact (hv : v.natAbs < 2 ^ 53) : (exact z v).isFinite = true := by
  obtain ⟨j,hj⟩ := exists_exact z hv
  rw [hj, isFinite]

theorem ofNat_eq_ofInt (n : Nat) : ofNat n = ofInt n := by
  have hsign : decide ((n : Int) < 0) = false := by simp
  rw [ofNat, ofInt, hsign, Int.natAbs_natCast]

theorem neg_ofInt (h : v ≠ 0) : (ofInt v).neg = ofInt (-v) := by
  rw [← exact_false, neg_exact, exact_of_ne (Int.neg_ne_zero.mpr h) _ false, exact_false]

/-! ### Equality -/

theorem ofRatio_ne_nan (s : Bool) (num den : Nat) : ofRatio s num den ≠ .nan := by
  simp only [ofRatio]
  split_ifs <;> nofun

theorem numEq_self {x : Double} (h : x ≠ .nan) : x.numEq x = true := by
  cases x with
  | nan => exact absurd rfl h
  | infinite => exact beq_self_eq_true _
  | finite => exact beq_self_eq_true _

theorem numEq_ofInt (v : Int) : (ofInt v).numEq (ofInt v) = true :=
  numEq_self (ofRatio_ne_nan _ _ _)

/-- The negation of an integer is equal to the double of the negated integer, a zero included. -/
theorem numEq_neg_ofInt (v : Int) : (ofInt v).neg.numEq (ofInt (-v)) = true := by
  by_cases h : v = 0
  · subst h
    decide
  · rw [neg_ofInt h]
    exact numEq_ofInt _

end Unravel.Double
