import Unravel.Strings.Names

/-! Plain literals: strings, numbers, and a minus before a number. They are the arguments that can be
written down for a call. -/

namespace Unravel.Node

/-- A numeric literal, or a minus before one. -/
inductive IsNumeric (n : Node) : Bool → Number → Prop
  | literal {v : Number} {raw : Option Text} (h : n.label = .literal (.number v) raw) : IsNumeric n false v
  | minus {b : Bool} {a : Node} {v : Number} {raw : Option Text} (h : n.label = .unaryExpression "-" b)
      (ha : n.child? .argument = some a) (hv : a.label = .literal (.number v) raw) : IsNumeric n true v

/-- A string literal, a numeric literal or a minus before one. -/
inductive IsPlain (n : Node) : Prop
  | text {t : Text} {raw : Option Text} (h : n.label = .literal (.text t) raw)
  | number {minus : Bool} {v : Number} (h : n.IsNumeric minus v)

variable {n : Node} {minus : Bool} {v : Number} {arguments : List Node}

theorem stringValue?_eq_some_iff {t : Text} :
    n.stringValue? = some t ↔ ∃ raw, n.label = .literal (.text t) raw := by
  unfold stringValue?
  split
  · rename_i u raw hl
    simp [hl]
  · rename_i hother
    simp only [reduceCtorEq, false_iff, not_exists]
    exact fun raw hl => hother t raw hl

theorem numberValue?_eq_some_iff :
    n.numberValue? = some v ↔ ∃ raw, n.label = .literal (.number v) raw := by
  unfold numberValue?
  split
  · rename_i w raw hl
    simp [hl]
  · rename_i hother
    simp only [reduceCtorEq, false_iff, not_exists]
    exact fun raw hl => hother v raw hl

theorem numericValue?_eq_some_iff :
    n.numericValue? = some v ↔ ∃ minus w, n.IsNumeric minus w ∧ v = if minus then w.neg else w := by
  constructor
  · intro h
    unfold numericValue? at h
    split at h
    · rename_i w hw
      obtain ⟨raw,hl⟩ := numberValue?_eq_some_iff.mp hw
      exact ⟨false,w,.literal hl,(Option.some.inj h).symm⟩
    split at h
    · rename_i b hl
      obtain ⟨a,ha,h⟩ := Option.bind_eq_some_iff.mp h
      obtain ⟨w,hw,rfl⟩ := Option.map_eq_some_iff.mp h
      obtain ⟨raw,hraw⟩ := numberValue?_eq_some_iff.mp hw
      exact ⟨true,w,.minus hl ha hraw,rfl⟩
    · cases h
  · rintro ⟨_,w,hnumeric,rfl⟩
    cases hnumeric with
    | literal hl => simp [numericValue?, numberValue?, hl]
    | minus hl ha hv => simp [numericValue?, numberValue?, hl, ha, hv]

/-! ### What is written for them -/

theorem literalArgument?_text {t : Text} {raw : Option Text} (h : n.label = .literal (.text t) raw) :
    n.literalArgument? = some t.quoted := by
  rw [literalArgument?, stringValue?_eq_some_iff.mpr ⟨raw,h⟩]

theorem literalArgument?_numeric (h : n.IsNumeric minus v) :
    n.literalArgument? = some (Text.ofString (if minus then v.neg else v).text) := by
  have hvalue := numericValue?_eq_some_iff.mpr ⟨minus,v,h,rfl⟩
  have hstring : n.stringValue? = none := by
    cases h with
    | literal h => simp [stringValue?, h]
    | minus h => simp [stringValue?, h]
  rw [literalArgument?, hstring, hvalue]
  rfl

theorem isSome_literalArgument?_iff : n.literalArgument?.isSome ↔ n.IsPlain := by
  constructor
  · intro h
    unfold literalArgument? at h
    split at h
    · rename_i t ht
      obtain ⟨raw,hl⟩ := stringValue?_eq_some_iff.mp ht
      exact .text hl
    · rw [Option.isSome_map] at h
      obtain ⟨v,hv⟩ := Option.isSome_iff_exists.mp h
      obtain ⟨minus,w,hw,-⟩ := numericValue?_eq_some_iff.mp hv
      exact .number hw
  · rintro (h | h)
    · rw [literalArgument?_text h]
      rfl
    · rw [literalArgument?_numeric h]
      rfl

theorem literalArguments?_cons (a : Node) (more : List Node) :
    literalArguments? (a :: more) =
      a.literalArgument?.bind fun t => (literalArguments? more).map (t :: ·) := by
  unfold literalArguments?
  rw [List.mapM_cons]
  cases a.literalArgument? with
  | none => rfl
  | some t => cases List.mapM literalArgument? more <;> rfl

/-- Nothing is written just where some argument is not plain. -/
theorem literalArguments?_eq_none_iff :
    literalArguments? arguments = none ↔ ∃ a ∈ arguments, ¬a.IsPlain := by
  simp only [← isSome_literalArgument?_iff]
  induction arguments with
  | nil => simp [literalArguments?]
  | cons a more ih =>
    rw [literalArguments?_cons]
    cases ha : a.literalArgument? with
    | none => simp [ha]
    | some t => simp [ha, ih]

theorem isSome_literalArguments?_iff :
    (literalArguments? arguments).isSome ↔ ∀ a ∈ arguments, a.IsPlain := by
  rw [← Option.ne_none_iff_isSome, Ne, literalArguments?_eq_none_iff]
  simp

end Unravel.Node
