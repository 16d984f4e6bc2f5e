import Mathlib.Data.List.Basic
import Mathlib.Data.Nat.Init
import Unravel.Simplify.Escapes
import Unravel.Text.Pattern

/-! Escapes by number, found in three ways: by a pattern that is searched for with backtracking, among
the pieces of a spelling from left to right, and by counting the backslashes at hand. They agree on
every spelling. The pattern sees a run of backslashes at once, where the run starts, and no match starts
inside it; so the induction goes from run to run. -/

namespace Unravel

namespace Text

/-! ### Letters in either case -/

/-- The character that a run moves to a given one. -/
def Run.source? (r : Run) (v : Nat) : Option Nat :=
  let c := ((v : Int) - r.shift).toNat
  if r.contains c then some c else none

/-- The characters that a table may take to a given one: itself, and those that its runs move. -/
def sources (runs : List Run) (v : Nat) : List Nat := v :: runs.filterMap (·.source? v)

theorem mem_sources {runs : List Run} {c v : Nat} (hv : 0 < v) (h : shifted runs c = v) :
    c ∈ sources runs v := by
  unfold shifted at h
  split at h
  · rename_i r hr
    have hsource : ((v : Int) - r.shift).toNat = c := by omega
    have hcontains : r.contains c = true := List.find?_some (p := fun r : Run => r.contains c) hr
    refine List.mem_cons_of_mem v (List.mem_filterMap.mpr ⟨r,List.mem_of_find?_eq_some hr,?_⟩)
    rw [Run.source?, hsource]
    exact if_pos hcontains
  · exact h ▸ List.mem_cons_self

theorem mem_of_upperForm {c v : Nat} (hv : 0 < v) (h : upperForm c = [v]) :
    c ∈ sources upperRuns v ++ sources titleRuns v := by
  have hforms : ∀ e ∈ upperForms ++ titleForms, e.2.length ≠ 1 := by decide +kernel
  have hlong {e : Nat × Text} (he : e ∈ upperForms ++ titleForms) : e.2 ≠ [v] :=
    fun hsingle => hforms e he (congrArg List.length hsingle)
  unfold upperForm titleForm at h
  split at h
  · rename_i hfind
    exact absurd h (hlong (List.mem_append_left _ (List.mem_of_find?_eq_some hfind)))
  split at h
  · exact List.mem_append_left _ (mem_sources hv (List.cons.inj h).1)
  split at h
  · rename_i hfind
    exact absurd h (hlong (List.mem_append_right _ (List.mem_of_find?_eq_some hfind)))
  · exact List.mem_append_right _ (mem_sources hv (List.cons.inj h).1)

theorem mem_of_lowerForm {c v : Nat} (hv : 0 < v) (h : (lowerForm [] c []).headD c = v) :
    c ∈ [0x130, 0x3A3] ++ sources lowerShifts v := by
  unfold lowerForm at h
  split at h
  · simp [*]
  split at h
  · simp [*]
  · exact List.mem_append_right _ (mem_sources hv h)

/-- The characters whose form without case may be a given one. The small letters of the dotted capital I
and of the capital sigma do not come from the table. -/
def candidates (v : Nat) : List Nat :=
  (sources upperRuns v ++ sources titleRuns v).flatMap fun w => [0x130, 0x3A3] ++ sources lowerShifts w

theorem mem_candidates {c v : Nat} (hv : 0 < v) (h : caseless c = [v]) : c ∈ candidates v := by
  have hzero : upperForm 0 = [0] := by decide +kernel
  have hpos : 0 < (lowerForm [] c []).headD c := by
    by_contra hnot
    rw [caseless, Nat.eq_zero_of_not_pos hnot, hzero] at h
    exact Nat.ne_of_lt hv (List.cons.inj h).1
  exact List.mem_flatMap.mpr ⟨_,mem_of_upperForm hv h,mem_of_lowerForm hpos rfl⟩

/-- A backslash has no case. -/
theorem admits_slash {c : Nat} : admits [92] c = true ↔ c = 92 := by
  have hform : caseless 92 = [92] := by decide +kernel
  have hall : ∀ c ∈ candidates 92, caseless c = [92] → c = 92 := by decide +kernel
  simp only [admits, List.any_cons, List.any_nil, Bool.or_false, decide_eq_true_eq]
  constructor
  · intro h
    have hc := h.symm.trans hform
    exact hall c (mem_candidates (by decide) hc) hc
  · rintro rfl
    rfl

/-- No letter but the capital has the form of `x` or `u`. -/
theorem admits_marks {c : Nat} : admits [120, 117] c = true ↔ c ∈ [120, 117, 88, 85] := by
  have hx : caseless 120 = [88] := by decide +kernel
  have hu : caseless 117 = [85] := by decide +kernel
  have hxs : ∀ c ∈ candidates 88, caseless c = [88] → c ∈ [120, 117, 88, 85] := by decide +kernel
  have hus : ∀ c ∈ candidates 85, caseless c = [85] → c ∈ [120, 117, 88, 85] := by decide +kernel
  have hback : ∀ c ∈ [120, 117, 88, 85], caseless c = [88] ∨ caseless c = [85] := by decide +kernel
  simp only [admits, List.any_cons, List.any_nil, Bool.or_false, Bool.or_eq_true, decide_eq_true_eq,
    hx, hu]
  constructor
  · rintro (h | h)
    · exact hxs c (mem_candidates (by decide) h.symm) h.symm
    · exact hus c (mem_candidates (by decide) h.symm) h.symm
  · intro h
    exact (hback c h).imp Eq.symm Eq.symm

/-! ### Repetition -/

namespace Pattern
variable {p q : Pattern} {s : Place}

theorem ends_among_cons {cs : List Nat} {before t : Text} {c : Nat} : (among cs).ends ⟨before, c :: t⟩ =
    if admits cs c then [⟨c :: before, t⟩] else [] := rfl

theorem ends_row : (row p q).ends s = (p.ends s).flatMap q.ends := rfl

/-- More steps than there are characters lead nowhere else. -/
private theorem repeated_eq {step : Place → List Place} {n m : Nat} {s : Place}
    (hn : s.rest.length < n) (hm : s.rest.length < m) : repeated step n s = repeated step m s := by
  induction n generalizing m s with
  | zero => omega
  | succ n ih =>
    obtain ⟨m,rfl⟩ := Nat.exists_eq_succ_of_ne_zero (Nat.ne_zero_of_lt hm)
    rw [repeated, repeated]
    congr 1
    refine List.flatMap_congr fun e _ => ?_
    split
    · exact ih (by omega) (by omega)
    · rfl

theorem isSome_searchFrom_nil {before : Text} :
    (p.searchFrom before []).isSome ↔ p.ends ⟨before, []⟩ ≠ [] := by
  simp [searchFrom]

theorem isSome_searchFrom_cons {before rest : Text} {c : Nat} :
    (p.searchFrom before (c :: rest)).isSome ↔
      p.ends ⟨before, c :: rest⟩ ≠ [] ∨ (p.searchFrom (c :: before) rest).isSome := by
  rw [searchFrom]
  split <;> simp [*]

/-- A repetition is a step with the repetition after it, or nothing. -/
theorem ends_many : (many p).ends s =
    ((p.ends s).flatMap fun e => if e.rest.length < s.rest.length then (many p).ends e else [e]) ++ [s] := by
  rw [ends, repeated]
  congr 1
  refine List.flatMap_congr fun e _ => ?_
  split
  · exact repeated_eq (by omega) (by omega)
  · rfl

theorem ends_many_of_nil (h : p.ends s = []) : (many p).ends s = [s] := by
  rw [ends_many, h]
  rfl

theorem ends_many_of_single {e : Place} (h : p.ends s = [e]) (he : e.rest.length < s.rest.length) :
    (many p).ends s = (many p).ends e ++ [s] := by
  rw [ends_many, h, List.flatMap_singleton, if_pos he]

end Pattern

private theorem run_succ (k : Nat) (t : Text) :
    List.replicate (k + 1) 92 ++ t = List.replicate k 92 ++ 92 :: t := by
  simp [List.replicate_succ']

/-- A property of texts holds if it holds of a run of backslashes, and of one with another character
behind it if it holds of what follows. -/
theorem inductionOnRuns {motive : Text → Prop} (t : Text)
    (last : ∀ k, motive (List.replicate k 92))
    (next : ∀ k c rest, c ≠ 92 → motive rest → motive (List.replicate k 92 ++ c :: rest)) :
    motive t := by
  have hbehind (k : Nat) : motive (List.replicate k 92 ++ t) := by
    induction t generalizing k with
    | nil => simpa using last k
    | cons c rest ih =>
      by_cases hc : c = 92
      · subst hc
        exact run_succ k rest ▸ ih (k + 1)
      · exact next k c rest hc (ih 0)
  exact hbehind 0

end Text

namespace Simplify
open Text Text.Pattern

/-- An odd number of backslashes, no further one before them, and `x` or `u` behind them in either
case. -/
def numberedEscape : Pattern :=
  .row (.notAfter [92])
    (.row (.many (.row (.among [92]) (.among [92]))) (.row (.among [92]) (.among [120, 117])))

/-- The letters that start an escape by number: `x`, `u`, `X` and `U`. -/
def numberMarks : List Nat := [120, 117, 88, 85]

/-- What a spelling is made of, from left to right: a backslash belongs together with the character
after it. -/
inductive Piece where
  | plain (c : Nat)
  | escape (c : Nat)
deriving DecidableEq

def pieces : Text → List Piece
  | [] => []
  | 92 :: c :: rest => .escape c :: pieces rest
  | c :: rest => .plain c :: pieces rest

/-! ### A run of backslashes in the pattern -/

section Run
variable {before t : Text}

private abbrev slashPair : Pattern := .row (.among [92]) (.among [92])

/-- The last backslash of an escape and its letter. -/
private abbrev markedSlash : Pattern := .row (.among [92]) (.among [120, 117])

private theorem ends_slash : (among [92]).ends ⟨before, 92 :: t⟩ = [⟨92 :: before, t⟩] := by
  rw [ends_among_cons, if_pos (admits_slash.mpr rfl)]

private theorem ends_slash_of_ne (ht : t.head? ≠ some 92) : (among [92]).ends ⟨before, t⟩ = [] := by
  cases t with
  | nil => rfl
  | cons c t =>
    have hc : c ≠ 92 := by simpa using ht
    rw [ends_among_cons, if_neg (admits_slash.not.mpr hc)]

private theorem ends_slashPair :
    slashPair.ends ⟨before, 92 :: 92 :: t⟩ = [⟨92 :: 92 :: before, t⟩] := by
  rw [ends_row, ends_slash, List.flatMap_singleton, ends_slash]

private theorem ends_markedSlash :
    markedSlash.ends ⟨before, 92 :: t⟩ = (among [120, 117]).ends ⟨92 :: before, t⟩ := by
  rw [ends_row, ends_slash, List.flatMap_singleton]

private theorem ends_row_of_ne {p : Pattern} (ht : t.head? ≠ some 92) :
    (row (among [92]) p).ends ⟨before, t⟩ = [] := by
  rw [ends_row, ends_slash_of_ne ht, List.flatMap_nil]

private theorem ends_marks_ne_nil (before t : Text) :
    (among [120, 117]).ends ⟨before, t⟩ ≠ [] ↔ ∃ c ∈ numberMarks, t.head? = some c := by
  cases t with
  | nil => simp [ends]
  | cons c t =>
    have hcons : (among [120, 117]).ends ⟨before, c :: t⟩ ≠ [] ↔ admits [120, 117] c = true := by
      simp [ends_among_cons]
    rw [hcons, admits_marks]
    simp [numberMarks]

/-- Of all ways to take pairs of backslashes from a run only the one that leaves a single backslash goes
on. -/
private theorem ends_run (ht : t.head? ≠ some 92) (k : Nat) :
    (row (many slashPair) markedSlash).ends ⟨before, List.replicate k 92 ++ t⟩ =
      if k % 2 = 1 then (among [120, 117]).ends ⟨List.replicate k 92 ++ before, t⟩ else [] := by
  induction k using Nat.twoStepInduction generalizing before with
  | zero =>
    have hmany : (many slashPair).ends ⟨before, List.replicate 0 92 ++ t⟩ = [⟨before, t⟩] :=
      ends_many_of_nil (ends_row_of_ne ht)
    rw [ends_row, hmany, List.flatMap_singleton, ends_row_of_ne ht]
    rfl
  | one =>
    have hpair : slashPair.ends ⟨before, 92 :: t⟩ = [] := by
      rw [ends_row, ends_slash, List.flatMap_singleton, ends_slash_of_ne ht]
    have hmany : (many slashPair).ends ⟨before, List.replicate 1 92 ++ t⟩ = [⟨before, 92 :: t⟩] :=
      ends_many_of_nil hpair
    rw [ends_row, hmany, List.flatMap_singleton, ends_markedSlash]
    rfl
  | more k ih _ =>
    have hmarked : markedSlash.ends ⟨before, 92 :: 92 :: (List.replicate k 92 ++ t)⟩ = [] := by
      rw [ends_markedSlash, ends_among_cons, if_neg (admits_marks.not.mpr (by decide))]
    have hmany : (many slashPair).ends ⟨before, List.replicate (k + 2) 92 ++ t⟩ =
        (many slashPair).ends ⟨92 :: 92 :: before, List.replicate k 92 ++ t⟩ ++
          [⟨before, 92 :: 92 :: (List.replicate k 92 ++ t)⟩] :=
      ends_many_of_single ends_slashPair (by simp)
    rw [ends_row, hmany, List.flatMap_append, ← ends_row, ih, run_succ, run_succ, Nat.add_mod_right,
      List.flatMap_singleton, hmarked, List.append_nil]

private theorem ends_behind (hb : before.head? = some 92) : numberedEscape.ends ⟨before, t⟩ = [] := by
  have hstops : (notAfter [92]).ends ⟨before, t⟩ = [] := if_pos (by simp [hb, admits_slash])
  rw [numberedEscape, ends_row, hstops, List.flatMap_nil]

private theorem ends_free (hb : before.head? ≠ some 92) :
    numberedEscape.ends ⟨before, t⟩ = (row (many slashPair) markedSlash).ends ⟨before, t⟩ := by
  have hgoes : (notAfter [92]).ends ⟨before, t⟩ = [⟨before, t⟩] := by
    refine if_neg ?_
    cases before with
    | nil => simp
    | cons c before => simpa [admits_slash] using hb
  rw [numberedEscape, ends_row, hgoes, List.flatMap_singleton]

/-- A match starts with a backslash. -/
private theorem numberedEscape_ends_of_ne (ht : t.head? ≠ some 92) :
    numberedEscape.ends ⟨before, t⟩ = [] := by
  by_cases hb : before.head? = some 92
  · exact ends_behind hb
  · rw [ends_free hb]
    exact ends_run ht 0

/-- Inside a run of backslashes no match starts. -/
private theorem searchFrom_inside (hb : before.head? = some 92) (k : Nat) :
    numberedEscape.searchFrom before (List.replicate k 92 ++ t) =
      numberedEscape.searchFrom (List.replicate k 92 ++ before) t := by
  induction k generalizing before with
  | zero => rfl
  | succ k ih =>
    rw [run_succ k before, ← ih rfl, List.replicate_succ, List.cons_append, searchFrom, ends_behind hb]

/-- From before a run of backslashes on, a match is found if the run is odd and a mark stands behind it, or
behind the run. -/
private theorem isSome_searchFrom_run (hb : before.head? ≠ some 92) (ht : t.head? ≠ some 92) (k : Nat) :
    (numberedEscape.searchFrom before (List.replicate k 92 ++ t)).isSome ↔
      (k % 2 = 1 ∧ ∃ c ∈ numberMarks, t.head? = some c) ∨
        (numberedEscape.searchFrom (List.replicate k 92 ++ before) t).isSome := by
  cases k with
  | zero => simp
  | succ k =>
    have hends : numberedEscape.ends ⟨before, List.replicate (k + 1) 92 ++ t⟩ ≠ [] ↔
        (k + 1) % 2 = 1 ∧ ∃ c ∈ numberMarks, t.head? = some c := by
      rw [ends_free hb, ends_run ht, ← ends_marks_ne_nil (List.replicate (k + 1) 92 ++ before)]
      split <;> simp [*]
    rw [← hends, run_succ k before, ← searchFrom_inside rfl]
    exact isSome_searchFrom_cons

end Run

/-! ### The three ways agree -/

theorem escapesFrom_run (odd : Bool) (k : Nat) (t : Text) :
    escapesFrom odd (List.replicate k 92 ++ t) = escapesFrom (odd ^^ (k % 2 == 1)) t := by
  induction k using Nat.twoStepInduction generalizing odd with
  | zero => simp
  | one => simp [escapesFrom]
  | more k ih _ =>
    rw [List.replicate_succ, List.replicate_succ, List.cons_append, List.cons_append, escapesFrom,
      escapesFrom, Bool.not_not, ih, Nat.add_mod_right]

theorem escapesFrom_cons_of_ne {odd : Bool} {c : Nat} {rest : Text} (hc : c ≠ 92) :
    escapesFrom odd (c :: rest) = true ↔
      (odd = true ∧ c ∈ numberMarks) ∨ escapesFrom false rest = true := by
  rw [escapesFrom]
  · simp [numberMarks, or_assoc]
  · exact hc

private theorem isSome_searchFrom_iff {before : Text} (hb : before.head? ≠ some 92) (t : Text) :
    (numberedEscape.searchFrom before t).isSome ↔ escapesFrom false t = true := by
  induction t using inductionOnRuns generalizing before with
  | last k =>
    have hnone : (numberedEscape.searchFrom (List.replicate k 92 ++ before) []).isSome ↔ False := by
      rw [isSome_searchFrom_nil, numberedEscape_ends_of_ne (by simp)]
      simp
    rw [← List.append_nil (List.replicate k 92), isSome_searchFrom_run hb (by simp), hnone,
      escapesFrom_run]
    simp [escapesFrom]
  | next k c rest hc ih =>
    have ht (u : Text) : (c :: u).head? ≠ some 92 := by simpa using hc
    rw [isSome_searchFrom_run hb (ht rest), isSome_searchFrom_cons, numberedEscape_ends_of_ne (ht rest),
      ih (ht _), escapesFrom_run, escapesFrom_cons_of_ne hc]
    simp

private theorem mem_pieces_iff (t : Text) :
    (∃ c ∈ numberMarks, .escape c ∈ pieces t) ↔ escapesFrom false t = true := by
  fun_induction pieces t with
  | case1 => simp [escapesFrom]
  | case2 c rest ih =>
    rw [escapesFrom]
    by_cases hc : c = 92
    · subst hc
      rw [escapesFrom, Bool.not_false, Bool.not_true, ← ih]
      simp [numberMarks]
    · rw [escapesFrom_cons_of_ne hc, ← ih]
      simp [and_or_left, exists_or]
  | case3 c rest hother ih =>
    by_cases hc : c = 92
    · have hrest : rest = [] := by
        cases rest with
        | nil => rfl
        | cons d rest => exact (hother d rest hc rfl).elim
      subst hc hrest
      simp [pieces, escapesFrom]
    · rw [escapesFrom_cons_of_ne hc, ← ih]
      simp

/-- The pattern is found in a spelling if and only if reading it from the left, each backslash together
with the character after it, meets an escape that is `x` or `u` in either case. Counting backslashes
gives the same answer. -/
theorem search_numberedEscape_iff (raw : Text) :
    ((numberedEscape.search raw).isSome ↔ ∃ c ∈ numberMarks, .escape c ∈ pieces raw) ∧
      hasEscape raw = (numberedEscape.search raw).isSome := by
  have hsearch : (numberedEscape.search raw).isSome ↔ escapesFrom false raw = true := by
    rw [search, Option.isSome_map]
    exact isSome_searchFrom_iff (by simp) raw
  exact ⟨hsearch.trans (mem_pieces_iff raw).symm,Bool.eq_iff_iff.mpr hsearch.symm⟩

-- Of three backslashes the last one escapes what follows, of two none does.
example : numberedEscape.search (Text.ofString "'\\\\\\x41'") = some (1, 5) := by decide +kernel
example : numberedEscape.search (Text.ofString "'\\\\x41'") = none := by decide +kernel

end Simplify
end Unravel
