import Unravel.Source.Lexer
import Unravel.Text.Quoted

/-! String literals as JavaScript reads them: the quotes are taken off and every escape gives the
code points it stands for. A text that is put between double quotes is read back as it was. -/

namespace Unravel.Text
open Source.Parse

/-- The number that so many hexadecimal digits at the start of a text spell. -/
def hexValue? (n : Nat) (t : Text) : Option Nat :=
  if n ≤ t.length then (t.take n).foldlM (fun v d => (hexDigit? d).map (v * 16 + ·)) 0 else none

/-- The code point of `{…}` and the length of that text. -/
def bracedValue? (t : Text) : Option (Nat × Nat) := do
  let digits := t.tail.takeWhile fun d => (hexDigit? d).isSome
  let value ← hexValue? digits.length t.tail
  if !digits.isEmpty && value ≤ 0x10FFFF && t.tail[digits.length]? = some 125 then
    some (value, digits.length + 2)
  else none

/-- What the text after a backslash stands for, and how many characters of it are the escape. The
end of a line stands for nothing, and an octal escape takes as many digits as stay below 256. -/
def escape? : Text → Option (Text × Nat)
  | [] => none
  | c :: rest =>
    if isLineEnd c then some ([], if c = 13 && rest.head? = some 10 then 2 else 1)
    else if c = 120 then (hexValue? 2 rest).map fun v => ([v], 3)
    else if c = 117 then
      if rest.head? = some 123 then (bracedValue? rest).map fun (v, n) => ([v], n + 1)
      else (hexValue? 4 rest).map fun v => ([v], 5)
    else if isOctalDigit c then
      let digits := c :: (rest.takeWhile isOctalDigit).take (if c ≤ 51 then 2 else 1)
      some ([digits.foldl (fun v d => v * 8 + (d - 48)) 0], digits.length)
    else some ([(letterEscape? c).getD c], 1)

/-- Reads up to the closing quote, which must end the text. The characters to skip are those that
an escape has taken. -/
def readFrom (quote : Nat) : Nat → Text → Option Text
  | _, [] => none
  | skip + 1, _ :: rest => readFrom quote skip rest
  | 0, c :: rest =>
    if c = quote then if rest.isEmpty then some [] else none
    else if c = 92 then do
      let (t, n) ← escape? rest
      return t ++ (← readFrom quote n rest)
    else if c = 10 || c = 13 then none
    else (readFrom quote 0 rest).map (c :: ·)

/-- The value of a string literal that is written like this; none if no literal is. -/
def readLiteral : Text → Option Text
  | [] => none
  | quote :: rest => if quote = 34 || quote = 39 then readFrom quote 0 rest else none

/-- Reads up to the closing quote like `readFrom`, and gives what is left behind it. -/
def readUpTo (quote : Nat) : Nat → Text → Option (Text × Text)
  | _, [] => none
  | skip + 1, _ :: rest => readUpTo quote skip rest
  | 0, c :: rest =>
    if c = quote then some ([], rest)
    else if c = 92 then do
      let (t, n) ← escape? rest
      let (u, left) ← readUpTo quote n rest
      return (t ++ u, left)
    else if c = 10 || c = 13 then none
    else (readUpTo quote 0 rest).map fun (t, left) => (c :: t, left)

/-- The whole of a literal is one that leaves nothing. -/
theorem readFrom_eq_bind (quote n : Nat) (t : Text) :
    readFrom quote n t =
      (readUpTo quote n t).bind fun (v, left) => if left.isEmpty then some v else none := by
  induction t generalizing n with
  | nil => cases n <;> rfl
  | cons c t ih =>
    cases n with
    | succ n => rw [readFrom, readUpTo, ih]
    | zero =>
      simp only [readFrom, readUpTo, ih]
      split
      · rfl
      split
      · cases escape? t with
        | none => rfl
        | some e => rcases h : readUpTo quote e.2 t with _ | ⟨v,_ | _⟩ <;> simp [h]
      split
      · rfl
      · rcases readUpTo quote 0 t with _ | ⟨v,_ | _⟩ <;> rfl

private theorem readUpTo_skip (quote : Nat) (taken rest : Text) :
    readUpTo quote taken.length (taken ++ rest) = readUpTo quote 0 rest := by
  induction taken with
  | nil => rfl
  | cons c taken ih => rw [List.length_cons, List.cons_append, readUpTo, ih]

/-- An escape is read as what it stands for, and reading goes on behind it. -/
private theorem readUpTo_escape {quote : Nat} (taken t : Text) {rest : Text} (hq : quote ≠ 92)
    (h : escape? (taken ++ rest) = some (t, taken.length)) :
    readUpTo quote 0 (92 :: taken ++ rest) =
      (readUpTo quote 0 rest).map fun (u, left) => (t ++ u, left) := by
  have hn : 92 ≠ quote := fun he => hq he.symm
  rw [List.cons_append, readUpTo, if_neg hn, if_pos rfl, h]
  simp only [Option.bind_eq_bind, Option.bind_some, readUpTo_skip]
  cases readUpTo quote 0 rest <;> rfl

private theorem hexDigit?_digit {d : Nat} (h : d < 16) :
    hexDigit? (if d < 10 then 48 + d else 87 + d) = some d := by
  unfold hexDigit?
  split
  · rw [if_pos (by simp; omega)]
    congr 1
    omega
  · rw [if_neg (by simp; omega), if_pos (by simp; omega)]
    congr 1
    omega

/-- Four hexadecimal digits of a control character are read as it. -/
private theorem escape?_hex4 {c : Nat} (h : c < 32) (rest : Text) :
    escape? ((117 :: hex4 c) ++ rest) = some ([c], 5) := by
  have hvalue : hexValue? 4 (hex4 c ++ rest) = some c := by
    have hd (n : Nat) := hexDigit?_digit (Nat.mod_lt n (show 0 < 16 by omega))
    simp [hexValue?, hex4, hd]
    omega
  have hbrace : (hex4 c ++ rest).head? ≠ some 123 := by
    simp only [hex4, List.cons_append, List.head?_cons, ne_eq, Option.some.injEq]
    split <;> omega
  rw [List.cons_append, escape?, if_neg (by decide), if_neg (by decide), if_pos rfl, if_neg hbrace,
    hvalue]
  rfl

/-- The escape of a character is read as the character. -/
private theorem readUpTo_escaped? {c : Nat} {e : Text} (h : escaped? c = some e) (rest : Text) :
    readUpTo 34 0 (e ++ rest) = (readUpTo 34 0 rest).map fun (t, left) => (c :: t, left) := by
  unfold escaped? at h
  split at h
  case h_8 =>
    split at h
    · obtain rfl := Option.some.inj h
      exact readUpTo_escape (117 :: hex4 c) [c] (by decide) (escape?_hex4 ‹_› rest)
    · cases h
  all_goals
    obtain rfl := Option.some.inj h
    exact readUpTo_escape [_] [_] (by decide) rfl

private theorem readUpTo_plain {c : Nat} (h : escaped? c = none) (rest : Text) :
    readUpTo 34 0 (c :: rest) = (readUpTo 34 0 rest).map fun (t, left) => (c :: t, left) := by
  have hc : c ≠ 34 ∧ c ≠ 92 ∧ c ≠ 10 ∧ c ≠ 13 := by
    refine ⟨?_,?_,?_,?_⟩ <;> rintro rfl <;> cases h
  rw [readUpTo, if_neg hc.1, if_neg hc.2.1, if_neg (by simp [hc.2.2])]

/-- What is between the quotes of a quoted text is read as the text, whatever stands behind it. -/
theorem readUpTo_quoted (t rest : Text) :
    readUpTo 34 0 (t.flatMap (fun c => (escaped? c).getD [c]) ++ 34 :: rest) = some (t, rest) := by
  induction t with
  | nil => rfl
  | cons c t ih =>
    rw [List.flatMap_cons, List.append_assoc]
    cases he : escaped? c with
    | none =>
      rw [Option.getD_none, List.singleton_append, readUpTo_plain he, ih]
      rfl
    | some e =>
      rw [Option.getD_some, readUpTo_escaped? he, ih]
      rfl

/-- A quoted text is read back as it was, whatever its code points are. -/
theorem readLiteral_quoted (t : Text) : readLiteral t.quoted = some t := by
  have hbody := readFrom_eq_bind 34 0 (t.flatMap (fun c => (escaped? c).getD [c]) ++ [34])
  rw [readUpTo_quoted] at hbody
  exact hbody

/-- Both quotes, a line that goes on, and the escapes of the grammar. -/
example : readLiteral (ofString "'\\x41\\u0042\\u{43}\\104\\v\\q\\\n\"'") =
    some (ofString "ABCD" ++ [11] ++ ofString "q\"") := by decide

end Unravel.Text
