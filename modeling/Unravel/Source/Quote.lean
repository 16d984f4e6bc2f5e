import Unravel.Text.NameChars

/-! String literals as the printer writes them: single quotes, with characters that are neither
ASCII nor fit for a name spelled in code units. -/

namespace Unravel.Source

def upperHex (width n : Nat) : Text :=
  let digits := (Nat.toDigits 16 n).map fun c => c.toUpper.toNat
  List.replicate (width - digits.length) 48 ++ digits

/-- Escape of a code unit that is not printed as it is; `next` is the unit after it. -/
def escapeUnit (u : Nat) (next : Option Nat) : Text :=
  match u with
  | 8 => [92, 98]
  | 12 => [92, 102]
  | 9 => [92, 116]
  | 11 => Text.ofString "\\x0b"
  | 0 => if next.any Text.isAsciiDigit then Text.ofString "\\x00" else [92, 48]
  | u => if 0xFF < u then [92, 117] ++ upperHex 4 u else [92, 120] ++ upperHex 2 u

/-- A character between quotes; `next` is the one after it. One beyond the first plane that fits no
name is spelled in its two code units. -/
def quoteChar (c : Nat) (next : Option Nat) : Text :=
  match c with
  | 39 => [92, 39]
  | 92 => [92, 92]
  | 10 => [92, 110]
  | 13 => [92, 114]
  | 0x2028 => Text.ofString "\\u2028"
  | 0x2029 => Text.ofString "\\u2029"
  | c =>
    if (32 ≤ c && c ≤ 126) || Text.isLateNamePart c then [c]
    else (Text.unitsOf c).flatMap fun u => escapeUnit u next

def quoteChars : Text → Text
  | [] => []
  | c :: rest => quoteChar c rest.head? ++ quoteChars rest

/-- The literal of a text between single quotes. -/
def singleQuoted (t : Text) : Text :=
  [39] ++ quoteChars t ++ [39]

end Unravel.Source
