import Unravel.Text

/-! Double-quoted spelling of a text: quote, backslash and control characters are escaped.
One form keeps all other characters, the other spells everything beyond ASCII in code units. -/

namespace Unravel.Text

/-- Escape of a character that has a short one, or must not stand for itself. -/
def escaped? (c : Nat) : Option Text :=
  match c with
  | 34 => some [92, 34]
  | 92 => some [92, 92]
  | 10 => some [92, 110]
  | 13 => some [92, 114]
  | 9 => some [92, 116]
  | 8 => some [92, 98]
  | 12 => some [92, 102]
  | c => if c < 32 then some ([92, 117] ++ hex4 c) else none

/-- The text between double quotes, characters from U+007F on kept. -/
def quoted (t : Text) : Text :=
  [34] ++ t.flatMap (fun c => (escaped? c).getD [c]) ++ [34]

/-- The text between double quotes in ASCII alone: other characters as code-unit escapes. -/
def quotedAscii (t : Text) : Text :=
  [34] ++ t.flatMap (fun c => (escaped? c).getD
    (if c < 127 then [c] else (unitsOf c).flatMap fun u => [92, 117] ++ hex4 u)) ++ [34]

end Unravel.Text
