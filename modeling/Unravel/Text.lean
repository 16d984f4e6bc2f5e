/-! Text as a sequence of code points. A `String` cannot hold a surrogate, but a literal can:
the escapes of a surrogate pair are two code points and differ from the one character they spell. -/

namespace Unravel

/-- A sequence of code points, surrogates included. -/
abbrev Text := List Nat

namespace Text

def ofString (s : String) : Text :=
  s.toList.map Char.toNat

def isSurrogate (c : Nat) : Bool :=
  0xD800 ≤ c && c < 0xE000

/-- The text as a string. A surrogate becomes U+FFFD, since no string holds one. -/
def toString (t : Text) : String :=
  String.ofList (t.map fun c => if isSurrogate c then Char.ofNat 0xFFFD else Char.ofNat c)

/-- The UTF-16 code units of one code point. -/
def unitsOf (c : Nat) : List Nat :=
  if c < 0x10000 then [c]
  else [0xD800 + (c - 0x10000) / 0x400, 0xDC00 + (c - 0x10000) % 0x400]

/-- The UTF-16 code units of a text. Equal units mean equal strings when the program runs. -/
def units (t : Text) : List Nat :=
  t.flatMap unitsOf

/-- Reads code units back, joining each surrogate pair into its character. -/
def ofUnits : List Nat → Text
  | [] => []
  | [u] => [u]
  | u :: v :: rest =>
    if 0xD800 ≤ u && u < 0xDC00 && 0xDC00 ≤ v && v < 0xE000 then
      (0x10000 + (u - 0xD800) * 0x400 + (v - 0xDC00)) :: ofUnits rest
    else u :: ofUnits (v :: rest)

/-- Cuts a text at every occurrence of one code point; the pieces number one more than the cuts. -/
def splitAt (sep : Nat) : Text → List Text
  | [] => [[]]
  | c :: rest =>
    match splitAt sep rest with
    | [] => [[]]
    | piece :: pieces => if c = sep then [] :: piece :: pieces else (c :: piece) :: pieces

/-- Joins texts with a separator between neighbours. -/
def join (sep : Text) : List Text → Text
  | [] => []
  | [t] => t
  | t :: rest => t ++ sep ++ join sep rest

/-- The text with every line end, however it is written, as a line feed. -/
def plainLines : Text → Text
  | [] => []
  | 13 :: 10 :: rest => 10 :: plainLines rest
  | c :: rest => (if c = 13 then 10 else c) :: plainLines rest

/-- Code-point order, the shorter of two first where one starts the other. -/
def ble : Text → Text → Bool
  | [], _ => true
  | _ :: _, [] => false
  | c :: s, d :: t => if c = d then ble s t else c < d

/-- Lower-case hexadecimal digits of a code unit, four places. -/
def hex4 (n : Nat) : Text :=
  let digit (d : Nat) : Nat := if d < 10 then 48 + d else 87 + d
  [digit (n / 4096 % 16), digit (n / 256 % 16), digit (n / 16 % 16), digit (n % 16)]

end Text

end Unravel
