import Unravel.Text

/-! Text as bytes: UTF-8 and the wider encodings, and percent escapes of bytes. -/

namespace Unravel.Text

-- Powers are the built-in ones, whatever other instances are in scope.
attribute [local instance(5000)] instPowNat

/-- The bytes of a code point in UTF-8. -/
def bytesOf (c : Nat) : List Nat :=
  if c < 0x80 then [c]
  else if c < 0x800 then [0xC0 + c / 64, 0x80 + c % 64]
  else if c < 0x10000 then [0xE0 + c / 4096, 0x80 + c / 64 % 64, 0x80 + c % 64]
  else [0xF0 + c / 262144, 0x80 + c / 4096 % 64, 0x80 + c / 64 % 64, 0x80 + c % 64]

def bytes (t : Text) : List Nat := t.flatMap bytesOf

/-- The bytes that continue a character, as many as are wanted and there. -/
def continuation : Nat → List Nat → List Nat
  | n + 1, b :: rest => if b / 64 = 2 then b :: continuation n rest else []
  | _, _ => []

/-- How many bytes continue the character that a byte starts. -/
def following (b : Nat) : Nat :=
  if 0xC2 ≤ b && b < 0xE0 then 1 else if b / 16 = 14 then 2 else if 0xF0 ≤ b && b < 0xF5 then 3
  else 0

/-- Whether the second byte of a character is one of those the first allows. -/
def allowsSecond (b second : Nat) : Bool :=
  if b = 0xE0 then 0xA0 ≤ second
  else if b = 0xED then second < 0xA0
  else if b = 0xF0 then 0x90 ≤ second
  else if b = 0xF4 then second < 0x90
  else true

/-- Reads bytes as UTF-8; what spells no character becomes U+FFFD. The fuel is the number of
bytes. -/
def ofBytesFrom : Nat → List Nat → Text
  | 0, _ => []
  | _ + 1, [] => []
  | fuel + 1, b :: rest =>
    if b < 128 then b :: ofBytesFrom fuel rest
    else
      let n := following b
      let tail := continuation n rest
      let tail := if tail.head?.all (allowsSecond b) then tail else []
      if n = 0 || tail.length < n then 0xFFFD :: ofBytesFrom fuel (rest.drop tail.length)
      else
        let lead := b % 2 ^ (6 - n)
        tail.foldl (fun c d => c * 64 + d % 64) lead :: ofBytesFrom fuel (rest.drop n)

def ofBytes (bs : List Nat) : Text := ofBytesFrom bs.length bs

/-- Joins bytes to units of two; none if one is left over. -/
def pairs? (bigEnd : Bool) : List Nat → Option (List Nat)
  | [] => some []
  | [_] => none
  | a :: b :: rest =>
    (pairs? bigEnd rest).map ((if bigEnd then a * 256 + b else b * 256 + a) :: ·)

/-- Joins units of two to code points of four bytes; none if one is left over or too large. -/
def quads? (bigEnd : Bool) : List Nat → Option Text
  | [] => some []
  | [_] => none
  | a :: b :: rest =>
    let c := if bigEnd then a * 65536 + b else b * 65536 + a
    if 0x10FFFF < c then none else (quads? bigEnd rest).map (c :: ·)

/-- Reads bytes in the encoding that zeros among the first four of them give away: two or four
bytes for each unit, in either order, and else UTF-8. None if they do not fit the encoding. -/
def ofDetected? (bs : List Nat) : Option Text :=
  let wide (bigEnd : Bool) : Option Text := (pairs? bigEnd bs).map ofUnits
  let widest (bigEnd : Bool) : Option Text := (pairs? bigEnd bs).bind (quads? bigEnd)
  match bs with
  | [a, b] => if a = 0 then wide true else if b = 0 then wide false else some (ofBytes bs)
  | 0 :: b :: _ :: _ :: _ => if b = 0 then widest true else wide true
  | _ :: 0 :: c :: d :: _ => if c = 0 && d = 0 then widest false else wide false
  | _ => some (ofBytes bs)

def hexDigitValue? (c : Nat) : Option Nat :=
  if 48 ≤ c && c ≤ 57 then some (c - 48)
  else if 97 ≤ c && c ≤ 102 then some (c - 87)
  else if 65 ≤ c && c ≤ 70 then some (c - 55)
  else none

/-- The bytes of a text in which `%` and two digits stand for a byte. -/
def escapedBytes : Text → List Nat
  | [] => []
  | 37 :: a :: b :: rest =>
    match hexDigitValue? a, hexDigitValue? b with
    | some x, some y => (x * 16 + y) :: escapedBytes rest
    | _, _ => 37 :: escapedBytes (a :: b :: rest)
  | c :: rest => bytesOf c ++ escapedBytes rest

/-- Reads percent escapes; bytes that spell no character become U+FFFD. -/
def unescapePercent (t : Text) : Text := ofBytes (escapedBytes t)

end Unravel.Text
