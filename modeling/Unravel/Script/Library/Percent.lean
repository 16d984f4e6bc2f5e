import Unravel.Script.Library.Setup
import Unravel.Text.Bytes

/-! Percent escapes: characters outside a set are written as hexadecimal bytes, or code units. -/

namespace Unravel.Script.Library

open Run

namespace Percent

def hexDigit (d : Nat) : UInt16 := (if d < 10 then 48 + d else 55 + d).toUInt16

def hexByte (b : Nat) : Units := #[37, hexDigit (b / 16 % 16), hexDigit (b % 16)]

/-- Characters that keep their form: letters, digits and the given marks. -/
def kept (marks : Text) (c : Nat) : Bool :=
  Text.isAsciiLetter c || Text.isAsciiDigit c || marks.contains c

def componentMarks : Text := Text.ofString "-_.!~*'()"

def reservedMarks : Text := Text.ofString ";/?:@&=+$,#"

def malformed {α : Type} : Run α := raise .uri "URI malformed"

def encode (marks : Text) : Native := fun h _ args _ => do
  let t := (← toText h (argument args 0)).toText
  if t.any Text.isSurrogate then malformed
  return .string (t.foldl (fun (u : Units) c =>
    if kept marks c then u.push c.toUInt16
    else (Text.bytesOf c).foldl (fun u b => u ++ hexByte b) u) #[])

/-- The byte that is escaped at a place. -/
def byteAt? (u : Units) (i : Nat) : Option Nat := do
  if u.size < i + 3 || u.at0 i != 37 then none
  let a ← Numeral.digitValue? (u.at0 (i + 1))
  let b ← Numeral.digitValue? (u.at0 (i + 2))
  if a < 16 && b < 16 then some (a * 16 + b) else none

/-- So many escaped bytes that continue a character. -/
def continued? (u : Units) : Nat → Nat → Nat → Option Nat
  | 0, _, c => some c
  | n + 1, i, c => do
    let b ← byteAt? u i
    if b / 64 = 2 then continued? u n (i + 3) (c * 64 + b % 64) else none

/-- The character whose bytes are escaped from a place on, and how many bytes it takes. The
shortest form is the only one. -/
def characterAt? (u : Units) (i : Nat) : Option (Nat × Nat) := do
  let b ← byteAt? u i
  if b < 0x80 then return (b, 1)
  let (count, start, least) ←
    if b / 32 = 6 then some (1, b % 32, 0x80)
    else if b / 16 = 14 then some (2, b % 16, 0x800)
    else if b / 8 = 30 then some (3, b % 8, 0x10000)
    else none
  let c ← continued? u count (i + 3) start
  if c < least || 0x10FFFF < c || Text.isSurrogate c then none else some (c, count + 1)

/-- Reads escapes; one that spells a character in `left` stays as it is. -/
def decodeFrom (left : Text) (u : Units) : Nat → Nat → Units → Run Units
  | 0, _, done => return done
  | n + 1, i, done => do
    if u.size ≤ i then return done
    if u.at0 i != 37 then decodeFrom left u n (i + 1) (done.push (u.at0 i))
    else
      match characterAt? u i with
      | some (c, count) =>
        let next := i + 3 * count
        decodeFrom left u n next
          (if left.contains c then done ++ u.extract i next else done.pushPoint c)
      | none => malformed

def decode (left : Text) : Native := fun h _ args _ => do
  let u ← toText h (argument args 0)
  return .string (← decodeFrom left u u.size 0 #[])

def escape : Native := fun h _ args _ => do
  let u ← toText h (argument args 0)
  let marks := Text.ofString "@*_+-./"
  return .string (u.foldl (fun (done : Units) c =>
    let n := c.toNat
    if kept marks n then done.push c
    else if n < 256 then done ++ hexByte n
    else done ++ #[37, 117, hexDigit (n / 4096), hexDigit (n / 256 % 16), hexDigit (n / 16 % 16),
      hexDigit (n % 16)]) #[])

/-- A number of hexadecimal digits at a place. -/
def hexAt? (u : Units) : Nat → Nat → Nat → Option Nat
  | 0, _, v => some v
  | n + 1, i, v => do
    if u.size ≤ i then none
    let d ← Numeral.digitValue? (u.at0 i)
    if d < 16 then hexAt? u n (i + 1) (v * 16 + d) else none

/-- Reads escapes of bytes and of code units; what is none stays as it is. -/
def unescapeFrom (u : Units) : Nat → Nat → Units → Units
  | 0, _, done => done
  | n + 1, i, done =>
    if u.size ≤ i then done
    else if u.at0 i != 37 then unescapeFrom u n (i + 1) (done.push (u.at0 i))
    else
      let wide := if u.at0 (i + 1) == 117 then hexAt? u 4 (i + 2) 0 else none
      match wide with
      | some v => unescapeFrom u n (i + 6) (done.push v.toUInt16)
      | none =>
        match hexAt? u 2 (i + 1) 0 with
        | some v => unescapeFrom u n (i + 3) (done.push v.toUInt16)
        | none => unescapeFrom u n (i + 1) (done.push 37)

def unescape : Native := fun h _ args _ => do
  let u ← toText h (argument args 0)
  return .string (unescapeFrom u u.size 0 #[])

end Percent

open Setup in
def setupPercent : Setup Unit :=
  methods Fixed.global.ref
    [("encodeURIComponent", 1, Percent.encode Percent.componentMarks),
     ("encodeURI", 1, Percent.encode (Percent.componentMarks ++ Percent.reservedMarks)),
     ("decodeURIComponent", 1, Percent.decode []),
     ("decodeURI", 1, Percent.decode Percent.reservedMarks),
     ("escape", 1, Percent.escape), ("unescape", 1, Percent.unescape)]

end Unravel.Script.Library
