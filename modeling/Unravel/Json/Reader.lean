import Unravel.Json
import Unravel.Text.Bytes

/-! Reading JSON text. A later member of an object replaces an earlier one of the same key, and
the words `NaN`, `Infinity` and `-Infinity` are numbers. -/

namespace Unravel.Json

def isBlank (c : Nat) : Bool := c = 32 || c = 9 || c = 10 || c = 13

def skipBlanks (t : Text) : Text := t.dropWhile isBlank

def isDigit (c : Nat) : Bool := 48 ≤ c && c ≤ 57

def hex4? : Text → Option (Nat × Text)
  | a :: b :: c :: d :: rest => do
    let a ← Text.hexDigitValue? a
    let b ← Text.hexDigitValue? b
    let c ← Text.hexDigitValue? c
    let d ← Text.hexDigitValue? d
    return (a * 4096 + b * 256 + c * 16 + d, rest)
  | _ => none

/-- The characters up to the closing quote, with escapes read, and what follows. The fuel is more
than the characters left. -/
def stringBody (fuel : Nat) (done : Text) (t : Text) : Option (Text × Text) :=
  match fuel with
  | 0 => none
  | fuel + 1 =>
    match t with
    | [] => none
    | 34 :: rest => some (done.reverse, rest)
    | 92 :: 117 :: rest => do
      let (u, rest) ← hex4? rest
      if 0xD800 ≤ u && u < 0xDC00 then
        match rest with
        | 92 :: 117 :: more =>
          match hex4? more with
          | some (v, more) =>
            if 0xDC00 ≤ v && v < 0xE000 then
              stringBody fuel ((0x10000 + (u - 0xD800) * 0x400 + (v - 0xDC00)) :: done) more
            else stringBody fuel (u :: done) rest
          | none => stringBody fuel (u :: done) rest
        | _ => stringBody fuel (u :: done) rest
      else stringBody fuel (u :: done) rest
    | 92 :: c :: rest =>
      match c with
      | 34 => stringBody fuel (34 :: done) rest
      | 92 => stringBody fuel (92 :: done) rest
      | 47 => stringBody fuel (47 :: done) rest
      | 98 => stringBody fuel (8 :: done) rest
      | 102 => stringBody fuel (12 :: done) rest
      | 110 => stringBody fuel (10 :: done) rest
      | 114 => stringBody fuel (13 :: done) rest
      | 116 => stringBody fuel (9 :: done) rest
      | _ => none
    | c :: rest => if c < 32 then none else stringBody fuel (c :: done) rest

def natOf (ds : Text) : Nat := ds.foldl (fun n c => n * 10 + (c - 48)) 0

/-- The exponent part after a mantissa: its value if one is written in full. -/
def exponent? : Text → Option (Int × Text)
  | e :: rest =>
    if e = 101 || e = 69 then
      let (negative, body) := match rest with
        | 45 :: more => (true, more)
        | 43 :: more => (false, more)
        | more => (false, more)
      let ds := body.takeWhile isDigit
      if ds.isEmpty then none
      else
        let v : Int := natOf ds
        some (if negative then -v else v, body.dropWhile isDigit)
    else none
  | [] => none

/-- The number at the front: an integer unless a fraction or an exponent is written. -/
def number? (t : Text) : Option (Number × Text) :=
  let (negative, body) := match t with
    | 45 :: more => (true, more)
    | more => (false, more)
  let whole := match body with
    | 48 :: _ => [48]
    | more => more.takeWhile isDigit
  if whole.isEmpty then none
  else
    let rest := body.drop whole.length
    let (fraction, rest) := match rest with
      | 46 :: more =>
        let ds := more.takeWhile isDigit
        if ds.isEmpty then ([], rest) else (ds, more.dropWhile isDigit)
      | _ => ([], rest)
    match exponent? rest with
    | some (e, rest) =>
      some (.double (Double.ofDecimal negative (natOf (whole ++ fraction)) (e - fraction.length)), rest)
    | none =>
      if fraction.isEmpty then
        if Number.digitLimit < whole.length then none
        else some (.int (if negative then -(natOf whole : Int) else natOf whole), rest)
      else
        some (.double (Double.ofDecimal negative (natOf (whole ++ fraction)) (-fraction.length)), rest)

/-- The rest of a text after a word it starts with. -/
def word? (w : String) (t : Text) : Option Text :=
  let w := Text.ofString w
  if w.isPrefixOf t then some (t.drop w.length) else none

mutual
/-- The value at the front of a text and what follows it. The fuel is more than twice the characters
left, for no two steps in a row read nothing. -/
def value? (fuel : Nat) (t : Text) : Option (Json × Text) :=
  match fuel with
  | 0 => none
  | fuel + 1 =>
    match t with
    | 34 :: rest => (stringBody fuel [] rest).map fun (s, rest) => (.text s, rest)
    | 123 :: rest =>
      match skipBlanks rest with
      | 125 :: rest => some (.object [], rest)
      | rest => members? fuel [] rest
    | 91 :: rest =>
      match skipBlanks rest with
      | 93 :: rest => some (.list [], rest)
      | rest => items? fuel [] rest
    | t =>
      match word? "null" t with
      | some rest => some (.null, rest)
      | none =>
      match word? "true" t with
      | some rest => some (.bool true, rest)
      | none =>
      match word? "false" t with
      | some rest => some (.bool false, rest)
      | none =>
      match word? "NaN" t with
      | some rest => some (.number (.double .nan), rest)
      | none =>
      match word? "Infinity" t with
      | some rest => some (.number (.double (.infinite false)), rest)
      | none =>
      match word? "-Infinity" t with
      | some rest => some (.number (.double (.infinite true)), rest)
      | none => (number? t).map fun (n, rest) => (.number n, rest)
def items? (fuel : Nat) (done : List Json) (t : Text) : Option (Json × Text) :=
  match fuel with
  | 0 => none
  | fuel + 1 => do
    let (j, rest) ← value? fuel t
    match skipBlanks rest with
    | 44 :: rest => items? fuel (j :: done) (skipBlanks rest)
    | 93 :: rest => some (.list (j :: done).reverse, rest)
    | _ => none
def members? (fuel : Nat) (done : List (Text × Json)) (t : Text) : Option (Json × Text) :=
  match fuel with
  | 0 => none
  | fuel + 1 =>
    match t with
    | 34 :: rest => do
      let (key, rest) ← stringBody fuel [] rest
      match skipBlanks rest with
      | 58 :: rest =>
        let (j, rest) ← value? fuel (skipBlanks rest)
        match skipBlanks rest with
        | 44 :: rest => members? fuel (put key j done) (skipBlanks rest)
        | 125 :: rest => some (.object (put key j done), rest)
        | _ => none
      | _ => none
    | _ => none
end

/-- The value a whole text spells, blanks around it allowed. -/
def parse? (t : Text) : Option Json := do
  let (j, rest) ← value? (2 * t.length + 2) (skipBlanks t)
  if (skipBlanks rest).isEmpty then some j else none

end Unravel.Json
