import Unravel.Script.Machine
import Unravel.Script.Numeral

/-! The elements of arrays: those of ordinary arrays, which are kept in a row as far as they are
dense, and numbers of a fixed width in a row of bytes. -/

namespace Unravel.Script

namespace Obj

/-- The widest gap that is filled with empty places to keep an array in a row. -/
def gapLimit : Nat := 5000

/-- Puts an element of an array in place; the length follows. -/
def putItem (o : Obj) (i : Nat) (v : Value) : Obj :=
  match o with
  | ⟨proto, .array items length isFixed, members, extensible⟩ =>
    if i < items.size then ⟨proto, .array (items.setIfInBounds i v) length isFixed, members, extensible⟩
    else if i = items.size && (length = i || (members.get? (.index i)).isNone) then
      ⟨proto, .array (items.push v) (max length (i + 1)) isFixed, members, extensible⟩
    else if i ≤ items.size + gapLimit && (length = items.size || members.table.isEmpty) then
      let items := items ++ Array.replicate (i - items.size) .absent
      ⟨proto, .array (items.push v) (max length (i + 1)) isFixed, members, extensible⟩
    else
      ⟨proto, .array items (max length (i + 1)) isFixed, members.put (.index i) (.plain v), extensible⟩
  | o => o

/-- An array with all elements among its properties, where each has attributes of its own. -/
def loosened (o : Obj) : Obj :=
  match o.kind with
  | .array items length isFixed =>
    let put (ms : Members) (i : Nat) : Members :=
      match items.getD i .absent with
      | .absent => ms
      | v => ms.put (.index i) (.plain v)
    { o with
      kind := .array #[] length isFixed
      members := (List.range items.size).foldl put o.members }
  | _ => o

end Obj

namespace ElementType

def width : ElementType → Nat
  | .int8 | .uint8 | .clamped8 => 1
  | .int16 | .uint16 => 2
  | .int32 | .uint32 | .float32 => 4
  | .float64 => 8

def name : ElementType → String
  | .int8 => "Int8Array" | .uint8 => "Uint8Array" | .clamped8 => "Uint8ClampedArray"
  | .int16 => "Int16Array" | .uint16 => "Uint16Array" | .int32 => "Int32Array"
  | .uint32 => "Uint32Array" | .float32 => "Float32Array" | .float64 => "Float64Array"

def all : List ElementType :=
  [.int8, .uint8, .clamped8, .int16, .uint16, .int32, .uint32, .float32, .float64]

/-- The number that bytes spell, the least significant first. -/
def word (data : ByteArray) (offset : Nat) : Nat → UInt64 → UInt64
  | 0, v => v
  | n + 1, v => word data offset n (v * 256 + (data.data.getD (offset + n) 0).toUInt64)

def read (t : ElementType) (data : ByteArray) (offset : Nat) : Float :=
  let v := word data offset t.width 0
  match t with
  | .int8 => v.toUInt8.toInt8.toFloat
  | .uint8 | .clamped8 => v.toFloat
  | .int16 => v.toUInt16.toInt16.toFloat
  | .uint16 => v.toFloat
  | .int32 => v.toUInt32.toInt32.toFloat
  | .uint32 => v.toFloat
  | .float32 => (Float32.ofBits v.toUInt32).toFloat
  | .float64 => Float.ofBits v

def writeWord (data : ByteArray) (offset : Nat) (v : UInt64) : Nat → ByteArray
  | 0 => data
  | n + 1 =>
    let data := writeWord data offset v n
    if h : offset + n < data.size then data.set (offset + n) (v >>> (8 * n).toUInt64).toUInt8 h
    else data

/-- A number rounded to a byte, a half to the even one. -/
def clamp (x : Float) : Nat :=
  if !(0.0 < x) then 0
  else if 255.0 ≤ x then 255
  else
    let f := x.floor
    let n := f.toUInt64.toNat
    if x - f < 0.5 then n
    else if 0.5 < x - f then n + 1
    else if n % 2 = 0 then n else n + 1

def write (t : ElementType) (data : ByteArray) (offset : Nat) (x : Float) : ByteArray :=
  let bits : UInt64 := match t with
    | .clamped8 => (clamp x).toUInt64
    | .float32 => x.toFloat32.toBits.toUInt64
    | .float64 => x.toBits
    | _ => (Numeral.toUInt32 x).toUInt64
  writeWord data offset bits t.width

end ElementType

end Unravel.Script
