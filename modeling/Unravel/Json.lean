import Unravel.Number.Basic
import Unravel.Text.Quoted

/-! JSON values with code-point text and numbers that keep their kind. -/

namespace Unravel

/-- A JSON value. An object keeps its members in order, each key once. -/
inductive Json where
  | null
  | bool (value : Bool)
  | number (value : Number)
  | text (value : Text)
  | list (items : List Json)
  | object (members : List (Text × Json))
deriving Repr

instance : Inhabited Json := ⟨.null⟩

namespace Json

def ofString (s : String) : Json := .text (Text.ofString s)

def ofNat (n : Nat) : Json := .number (.int n)

/-- An object from members with plain names. -/
def record (members : List (String × Json)) : Json :=
  .object (members.map fun (k, v) => (Text.ofString k, v))

def lookup (key : Text) : List (Text × Json) → Option Json
  | [] => none
  | (k, v) :: rest => if k = key then some v else lookup key rest

/-- The member of an object under a plain name. -/
def get? (j : Json) (key : String) : Option Json :=
  match j with
  | .object ms => lookup (Text.ofString key) ms
  | _ => none

/-- Sets a member: a known key keeps its place and takes the new value. -/
def put (key : Text) (value : Json) : List (Text × Json) → List (Text × Json)
  | [] => [(key, value)]
  | (k, v) :: rest => if k = key then (k, value) :: rest else (k, v) :: put key value rest

/-- How a value is laid out: with line breaks at a given indent, or on one line. -/
inductive Style where
  | compact
  | indented (width : Nat)

def numberText : Number → Text
  | .int n => Text.ofString (Number.intText n)
  | .double .nan => Text.ofString "NaN"
  | .double (.infinite s) => Text.ofString (if s then "-Infinity" else "Infinity")
  | .double d => Text.ofString (Number.doubleText d)

/-- The break before an item, or before a closing bracket. -/
def lineBreak (style : Style) (level : Nat) : Text :=
  match style with
  | .compact => []
  | .indented w => 10 :: List.replicate (w * level) 32

def itemSeparator (style : Style) (level : Nat) : Text :=
  match style with
  | .compact => [44, 32]
  | .indented _ => 44 :: lineBreak style level

/-- Brackets around items; nothing stands between the brackets of an empty value. -/
def bracket (style : Style) (level : Nat) (opening closing : Nat) (items : List Text) : Text :=
  match items with
  | [] => [opening, closing]
  | items => [opening] ++ lineBreak style (level + 1)
      ++ Text.join (itemSeparator style (level + 1)) items ++ lineBreak style level ++ [closing]

mutual
/-- The value in ASCII. Items are divided by `", "` and keys from values by `": "`. -/
def render (style : Style) (level : Nat) : Json → Text
  | .null => Text.ofString "null"
  | .bool b => Text.ofString (if b then "true" else "false")
  | .number n => numberText n
  | .text t => t.quotedAscii
  | .list items => bracket style level 91 93 (renderItems style (level + 1) items)
  | .object ms => bracket style level 123 125 (renderMembers style (level + 1) ms)
def renderItems (style : Style) (level : Nat) : List Json → List Text
  | [] => []
  | j :: rest => render style level j :: renderItems style level rest
def renderMembers (style : Style) (level : Nat) : List (Text × Json) → List Text
  | [] => []
  | (k, j) :: rest =>
    (k.quotedAscii ++ [58, 32] ++ render style level j) :: renderMembers style level rest
end

end Json

end Unravel
