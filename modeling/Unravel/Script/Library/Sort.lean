import Unravel.Script.Change

/-! Sorting by a comparison that a script gives. The sort is stable. The script can see which items
are compared, so for short rows that is part of the rule: each item in turn goes to the place among
those before it that halving finds. Longer rows are sorted piece by piece and merged. -/

namespace Unravel.Script.Sort

/-- A comparison: negative, zero or positive. -/
abbrev Comparison := Value → Value → Run Float

/-- Where an item goes among those from `left` to `right`, after its equals. So many halvings are
made at most. -/
def place (cmp : Comparison) (work : Array Value) (pivot : Value) : Nat → Nat → Nat → Run Nat
  | 0, left, _ => return left
  | n + 1, left, right => do
    if left < right then
      let mid := left + (right - left) / 2
      if (← cmp pivot (work.getD mid .undefined)) < 0.0 then place cmp work pivot n left mid
      else place cmp work pivot n (mid + 1) right
    else return left

/-- The rows in which an item stands at the place that `place` finds. -/
def insertFrom (cmp : Comparison) : List Value → Array Value → Run (Array Value)
  | [], done => return done
  | v :: rest, done => do
    let i ← place cmp done v 64 0 done.size
    insertFrom cmp rest (done.insertIdxIfInBounds i v)

/-- Merges two sorted rows, an item of the first before its equals in the second. -/
def merge (cmp : Comparison) : Nat → List Value → List Value → Array Value → Run (Array Value)
  | 0, xs, ys, done => return done ++ xs.toArray ++ ys.toArray
  | _, [], ys, done => return done ++ ys.toArray
  | _, xs, [], done => return done ++ xs.toArray
  | n + 1, x :: xs, y :: ys, done => do
    if (← cmp y x) < 0.0 then merge cmp n (x :: xs) ys (done.push y)
    else merge cmp n xs (y :: ys) (done.push x)

/-- Merges neighbours, once through a list of rows. -/
def mergePairs (cmp : Comparison) : List (Array Value) → Run (List (Array Value))
  | a :: b :: rest => do
    let m ← merge cmp (a.size + b.size) a.toList b.toList (Array.mkEmpty (a.size + b.size))
    return m :: (← mergePairs cmp rest)
  | rows => return rows

/-- Merges rows until one is left. -/
def mergeAll (cmp : Comparison) : Nat → List (Array Value) → Run (Array Value)
  | 0, rows => return rows.foldl (· ++ ·) #[]
  | _, [] => return #[]
  | _, [row] => return row
  | n + 1, rows => do mergeAll cmp n (← mergePairs cmp rows)

/-- The length of the pieces that are sorted by insertion. -/
def pieceSize : Nat := 32

/-- The pieces of a row, in order. -/
def pieces (items : Array Value) : List (Array Value) :=
  (List.range ((items.size + pieceSize - 1) / pieceSize)).map fun k =>
    items.extract (k * pieceSize) ((k + 1) * pieceSize)

/-- Sorts by a comparison. -/
def sorted (cmp : Comparison) (items : Array Value) : Run (Array Value) := do
  if items.size < 64 then insertFrom cmp items.toList #[]
  else
    let mut rows := []
    for p in pieces items do
      rows := (← insertFrom cmp p.toList #[]) :: rows
    mergeAll cmp 64 rows.reverse

end Unravel.Script.Sort
