import Unravel.Script.Operator

/-! The texts that take the place of what a search finds. -/

namespace Unravel.Script

/-- What a search found: where, what, and the parts of it that groups caught. -/
structure Finding where
  place : Nat
  matched : Units
  captures : Array Value := #[]
  /-- The object of the groups with names. -/
  groups : Value := .undefined

namespace Finding

/-- What stands behind a dollar sign in a replacement: the text for it, and how many units it
takes; none if the sign stands for itself. -/
def mark? (h : Host) (f : Finding) (u template : Units) (i : Nat) : Run (Option (Units × Nat)) := do
  if template.size ≤ i + 1 then return none
  let c := template.at0 (i + 1)
  if c == 36 then return some (#[36], 2)
  if c == 38 then return some (f.matched, 2)
  if c == 96 then return some (u.extract 0 f.place, 2)
  if c == 39 then return some (u.extract (f.place + f.matched.size) u.size, 2)
  if Units.isDigit c then
    let one := c.toNat - 48
    let d := template.at0 (i + 2)
    let two := if i + 2 < template.size && Units.isDigit d then one * 10 + (d.toNat - 48) else 0
    let caught (n taken : Nat) : Run (Option (Units × Nat)) := do
      match f.captures.getD (n - 1) .undefined with
      | .undefined => return some (#[], taken)
      | v => return some (← Run.toText h v, taken)
    if 1 ≤ two && two ≤ f.captures.size then return ← caught two 3
    if 1 ≤ one && one ≤ f.captures.size then return ← caught one 2
    return none
  if c == 60 && !f.groups.isUndefined then
    match template.indexOf #[62] (i + 2) with
    | none => return none
    | some stop =>
      let name := template.extract (i + 2) stop
      match ← Run.getValue h f.groups (.ofUnits name) with
      | .undefined => return some (#[], stop + 1 - i)
      | v => return some (← Run.toText h v, stop + 1 - i)
  return none

/-- A replacement with its marks filled in, from a place on. -/
def filledFrom (h : Host) (f : Finding) (u template : Units) : Nat → Nat → Units → Run Units
  | 0, _, done => return done
  | n + 1, i, done => do
    if template.size ≤ i then return done
    let c := template.at0 i
    if c != 36 then filledFrom h f u template n (i + 1) (done.push c)
    else
      match ← f.mark? h u template i with
      | some (t, taken) => filledFrom h f u template n (i + taken) (done ++ t)
      | none => filledFrom h f u template n (i + 1) (done.push c)

/-- What takes the place of a finding: what a function gives for it, or a text with its marks filled
in. -/
def replacement (h : Host) (f : Finding) (u : Units) (by' : Sum Value Units) : Run Units := do
  match by' with
  | .inl fn =>
    let groups := if f.groups.isUndefined then #[] else #[f.groups]
    Run.toText h (← h.call fn .undefined
      (#[Value.string f.matched] ++ f.captures ++ #[.ofNat f.place, .string u] ++ groups))
  | .inr template => f.filledFrom h u template template.size 0 #[]

end Finding

/-- What a replacement is made by: a function, or a text. -/
def replacerOf (h : Host) (v : Value) : Run (Sum Value Units) := do
  if ← Run.isCallable v then return .inl v else return .inr (← Run.toText h v)

end Unravel.Script
