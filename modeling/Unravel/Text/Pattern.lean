import Unravel.Text.LetterCase

/-! Patterns and the search for them with backtracking. A pattern lists the places where a match can end, in
the order in which they are tried; a search takes the leftmost place that has an end. -/

namespace Unravel.Text

/-- The form in which characters are compared when their case does not count: the capital of the small
letter. -/
def caseless (c : Nat) : Text := upperForm ((lowerForm [] c []).headD c)

/-- Whether a character is one of several, in some case. -/
def admits (cs : List Nat) (c : Nat) : Bool := cs.any fun d => caseless d = caseless c

/-- What is searched for. The case of letters does not count. -/
inductive Pattern where
  /-- One character out of several. -/
  | among (cs : List Nat)
  /-- Nothing, where none of several characters stands right before. -/
  | notAfter (cs : List Nat)
  | row (first rest : Pattern)
  /-- Any number of times, as often as possible first. -/
  | many (body : Pattern)

namespace Pattern

/-- A place in a text: what stands before it, nearest first, and the rest. -/
structure Place where
  before : Text
  rest : Text

/-- The places that up to so many steps lead to, those of more steps first. No step follows one that
takes nothing. -/
def repeated (step : Place → List Place) : Nat → Place → List Place
  | 0, s => [s]
  | n + 1, s =>
    ((step s).flatMap fun e => if e.rest.length < s.rest.length then repeated step n e else [e]) ++ [s]

/-- Where a match from a place on can end, in the order in which backtracking comes to it. -/
def ends : Pattern → Place → List Place
  | among cs, s =>
    match s.rest with
    | [] => []
    | c :: rest => if admits cs c then [⟨c :: s.before, rest⟩] else []
  | notAfter cs, s => if s.before.head?.any (admits cs) then [] else [s]
  | row p q, s => (p.ends s).flatMap q.ends
  | many p, s => repeated p.ends (s.rest.length + 1) s

/-- The first match that starts in the rest of a text: where it starts and where it ends. -/
def searchFrom (p : Pattern) (before : Text) : Text → Option (Place × Place)
  | [] => (p.ends ⟨before, []⟩).head?.map (⟨before, []⟩, ·)
  | c :: rest =>
    match p.ends ⟨before, c :: rest⟩ with
    | e :: _ => some (⟨before, c :: rest⟩, e)
    | [] => searchFrom p (c :: before) rest

/-- The bounds of the first match in a text. -/
def search (p : Pattern) (t : Text) : Option (Nat × Nat) :=
  (p.searchFrom [] t).map fun (start, stop) => (start.before.length, stop.before.length)

end Pattern
end Unravel.Text
