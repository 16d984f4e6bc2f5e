import Unravel.Scope.Analysis
import Unravel.Syntax.Repeated
import Unravel.Text.LetterCase

/-! Readable names for generated ones. A binding named like `_0x3f2a` or `a1_0x3f2a` takes a name
that tells its role and that nothing else in the program uses. -/

namespace Unravel

namespace Rename

def isHexDigit (c : Nat) : Bool :=
  (48 ≤ c && c ≤ 57) || (97 ≤ c && c ≤ 102) || (65 ≤ c && c ≤ 70)

/-- `_0x` and hexadecimal digits to the end, where one final line feed does not count. -/
def isHexTail : Text → Bool
  | 95 :: 48 :: x :: rest =>
    (x = 120 || x = 88) &&
      (let digits := rest.takeWhile isHexDigit
       let after := rest.dropWhile isHexDigit
       !digits.isEmpty && (after.isEmpty || after = [10]))
  | _ => false

/-- A generated name: a hexadecimal tail, alone or after `a` and decimal digits of any script. -/
def isHexName (name : Text) : Bool :=
  isHexTail name ||
    match name with
    | c :: rest =>
      (c = 97 || c = 65) &&
        (let digits := rest.takeWhile Text.isDecimal
         !digits.isEmpty && isHexTail (rest.dropWhile Text.isDecimal))
    | [] => false

/-- The word that tells a role; a component starts with a capital, as its tag must. -/
def roleWord (kind : BindingKind) (component : Bool) : String :=
  match kind, component with
  | .function, false => "func"
  | .function, true => "Func"
  | .param, false => "param"
  | .param, true => "Param"
  | .var, false => "var"
  | .var, true => "Var"

/-- Names in use, and the last number given out per role. -/
structure Supply where
  taken : List String
  functions : Nat := 0
  params : Nat := 0
  vars : Nat := 0

namespace Supply

def counter (s : Supply) : BindingKind → Nat
  | .function => s.functions
  | .param => s.params
  | .var => s.vars

def setCounter (s : Supply) (kind : BindingKind) (n : Nat) : Supply :=
  match kind with
  | .function => { s with functions := n }
  | .param => { s with params := n }
  | .var => { s with vars := n }

/-- The first number from `n` on whose name is free. Among one more number than there are taken
names one is free, so the fuel suffices. -/
def firstFree (taken : List String) (word : String) : Nat → Nat → Nat
  | 0, n => n
  | fuel + 1, n =>
    if taken.contains (word ++ Nat.repr n) then firstFree taken word fuel (n + 1) else n

/-- Gives out the next free name of a role. -/
def next (s : Supply) (kind : BindingKind) (component : Bool) : String × Supply :=
  let word := roleWord kind component
  let n := firstFree s.taken word (s.taken.length + 1) (s.counter kind + 1)
  let name := word ++ Nat.repr n
  (name, { s.setCounter kind n with taken := name :: s.taken })

end Supply

/-- The name at a node that counts as taken. -/
def takenName? : Label → Option String
  | .identifier name => some name
  | .jsxIdentifier name => some name
  | _ => none

def takenNames (tree : Node) : List String :=
  (tree.positions []).filterMap fun (_, l) => takenName? l

/-- A shorthand property with a generated name as its key is written out, so that its key stays
when the variable is renamed. -/
def splitShorthand : Node → Node
  | .marked m l cs =>
    let split : Label :=
      match l, (Node.mk l cs).child? .key with
      | .property false method true kind, some key =>
        match key.label with
        | .identifier name => .property false method (!isHexName (Text.ofString name)) kind
        | _ => l
      | _, _ => l
    .marked m split (splitAll cs)
where
  splitAll : List (Field × Node) → List (Field × Node)
    | [] => []
    | (f, n) :: rest => (f, splitShorthand n) :: splitAll rest

/-- New names for the generated ones among bindings, in order. -/
def assign (s : Supply) : List Binding → List (Binding × String)
  | [] => []
  | b :: rest =>
    if isHexName (Text.ofString b.name) then
      let (name, s) := s.next b.kind (b.references.any (·.isTag))
      (b, name) :: assign s rest
    else assign s rest

/-- The new name at each position of a renamed binding. -/
def namesAt (renamed : List (Binding × String)) : List (Path × String) :=
  renamed.flatMap fun (b, name) => b.occurrences.map fun o => (o.path, name)

def rename (names : List (Path × String)) (tree : Node) : Node :=
  tree.relabel (fun p l =>
    match names.find? (fun e => e.1 = p), l with
    | some (_, name), .identifier _ => .identifier name
    | some (_, name), .jsxIdentifier _ => .jsxIdentifier name
    | _, l => l) []

/-- The places of the node at a position, last first. -/
def placesOf (marked : List (Path × Nat)) (p : Path) : List Path :=
  match marked.lookup p with
  | none => [p]
  | some m => ((marked.filter fun e => e.2 = m).map Prod.fst).reverse

/-- The bindings of a tree whose nodes may stand at several places. A scope at several places is
entered once per place, and its names are looked up from the last one. -/
def atLastPlaces (marked : List (Path × Nat)) (b : Binding) : Binding :=
  { b with references := b.references.filter fun o => (placesOf marked o.path).head? = some o.path }

/-- New names at every place of the identifiers; of two names for one identifier the later. -/
def namesAtPlaces (marked : List (Path × Nat)) (names : List (Path × String)) :
    List (Path × String) :=
  names.reverse.flatMap fun (p, name) => (placesOf marked p).map fun q => (q, name)

end Rename

/-- Renames every binding with a generated name; the count is the number of bindings renamed. -/
def renameGenerated (tree : Node) : Node × Nat :=
  let tree := Rename.splitShorthand tree
  let bindings := tree.scope.walk.flatMap Scope.bindings
  let supply : Rename.Supply := ⟨Rename.takenNames tree, 0, 0, 0⟩
  if tree.hasMarks then
    let marked := tree.markedPlaces []
    let renamed := Rename.assign supply (bindings.map (Rename.atLastPlaces marked))
    (Rename.rename (Rename.namesAtPlaces marked (Rename.namesAt renamed)) tree, renamed.length)
  else
    let renamed := Rename.assign supply bindings
    (Rename.rename (Rename.namesAt renamed) tree, renamed.length)

end Unravel
