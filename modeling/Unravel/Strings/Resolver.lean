import Unravel.Script.Engine
import Unravel.Strings.Names
import Unravel.Syntax.Forest

/-! Strings hidden behind tables. A provider is a function that holds a large table of strings, a
decoder one that reads from it, and a rotation the statement that shuffles the table at start.
Calls of decoders with literal arguments are run, and their strings put in the place of the calls.
The machinery is removed only when no call into it is left. -/

namespace Unravel.Strings

/-- A named function declaration and the names its body uses. -/
structure NamedFunction where
  path : Path
  name : String
  uses : List String
  isProvider : Bool

/-- A declarator `target = source` between two plain names. -/
structure AliasLink where
  path : Path
  target : String
  source : String

/-- A call of a function by name. -/
structure NamedCall where
  path : Path
  name : String
  arguments : List Node

/-- What resolution needs from a tree. -/
structure Index where
  functions : List NamedFunction
  aliases : List AliasLink
  calls : List NamedCall

def namedFunction? (p : Path) (n : Node) : Option NamedFunction :=
  match n.label with
  | .functionDeclaration .. => do
    let name ← (n.child? .id).bind Node.identifierName?
    let body ← n.child? .body
    return ⟨p, name, body.referencedNames, n.hasStringTable⟩
  | _ => none

def aliasLink? (p : Path) (n : Node) : Option AliasLink :=
  match n.label with
  | .variableDeclarator => do
    let target ← (n.child? .id).bind Node.identifierName?
    let source ← (n.child? .init).bind Node.identifierName?
    return ⟨p, target, source⟩
  | _ => none

def namedCall? (p : Path) (n : Node) : Option NamedCall :=
  match n.label with
  | .callExpression => do
    let name ← (n.child? .callee).bind Node.identifierName?
    return ⟨p, name, n.row .arguments⟩
  | _ => none

def Index.ofTree (tree : Node) : Index :=
  let all := tree.located []
  { functions := all.filterMap fun (p, n) => namedFunction? p n
    aliases := all.filterMap fun (p, n) => aliasLink? p n
    calls := all.filterMap fun (p, n) => namedCall? p n }

/-- One scan of the declarators: each whose source is known makes its target known. -/
def growAliases (known : List String) : List AliasLink → List String
  | [] => known
  | a :: rest =>
    growAliases
      (if known.contains a.source && !known.contains a.target then a.target :: known else known) rest

/-- Scans until nothing is added. Each round but the last adds a target, so the fuel suffices. -/
def closeAliases (links : List AliasLink) : Nat → List String → List String
  | 0, known => known
  | fuel + 1, known =>
    let grown := growAliases known links
    if grown.length = known.length then known else closeAliases links fuel grown

/-- All names that a name is passed on to by plain declarators, itself included. -/
def aliasesOf (links : List AliasLink) (name : String) : List String :=
  closeAliases links (links.length + 1) [name]

/-- Progress of a resolution, with the state of the engine. -/
structure State (σ : Type) where
  forest : Forest
  machine : σ
  values : List (Path × Text) := []
  removed : Nat := 0
  sessions : List Session := []

/-- What resolution works with: the source, how a tree is printed, what is wrong with writing a
number, and an engine. -/
structure Setup (ε : Type) where
  code : Text
  print : Node → Except ε Text
  engine : Engine
  refuses : Number → Option ε := fun _ => none

variable {ε σ : Type}

/-- The source of a statement: its span of the code if it has one, else its printed text. -/
def sourceOf (setup : Setup ε) (n : Node) : Except ε Text :=
  match n.label with
  | .functionDeclaration _ (some s) | .expressionStatement _ (some s) =>
    .ok ((setup.code.drop s.start).take (s.stop - s.start))
  | _ => setup.print n

def State.fragment (setup : Setup ε) (st : State σ) : List Path → Except ε (List Text)
  | [] => .ok []
  | p :: rest => do
    let t ← sourceOf setup ((st.forest.node? p).getD default)
    return t :: (← st.fragment setup rest)

/-- The methods a rotation calls on the table. -/
def rotationCalls : List Text := [Text.ofString "push", Text.ofString "shift"]

/-- The first statement of the program that rotates a provider's table. -/
def State.rotation? (st : State σ) (name : String) : Option Path :=
  let rootRow := (List.range st.forest.tree.subtrees.length).map fun i => [i]
  rootRow.find? fun p =>
    !st.forest.detached.contains p &&
      match st.forest.node? p with
      | some s => s.isIifeStatement && s.referencedNames.contains name
          && rotationCalls.all s.memberCalls.contains
      | none => false

/-- Results of calls by their arguments; none where a call gave no string. -/
abbrev Cache := List (List Text × Option Text)

/-- Runs the calls of a decoder in order. Equal arguments are run once. -/
def evaluateCalls (engine : Engine) (fragment : Text) (decoder : String) :
    List (Path × List Text) → Cache → engine.State →
      List (Path × Option Text) × List Text × engine.State
  | [], _, s => ([], [], s)
  | (p, args) :: rest, cache, s =>
    match cache.find? fun e => e.1 = args with
    | some (_, known) =>
      let (found, scripts, s) := evaluateCalls engine fragment decoder rest cache s
      ((p, known) :: found, scripts, s)
    | none =>
      let script := Engine.isolatedCall fragment decoder args
      let (outcome, s) := engine.eval script s
      let value := match outcome with
        | .ok (.text t) => some t
        | _ => none
      let (found, scripts, s) :=
        evaluateCalls engine fragment decoder rest ((args, value) :: cache) s
      ((p, value) :: found, script :: scripts, s)

/-- The calls of a decoder that are still open and lie outside its machinery. -/
def State.openCalls (st : State σ) (index : Index) (machinery : List Path) (aliases : List String) :
    List NamedCall :=
  index.calls.filter fun c =>
    aliases.contains c.name && !(st.values.any fun v => v.1 = c.path)
      && !st.forest.isInside c.path machinery && st.forest.isAttached c.path

/-- Source text of each argument; none if one is not a plain literal. Arguments are written in
order, and a number that is refused before such a one is an error. -/
def Setup.written (setup : Setup ε) (arguments : List Node) : Except ε (Option (List Text)) :=
  let plain := arguments.takeWhile fun a => a.literalArgument?.isSome
  match (plain.filterMap Node.numericValue?).findSome? setup.refuses with
  | some e => .error e
  | none => .ok (Node.literalArguments? arguments)

/-- The calls whose arguments are plain literals, with those arguments. -/
def Setup.resolvable (setup : Setup ε) : List NamedCall → Except ε (List (Path × List Text))
  | [] => .ok []
  | c :: rest => do
    let args ← setup.written c.arguments
    let more ← setup.resolvable rest
    return (args.map fun a => (c.path, a)).toList ++ more

/-- Resolves the calls of one decoder, and tells whether none was left unresolved. -/
def State.resolvePair (setup : Setup ε) (index : Index) (provider : Path) (rotation : Option Path)
    (decoder : NamedFunction) (aliases : List String) (st : State setup.engine.State) :
    Except ε (State setup.engine.State × Bool) := do
  let machinery := [provider] ++ rotation.toList ++ [decoder.path]
  match st.openCalls index machinery aliases with
  | [] => return (st, false)
  | calls =>
    let fragment := Text.join [10] (← st.fragment setup machinery)
    match ← setup.resolvable calls with
    | [] => return (st, false)
    | resolvable =>
      let (found, scripts, machine) := evaluateCalls setup.engine fragment decoder.name resolvable []
        (setup.engine.opened st.machine)
      let values := found.filterMap fun (p, v) => v.map (p, ·)
      let st := { st with
        machine := machine
        values := st.values ++ values
        sessions := st.sessions ++ [⟨Engine.evalTimeout, scripts, true⟩] }
      return (st, values.length = calls.length)

/-- Takes a node out if it can be taken out. -/
def State.remove (st : State σ) (p : Path) : State σ :=
  match st.forest.detach p with
  | .ok forest => { st with forest := forest, removed := st.removed + 1 }
  | .error _ => st

/-- Takes a declarator out, with its declaration if it is the last one there. -/
def State.removeDeclarator (st : State σ) (p : Path) : State σ :=
  match st.forest.parent? p with
  | some declaration =>
    let left := ((st.forest.node? declaration).map fun d => (d.row .declarations).length).getD 0
    if left = 1 then st.remove declaration else st.remove p
  | none => st.remove p

/-- Removes the machinery of a provider and the declarators that pass its decoders on. -/
def State.removeMachinery (st : State σ) (index : Index) (machinery : List Path)
    (aliases : List String) : State σ :=
  let st := machinery.foldl State.remove st
  index.aliases.foldl (fun st a =>
    if aliases.contains a.source && !st.forest.isInside a.path machinery then
      st.removeDeclarator a.path
    else st) st

/-- Resolves the decoders of a provider in order, and tells whether all were resolved in full. -/
def State.resolveDecoders (setup : Setup ε) (index : Index) (provider : Path)
    (rotation : Option Path) : List NamedFunction → State setup.engine.State →
      Except ε (State setup.engine.State × Bool)
  | [], st => .ok (st, true)
  | d :: rest, st => do
    let (st, full) ←
      st.resolvePair setup index provider rotation d (aliasesOf index.aliases d.name)
    let (st, others) ← State.resolveDecoders setup index provider rotation rest st
    return (st, full && others)

/-- Works on one provider. A rotated table is left alone if rotations are not to be run, since
it would decode to the wrong strings. -/
def State.resolveProvider (setup : Setup ε) (rotate : Bool) (index : Index)
    (provider : NamedFunction) (st : State setup.engine.State) :
    Except ε (State setup.engine.State) := do
  let providerNames := (index.functions.filter (·.isProvider)).map (·.name)
  let decoders := index.functions.filter fun f =>
    !providerNames.contains f.name && f.uses.contains provider.name
  match decoders with
  | [] => return st
  | decoders =>
    let rotation := st.rotation? provider.name
    if rotation.isSome && !rotate then return st
    let (st, full) ← State.resolveDecoders setup index provider.path rotation decoders st
    if full then
      let machinery := [provider.path] ++ rotation.toList ++ decoders.map (·.path)
      let aliases := decoders.flatMap fun d => aliasesOf index.aliases d.name
      return st.removeMachinery index machinery aliases
    else return st

def State.resolveProviders (setup : Setup ε) (rotate : Bool) (index : Index) :
    List NamedFunction → State setup.engine.State → Except ε (State setup.engine.State)
  | [], st => .ok st
  | p :: rest, st => do
    State.resolveProviders setup rotate index rest (← st.resolveProvider setup rotate index p)

/-- The outcome of a resolution. -/
structure Resolution where
  tree : Node
  replacements : Nat
  removed : Nat
  sessions : List Session

/-- Puts the strings found in the place of their calls. -/
def State.finish (st : State σ) : Resolution :=
  let put (p : Path) : Option Node := (st.values.find? fun v => v.1 = p).map fun v => .ofText v.2
  { tree := st.forest.tree.edit st.forest.detached put []
    replacements := (st.values.filter fun v => st.forest.isAttached v.1).length
    removed := st.removed
    sessions := st.sessions }

/-- Inlines the strings behind the decoders of a program. -/
def resolve (setup : Setup ε) (rotate : Bool) (tree : Node) : Except ε Resolution := do
  let index := Index.ofTree tree
  let providers := index.functions.filter (·.isProvider)
  let st ← State.resolveProviders setup rotate index providers
    { forest := Forest.link { tree := tree }, machine := setup.engine.start }
  return st.finish

end Unravel.Strings
