import Unravel.Scope.Pattern
import Unravel.Text.LetterCase

/-! The lexical structure of a program: which scopes it opens, and the declarations and uses of
names in them, in walking order. -/

namespace Unravel

/-- The scope a declaration lands in, seen from where it stands. -/
inductive Reach where
  | here
  | function
  | root
deriving DecidableEq, Repr

/-- What a walk of the program meets. -/
inductive Event where
  | declare (reach : Reach) (kind : BindingKind) (occurrence : Occurrence)
  | refer (occurrence : Occurrence)
  | scope (path : Path) (label : Label) (isFunction : Bool) (events : List Event)
deriving Repr

/-- The events of a node, and those of its subtrees when the node itself opens no scope. -/
structure Walk where
  visit : Path → List Event
  inside : Path → List Event

namespace Walk

abbrev Entries := List (Field × Node × Walk)

/-- The events of all subtrees that satisfy a test on their slots. -/
def through (cs : Entries) (test : Field → Bool) (p : Path) : List Event :=
  cs.zipIdx.flatMap fun ((f, _, w), i) => if test f then w.visit (p ++ [i]) else []

def slot (cs : Entries) (f : Field) (p : Path) : List Event :=
  through cs (· = f) p

/-- Declares the identifiers that the subtrees in a slot bind. -/
def declares (cs : Entries) (f : Field) (reach : Reach) (kind : BindingKind) (p : Path) :
    List Event :=
  cs.zipIdx.flatMap fun ((g, n, _), i) =>
    if g = f then (n.boundIdentifiers (p ++ [i])).map (.declare reach kind) else []

/-- The events of a body: a block that is a function's or handler's body opens no scope. -/
def body (cs : Entries) (p : Path) : List Event :=
  cs.zipIdx.flatMap fun ((f, n, w), i) =>
    if f = .body then
      if n.label = .blockStatement then w.inside (p ++ [i]) else w.visit (p ++ [i])
    else []

/-- A function: its own name where it is an expression, its parameters, then its body. -/
def function (l : Label) (ownName : Bool) (cs : Entries) (p : Path) : Event :=
  .scope p l true
    ((if ownName then declares cs .id .here .var p else [])
      ++ declares cs .params .here .param p ++ slot cs .params p ++ body cs p)

/-- The base of a tag name: the leftmost name of a dotted one. -/
def tagBase? : Node → Path → Option Occurrence
  | .marked _ (.jsxIdentifier name) _, p => some ⟨name, p, true⟩
  | .marked _ .jsxMemberExpression ((.object, o) :: _), p => tagBase? o (p ++ [0])
  | _, _ => none

/-- A use of a component: a tag whose base does not start with a lower-case letter. -/
def tag (cs : Entries) (p : Path) : List Event :=
  cs.zipIdx.flatMap fun ((f, n, _), i) =>
    if f = .name then
      match tagBase? n (p ++ [i]) with
      | some o => if startsLower o.name then [] else [.refer o]
      | none => []
    else []
where
  startsLower (name : String) : Bool :=
    match name.toList with
    | c :: _ => Text.isLower c.toNat
    | [] => false

/-- A property or method: its key only where it is computed. -/
def keyed (computed : Bool) (cs : Entries) (p : Path) : List Event :=
  (if computed then slot cs .key p else []) ++ slot cs .value p

/-- Declarators, each name first; `var` reaches the function, other kinds stay in the block. -/
def declarators (kind : String) (cs : Entries) (p : Path) : List Event :=
  let reach : Reach := if kind = "var" then .function else .here
  cs.zipIdx.flatMap (fun ((_, n, _), i) =>
    match n.index? .id, n.child? .id with
    | some j, some target => (target.boundIdentifiers (p ++ [i, j])).map (.declare reach .var)
    | _, _ => [])
  ++ through cs (fun _ => true) p

/-- Import specifiers declare their local names at the root. -/
def imports (cs : Entries) (p : Path) : List Event :=
  cs.zipIdx.flatMap fun ((f, n, _), i) =>
    if f = .specifiers then
      match n.index? .localName, n.child? .localName with
      | some j, some target => (target.boundIdentifiers (p ++ [i, j])).map (.declare .root .var)
      | _, _ => []
    else []

def step (l : Label) (cs : Entries) : Walk where
  inside := through cs fun _ => true
  visit p :=
    match l with
    | .program _ => [.scope p l true (slot cs .body p)]
    | .functionDeclaration .. => declares cs .id .here .function p ++ [function l false cs p]
    | .functionExpression _ => [function l true cs p]
    | .arrowFunctionExpression _ => [function l false cs p]
    | .blockStatement | .forStatement | .forInStatement _ | .forOfStatement | .switchStatement =>
      [.scope p l false (through cs (fun _ => true) p)]
    | .catchClause =>
      [.scope p l false (declares cs .param .here .var p ++ slot cs .param p ++ body cs p)]
    | .variableDeclaration kind => declarators kind cs p
    | .classDeclaration =>
      declares cs .id .here .var p ++ slot cs .superClass p ++ slot cs .body p
    | .classExpression =>
      [.scope p l false (declares cs .id .here .var p ++ slot cs .superClass p ++ slot cs .body p)]
    | .importDeclaration => imports cs p
    | .identifier name => [.refer ⟨name, p, false⟩]
    | .memberExpression computed =>
      slot cs .object p ++ (if computed then slot cs .property p else [])
    | .property computed .. => keyed computed cs p
    | .methodDefinition computed .. => keyed computed cs p
    | .labeledStatement => slot cs .body p
    | .breakStatement | .continueStatement | .metaProperty => []
    | .exportSpecifier => slot cs .localName p
    | .jsxOpeningElement _ => tag cs p ++ slot cs .attributes p
    | .jsxClosingElement => tag cs p
    | _ => through cs (fun _ => true) p

end Walk

/-- The events of a program. -/
def Node.events (n : Node) : List Event :=
  (n.fold Walk.step).visit []

end Unravel
