import Unravel.Script.Compile.Basic
import Unravel.Script.Numeral

/-! Literals, keys, functions as values, and classes. -/

namespace Unravel.Script.Compile

def floatOf : Number → Float
  | .int n => (Double.ofInt n).toFloat
  | .double d => d.toFloat

/-- The key of a member that is known without evaluation. -/
def constantKey? (key : Node) (computed : Bool) : Option Key :=
  match key.label with
  | .identifier name => if computed then none else some (.ofString name)
  | .literal (.text t) _ => some (.ofUnits (.ofText t))
  | .literal (.number n) _ => some (.ofUnits (Numeral.units (floatOf n)))
  | _ => none

/-- The kind of a function that is no member of anything. -/
def kindOf (n : Node) : FunctionKind :=
  match n.label with
  | .functionDeclaration flags _ | .functionExpression flags =>
    if flags.generator then .generator else if flags.isAsync then .asynchronous else .ordinary
  | .arrowFunctionExpression flags => if flags.isAsync then .asyncArrow else .arrow
  | _ => .ordinary

/-- The kind of a function that is a member of an object or class. -/
def memberKindOf (n : Node) : FunctionKind :=
  match n.label with
  | .functionExpression flags =>
    if flags.generator then .generator else if flags.isAsync then .asyncMethod else .method
  | _ => .method

def memberKind : String → MemberKind
  | "get" => .getter
  | "set" => .setter
  | _ => .method

/-- What stands before the name of a function that is called for a property. -/
def nameMark : MemberKind → String
  | .getter => "get "
  | .setter => "set "
  | .method => ""

variable (c : Compiler)

/-- Leaves a key that a script computes, or that is known. -/
def keyValue (key : Node) (computed : Bool) : Compile (Option Key) := do
  match constantKey? key computed with
  | some k =>
    emit (.const k.value)
    return some k
  | none =>
    c.expression key
    emit .toKey
    return none

/-- Puts a function under a key of the object on the stack. -/
def memberFunction (kind : MemberKind) (key value : Node) (computed enumerable : Bool) :
    Compile Unit := do
  let k ← keyValue c key computed
  let name := match k with
    | some k => Units.ofString (nameMark kind) ++ k.units
    | none => #[]
  emit (.closure (← c.function (memberKindOf value) name value))
  emit (.defineMember kind enumerable)

/-- A function as a value, under a name if it has none. -/
def functionValue (n : Node) (name : Units) : Compile Unit := do
  let own := match n.idName? with
    | some id => Units.ofString id
    | none => name
  emit (.closure (← c.function (kindOf n) own n))

def addCode (code : Code) : Compile Nat := do
  let s ← get
  set { s with codes := s.codes.push code }
  return s.codeBase + s.codes.size

/-- The constructor of a class that does not write one. -/
def defaultConstructor (hasParent : Bool) (name : Units) : Compile Nat := do
  if hasParent then
    addCode
      { name := name, kind := .derivedClass, strict := true
        instrs := #[.callee, .newTarget, .restArguments 0, .superCall, .ret] }
  else
    addCode
      { name := name, kind := .baseClass, strict := true, instrs := #[.const .undefined, .ret] }

/-- A function is written as a node of the script. -/
def writtenAs (n : Node) (code : Nat) : Compile Unit :=
  modify fun s =>
    match n.mark?.bind fun k => s.spans[k]? with
    | some span =>
      { s with
        codes := s.codes.modify (code - s.codeBase) fun c =>
          { c with script := s.script, start := span.start, stop := span.stop } }
    | none => s

def isConstructor (member : Node) : Bool :=
  match member.label with
  | .methodDefinition _ _ kind => kind = "constructor"
  | _ => false

/-- Leaves a class. -/
def classValue (n : Node) (name : Units) : Compile Unit := do
  let strict ← isStrict
  modifyCurrent fun f => { f with strict := true }
  pushScope {}
  if let some id := n.idName? then
    let place ← makePlace id .absent
    bindName id { place := place, isConst := true, isChecked := true, isReady := false }
    emit (.clear place)
  let name := match n.idName? with
    | some id => Units.ofString id
    | none => name
  let parent := n.child? .superClass
  if let some p := parent then
    c.expression p
  let members := (n.part .body).row .body
  let code ← match members.find? isConstructor with
    | some m => c.function (if parent.isSome then .derivedClass else .baseClass) name (m.part .value)
    | none => defaultConstructor parent.isSome name
  writtenAs n code
  emit (.makeClass code parent.isSome)
  for m in members do
    match m.label with
    | .methodDefinition computed isStatic kind =>
      if kind ≠ "constructor" then
        if isStatic then emit .swap
        memberFunction c (memberKind kind) (m.part .key) (m.part .value) computed false
        if isStatic then emit .swap
    | _ => pure ()
  emit .pop
  if let some id := n.idName? then
    emit .dup
    initName id
  popScope
  modifyCurrent fun f => { f with strict := strict }

/-- Leaves the value of an expression. A function or class without a name takes the given one. -/
def named (name : Units) (n : Node) : Compile Unit :=
  match n.label with
  | .functionExpression _ | .arrowFunctionExpression _ =>
    if (n.child? .id).isNone then functionValue c n name else c.expression n
  | .classExpression => if (n.child? .id).isNone then classValue c n name else c.expression n
  | _ => c.expression n

/-- Whether an expression is a function or class without a name. -/
def isNameless (n : Node) : Bool :=
  match n.label with
  | .functionExpression _ | .arrowFunctionExpression _ | .classExpression => (n.child? .id).isNone
  | _ => false

end Unravel.Script.Compile
