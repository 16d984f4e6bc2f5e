import Unravel.Source.Parse.Function

/-! Classes. Their code is strict throughout. -/

namespace Unravel.Source.Parse

/-- Whether a key that is not computed spells a name. -/
def isKeyNamed (key : Node) (name : String) : Bool :=
  match key.label with
  | .identifier n => n = name
  | .literal (.text t) _ => t = Text.ofString name
  | _ => false

/-- What was read of a class member before its function. -/
structure MemberHead where
  token : Token
  /-- Where the member begins, `static` left aside. -/
  start : Nat
  key : Option Node := none
  computed : Bool := false
  isStatic : Bool := false
  isAsync : Bool := false

/-- The key of a member with `static` and `async` before it. -/
def memberHead (g : Grammar) : Parse MemberHead := do
  let token ← ahead
  if ← isAt "*" then
    let _ ← next
    return { token := token, start := token.start }
  let computed ← isAt "["
  let key ← propertyKey g
  let t ← ahead
  let head : MemberHead ←
    if key.identifierName? = some "static" && (t.startsKey || t.isPunctuator "*") then do
      let computed ← isAt "["
      if ← isAt "*" then
        let _ ← next
        pure { token := t, start := t.start, key := some key, computed := computed, isStatic := true }
      else
        let key ← propertyKey g
        pure { token := t, start := t.start, key := some key, computed := computed, isStatic := true }
    else pure { token := token, start := token.start, key := some key, computed := computed }
  let t ← ahead
  if head.token.isIdentifier "async" && !(← get).brokenLine
      && !(["(", ":", "*"].any t.spells) then
    let key ← propertyKey g
    if t.isIdentifier "constructor" then
      note t.line "Class constructor may not be an async method"
    return { head with token := t, key := some key, isAsync := true }
  return head

/-- A member of a class, and whether a constructor has been seen. -/
def classMember (g : Grammar) (hasConstructor : Bool) : Parse (Node × Bool) := do
  let head ← memberHead g
  let t := head.token
  let keyed := (← ahead).startsKey
  let (kind, method, computed, key, value) : String × Bool × Bool × Option Node × Option Node ←
    if t.isIdentifier "get" && keyed then do
      let computed ← isAt "["
      let key ← propertyKey g
      pure ("get", false, computed, some key, some (← getter g))
    else if t.isIdentifier "set" && keyed then do
      let computed ← isAt "["
      let key ← propertyKey g
      pure ("set", false, computed, some key, some (← setter g))
    else if t.isPunctuator "*" && keyed then do
      let computed ← isAt "["
      let key ← propertyKey g
      pure ("method", true, computed, some key, some (← generatorMember g))
    else if head.key.isSome && (← isAt "(") then do
      let f ← if head.isAsync then asyncMember g else memberFunction g
      pure ("method", true, head.computed, head.key, some f)
    else pure ("", false, head.computed, head.key, none)
  match key, value with
  | some key, some value =>
    beginMember head.start
    let member (kind : String) : Node :=
      .mk (.methodDefinition computed head.isStatic kind) [(.key, key), (.value, value)]
    if computed then return (member kind, hasConstructor)
    if head.isStatic && isKeyNamed key "prototype" then
      fail t.line "Classes may not have static property named prototype"
    if !head.isStatic && isKeyNamed key "constructor" then
      let isGenerator := match value.label with
        | .functionExpression flags => flags.generator
        | _ => false
      if !method || isGenerator then fail t.line "Class constructor may not be an accessor"
      if hasConstructor then fail t.line "A class may only have one constructor"
      return (member "constructor", true)
    return (member kind, hasConstructor)
  | _, _ => unexpected (← ahead)

def classBody (g : Grammar) : Parse Node := do
  expect "\x7b"
  let (members, _) ← loop (fun ((done, hasConstructor) : List Node × Bool) => do
    if ← isAt "\x7d" then return .done (done, hasConstructor)
    if ← isAt ";" then
      let _ ← next
      return .more (done, hasConstructor)
    let (m, hasConstructor) ← classMember g hasConstructor
    return .more (done ++ [m], hasConstructor)) ([], false)
  expect "\x7d"
  return .mk .classBody (members.map fun m => (.body, m))

/-- A class, whose name may be left out as said. -/
def classNode (g : Grammar) (l : Label) (mayBeNameless : Bool) : Parse Node :=
  within (fun a => { a with strict := true })
    (fun before a => { a with strict := before.strict }) do
    let start ← startIndex
    expectWord "class"
    let id ←
      if mayBeNameless && (← ahead).kind ≠ .identifier then pure none
      else some <$> boundName .parameters
    let parent ←
      if ← isAtWord "extends" then do
        let _ ← next
        pure (some (← isolated g.chain).node)
      else pure none
    let body ← classBody g
    endFunction start
    return .mk l ((id.toList.map fun i => (.id, i)) ++ (parent.toList.map fun p => (.superClass, p))
      ++ [(.body, body)])

def classDeclaration (g : Grammar) (mayBeNameless : Bool) : Parse Node :=
  classNode g .classDeclaration mayBeNameless

def classExpression (g : Grammar) : Parse Node := classNode g .classExpression true

end Unravel.Source.Parse
