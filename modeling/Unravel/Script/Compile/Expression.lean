import Unravel.Script.Compile.Class

/-! Expressions. The code of each leaves its value on the stack. -/

namespace Unravel.Script.Compile

/-- What an error shows of an expression that cannot be called. -/
def shown (n : Node) : String :=
  n.fold fun l cs =>
    let inSlot (f : Field) : String :=
      ((cs.find? fun c => c.1 = f).map fun c => c.2.2).getD "(intermediate value)"
    let node (f : Field) : Node := ((cs.find? fun c => c.1 = f).map fun c => c.2.1).getD default
    match l with
    | .identifier name => name
    | .thisExpression => "this"
    | .superKeyword => "(intermediate value)"
    | .memberExpression computed =>
      match constantKey? (node .property) computed with
      | some (.name u) => inSlot .object ++ "." ++ u.shown
      | some k => inSlot .object ++ "[" ++ k.units.shown ++ "]"
      | none => inSlot .object ++ "[" ++ inSlot .property ++ "]"
    | .callExpression => inSlot .callee ++ "(...)"
    | .literal (.text t) _ => "\"" ++ t.toString ++ "\""
    | .literal (.number n) _ => Numeral.text (floatOf n)
    | .literal (.bool b) _ => if b then "true" else "false"
    | .literal .null _ => "null"
    | _ => "(intermediate value)"

def isSuper (n : Node) : Bool := n.label = .superKeyword

/-- A name that arrow functions take from the function around them. -/
def loadInherited (name : String) (own : Instr) : Compile Unit := do
  let f ← current
  let isInherited := match f.kind with
    | .arrow | .asyncArrow => true
    | .derivedClass => name = "this"
    | _ => false
  if isInherited then
    match (← resolve name).bound? with
    | some v => loadVariable name v
    | none => emit own
  else emit own

def loadThis : Compile Unit := loadInherited "this" .this

def loadHome : Compile Unit := loadInherited "super" .home

def hasSpread (args : List Node) : Bool := args.any fun a => a.label = .spreadElement

variable (c : Compiler)

/-- Leaves an array of the values of some expressions, spread where they are. -/
def arrayOf (items : List Node) : Compile Unit := do
  emit .newArray
  for item in items do
    match item.label with
    | .hole => emit .appendHole
    | .spreadElement =>
      c.expression (item.part .argument)
      emit .appendAll
    | _ =>
      c.expression item
      emit .append

/-- Leaves the key of a member of `super`. -/
def superKey (n : Node) (computed : Bool) : Compile Unit := do
  let _ ← keyValue c (n.part .property) computed

/-- Leaves the value of a member. -/
def memberValue (n : Node) (computed : Bool) : Compile Unit := do
  let o := n.part .object
  if isSuper o then
    loadHome
    loadThis
    superKey c n computed
    emit .superGet
  else
    c.expression o
    match constantKey? (n.part .property) computed with
    | some k => emit (.getMember k)
    | none =>
      c.expression (n.part .property)
      emit .getElement

def invalidTarget : Instr := .fail .reference "Invalid left-hand side in assignment"

def operatorOf (op : String) : Compile BinaryOperator :=
  match BinaryOperator.ofText? op with
  | some o => return o
  | none => throw "unknown operator"

/-- A write to a member of `super`, for a value on the stack; the key is kept in a slot. -/
def storeSuper (key : Nat) : Compile Unit := do
  let v ← newSlot
  emit (.set (.slot v))
  loadHome
  loadThis
  emit (.get (.slot key))
  emit (.get (.slot v))
  emit .superSet

/-- Takes the sum that has just been left for a name. -/
def storeSum (name : String) : Compile Unit := do
  match ← resolve name with
  | { objects := [], bound? := some v } =>
    if v.isConst || (v.isChecked && !v.isReady) then store name
    else
      modifyCurrent fun f => { f with instrs := f.instrs.pop }
      emit (.setSum v.place)
  | _ => store name

/-- An assignment. Its value is left if it is wanted. -/
def assignment (op : String) (left right : Node) (wanted : Bool) : Compile Unit := do
  let finish : Compile Unit := if wanted then pure () else emit .pop
  match left.label with
  | .identifier name =>
    if op = "=" then named c (.ofString name) right
    else
      load name
      c.expression right
      emit (.binary (← operatorOf (op.dropEnd 1).toString))
    if wanted then
      emit .dup
      store name
    else if op = "+=" || (op = "=" && right.label = .binaryExpression "+") then storeSum name
    else store name
  | .memberExpression computed =>
    if isSuper (left.part .object) then
      superKey c left computed
      let key ← newSlot
      emit (.set (.slot key))
      if op = "=" then c.expression right
      else
        loadHome
        loadThis
        emit (.get (.slot key))
        emit .superGet
        c.expression right
        emit (.binary (← operatorOf (op.dropEnd 1).toString))
      storeSuper key
      finish
    else
      c.expression (left.part .object)
      match constantKey? (left.part .property) computed with
      | some k =>
        if op = "=" then c.expression right
        else
          emit .dup
          emit (.getMember k)
          c.expression right
          emit (.binary (← operatorOf (op.dropEnd 1).toString))
        emit (.setMember k)
      | none =>
        c.expression (left.part .property)
        if op = "=" then c.expression right
        else
          emit .dup2
          emit .getElement
          c.expression right
          emit (.binary (← operatorOf (op.dropEnd 1).toString))
        emit .setElement
      finish
  | .arrayPattern | .objectPattern =>
    c.expression right
    if wanted then emit .dup
    c.bind false left
  | .callExpression =>
    c.expression left
    emit invalidTarget
  | _ => throw "Invalid left-hand side in assignment"

/-- One more or one less. -/
def update (op : String) (isPrefix : Bool) (n : Node) (wanted : Bool) : Compile Unit := do
  let step : Instr := if op = "++" then .increment else .decrement
  let keepsOld := wanted && !isPrefix
  match n.label with
  | .identifier name =>
    load name
    if keepsOld then
      emit .toNumeric
      emit .dup
    emit step
    if wanted && isPrefix then emit .dup
    store name
  | .memberExpression computed =>
    if isSuper (n.part .object) then
      superKey c n computed
      let key ← newSlot
      emit (.set (.slot key))
      loadHome
      loadThis
      emit (.get (.slot key))
      emit .superGet
      if keepsOld then
        emit .toNumeric
        emit .dup
      emit step
      storeSuper key
      if keepsOld || !wanted then emit .pop
    else
      c.expression (n.part .object)
      match constantKey? (n.part .property) computed with
      | some k =>
        emit .dup
        emit (.getMember k)
        if keepsOld then
          emit .toNumeric
          emit .dup
          emit .rotate
        emit step
        emit (.setMember k)
      | none =>
        c.expression (n.part .property)
        emit .toKey
        emit .dup2
        emit .getElement
        if keepsOld then
          emit .toNumeric
          emit .dup
          emit .rotate4
        emit step
        emit .setElement
      if keepsOld || !wanted then emit .pop
  | .callExpression =>
    c.expression n
    emit invalidTarget
  | _ => throw "Invalid left-hand side expression in postfix operation"

/-- The scopes that code run in place can see, with their places as the current function sees
them. -/
def evalSite : Compile Nat := do
  let s ← get
  let mut hidden : Std.HashSet String := {}
  let mut seen := #[]
  for (f, steps) in (s.current :: s.outer).zipIdx do
    for scope in f.scopes do
      let mut names : Std.HashMap String Variable := {}
      for (name, v) in scope.names.toList do
        if !hidden.contains name then
          -- a variable may be declared for the code around under a name that is caught
          if !scope.isCatch then hidden := hidden.insert name
          names := names.insert name
            { v with
              place := ← imported v.place steps
              isReady := if steps = 0 then v.isReady else !v.isChecked }
      let object? ← scope.object?.mapM fun o => do
        return { o with place := ← imported o.place steps }
      seen := seen.push { scope with names := names, object? := object? }
  let s ← get
  set { s with sites := s.sites.push { scopes := seen.toList, strict := s.current.strict } }
  return s.siteBase + s.sites.size

/-- The call of the constructor of the parent class. -/
def superCall (args : List Node) : Compile Unit := do
  loadInherited "callee()" .callee
  loadInherited "new.target" .newTarget
  arrayOf c args
  emit .superCall
  match (← resolve "this").bound? with
  | some v =>
    emit .dup
    emit (.bindThis v.place)
  | none => throw "'super' keyword unexpected here"

def callValue (n : Node) : Compile Unit := do
  let callee := n.part .callee
  let args := n.row .arguments
  if isSuper callee then superCall c args
  else if callee.label = .importKeyword then
    if hasSpread args then throw "unexpected spread"
    for a in args do
      c.expression a
      emit .pop
    emit .promise
  else
    match callee.label with
    | .identifier name => loadCallee name
    | .memberExpression computed =>
      if isSuper (callee.part .object) then
        memberValue c callee computed
        loadThis
      else
        c.expression (callee.part .object)
        match constantKey? (callee.part .property) computed with
        | some k => emit (.getMethod k)
        | none =>
          c.expression (callee.part .property)
          emit .getElementMethod
    | _ =>
      c.expression callee
      emit (.const .undefined)
    if hasSpread args then
      arrayOf c args
      emit (.callSpread (shown callee))
    else
      for a in args do
        c.expression a
      if callee.identifierName? = some "eval" then
        emit (.evalCall args.length (← evalSite))
      else emit (.call args.length (shown callee))

/-- An operator and its right operand. -/
abbrev Operand := String × Node

/-- The left end of a chain of infix operators, and what follows it. -/
def spine : Node → List Operand → Node × List Operand
  | .marked m (.binaryExpression op) [(f, left), (g, right)], rest =>
    if f = .left ∧ g = .right then spine left ((op, right) :: rest)
    else (.marked m (.binaryExpression op) [(f, left), (g, right)], rest)
  | n, rest => (n, rest)

def binaryChain (n : Node) : Compile Unit := do
  let (first, rest) := spine n []
  c.expression first
  for (op, right) in rest do
    c.expression right
    emit (.binary (← operatorOf op))

/-- Removing a property. -/
def deleted (n : Node) : Compile Unit := do
  match n.label with
  | .memberExpression computed =>
    if isSuper (n.part .object) then
      emit (.fail .reference "Unsupported reference to 'super'")
    else
      c.expression (n.part .object)
      match constantKey? (n.part .property) computed with
      | some k => emit (.deleteMember k)
      | none =>
        c.expression (n.part .property)
        emit .deleteElement
  | .identifier name =>
    let r ← resolve name
    throughObjects name r.objects (fun _ => emit (.deleteMember (.ofString name))) do
      match r.bound? with
      | some _ => emit (.const (.bool false))
      | none => emit (.deleteGlobal (.ofString name))
  | _ =>
    c.expression n
    emit .pop
    emit (.const (.bool true))

def unaryValue (op : String) (n : Node) : Compile Unit := do
  match op with
  | "delete" => deleted c n
  | "typeof" =>
    match n.label with
    | .identifier name => loadType name
    | _ =>
      c.expression n
      emit (.unary .typeOf)
  | "void" =>
    c.expression n
    emit .pop
    emit (.const .undefined)
  | _ =>
    match op, n.label with
    | "-", .literal (.number x) _ => emit (.const (.number (-(floatOf x))))
    | _, _ =>
      c.expression n
      match op with
      | "-" => emit (.unary .minus)
      | "+" => emit (.unary .plus)
      | "!" => emit (.unary .not)
      | "~" => emit (.unary .bitNot)
      | _ => throw "unknown operator"

def logical (op : String) (left right : Node) : Compile Unit := do
  c.expression left
  let done ← emitOpen (if op = "||" then .jumpIfTrueKeep 0 else .jumpIfFalseKeep 0)
  c.expression right
  close done

def conditional (n : Node) : Compile Unit := do
  c.expression (n.part .test)
  let no ← emitOpen (.jumpIfFalse 0)
  c.expression (n.part .consequent)
  let done ← emitOpen (.jump 0)
  close no
  c.expression (n.part .alternate)
  close done

/-- A template: its texts and its values in turn. -/
def templateValue (n : Node) : Compile Unit := do
  let texts := (n.row .quasis).map fun q => match q.label with
    | .templateElement _ cooked _ => Units.ofText cooked
    | _ => #[]
  match texts with
  | [] => emit (.const (.string #[]))
  | first :: rest =>
    emit (.const (.string first))
    for (value, text) in (n.row .expressions).zip rest do
      c.expression value
      emit .toText
      emit (.binary .add)
      if !text.isEmpty then
        emit (.const (.string text))
        emit (.binary .add)

def taggedTemplate (n : Node) : Compile Unit := do
  let tag := n.part .tag
  match tag.label with
  | .identifier name => loadCallee name
  | .memberExpression computed =>
    c.expression (tag.part .object)
    match constantKey? (tag.part .property) computed with
    | some k => emit (.getMethod k)
    | none =>
      c.expression (tag.part .property)
      emit .getElementMethod
  | _ =>
    c.expression tag
    emit (.const .undefined)
  let quasi := n.part .quasi
  let parts := (quasi.row .quasis).map fun q => match q.label with
    | .templateElement raw cooked _ => (Units.ofText cooked, Units.ofText raw)
    | _ => (#[], #[])
  let s ← get
  set { s with templateCount := s.templateCount + 1 }
  emit (.template s.templateCount (parts.map fun p => some p.1).toArray (parts.map Prod.snd).toArray)
  for value in quasi.row .expressions do
    c.expression value
  emit (.call ((quasi.row .expressions).length + 1) (shown tag))

def regexValue (pattern flags : Text) : Compile Unit := do
  let source := Units.ofText pattern
  match Regex.Flags.ofUnits? (.ofText flags) with
  | none => throw "Invalid regular expression flags"
  | some fs =>
    match Regex.Pattern.ofUnits? source fs with
    | none => throw "Invalid regular expression"
    | some p => emit (.regex source fs (.ofPattern p))

/-- A member of an object literal, on the stack. -/
def objectMember (n : Node) : Compile Unit := do
  match n.label with
  | .spreadElement =>
    c.expression (n.part .argument)
    emit .defineAll
  | .property computed method shorthand kind =>
    let key := n.part .key
    let value := n.part .value
    if kind = "get" || kind = "set" then
      memberFunction c (memberKind kind) key value computed true
    else if method then memberFunction c .method key value computed true
    else
      match constantKey? key computed with
      | some k =>
        if !computed && !shorthand && k == Key.ofString "__proto__" then
          c.expression value
          emit .setProto
        else
          named c k.units value
          emit (.define k)
      | none =>
        c.expression key
        emit .toKey
        c.expression value
        if isNameless value then emit .nameClosure
        emit .defineComputed
  | _ => throw "unexpected member"

def yieldValue (delegate : Bool) (argument : Option Node) : Compile Unit := do
  match argument with
  | some a => c.expression a
  | none => emit (.const .undefined)
  if delegate then
    let slot ← newSlot
    emit (.openItems slot)
    emit (.const .undefined)
    emit (.yieldAll slot)
  else emit .yield

/-- Does what an expression does and leaves nothing. -/
def effect (n : Node) : Compile Unit := do
  match n.label with
  | .assignmentExpression op => assignment c op (n.part .left) (n.part .right) false
  | .updateExpression op isPrefix => update c op isPrefix (n.part .argument) false
  | _ =>
    c.expression n
    emit .pop

/-- Leaves the value of an expression. -/
def expressionValue (n : Node) : Compile Unit := do
  match n.label with
  | .identifier name => load name
  | .literal value _ =>
    match value with
    | .null => emit (.const .null)
    | .bool b => emit (.const (.bool b))
    | .number x => emit (.const (.number (floatOf x)))
    | .text t => emit (.const (.string (.ofText t)))
    | .regex pattern flags => regexValue pattern flags
  | .thisExpression => loadThis
  | .memberExpression computed => memberValue c n computed
  | .callExpression => callValue c n
  | .newExpression =>
    c.expression (n.part .callee)
    let args := n.row .arguments
    if hasSpread args then
      arrayOf c args
      emit (.constructSpread (shown (n.part .callee)))
    else
      for a in args do
        c.expression a
      emit (.construct args.length (shown (n.part .callee)))
  | .assignmentExpression op => assignment c op (n.part .left) (n.part .right) true
  | .updateExpression op isPrefix => update c op isPrefix (n.part .argument) true
  | .binaryExpression _ => binaryChain c n
  | .logicalExpression op => logical c op (n.part .left) (n.part .right)
  | .unaryExpression op _ => unaryValue c op (n.part .argument)
  | .conditionalExpression => conditional c n
  | .sequenceExpression =>
    match (n.row .expressions).reverse with
    | [] => emit (.const .undefined)
    | last :: before =>
      for e in before.reverse do
        effect c e
      c.expression last
  | .arrayExpression => arrayOf c (n.row .elements)
  | .objectExpression =>
    emit .newObject
    for m in n.row .properties do
      objectMember c m
  | .functionExpression _ | .arrowFunctionExpression _ => functionValue c n #[]
  | .classExpression => classValue c n #[]
  | .templateLiteral => templateValue c n
  | .taggedTemplateExpression => taggedTemplate c n
  | .yieldExpression delegate => yieldValue c delegate (n.child? .argument)
  | .awaitExpression =>
    c.expression (n.part .argument)
    emit .await
  | .metaProperty => loadInherited "new.target" .newTarget
  | _ => throw "unexpected expression"

end Unravel.Script.Compile
