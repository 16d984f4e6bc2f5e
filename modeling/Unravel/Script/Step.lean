import Unravel.Script.Action
import Unravel.Script.Vm

/-! One instruction at a time. -/

namespace Unravel.Script.Vm

/-- The value of a variable. -/
@[inline] def load (vm : Vm) (p : Place) : Value :=
  match p with
  | .slot i => vm.slots.getD i .undefined
  | .cell i => vm.machine.cells.getD (vm.cells.getD i 0) .undefined
  | .outer i => vm.machine.cells.getD (vm.call.outer.getD i 0) .undefined

/-- Gives a variable a value. -/
@[inline] def store (vm : Vm) (p : Place) (v : Value) : Vm :=
  match p with
  | .slot i => { vm with slots := vm.slots.setIfInBounds i v }
  | .cell i =>
    let id := vm.cells.getD i 0
    { vm with machine := { vm.machine with cells := vm.machine.cells.setIfInBounds id v } }
  | .outer i =>
    let id := vm.call.outer.getD i 0
    { vm with machine := { vm.machine with cells := vm.machine.cells.setIfInBounds id v } }

/-- The operand at a distance from the top of the stack. -/
@[inline] def operand (vm : Vm) (distance : Nat) : Value :=
  vm.stack.getD (vm.stack.size - 1 - distance) .undefined

/-- The stack without its uppermost operands. -/
@[inline] def without (vm : Vm) (count : Nat) : Array Value :=
  vm.stack.shrink (vm.stack.size - count)

variable (env : Setting)

/-- Takes operands from the stack, does a piece of a run and leaves its value. -/
@[inline] def replacing (vm : Vm) (count : Nat) (action : Run Value) : Vm :=
  doing env { vm with pc := vm.pc + 1, stack := vm.without count } action push

/-- Takes operands from the stack and does a piece of a run. -/
@[inline] def taking (vm : Vm) (count : Nat) (action : Run Unit) : Vm :=
  doing env { vm with pc := vm.pc + 1, stack := vm.without count } action fun _ vm => vm

/-- The place of an element that a number stands for. -/
@[inline] def place? (x : Float) (size : Nat) : Option Nat :=
  let i := x.toUInt64
  if i.toFloat == x && i.toNat < size then some i.toNat else none

/-- Reads an element. The object is left above it where it is wanted again. -/
def getElement (keep : Bool) (vm : Vm) : Vm :=
  let object := vm.operand 1
  let key := vm.operand 0
  let finish (v : Value) (stack : Array Value) : Array Value :=
    if keep then (stack.push v).push object else stack.push v
  let general (_ : Unit) : Vm :=
    let read : Run Value := do
      match object, key with
      | .undefined, .object _ | .null, .object _ =>
        Run.typeError ("Cannot read properties of " ++ Run.nullishName object)
      | _, _ => Run.getValue env.host object (← Run.toKey env.host key)
    doing env { vm with pc := vm.pc + 1, stack := vm.without 2 } read fun v vm =>
      { vm with stack := finish v vm.stack }
  match object, key with
  | .object ref, .number x =>
    match (vm.machine.objects.getD ref default).kind with
    | .array items _ _ =>
      match place? x items.size with
      | some i =>
        match items.getD i .absent with
        | .absent => general ()
        | v => vm.next (finish v (vm.without 2))
      | none => general ()
    | _ => general ()
  | .string u, .number x =>
    match place? x u.size with
    | some i => vm.next (finish (.string #[u.getD i 0]) (vm.without 2))
    | none => general ()
  | _, _ => general ()

/-- Writes an element. -/
def setElement (vm : Vm) : Vm :=
  let object := vm.operand 2
  let key := vm.operand 1
  let v := vm.operand 0
  let strict := vm.call.code.strict
  let general (_ : Unit) : Vm :=
    vm.replacing env 3 do
      match object, key with
      | .undefined, .object _ | .null, .object _ =>
        Run.typeError ("Cannot set properties of " ++ Run.nullishName object)
      | _, _ => Run.setValue env.host object (← Run.toKey env.host key) v strict
      return v
  match object, key with
  | .object ref, .number x =>
    let place := match (vm.machine.objects.getD ref default).kind with
      | .array items _ _ =>
        match place? x items.size with
        | some i => if (items.getD i .absent).isAbsent then none else some i
        | none => none
      | _ => none
    match place with
    | some i =>
      let vm := vm.next ((vm.without 3).push v)
      { vm with machine := { vm.machine with objects := vm.machine.objects.modify ref fun o =>
          match o with
          | ⟨proto, .array items length isFixed, members, extensible⟩ =>
            ⟨proto, .array (items.setIfInBounds i v) length isFixed, members, extensible⟩
          | o => o } }
    | none => general ()
  | _, _ => general ()

/-- An operator on the two uppermost operands. -/
def binary (op : BinaryOperator) (vm : Vm) : Vm :=
  let a := vm.operand 1
  let b := vm.operand 0
  match a, b with
  | .number x, .number y =>
    match op.onNumbers x y with
    | .absent => vm.replacing env 2 (Run.binary env.host op a b)
    | v => vm.next ((vm.without 2).push v)
  | _, _ => vm.replacing env 2 (Run.binary env.host op a b)

/-- The sum of two operands, which are the uppermost, becomes the value of a variable. -/
def storeSum (p : Place) (a b : Value) (vm : Vm) : Vm :=
  doing env { vm with pc := vm.pc + 1, stack := vm.without 2 } (Run.plus env.host a b) fun v vm =>
    vm.store p v

/-- Sums up the two uppermost operands for a variable. A string that only the variable holds is
extended in place. -/
def setSum (p : Place) (vm : Vm) : Vm :=
  let a := vm.operand 1
  let b := vm.operand 0
  match a, b with
  | .number x, .number y =>
    let vm := vm.next (vm.without 2)
    vm.store p (.number (x + y))
  | .string u, b =>
    match Run.plainText? b with
    | some w =>
      if u.size + w.size ≤ Run.textRoom then
        let vm := vm.next (vm.without 2)
        let vm := vm.store p .undefined
        vm.store p (.string (u ++ w))
      else storeSum env p (.string u) b vm
    | none => storeSum env p (.string u) b vm
  | a, b => storeSum env p a b vm

/-- The number one more or one less. -/
def stepNumber (delta : Float) (vm : Vm) : Vm :=
  match vm.top with
  | .number x => vm.next (vm.stack.pop.push (.number (x + delta)))
  | v => vm.replacing env 1 do return .number ((← Run.toNumber env.host v) + delta)

/-- Makes a function from code. -/
def closure (code : Nat) (vm : Vm) : Vm :=
  let c := vm.machine.codes.getD code default
  let cells := vm.captured c.captures
  vm.replacing env 0 (Run.newFunction c cells)

def makeClass (code : Nat) (hasParent : Bool) (vm : Vm) : Vm :=
  let c := vm.machine.codes.getD code default
  let cells := vm.captured c.captures
  let parent := if hasParent then some vm.top else none
  let stack := if hasParent then vm.stack.pop else vm.stack
  doing env { vm with pc := vm.pc + 1, stack := stack } (Run.makeClass env.host c cells parent)
    fun (f, proto) vm => { vm with stack := (vm.stack.push f).push proto }

/-- Calls a function with operands. -/
def callOperands (count : Nat) (shown : String) (vm : Vm) : Vm :=
  let size := vm.stack.size
  let f := vm.operand (count + 1)
  let receiver := vm.operand count
  let arguments := vm.stack.extract (size - count) size
  invoke env chainLimit f receiver arguments shown
    { vm with pc := vm.pc + 1, stack := vm.without (count + 2) }

/-- Runs text in place, if it is the function for that which is called. -/
def evalOperands (count site : Nat) (vm : Vm) : Vm :=
  let f := vm.operand (count + 1)
  let isEval := match f with
    | .object ref => match (vm.machine.objects.getD ref default).kind with
      | .native id _ => id == Intrinsic.eval.id
      | _ => false
    | _ => false
  if isEval then
    match if count = 0 then .undefined else vm.operand (count - 1) with
    | .string text =>
      let s := vm.machine.sites.getD site default
      let vm := { vm with pc := vm.pc + 1, stack := vm.without (count + 2) }
      doing env vm (Run.loadInPlace s text) fun code vm =>
        let c : Closure := { code := code, cells := vm.captured code.captures, home := vm.call.home }
        let call := vm.call
        let vm := enter env c call.callee call.receiver call.arguments call.newTarget .result vm
        vm
    | v => vm.next ((vm.without (count + 2)).push v)
  else callOperands env count "eval" vm

/-- Hands a value on from another iterator, or goes on after its last. -/
def yieldAll (slot : Nat) (vm : Vm) : Vm :=
  let h := env.host
  let received := vm.top
  let kept := vm.slots.getD slot .undefined
  let mode := vm.resumption
  -- the outcome: a result of the other iterator, or how the generator goes on
  let ask : Run (Except Completion Value) := do
    match ← Run.keptItems kept with
    | .list .. =>
      match mode with
      | .next =>
        match ← Run.stepKept h kept with
        | some v => return .ok (← Run.newResult v false)
        | none => return .ok (← Run.newResult .undefined true)
      | .thrown => Run.typeError "The iterator does not provide a 'throw' method."
      | .returned => return .error (.returned received)
    | .iterator iterator next =>
      match mode with
      | .next => return .ok (← h.call next iterator #[received])
      | .thrown =>
        match ← Run.methodOf h iterator (.ofString "throw") with
        | some f => return .ok (← h.call f iterator #[received])
        | none =>
          Run.closeKept h kept true
          Run.typeError "The iterator does not provide a 'throw' method."
      | .returned =>
        match ← Run.methodOf h iterator (.ofString "return") with
        | none => return .error (.returned received)
        | some f =>
          let r ← h.call f iterator #[received]
          match ← Run.iteratorResult h r with
          | none => return .error (.returned (← Run.getNamed h r "value"))
          | some _ => return .ok r
    | .finished => return .ok (← Run.newResult .undefined true)
  let step : Run (Except Completion (Value × Bool)) := do
    match ← ask with
    | .error c => return .error c
    | .ok r =>
      match r with
      | .object _ =>
        if (← Run.getNamed h r "done").truthy then return .ok (← Run.getNamed h r "value", true)
        return .ok (r, false)
      | v => Run.typeError ("Iterator result " ++ (Run.primitiveText v).shown ++ " is not an object")
  doing env { vm with stack := vm.stack.pop, resumption := .next } step fun outcome vm =>
    match outcome with
    | .error c => leave env c vm
    | .ok (v, true) => vm.next (vm.stack.push v)
    | .ok (v, false) => { vm with status := .yielded v true }

/-- Ends the call that makes a generator: what is left of it is run later. -/
def startGenerator (vm : Vm) : Vm :=
  let frame : Frame := { vm.frame with pc := vm.pc + 1 }
  let callee := vm.call.callee
  let make : Run Value := do
    let proto ← Run.protoFor env.host callee Fixed.generatorProto.ref
    Run.newObject { proto := some proto, kind := .generator (.suspended frame false) }
  doing env vm make fun v vm => returned v vm

/-- Ends a last part. -/
def endFinally (vm : Vm) : Vm :=
  match vm.handlers with
  | .finishingWith c :: rest =>
    let vm := { vm with handlers := rest }
    match c with
    | .normal => { vm with pc := vm.pc + 1 }
    | c => leave env c vm
  | _ => { vm with pc := vm.pc + 1 }

def raise (kind : ErrorKind) (message : String) (vm : Vm) : Vm :=
  doing env vm (Run.raise kind message : Run Value) push

/-- Does one instruction. -/
def step (i : Instr) (vm : Vm) : Vm :=
  let h := env.host
  match i with
  | .const v => vm.next (vm.stack.push v)
  | .pop => vm.next vm.stack.pop
  | .dup =>
    let v := vm.top
    vm.next (vm.stack.push v)
  | .dup2 =>
    let a := vm.operand 1
    let b := vm.operand 0
    vm.next ((vm.stack.push a).push b)
  | .swap =>
    let a := vm.operand 1
    let b := vm.operand 0
    vm.next (((vm.without 2).push b).push a)
  | .rotate =>
    let a := vm.operand 2
    let b := vm.operand 1
    let c := vm.operand 0
    vm.next ((((vm.without 3).push c).push a).push b)
  | .rotate4 =>
    let a := vm.operand 3
    let b := vm.operand 2
    let c := vm.operand 1
    let d := vm.operand 0
    vm.next (((((vm.without 4).push d).push a).push b).push c)
  | .get p =>
    let v := vm.load p
    vm.next (vm.stack.push v)
  | .getChecked p name =>
    match vm.load p with
    | .absent => doing env vm (Run.notReady name : Run Value) push
    | v => vm.next (vm.stack.push v)
  | .set p =>
    let v := vm.top
    let vm := vm.next vm.stack.pop
    vm.store p v
  | .setChecked p name =>
    match vm.load p with
    | .absent => doing env vm (Run.notReady name : Run Value) push
    | _ =>
      let v := vm.top
      let vm := vm.next vm.stack.pop
      vm.store p v
  | .setSum p => setSum env p vm
  | .clear p =>
    let vm := { vm with pc := vm.pc + 1 }
    vm.store p .absent
  | .newCell index v =>
    doing env { vm with pc := vm.pc + 1 } (Run.newCell v) fun id vm =>
      { vm with cells := vm.cells.setIfInBounds index id }
  | .copyCell index =>
    let v := vm.load (.cell index)
    doing env { vm with pc := vm.pc + 1 } (Run.newCell v) fun id vm =>
      { vm with cells := vm.cells.setIfInBounds index id }
  | .getGlobal name => vm.replacing env 0 (Run.getGlobal h name)
  | .typeOfGlobal name => vm.replacing env 0 (Run.typeOfGlobal h name)
  | .setGlobal name =>
    let v := vm.top
    let strict := vm.call.code.strict
    vm.taking env 1 (Run.setGlobal h name v strict)
  | .deleteGlobal name => vm.replacing env 0 (Run.deleteGlobal h name)
  | .declareGlobal name isFunction => vm.taking env 0 (Run.declareGlobal h name isFunction)
  | .declareLexical name isConst => vm.taking env 0 (Run.declareLexical h name isConst)
  | .setLexical name =>
    let v := vm.top
    vm.taking env 1 (Run.setLexical name v)
  | .hasName name =>
    let o := vm.top
    vm.replacing env 0 do return .bool (← Run.hasName h o name)
  | .this =>
    let v := vm.call.receiver
    vm.next (vm.stack.push v)
  | .callee =>
    let v := vm.call.callee
    vm.next (vm.stack.push v)
  | .newTarget =>
    let v := vm.call.newTarget
    vm.next (vm.stack.push v)
  | .home =>
    let v := vm.call.home
    vm.next (vm.stack.push v)
  | .argumentsObject isTied cells =>
    let tied := cells.map fun c => c.map fun i => vm.cells.getD i 0
    let arguments := vm.call.arguments
    let callee := if isTied then some vm.call.callee else none
    vm.replacing env 0 (Run.argumentsObject arguments tied callee)
  | .restArguments index =>
    let arguments := vm.call.arguments
    vm.replacing env 0 (Run.newArray (arguments.extract index arguments.size))
  | .newObject => vm.replacing env 0 Run.newPlain
  | .newArray => vm.replacing env 0 (Run.newArray #[])
  | .append =>
    let array := vm.operand 1
    let v := vm.operand 0
    vm.taking env 1 (Run.append array v)
  | .appendHole =>
    let array := vm.operand 0
    vm.taking env 0 (Run.append array .absent)
  | .appendAll =>
    let array := vm.operand 1
    let v := vm.operand 0
    vm.taking env 1 (Run.appendAll h array v)
  | .define key =>
    let object := vm.operand 1
    let v := vm.operand 0
    vm.taking env 1 do
      match object with
      | .object ref =>
        let _ ← Run.createData h ref key v
      | _ => pure ()
  | .defineComputed =>
    let object := vm.operand 2
    let key := vm.operand 1
    let v := vm.operand 0
    vm.taking env 2 do
      match object with
      | .object ref =>
        let _ ← Run.createData h ref (← Run.toKey h key) v
      | _ => pure ()
  | .defineAll =>
    let object := vm.operand 1
    let source := vm.operand 0
    vm.taking env 1 do
      match object with
      | .object ref => Run.copyListed h ref source #[]
      | _ => pure ()
  | .setProto =>
    let object := vm.operand 1
    let v := vm.operand 0
    vm.taking env 1 (Run.setProtoMember object v)
  | .defineMember kind enumerable =>
    let object := vm.operand 2
    let key := vm.operand 1
    let f := vm.operand 0
    vm.taking env 2 (Run.defineMember h kind enumerable object key f)
  | .closure code => closure env code vm
  | .nameClosure =>
    let key := vm.operand 1
    let f := vm.operand 0
    vm.taking env 0 do Run.nameFunction f (← Run.nameOf key)
  | .regex source flags program =>
    vm.replacing env 0 (Run.newRegex source flags program Fixed.regexProto.ref)
  | .template site cooked raw => vm.replacing env 0 (Run.templateObject site cooked raw)
  | .makeClass code hasParent => makeClass env code hasParent vm
  | .toKey =>
    match vm.top with
    | .string _ | .symbol _ => { vm with pc := vm.pc + 1 }
    | v => vm.replacing env 1 do return (← Run.toKey h v).value
  | .getMember key =>
    let object := vm.top
    vm.replacing env 1 (Run.getValue h object key)
  | .getElement => getElement env false vm
  | .getMethod key =>
    let object := vm.top
    doing env { vm with pc := vm.pc + 1, stack := vm.stack.pop } (Run.getValue h object key)
      fun f vm => { vm with stack := (vm.stack.push f).push object }
  | .getElementMethod => getElement env true vm
  | .setMember key =>
    let object := vm.operand 1
    let v := vm.operand 0
    let strict := vm.call.code.strict
    vm.replacing env 2 do
      Run.setValue h object key v strict
      return v
  | .setElement => setElement env vm
  | .deleteMember key =>
    let object := vm.top
    let strict := vm.call.code.strict
    vm.replacing env 1 (Run.deleteValue h object key strict)
  | .deleteElement =>
    let object := vm.operand 1
    let key := vm.operand 0
    let strict := vm.call.code.strict
    vm.replacing env 2 do Run.deleteValue h object (← Run.toKey h key) strict
  | .superGet =>
    let home := vm.operand 2
    let receiver := vm.operand 1
    let key := vm.operand 0
    vm.replacing env 3 (Run.superGet h home receiver key)
  | .superSet =>
    let home := vm.operand 3
    let receiver := vm.operand 2
    let key := vm.operand 1
    let v := vm.operand 0
    let strict := vm.call.code.strict
    vm.replacing env 4 do
      Run.superSet h home receiver key v strict
      return v
  | .binary op => binary env op vm
  | .unary op =>
    let v := vm.top
    match op with
    | .not => vm.next (vm.stack.pop.push (.bool !v.truthy))
    | op => vm.replacing env 1 (Run.unary h op v)
  | .toNumeric =>
    match vm.top with
    | .number _ => { vm with pc := vm.pc + 1 }
    | v => vm.replacing env 1 do return .number (← Run.toNumber h v)
  | .increment => stepNumber env 1.0 vm
  | .decrement => stepNumber env (-1.0) vm
  | .toText =>
    match vm.top with
    | .string _ => { vm with pc := vm.pc + 1 }
    | v => vm.replacing env 1 do return .string (← Run.toText h v)
  | .jump target => { vm with pc := target }
  | .jumpBack target => { vm with pc := target }
  | .jumpIfFalse target =>
    let v := vm.top
    if v.truthy then vm.next vm.stack.pop else { vm with pc := target, stack := vm.stack.pop }
  | .jumpIfTrue target =>
    let v := vm.top
    if v.truthy then { vm with pc := target, stack := vm.stack.pop } else vm.next vm.stack.pop
  | .jumpIfFalseKeep target =>
    let v := vm.top
    if v.truthy then vm.next vm.stack.pop else { vm with pc := target }
  | .jumpIfTrueKeep target =>
    let v := vm.top
    if v.truthy then { vm with pc := target } else vm.next vm.stack.pop
  | .jumpIfDefinedKeep target =>
    match vm.top with
    | .undefined => vm.next vm.stack.pop
    | _ => { vm with pc := target }
  | .call count shown => callOperands env count shown vm
  | .callSpread shown =>
    let f := vm.operand 2
    let receiver := vm.operand 1
    let list := vm.operand 0
    doing env { vm with pc := vm.pc + 1, stack := vm.without 3 } (Run.listOf h list) fun args vm =>
      invoke env chainLimit f receiver args shown vm
  | .construct count shown =>
    let size := vm.stack.size
    let f := vm.operand count
    let arguments := vm.stack.extract (size - count) size
    make env chainLimit f arguments f shown
      { vm with pc := vm.pc + 1, stack := vm.without (count + 1) }
  | .constructSpread shown =>
    let f := vm.operand 1
    let list := vm.operand 0
    doing env { vm with pc := vm.pc + 1, stack := vm.without 2 } (Run.listOf h list) fun args vm =>
      make env chainLimit f args f shown vm
  | .superCall =>
    let callee := vm.operand 2
    let newTarget := vm.operand 1
    let list := vm.operand 0
    let prepare : Run (Value × Array Value) := do
      let f ← Run.superConstructor h callee
      return (f, ← Run.listOf h list)
    doing env { vm with pc := vm.pc + 1, stack := vm.without 3 } prepare fun (f, args) vm =>
      make env chainLimit f args newTarget "super" vm
  | .evalCall count site => evalOperands env count site vm
  | .ret =>
    let v := vm.top
    match vm.handlers with
    | [] => returned v vm
    | _ => leave env (.returned v) { vm with stack := vm.stack.pop }
  | .raise =>
    let v := vm.top
    leave env (.thrown v) vm
  | .fail kind message => raise env kind message vm
  | .requireObject =>
    match vm.top with
    | .undefined =>
      raise env .type "Cannot destructure 'undefined' as it is undefined." vm
    | .null => raise env .type "Cannot destructure 'null' as it is null." vm
    | _ => { vm with pc := vm.pc + 1 }
  | .objectRest =>
    let object := vm.operand 1
    let keys := vm.operand 0
    vm.replacing env 2 do
      let taken ← (← Run.listOf h keys).mapM (Run.toKey h)
      let ref ← Run.alloc { proto := some Fixed.objectProto.ref }
      Run.copyListed h ref object taken
      return .object ref
  | .tryCatch target => { vm with pc := vm.pc + 1, handlers := .catching target :: vm.handlers }
  | .tryFinally target => { vm with pc := vm.pc + 1, handlers := .finishing target :: vm.handlers }
  | .tryItems slot => { vm with pc := vm.pc + 1, handlers := .items slot :: vm.handlers }
  | .endTry => { vm with pc := vm.pc + 1, handlers := vm.handlers.tail }
  | .beginFinally =>
    { vm with pc := vm.pc + 1, handlers := .finishingWith .normal :: vm.handlers.tail }
  | .endFinally => endFinally env vm
  | .leave target depth => leave env (.jumped target depth) vm
  | .openItems slot =>
    let v := vm.top
    doing env { vm with pc := vm.pc + 1, stack := vm.stack.pop }
      (do Run.keepItems (← Run.openItems h v)) fun kept vm =>
        { vm with slots := vm.slots.setIfInBounds slot kept }
  | .nextItem slot target =>
    let kept := vm.slots.getD slot .undefined
    doing env { vm with pc := vm.pc + 1 } (Run.stepKept h kept) fun item vm =>
      match item with
      | some v => push v vm
      | none => { vm with pc := target }
  | .stepItem slot =>
    let kept := vm.slots.getD slot .undefined
    vm.replacing env 0 do return (← Run.stepKept h kept).getD .undefined
  | .restItems slot =>
    let kept := vm.slots.getD slot .undefined
    vm.replacing env 0 do
      let items ← Run.keptItems kept
      match kept with
      | .object ref => Run.setKind ref (.items .finished)
      | _ => pure ()
      Run.newArray (← Run.forItems h (fun found v => return found.push v) Run.itemLimit items #[])
  | .closeItems slot =>
    let kept := vm.slots.getD slot .undefined
    vm.taking env 0 (Run.closeKept h kept false)
  | .openKeys slot =>
    let v := vm.top
    doing env { vm with pc := vm.pc + 1, stack := vm.stack.pop } (Run.openKeys h v) fun kept vm =>
      { vm with slots := vm.slots.setIfInBounds slot kept }
  | .nextKey slot target =>
    let kept := vm.slots.getD slot .undefined
    doing env { vm with pc := vm.pc + 1 } (Run.stepKey h kept) fun key vm =>
      match key with
      | some v => push v vm
      | none => { vm with pc := target }
  | .startGenerator => startGenerator env vm
  | .yield =>
    let v := vm.top
    { vm with pc := vm.pc + 1, stack := vm.stack.pop, status := .yielded v false }
  | .yieldAll slot => yieldAll env slot vm
  | .await => { vm with status := .waiting }
  | .promise =>
    vm.replacing env 0 (Run.newObject { proto := some Fixed.promiseProto.ref, kind := .promise })
  | .derivedResult p =>
    match vm.top with
    | .object _ => { vm with pc := vm.pc + 1 }
    | .undefined =>
      match vm.load p with
      | .absent => doing env vm (Run.notReady "this" : Run Value) push
      | v => vm.next (vm.stack.pop.push v)
    | _ => raise env .type "Derived constructors may only return object or undefined" vm
  | .bindThis p =>
    match vm.load p with
    | .absent =>
      let v := vm.top
      let vm := vm.next vm.stack.pop
      vm.store p v
    | _ => raise env .reference "Super constructor may only be called once" vm
  | .toObject =>
    let v := vm.top
    vm.replacing env 1 do return .object (← Run.toObject v)

/-- Does instructions until the run ends or so many are done. What is left of the number is given
back. -/
def loop : Nat → Vm → Nat × Vm
  | 0, vm => (0, { vm with status := .stopped .exhausted })
  | n + 1, vm =>
    match vm.status with
    | .running =>
      match vm.instrs[vm.pc]? with
      | some i => loop n (step env i vm)
      | none => (n, { vm with status := .stopped (.unsupported "end of code") })
    | _ => (n, vm)

end Unravel.Script.Vm
