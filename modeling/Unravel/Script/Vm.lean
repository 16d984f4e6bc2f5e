import Unravel.Script.Iterate
import Unravel.Script.Load

/-! The state of a run of code, how calls begin and end, and how a part of a function is left. -/

namespace Unravel.Script

/-- How far a run is. -/
inductive Status where
  | running
  | finished (value : Value)
  /-- A generator gives a value; one that another made stands as it is. -/
  | yielded (value : Value) (isResult : Bool)
  | waiting
  | stopped (why : Stop)
deriving Inhabited

/-- A run: the call that is at work, those that wait for it, and the machine. -/
structure Vm where
  instrs : Array Instr
  pc : Nat
  stack : Array Value
  slots : Array Value
  cells : Array Nat
  call : Call
  handlers : List Handler
  callers : List Frame
  machine : Machine
  status : Status
  resumption : Resumption
deriving Inhabited

/-- What a run works with: the way back to itself, and the functions of the language. -/
structure Setting where
  host : Host
  natives : Array Native

namespace Vm

/-- The code of a call that only hands on a result. -/
def handOn : Code := { instrs := #[.ret] }

/-- A run that waits for the result of a call. -/
def start (m : Machine) : Vm :=
  { instrs := handOn.instrs, pc := 0, stack := #[], slots := #[], cells := #[]
    call := { code := handOn }, handlers := [], callers := [], machine := m, status := .running
    resumption := .next }

@[inline] def top (vm : Vm) : Value := vm.stack.getD (vm.stack.size - 1) .undefined

/-- Goes on with the next instruction, on a changed stack. -/
@[inline] def next (vm : Vm) (stack : Array Value) : Vm := { vm with pc := vm.pc + 1, stack := stack }

@[inline] def push (v : Value) (vm : Vm) : Vm := { vm with stack := vm.stack.push v }

@[inline] def stop (why : Stop) (vm : Vm) : Vm := { vm with status := .stopped why }

/-- The call at work, as it is kept while another runs. -/
@[inline] def frame (vm : Vm) : Frame :=
  ⟨vm.call, vm.pc, vm.stack, vm.slots, vm.cells, vm.handlers⟩

/-- Goes back to a call that waited. -/
def restore (f : Frame) (callers : List Frame) (vm : Vm) : Vm :=
  match f, vm with
  | ⟨call, pc, stack, slots, cells, handlers⟩, ⟨_, _, _, _, _, _, _, _, m, _, resumption⟩ =>
    ⟨call.code.instrs, pc, stack, slots, cells, call, handlers, callers,
      { m with depth := m.depth - 1 }, .running, resumption⟩

/-- Ends a call with a value. -/
def returned (v : Value) (vm : Vm) : Vm :=
  let v := match vm.call.after with
    | .result => v
    | .made o => if v.isObject then v else o
  match vm.callers with
  | [] => { vm with status := .finished v }
  | f :: rest => push v (restore f rest { vm with callers := [] })

variable (env : Setting)

/-- Leaves parts of a function, the innermost first, up to one that takes over. Where none does,
the way in which the whole function is left is given back. -/
def leaveParts : List Handler → Completion → Vm → Vm × Option Completion
  | [], .jumped target _, vm => ({ vm with pc := target, handlers := [], stack := #[] }, none)
  | [], c, vm => ({ vm with handlers := [] }, some c)
  | part :: rest, c, vm =>
    let arrived := match c with
      | .jumped target depth => if rest.length < depth then some target else none
      | _ => none
    match arrived with
    | some target => ({ vm with pc := target, handlers := part :: rest, stack := #[] }, none)
    | none =>
      match part with
      | .catching target =>
        match c with
        | .thrown v => ({ vm with pc := target, handlers := rest, stack := #[v] }, none)
        | c => leaveParts rest c vm
      | .finishing target =>
        ({ vm with pc := target, handlers := .finishingWith c :: rest, stack := #[] }, none)
      | .finishingWith _ => leaveParts rest c vm
      | .items slot =>
        let quietly := match c with
          | .thrown _ => true
          | _ => false
        let items := vm.slots.getD slot .undefined
        let m := vm.machine
        let vm := { vm with machine := Machine.idle }
        match Run.closeKept env.host items quietly m with
        | .ok _ m => leaveParts rest c { vm with machine := m }
        | .error (.thrown v) m => leaveParts rest (.thrown v) { vm with machine := m }
        | .error why m => ({ vm with machine := m, status := .stopped why }, none)

/-- Leaves what is at work in a given way, and the calls that a thrown value passes through. -/
def leaveFrom : List Frame → Completion → Vm → Vm
  | callers, c, vm =>
    match leaveParts env vm.handlers c vm with
    | (vm, none) => vm
    | (vm, some (.thrown v)) =>
      match callers with
      | [] => { vm with status := .stopped (.thrown v) }
      | f :: rest => leaveFrom rest (.thrown v) (restore f rest vm)
    | (vm, some (.returned v)) => returned v vm
    | (vm, some _) => vm

def leave (c : Completion) (vm : Vm) : Vm := leaveFrom env vm.callers c vm

/-- Does a piece of a run and goes on with its outcome. -/
@[inline] def doing {α : Type} (vm : Vm) (action : Run α) (go : α → Vm → Vm) : Vm :=
  let m := vm.machine
  let vm := { vm with machine := Machine.idle }
  match action m with
  | .ok v m => go v { vm with machine := m }
  | .error (.thrown v) m => leave env (.thrown v) { vm with machine := m }
  | .error why m => { vm with machine := m, status := .stopped why }

/-- Does a piece of a run and puts its value on the stack. -/
@[inline] def pushing (vm : Vm) (action : Run Value) : Vm := doing env vm action push

/-- The deepest nesting of calls. -/
def callLimit : Nat := 9000

/-- The slots of a call, the first with its arguments. -/
def slotsFor (code : Code) (arguments : Array Value) : Array Value :=
  let given := min code.params arguments.size
  let slots := arguments.extract 0 given
  slots ++ Array.replicate (code.slots - given) .undefined

/-- Starts a call of a function of the program. -/
def enter (c : Closure) (callee receiver : Value) (arguments : Array Value) (newTarget : Value)
    (after : After) (vm : Vm) : Vm :=
  if callLimit < vm.machine.depth then doing env vm (Run.tooDeep : Run Value) push
  else
    let frame := vm.frame
    match vm with
    | ⟨_, _, _, _, _, _, _, callers, m, status, resumption⟩ =>
      let code := c.code
      ⟨code.instrs, 0, #[], slotsFor code arguments,
        if code.cells = 0 then #[] else Array.replicate code.cells 0,
        ⟨code, c.cells, receiver, callee, newTarget, c.home, arguments, after⟩, [],
        frame :: callers, { m with depth := m.depth + 1 }, status, resumption⟩

/-- What is said of a value that cannot be called. -/
def notFunction (shown : String) : Run Value := Run.typeError (shown ++ " is not a function")

/-- Whether the receiver of a call stays as it is given. -/
def keepsReceiver (code : Code) : Bool :=
  code.strict || code.kind == .arrow || code.kind == .asyncArrow

/-- Calls a value. Chains of functions that only hand calls on are followed to a depth. -/
def invoke : Nat → Value → Value → Array Value → String → Vm → Vm
  | 0, _, _, _, _, vm => pushing env vm Run.tooDeep
  | n + 1, f, receiver, arguments, shown, vm =>
    match f with
    | .object ref =>
      match (vm.machine.objects.getD ref default).kind with
      | .closure c =>
        match c.code.kind with
        | .baseClass | .derivedClass =>
          pushing env vm (Run.typeError
            ("Class constructor " ++ c.code.name.shown ++ " cannot be invoked without 'new'"))
        | .asynchronous | .asyncArrow | .asyncMethod =>
          pushing env vm (env.host.call f receiver arguments)
        | _ =>
          if keepsReceiver c.code then enter env c f receiver arguments .undefined .result vm
          else
            match receiver with
            | .object _ => enter env c f receiver arguments .undefined .result vm
            | .undefined | .null | .absent =>
              enter env c f (.object Fixed.global.ref) arguments .undefined .result vm
            | v =>
              doing env vm (Run.toObject v) fun o vm =>
                enter env c f (.object o) arguments .undefined .result vm
      | .native id _ =>
        if id == Intrinsic.call.id then
          invoke n receiver (argument arguments 0) (arguments.extract 1 arguments.size) shown vm
        else if id == Intrinsic.apply.id then
          match argument arguments 1 with
          | .undefined | .null => invoke n receiver (argument arguments 0) #[] shown vm
          | list =>
            doing env vm (Run.listOf env.host list) fun list vm =>
              invoke n receiver (argument arguments 0) list shown vm
        else
          match env.natives[id]? with
          | some native => pushing env vm (native env.host receiver arguments .undefined)
          | none => pushing env vm (notFunction shown)
      | .bound target r before => invoke n (.object target) r (before ++ arguments) shown vm
      | .proxy target handler =>
        doing env vm
          (do
            if !(← Run.isCallable f) then
              let _ ← notFunction shown
            Run.trap? handler "apply" (Run.getFrom env.host))
          fun trap vm =>
            match trap with
            | some trap =>
              doing env vm (Run.newArray arguments) fun list vm =>
                invoke n trap handler #[target, receiver, list] shown vm
            | none => invoke n target receiver arguments shown vm
      | _ => pushing env vm (notFunction shown)
    | _ => pushing env vm (notFunction shown)

def notConstructor (shown : String) : Run Value := Run.typeError (shown ++ " is not a constructor")

/-- Lets a function make an object. -/
def make : Nat → Value → Array Value → Value → String → Vm → Vm
  | 0, _, _, _, _, vm => pushing env vm Run.tooDeep
  | n + 1, f, arguments, newTarget, shown, vm =>
    match f with
    | .object ref =>
      match (vm.machine.objects.getD ref default).kind with
      | .closure c =>
        match c.code.kind with
        | .ordinary | .baseClass =>
          let fresh : Run Value := do
            let proto ← Run.protoFor env.host newTarget Fixed.objectProto.ref
            Run.newObject { proto := some proto }
          doing env vm fresh fun o vm => enter env c f o arguments newTarget (.made o) vm
        | .derivedClass => enter env c f .absent arguments newTarget (.made .undefined) vm
        | _ => pushing env vm (notConstructor shown)
      | .native id true =>
        match env.natives[id]? with
        | some native => pushing env vm (native env.host .undefined arguments newTarget)
        | none => pushing env vm (notConstructor shown)
      | .bound target _ before =>
        let newTarget := match newTarget with
          | .object r => if r = ref then .object target else newTarget
          | v => v
        make n (.object target) (before ++ arguments) newTarget shown vm
      | .proxy target handler =>
        doing env vm
          (do
            if !(← Run.isConstructor f) then
              let _ ← notConstructor shown
            Run.trap? handler "construct" (Run.getFrom env.host))
          fun trap vm =>
            match trap with
            | some trap =>
              let made : Run Value := do
                let v ← env.host.call trap handler
                  #[target, ← Run.newArray arguments, newTarget]
                if !v.isObject then
                  Run.typeError ("proxy [[Construct]] must return an object")
                return v
              pushing env vm made
            | none =>
              let newTarget := match newTarget with
                | .object r => if r = ref then target else newTarget
                | v => v
              make n target arguments newTarget shown vm
      | _ => pushing env vm (notConstructor shown)
    | _ => pushing env vm (notConstructor shown)

/-- The longest chain of functions that only hand calls on. -/
def chainLimit : Nat := 1000

/-- The cells that a function made here shares. -/
def captured (vm : Vm) (captures : Array Place) : Array Nat :=
  captures.map fun p => match p with
    | .cell i => vm.cells.getD i 0
    | .outer i => vm.call.outer.getD i 0
    | .slot _ => 0

end Vm

end Unravel.Script
