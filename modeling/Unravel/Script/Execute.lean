import Unravel.Script.Step

/-! Whole runs: calls, scripts and generators, from start to end. -/

namespace Unravel.Script

namespace Run

variable (env : Setting)

/-- Runs what a preparation sets up, to its end. Steps taken are counted. -/
def running (prepare : Vm → Vm) : Run (Status × Frame) := fun m =>
  let depth := m.depth
  let steps := m.steps
  let (left, vm) := Vm.loop env steps (prepare (Vm.start m))
  let status := vm.status
  let frame := vm.frame
  let m := vm.machine
  .ok (status, frame) { m with depth := depth, steps := m.steps - (steps - left) }

/-- The value that a run ends with. -/
def outcome (s : Status) : Run Value :=
  match s with
  | .finished v => return v
  | .stopped why => throw why
  | _ => unsupported "a run that does not end"

/-- Calls a function whose result comes later: it runs as far as it can, and a promise stands for
its result. -/
def callAsync (c : Closure) (f receiver : Value) (arguments : Array Value) : Run Value := do
  let receiver ←
    if Vm.keepsReceiver c.code then pure receiver
    else if receiver.isNullish then pure (.object Fixed.global.ref)
    else do pure (.object (← toObject receiver))
  let (status, _) ← running env (Vm.enter env c f receiver arguments .undefined .result)
  match status with
  | .stopped (.thrown _) => pure ()
  | .stopped why => throw why
  | _ => pure ()
  newObject { proto := some Fixed.promiseProto.ref, kind := .promise }

def callValue (f receiver : Value) (arguments : Array Value) : Run Value := do
  let general : Run Value := do
    let shown ← if ← isCallable f then pure "value" else shownValue f
    let (status, _) ← running env (Vm.invoke env Vm.chainLimit f receiver arguments shown)
    outcome status
  match f with
  | .object ref =>
    match (← objectAt ref).kind with
    | .closure c =>
      match c.code.kind with
      | .asynchronous | .asyncArrow | .asyncMethod => callAsync env c f receiver arguments
      | _ => general
    | _ => general
  | _ => general

def constructValue (f : Value) (arguments : Array Value) (newTarget : Value) : Run Value := do
  let shown ← if ← isConstructor f then pure "value" else shownValue f
  let (status, _) ← running env (Vm.make env Vm.chainLimit f arguments newTarget shown)
  outcome status

/-- Runs code that stands for itself. -/
def runCode (code : Code) : Run Value := do
  let g := Value.object Fixed.global.ref
  let (status, _) ← running env
    (Vm.enter env { code := code, cells := #[] } .undefined g #[] .undefined .result)
  outcome status

/-- Runs the text of a script. -/
def evaluate (text : Units) : Run Value := do runCode env (← loadScript text)

def makeFunction (kind : FunctionKind) (params body : Units) : Run Value :=
  evaluate env (functionText kind params body)

/-- Lets a generator go on. -/
def resume (ref : Nat) (mode : Resumption) (v : Value) : Run Value := do
  match (← objectAt ref).kind with
  | .generator .running => typeError "Generator is already running"
  | .generator .finished =>
    match mode with
    | .next => newResult .undefined true
    | .thrown => thrown v
    | .returned => newResult v true
  | .generator (.suspended frame started) =>
    if !started && mode != .next then
      setKind ref (.generator .finished)
      if mode = .thrown then thrown v else newResult v true
    else
      setKind ref (.generator .running)
      let isHandingOn := match frame.call.code.instrs[frame.pc]? with
        | some (.yieldAll _) => true
        | _ => false
      let prepare (vm : Vm) : Vm :=
        let base := vm.frame
        let vm := Vm.restore frame [base]
          { vm with machine := { vm.machine with depth := vm.machine.depth + 2 } }
        if !started then vm
        else if isHandingOn then { vm with stack := vm.stack.push v, resumption := mode }
        else
          match mode with
          | .next => Vm.push v vm
          | .thrown => Vm.leave env (.thrown v) vm
          | .returned => Vm.leave env (.returned v) vm
      let (status, frame) ← running env prepare
      match status with
      | .yielded v isResult =>
        setKind ref (.generator (.suspended frame true))
        if isResult then return v else newResult v false
      | status =>
        setKind ref (.generator .finished)
        newResult (← outcome status) true
  | _ => typeError "next method called on incompatible receiver"

end Run

/-- The host with room for so many runs inside each other. -/
def hostAt (natives : Array Native) : Nat → Host
  | 0 => .exhausted Run.tooDeep
  | n + 1 =>
    let env : Setting := ⟨hostAt natives n, natives⟩
    { call := Run.callValue env
      construct := Run.constructValue env
      evaluate := Run.evaluate env
      makeFunction := Run.makeFunction env
      resume := Run.resume env }

/-- How many runs may stand inside each other. -/
def runLimit : Nat := 1500

end Unravel.Script
