import Unravel.Script.Library.Setup

/-! Functions as objects. -/

namespace Unravel.Script.Library

open Run

/-- Makes a function from the texts of its parameters and its body. -/
def functionMake (kind : FunctionKind) : Native := fun h _ args _ => do
  let mut texts : Array Units := #[]
  for a in args do
    texts := texts.push (← toText h a)
  let body := texts.getD (texts.size - 1) #[]
  let params := Units.join (.ofString ",") texts.pop.toList
  h.makeFunction kind params body

def functionCall : Native := fun h this args _ => do
  needFunction this
  h.call this (argument args 0) (args.extract 1 args.size)

def functionApply : Native := fun h this args _ => do
  needFunction this
  match argument args 1 with
  | .undefined | .null => h.call this (argument args 0) #[]
  | list => h.call this (argument args 0) (← listOf h list)

def functionBind : Native := fun h this args _ => do
  match this with
  | .object target =>
    if !(← isCallable this) then typeError "Bind must be called on a function"
    let before := args.extract 1 args.size
    let length ← match ← ownProperty h target .length with
      | some _ =>
        match ← getFrom h target .length this with
        | .number x =>
          let n := Numeral.integerPart x
          pure (if n.isNaN then 0.0 else if n < Float.ofNat before.size then 0.0
            else n - Float.ofNat before.size)
        | _ => pure 0.0
      | none => pure 0.0
    let name ← match ← getNamed h this "name" with
      | .string u => pure u
      | _ => pure #[]
    let proto ← protoOf h target
    let ref ← alloc { proto := proto, kind := .bound target (argument args 0) before }
    putMember ref .length (.data (.number length) false false true 0)
    putMember ref (.ofString "name")
      (.data (.string (Units.ofString "bound " ++ name)) false false true 0)
    return .object ref
  | _ => typeError "Bind must be called on a function"

/-- The text of a function of the language itself. -/
def nativeText (name : Units) : Units :=
  Units.ofString "function " ++ name ++ .ofString "() \x7b [native code] \x7d"

def functionText : Native := fun _ this _ _ => do
  match this with
  | .object ref =>
    match ← kindOf ref with
    | .closure c =>
      let text := (← get).scripts.getD c.code.script #[]
      return .string (.ofText (text.extract c.code.start c.code.stop).toList)
    | .native .. =>
      match ← peek ref "name" with
      | .string u => return .string (nativeText u)
      | _ => return .string (nativeText #[])
    | .bound .. => return .string (nativeText #[])
    | .proxy .. =>
      if ← isCallable this then return .string (nativeText #[])
      typeError "Function.prototype.toString requires that 'this' be a Function"
    | _ => typeError "Function.prototype.toString requires that 'this' be a Function"
  | _ => typeError "Function.prototype.toString requires that 'this' be a Function"

def functionHasInstance : Native := fun h this args _ => do
  match this with
  | .object ref =>
    if !(← isCallable this) then return .bool false
    return .bool (← inherits h 100 ref (argument args 0))
  | _ => return .bool false

open Setup in
def setupFunction : Setup Unit := do
  let proto := Fixed.functionProto.ref
  let id ← register Setup.missing
  modify fun s => { s with
    machine := { s.machine with
      objects := s.machine.objects.modify proto fun o => { o with kind := .native id false } } }
  Setup.put proto .length (.data (.number 0.0) false false true 0)
  Setup.put proto (.ofString "name") (.data (.string #[]) false false true 0)
  let _ ← constructor "Function" 1 proto (functionMake .ordinary)
  methods proto [("bind", 1, functionBind), ("toString", 0, functionText)]
  hidden proto "call" (.object (← intrinsic .call "call" 1 functionCall))
  hidden proto "apply" (.object (← intrinsic .apply "apply" 2 functionApply))
  let f ← function "[Symbol.hasInstance]" 1 functionHasInstance
  Setup.put proto WellKnown.hasInstance.key (.data (.object f) false false false 0)
  let refuse : Native := fun _ _ _ _ =>
    typeError ("'caller', 'callee', and 'arguments' properties may not be accessed on strict mode "
      ++ "functions or the arguments objects for calls to them")
  let id ← register refuse
  let refusal := Fixed.refusal.ref
  modify fun s => { s with
    machine := { s.machine with
      objects := s.machine.objects.modify refusal fun o =>
        { o with kind := .native id false, extensible := false } } }
  Setup.put refusal .length (.data (.number 0.0) false false false 0)
  Setup.put refusal (.ofString "name") (.data (.string #[]) false false false 0)
  for name in ["arguments", "caller"] do
    Setup.put proto (.ofString name) (.accessor (.object refusal) (.object refusal) false true 0)
  -- functions of other kinds, whose constructors have no global names
  for (fixed, name, kind) in
      [(Fixed.generatorFunctionProto, "GeneratorFunction", FunctionKind.generator),
       (Fixed.asyncFunctionProto, "AsyncFunction", .asynchronous)] do
    let c ← functionOf (← register (functionMake kind)) name 1 true
    constant c "prototype" (.object fixed.ref)
    Setup.put fixed.ref (.ofString "constructor") (.data (.object c) false false true 0)
    tag fixed.ref name

end Unravel.Script.Library
