import Unravel.Script.Regex.Matcher
import Unravel.Script.Value

/-! Code for the machine that runs scripts: a list of instructions for each function, over a stack
of operands, variables of the function's own, and variables shared with other functions. -/

namespace Unravel.Script

/-- Where a variable lives: with the call that runs, in a cell that the call made, or in a cell
that the function was made with. -/
inductive Place where
  | slot (index : Nat)
  | cell (index : Nat)
  | outer (index : Nat)
deriving DecidableEq, Repr, Inhabited

inductive BinaryOperator where
  | add | sub | mul | div | mod | pow | shl | shr | ushr | bitAnd | bitOr | bitXor
  | lt | le | gt | ge | eq | ne | same | notSame | instanceOf | isIn
deriving DecidableEq, Repr, Inhabited

def BinaryOperator.ofText? : String → Option BinaryOperator
  | "+" => some .add | "-" => some .sub | "*" => some .mul | "/" => some .div | "%" => some .mod
  | "**" => some .pow | "<<" => some .shl | ">>" => some .shr | ">>>" => some .ushr
  | "&" => some .bitAnd | "|" => some .bitOr | "^" => some .bitXor
  | "<" => some .lt | "<=" => some .le | ">" => some .gt | ">=" => some .ge
  | "==" => some .eq | "!=" => some .ne | "===" => some .same | "!==" => some .notSame
  | "instanceof" => some .instanceOf | "in" => some .isIn
  | _ => none

inductive UnaryOperator where
  | minus | plus | not | bitNot | typeOf
deriving DecidableEq, Repr, Inhabited

/-- Kinds of error that the language itself raises. -/
inductive ErrorKind where
  | error | type | range | reference | form | eval | uri
deriving DecidableEq, Repr, Inhabited

namespace ErrorKind

def all : List ErrorKind := [.error, .type, .range, .reference, .form, .eval, .uri]

def name : ErrorKind → String
  | .error => "Error" | .type => "TypeError" | .range => "RangeError"
  | .reference => "ReferenceError" | .form => "SyntaxError" | .eval => "EvalError"
  | .uri => "URIError"

end ErrorKind

/-- How a function is put under a key of an object or class. -/
inductive MemberKind where
  | method | getter | setter
deriving DecidableEq, Repr, Inhabited

/-- An instruction. The comment after one shows the operands it takes and leaves, the last on
top. -/
inductive Instr where
  /-- Leaves a value. -/
  | const (v : Value)
  | pop
  /-- a → a a -/
  | dup
  /-- a b → a b a b -/
  | dup2
  /-- a b → b a -/
  | swap
  /-- a b c → c a b -/
  | rotate
  /-- a b c d → d a b c -/
  | rotate4
  | get (p : Place)
  /-- As `get`, but an error before the declaration of the variable has run. -/
  | getChecked (p : Place) (name : String)
  /-- v → -/
  | set (p : Place)
  | setChecked (p : Place) (name : String)
  /-- a b → , the sum becomes the value of the variable -/
  | setSum (p : Place)
  /-- The variable has no value from here to its declaration. -/
  | clear (p : Place)
  /-- Makes a new cell with a value. -/
  | newCell (index : Nat) (v : Value)
  /-- Makes a new cell with the value of the old one. -/
  | copyCell (index : Nat)
  | getGlobal (name : Units)
  | typeOfGlobal (name : Units)
  /-- v → -/
  | setGlobal (name : Units)
  | deleteGlobal (name : Units)
  /-- Declares a variable of the whole script, or a function of it. -/
  | declareGlobal (name : Units) (isFunction : Bool)
  | declareLexical (name : Units) (isConst : Bool)
  /-- v → , gives a variable that a script declares its first value -/
  | setLexical (name : Units)
  /-- object → object bool, whether the name is looked up in it -/
  | hasName (name : Units)
  | this
  | callee
  | newTarget
  | home
  /-- The object of the arguments; the cells are those of the parameters they are tied to. -/
  | argumentsObject (isTied : Bool) (cells : Array (Option Nat))
  /-- An array of the arguments from an index on. -/
  | restArguments (index : Nat)
  | newObject
  | newArray
  /-- array v → array -/
  | append
  /-- array → array -/
  | appendHole
  /-- array items → array -/
  | appendAll
  /-- object v → object -/
  | define (key : Key)
  /-- object key v → object -/
  | defineComputed
  /-- object source → object -/
  | defineAll
  /-- object v → object -/
  | setProto
  /-- object key function → object -/
  | defineMember (kind : MemberKind) (enumerable : Bool)
  | closure (code : Nat)
  /-- key function → key function, naming the function by the key -/
  | nameClosure
  | regex (source : Units) (flags : Regex.Flags) (program : Regex.Program)
  | template (site : Nat) (cooked : Array (Option Units)) (raw : Array Units)
  /-- parent? → constructor prototype -/
  | makeClass (code : Nat) (hasParent : Bool)
  /-- v → key -/
  | toKey
  /-- object → v -/
  | getMember (key : Key)
  /-- object key → v -/
  | getElement
  /-- object → v object -/
  | getMethod (key : Key)
  /-- object key → v object -/
  | getElementMethod
  /-- object v → v -/
  | setMember (key : Key)
  /-- object key v → v -/
  | setElement
  /-- object → bool -/
  | deleteMember (key : Key)
  /-- object key → bool -/
  | deleteElement
  /-- home this key → v -/
  | superGet
  /-- home this key v → v -/
  | superSet
  /-- a b → v -/
  | binary (op : BinaryOperator)
  /-- a → v -/
  | unary (op : UnaryOperator)
  /-- v → number -/
  | toNumeric
  /-- number → number -/
  | increment
  | decrement
  /-- v → string -/
  | toText
  | jump (target : Nat)
  /-- A jump back, which counts as a step. -/
  | jumpBack (target : Nat)
  /-- v → -/
  | jumpIfFalse (target : Nat)
  /-- v → -/
  | jumpIfTrue (target : Nat)
  /-- v → v if it jumps, nothing otherwise -/
  | jumpIfFalseKeep (target : Nat)
  | jumpIfTrueKeep (target : Nat)
  | jumpIfDefinedKeep (target : Nat)
  /-- f this arguments → v; the text shows what is called -/
  | call (count : Nat) (shown : String)
  /-- f this array → v -/
  | callSpread (shown : String)
  /-- f arguments → v -/
  | construct (count : Nat) (shown : String)
  /-- f array → v -/
  | constructSpread (shown : String)
  /-- callee newTarget array → object -/
  | superCall
  /-- f this arguments → v, where a call of the global function runs code in place -/
  | evalCall (count : Nat) (site : Nat)
  /-- v → -/
  | ret
  /-- v → -/
  | raise
  | fail (kind : ErrorKind) (message : String)
  /-- v → v, an error if it is undefined or null -/
  | requireObject
  /-- object keys → rest -/
  | objectRest
  | tryCatch (target : Nat)
  | tryFinally (target : Nat)
  /-- Closes the items of a loop or a pattern if it is left early. -/
  | tryItems (slot : Nat)
  | endTry
  | beginFinally
  | endFinally
  /-- Jumps out of what is tried, down to a number of open tries. -/
  | leave (target depth : Nat)
  /-- v → , the items of a value, kept in a slot -/
  | openItems (slot : Nat)
  /-- → item, or a jump if there is none -/
  | nextItem (slot : Nat) (target : Nat)
  /-- → item or undefined -/
  | stepItem (slot : Nat)
  /-- → array of the items left -/
  | restItems (slot : Nat)
  | closeItems (slot : Nat)
  /-- v → , the keys of a value, kept in a slot -/
  | openKeys (slot : Nat)
  /-- → key, or a jump if there is none -/
  | nextKey (slot : Nat) (target : Nat)
  /-- Ends the call that makes a generator. -/
  | startGenerator
  /-- v → what is sent in -/
  | yield
  /-- v → result; the iterator stands in a slot -/
  | yieldAll (slot : Nat)
  | await
  /-- What stands for a result that never comes. -/
  | promise
  /-- v → v, what a constructor of a derived class gives back; the place is that of `this` -/
  | derivedResult (this : Place)
  /-- v → , what another constructor made becomes the receiver, once -/
  | bindThis (this : Place)
  /-- v → object -/
  | toObject
deriving Inhabited

/-- The instruction with another place to jump to, if it jumps. -/
def Instr.withTarget (t : Nat) : Instr → Instr
  | .jump _ => .jump t
  | .jumpBack _ => .jumpBack t
  | .jumpIfFalse _ => .jumpIfFalse t
  | .jumpIfTrue _ => .jumpIfTrue t
  | .jumpIfFalseKeep _ => .jumpIfFalseKeep t
  | .jumpIfTrueKeep _ => .jumpIfTrueKeep t
  | .jumpIfDefinedKeep _ => .jumpIfDefinedKeep t
  | .tryCatch _ => .tryCatch t
  | .tryFinally _ => .tryFinally t
  | .leave _ d => .leave t d
  | .nextItem s _ => .nextItem s t
  | .nextKey s _ => .nextKey s t
  | i => i

/-- What a function is, as far as calls go. -/
inductive FunctionKind where
  | ordinary
  | arrow
  | method
  | generator
  | asynchronous
  | asyncArrow
  | asyncMethod
  | baseClass
  | derivedClass
deriving DecidableEq, Repr, Inhabited

/-- The code of a function. -/
structure Code where
  name : Units := #[]
  /-- How many parameters come before the first with a default. -/
  length : Nat := 0
  kind : FunctionKind := .ordinary
  strict : Bool := false
  instrs : Array Instr := #[]
  /-- Slots of a call, the first of which take the arguments. -/
  slots : Nat := 0
  params : Nat := 0
  cells : Nat := 0
  /-- The cells a function is made with, as the code that makes it sees them. -/
  captures : Array Place := #[]
  /-- Whether a method that generates. -/
  isMethod : Bool := false
  /-- The script and the part of its text that the function was written in. -/
  script : Nat := 0
  start : Nat := 0
  stop : Nat := 0
deriving Inhabited

end Unravel.Script
