import Unravel.Number.Basic
import Unravel.Text.NameChars

/-! Tokens of the source language and its reserved words. -/

namespace Unravel.Source

inductive TokenKind where
  | boolean
  | endOfInput
  | identifier
  | keyword
  | null
  | numeric
  | punctuator
  | string
  | regex
  | template
  | markupName
  | markupText
deriving DecidableEq, Repr

/-- A token. `value` is its name, sign or raw text; `text` the value of a string, the cooked text
of a template or the flags of a regular expression. -/
structure Token where
  kind : TokenKind
  value : String := ""
  text : Text := []
  /-- The body of a regular expression; its flags are the text. -/
  pattern : Text := []
  number : Number := .int 0
  octal : Bool := false
  head : Bool := false
  tail : Bool := false
  start : Nat := 0
  stop : Nat := 0
  line : Nat := 1
deriving Repr

instance : Inhabited Token := ⟨{ kind := .endOfInput }⟩

namespace Token

def isPunctuator (t : Token) (value : String) : Bool :=
  t.kind = .punctuator && t.value = value

def isKeyword (t : Token) (value : String) : Bool :=
  t.kind = .keyword && t.value = value

def isIdentifier (t : Token) (value : String) : Bool :=
  t.kind = .identifier && t.value = value

/-- Names in the wide sense, reserved words included. -/
def isName (t : Token) : Bool :=
  t.kind = .identifier || t.kind = .keyword || t.kind = .boolean || t.kind = .null

/-- Whether a token can start a property name. -/
def startsKey (t : Token) : Bool :=
  t.isName || t.kind = .string || t.kind = .numeric || t.isPunctuator "["

/-- Whether a token spells a word, as a name or sign or as the text of a string or template. -/
def spells (t : Token) (word : String) : Bool :=
  match t.kind with
  | .string => t.text = Text.ofString word
  | .numeric | .regex | .endOfInput => false
  | _ => t.value = word

/-- The token as error messages show it. -/
def shown (t : Token) : String :=
  match t.kind with
  | .string => t.text.toString
  | .numeric => t.number.text
  | _ => t.value

end Token

def keywords : List String :=
  ["if", "in", "do", "var", "for", "new", "try", "let", "this", "else", "case", "void", "with",
   "enum", "while", "break", "catch", "throw", "const", "yield", "class", "super", "return",
   "typeof", "delete", "switch", "export", "import", "default", "finally", "extends", "function",
   "continue", "debugger", "instanceof"]

def isFutureReserved (w : String) : Bool :=
  ["enum", "export", "import", "super"].contains w

def isStrictReserved (w : String) : Bool :=
  ["implements", "interface", "package", "private", "protected", "public", "static", "yield",
   "let"].contains w

def isRestricted (w : String) : Bool := w = "eval" || w = "arguments"

def assignmentOperators : List String :=
  ["=", "*=", "**=", "/=", "%=", "+=", "-=", "<<=", ">>=", ">>>=", "&=", "^=", "|="]

/-- How tightly an infix operator binds; 0 for what is none. -/
def infixStrength : String → Nat
  | "||" => 1
  | "&&" => 2
  | "|" => 3
  | "^" => 4
  | "&" => 5
  | "==" | "!=" | "===" | "!==" => 6
  | "<" | ">" | "<=" | ">=" => 7
  | "<<" | ">>" | ">>>" => 8
  | "+" | "-" => 9
  | "*" | "/" | "%" => 11
  | _ => 0

end Unravel.Source
