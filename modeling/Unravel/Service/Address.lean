import Unravel.Text.Bytes

/-! The address of a request: which part of it is the path, and where a path leads. -/

namespace Unravel.Service

/-- Characters that an address may start with and that are no part of it. -/
def isLeadingJunk (c : Nat) : Bool := c ≤ 32

/-- Characters that are dropped wherever they stand in an address. -/
def isDropped (c : Nat) : Bool := c = 9 || c = 10 || c = 13

def isAsciiLetter (c : Nat) : Bool := (97 ≤ c && c ≤ 122) || (65 ≤ c && c ≤ 90)

def isSchemePart (c : Nat) : Bool :=
  isAsciiLetter c || (48 ≤ c && c ≤ 57) || c = 43 || c = 45 || c = 46

/-- What follows a scheme such as `http:`; an address without one is itself. -/
def afterScheme (address : Text) : Text :=
  let scheme := address.takeWhile (· ≠ 58)
  if scheme.length < address.length && scheme.head?.any isAsciiLetter && scheme.all isSchemePart then
    address.drop (scheme.length + 1)
  else address

/-- What follows the host after two slashes. -/
def afterHost : Text → Text
  | 47 :: 47 :: rest => rest.dropWhile fun c => c ≠ 47 && c ≠ 63 && c ≠ 35
  | address => address

/-- The path of an address, without scheme, host, query and fragment. -/
def pathOf (address : Text) : Text :=
  let clean := (address.dropWhile isLeadingJunk).filter fun c => !isDropped c
  (afterHost (afterScheme clean)).takeWhile fun c => c ≠ 63 && c ≠ 35

/-- The path that an address asks for. An address is taken apart twice, percent escapes are read,
and the path starts with one slash, however many are written. -/
def requestedPath (address : Text) : Text :=
  match Text.unescapePercent (pathOf (pathOf address)) with
  | [] => []
  | path => 47 :: path.dropWhile (· = 47)

/-- The two things the service does. -/
inductive Action where
  | deobfuscate
  | obfuscate
deriving DecidableEq, Repr

/-- Where a path leads: to an action, to a file, of which there are none, or nowhere. -/
inductive Route where
  | action (a : Action)
  | file
  | unknown
deriving DecidableEq, Repr

/-- A file name starts with no slash and is written on one line. -/
def isFileName : Text → Bool
  | [] => false
  | c :: rest => c ≠ 47 && !rest.contains 10

def routeOf (path : Text) : Route :=
  let files := Text.ofString "/static/"
  if path = Text.ofString "/api/deobfuscate" then .action .deobfuscate
  else if path = Text.ofString "/api/obfuscate" then .action .obfuscate
  else if files.isPrefixOf path && isFileName (path.drop files.length) then .file
  else .unknown

/-- The path with each pair of slashes made one. -/
def mergeSlashes : Text → Text
  | 47 :: 47 :: rest => 47 :: mergeSlashes rest
  | c :: rest => c :: mergeSlashes rest
  | [] => []

end Unravel.Service
