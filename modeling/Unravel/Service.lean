import Unravel.Deobfuscation
import Unravel.Json.Reader
import Unravel.Obfuscator
import Unravel.Service.Address

/-! The service: requests that carry code and settings as JSON, and the answers to them. -/

namespace Unravel.Service

/-- A request as it arrives. -/
structure Request where
  path : Text
  method : Text := Text.ofString "POST"
  contentType : Text := Text.ofString "application/json"
  body : Text := []

/-- An answer: its status and, for the service's own answers, a JSON body. -/
structure Response where
  status : Nat
  body : Option Json := none
  sessions : List Session := []

/-- ASCII letters in lower case. -/
def lowered (t : Text) : Text := t.map fun c => if 65 ≤ c && c ≤ 90 then c + 32 else c

def trimmed (t : Text) : Text :=
  let blank (c : Nat) : Bool := c = 32 || c = 9
  ((t.dropWhile blank).reverse.dropWhile blank).reverse

/-- Whether a content type announces JSON: its own type, or one built on it. -/
def announcesJson (contentType : Text) : Bool :=
  let kind := lowered (trimmed (contentType.takeWhile (· ≠ 59)))
  kind = Text.ofString "application/json"
    || ((Text.ofString "application/").isPrefixOf kind && (Text.ofString "+json").isSuffixOf kind)

/-- The JSON value of a body. A byte order mark before it is no part of it; without one, zeros
among the first bytes tell a wider encoding. -/
def payload? (r : Request) : Option Json :=
  if !announcesJson r.contentType then none
  else match r.body with
    | 0xFEFF :: body => Json.parse? body
    | body => (Text.ofDetected? (Text.bytes body)).bind Json.parse?

/-- The code and settings that a request carries. -/
def Request.content (r : Request) : Except ConfigurationError (Text × List (Text × Json)) :=
  match payload? r with
  | some (.object members) => do
    let code ← match Json.lookup (Text.ofString "code") members with
      | none => .ok []
      | some (.text code) => .ok code
      | some _ => .error .codeNotText
    match Json.lookup (Text.ofString "options") members with
    | none | some .null => .ok (code, [])
    | some (.object settings) => .ok (code, settings)
    | some _ => .error .optionsNoObject
  | _ => .error .noObject

/-- What the service works with. -/
structure Setup where
  engine : Engine
  bundle : Option Text := none

/-- The outcome of an action on a request. -/
def perform (setup : Setup) (r : Request) : Action → Except ConfigurationError Response
  | .deobfuscate => do
    let (code, settings) ← r.content
    let options ← Options.ofMembers {} settings
    let report := deobfuscate (.of setup.engine matchers) options code
    return ⟨200, some report.toJson, report.sessions⟩
  | .obfuscate => do
    let (code, members) ← r.content
    let settings ← Obfuscator.Settings.ofMembers members
    let result := Obfuscator.obfuscate setup.engine setup.bundle code settings
    return ⟨200, some result.toJson, result.sessions⟩

/-- Methods that a route answers itself. -/
def Route.takes (route : Route) (method : Text) : Bool :=
  match route with
  | .action _ => method = Text.ofString "post"
  | .file => method = Text.ofString "get" || method = Text.ofString "head"
  | .unknown => false

/-- The answer of a route to a method it takes. -/
def answer (setup : Setup) (r : Request) : Route → Response
  | .action a =>
    match perform setup r a with
    | .ok response => response
    | .error e => ⟨400, some (.record [("error", .text e.message)]), []⟩
  | .file | .unknown => ⟨404, none, []⟩

/-- Answers a request. What is wrong with a request is told to the client. A path with doubled
slashes leads to where the path with single ones is. Every route tells its methods. -/
def respond (setup : Setup) (r : Request) : Response :=
  let method := lowered r.method
  let path := requestedPath r.path
  let asksForMethods := method = Text.ofString "options"
  match routeOf path with
  | .unknown =>
    match routeOf (mergeSlashes path) with
    | .unknown => ⟨404, none, []⟩
    | route => if asksForMethods || route.takes method then ⟨308, none, []⟩ else ⟨405, none, []⟩
  | route =>
    if asksForMethods then ⟨200, none, []⟩
    else if route.takes method then answer setup r route
    else ⟨405, none, []⟩

end Unravel.Service
