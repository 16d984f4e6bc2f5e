import Unravel.CommandLine
import Unravel.Deobfuscation
import Unravel.Json
import Unravel.Json.Reader
import Unravel.Main
import Unravel.Number.Basic
import Unravel.Number.Bits
import Unravel.Number.Double
import Unravel.Number.Elementary
import Unravel.Number.Shortest
import Unravel.Obfuscator
import Unravel.Options
import Unravel.Passes
import Unravel.Proofs.Grammar.Passes
import Unravel.Proofs.Grammar.Repeated
import Unravel.Proofs.Grammar.Table
import Unravel.Proofs.Grammar.Visits
import Unravel.Proofs.Holes
import Unravel.Proofs.Links
import Unravel.Proofs.Literals.Agreement
import Unravel.Proofs.Literals.Decoding
import Unravel.Proofs.Literals.Labels
import Unravel.Proofs.Literals.NumberedEscapes
import Unravel.Proofs.Literals.Numerals
import Unravel.Proofs.Literals.Plain
import Unravel.Proofs.Literals.Reading
import Unravel.Proofs.Literals.Respelling
import Unravel.Proofs.Literals.Units
import Unravel.Proofs.Number.Exact
import Unravel.Proofs.Number.Spelling
import Unravel.Proofs.Numbering
import Unravel.Proofs.Passes.Containment
import Unravel.Proofs.Passes.History
import Unravel.Proofs.Scope.CaptureFree
import Unravel.Proofs.Scope.FreshNames
import Unravel.Proofs.Scope.Growth
import Unravel.Proofs.Scope.HandedOut
import Unravel.Proofs.Scope.Hoisting
import Unravel.Proofs.Scope.Interface
import Unravel.Proofs.Scope.Lexical
import Unravel.Proofs.Scope.Listing
import Unravel.Proofs.Scope.Marks
import Unravel.Proofs.Scope.OtherNames
import Unravel.Proofs.Scope.Plan
import Unravel.Proofs.Scope.Pruning
import Unravel.Proofs.Scope.Relabel
import Unravel.Proofs.Scope.Releases
import Unravel.Proofs.Scope.RenamedOnce
import Unravel.Proofs.Scope.Renaming
import Unravel.Proofs.Scope.Resolution
import Unravel.Proofs.Scope.Retouch
import Unravel.Proofs.Scope.Sites
import Unravel.Proofs.Scope.Survival
import Unravel.Proofs.Scope.Tabulated
import Unravel.Proofs.Scope.Tracking
import Unravel.Proofs.Scope.Ways
import Unravel.Proofs.Settling.Counts
import Unravel.Proofs.Settling.Grafts
import Unravel.Proofs.Settling.Idle
import Unravel.Proofs.Settling.Order
import Unravel.Proofs.Settling.Origins
import Unravel.Proofs.Settling.Repeated
import Unravel.Proofs.Settling.Selected
import Unravel.Proofs.Settling.Shared
import Unravel.Proofs.Settling.Tables
import Unravel.Proofs.Settling.Visits
import Unravel.Proofs.Simplify.ComparedTests
import Unravel.Proofs.Simplify.DeadCodeScope
import Unravel.Proofs.Simplify.DecidedTests
import Unravel.Proofs.Simplify.Dispatch
import Unravel.Proofs.Simplify.Dotting
import Unravel.Proofs.Simplify.ExactArithmetic
import Unravel.Proofs.Simplify.FlatteningScope
import Unravel.Proofs.Simplify.Folding
import Unravel.Proofs.Simplify.HeldMembers
import Unravel.Proofs.Simplify.Jumps
import Unravel.Proofs.Simplify.Landings
import Unravel.Proofs.Simplify.LateOrders
import Unravel.Proofs.Simplify.PlainAccess
import Unravel.Proofs.Simplify.ProxyMeaning
import Unravel.Proofs.Simplify.ProxyScope
import Unravel.Proofs.Simplify.Sharing
import Unravel.Proofs.Simplify.Termination
import Unravel.Proofs.Simplify.Unchanged
import Unravel.Proofs.Simplify.Unflattening
import Unravel.Proofs.Simplify.Work
import Unravel.Proofs.Simplify.WriteTargets
import Unravel.Proofs.Strings.AliasScope
import Unravel.Proofs.Strings.Aliases
import Unravel.Proofs.Strings.Arguments
import Unravel.Proofs.Strings.Dangling
import Unravel.Proofs.Strings.Frame
import Unravel.Proofs.Strings.Removal
import Unravel.Proofs.Strings.Rotation
import Unravel.Proofs.Strings.Rounds
import Unravel.Proofs.Strings.Survivors
import Unravel.Proofs.Tree
import Unravel.Scope.Analysis
import Unravel.Scope.Binding
import Unravel.Scope.Event
import Unravel.Scope.Pattern
import Unravel.Scope.Rename
import Unravel.Scope.Table
import Unravel.Script.Action
import Unravel.Script.Code
import Unravel.Script.Compile.Basic
import Unravel.Script.Compile.Class
import Unravel.Script.Compile.Declared
import Unravel.Script.Compile.Expression
import Unravel.Script.Compile.Function
import Unravel.Script.Compile.Program
import Unravel.Script.Compile.Statement
import Unravel.Script.Convert
import Unravel.Script.Element
import Unravel.Script.Engine
import Unravel.Script.Execute
import Unravel.Script.Interpreter
import Unravel.Script.Iterate
import Unravel.Script.Library
import Unravel.Script.Library.Array
import Unravel.Script.Library.Bytes
import Unravel.Script.Library.Collection
import Unravel.Script.Library.Date
import Unravel.Script.Library.Digits
import Unravel.Script.Library.Failure
import Unravel.Script.Library.Function
import Unravel.Script.Library.Json
import Unravel.Script.Library.Number
import Unravel.Script.Library.Object
import Unravel.Script.Library.Percent
import Unravel.Script.Library.Promise
import Unravel.Script.Library.Reflect
import Unravel.Script.Library.Regex
import Unravel.Script.Library.Replacement
import Unravel.Script.Library.Setup
import Unravel.Script.Library.Sort
import Unravel.Script.Library.String
import Unravel.Script.Load
import Unravel.Script.Machine
import Unravel.Script.Numeral
import Unravel.Script.Operator
import Unravel.Script.Property
import Unravel.Script.Regex.Matcher
import Unravel.Script.Regex.Term
import Unravel.Script.Step
import Unravel.Script.Units
import Unravel.Script.Value
import Unravel.Script.Vm
import Unravel.Service
import Unravel.Service.Address
import Unravel.Simplify.Access
import Unravel.Simplify.DeadCode
import Unravel.Simplify.Escapes
import Unravel.Simplify.Expression
import Unravel.Simplify.Flattening
import Unravel.Simplify.Proxy
import Unravel.Source.Entities
import Unravel.Source.Layout
import Unravel.Source.Layout.Format
import Unravel.Source.Layout.Frame
import Unravel.Source.Layout.Lexeme
import Unravel.Source.Layout.Packed
import Unravel.Source.Layout.Page
import Unravel.Source.Layout.WordChars
import Unravel.Source.Lexer
import Unravel.Source.Parse
import Unravel.Source.Parse.Class
import Unravel.Source.Parse.Core
import Unravel.Source.Parse.Expression
import Unravel.Source.Parse.Function
import Unravel.Source.Parse.Markup
import Unravel.Source.Parse.Pattern
import Unravel.Source.Parse.Program
import Unravel.Source.Parse.Statement
import Unravel.Source.Printer
import Unravel.Source.Quote
import Unravel.Source.RegexForm
import Unravel.Source.Token
import Unravel.Strings.Inlining
import Unravel.Strings.Names
import Unravel.Strings.Resolver
import Unravel.Syntax.Forest
import Unravel.Syntax.Interchange
import Unravel.Syntax.Label
import Unravel.Syntax.Literal
import Unravel.Syntax.Node
import Unravel.Syntax.Path
import Unravel.Syntax.Repeated
import Unravel.Syntax.Rule
import Unravel.Text
import Unravel.Text.Bytes
import Unravel.Text.LetterCase
import Unravel.Text.NameChars
import Unravel.Text.Pattern
import Unravel.Text.Quoted
