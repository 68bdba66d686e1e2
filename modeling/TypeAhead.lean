import TypeAhead.Analysis
import TypeAhead.Code
import TypeAhead.Command.Arguments
import TypeAhead.Command.Report
import TypeAhead.Command.Run
import TypeAhead.Command.Trace
import TypeAhead.Completion
import TypeAhead.Document.Basic
import TypeAhead.Document.Json
import TypeAhead.Document.Scalar
import TypeAhead.Document.Toml
import TypeAhead.Fault
import TypeAhead.Files
import TypeAhead.Fragment.Grammar
import TypeAhead.Fragment.Locate
import TypeAhead.Journal.Event
import TypeAhead.Journal.Memory
import TypeAhead.Journal.Sink
import TypeAhead.Journal.Summary
import TypeAhead.Journal.Trace
import TypeAhead.Legacy
import TypeAhead.Limits
import TypeAhead.Literal.Number
import TypeAhead.Literal.Quoted
import TypeAhead.Main
import TypeAhead.Proofs.BareName
import TypeAhead.Proofs.BlankBeforeDot
import TypeAhead.Proofs.ByteOrder
import TypeAhead.Proofs.CompletionList
import TypeAhead.Proofs.Formatting
import TypeAhead.Proofs.Fragment.Alias
import TypeAhead.Proofs.Fragment.Answer
import TypeAhead.Proofs.Fragment.Calls
import TypeAhead.Proofs.Fragment.Context
import TypeAhead.Proofs.Fragment.Discipline
import TypeAhead.Proofs.Fragment.Echo
import TypeAhead.Proofs.Fragment.Edge
import TypeAhead.Proofs.Fragment.FirstOperand
import TypeAhead.Proofs.Fragment.Idempotence
import TypeAhead.Proofs.Fragment.InStep
import TypeAhead.Proofs.Fragment.Lockstep
import TypeAhead.Proofs.Fragment.NameChain
import TypeAhead.Proofs.Fragment.Origin
import TypeAhead.Proofs.Fragment.Progress
import TypeAhead.Proofs.Fragment.Prolonged
import TypeAhead.Proofs.Fragment.Quiet
import TypeAhead.Proofs.Fragment.Recursion
import TypeAhead.Proofs.Fragment.Settled
import TypeAhead.Proofs.Fragment.Soundness
import TypeAhead.Proofs.Fragment.Within
import TypeAhead.Proofs.Fragment.Words
import TypeAhead.Proofs.Integers
import TypeAhead.Proofs.ListedMember
import TypeAhead.Proofs.Literal.Bodies
import TypeAhead.Proofs.Literal.Closed
import TypeAhead.Proofs.Literal.Numbers
import TypeAhead.Proofs.Literal.Quoting
import TypeAhead.Proofs.MemberAccess
import TypeAhead.Proofs.NullPropagation
import TypeAhead.Proofs.NumberGrammar
import TypeAhead.Proofs.Positions
import TypeAhead.Proofs.Respelling
import TypeAhead.Proofs.Rewriting
import TypeAhead.Proofs.Termination
import TypeAhead.Proofs.Text.Marker
import TypeAhead.Proofs.Text.Places
import TypeAhead.Proofs.Token.Ahead
import TypeAhead.Proofs.Token.Coverage
import TypeAhead.Proofs.Token.Cut
import TypeAhead.Proofs.Token.Extension
import TypeAhead.Proofs.Token.Faults
import TypeAhead.Proofs.Token.Growth
import TypeAhead.Proofs.Token.Lexeme
import TypeAhead.Proofs.Token.Neighbours
import TypeAhead.Proofs.Token.Numerals
import TypeAhead.Proofs.Token.Reading
import TypeAhead.Proofs.Token.Spacing
import TypeAhead.Proofs.Token.Trailing
import TypeAhead.Proofs.TypedWord
import TypeAhead.Proofs.Types.Ancestry
import TypeAhead.Proofs.Types.ArrayNames
import TypeAhead.Proofs.Types.Assignable
import TypeAhead.Proofs.Types.Equivalent
import TypeAhead.Proofs.Types.EveryModel
import TypeAhead.Proofs.Types.Finding
import TypeAhead.Proofs.Types.Hierarchy
import TypeAhead.Proofs.Types.History
import TypeAhead.Proofs.Types.Loaded
import TypeAhead.Proofs.Types.Meaning
import TypeAhead.Proofs.Types.Registered
import TypeAhead.Proofs.Types.Within
import TypeAhead.Proofs.Typing.Alike
import TypeAhead.Proofs.Typing.BeforeMember
import TypeAhead.Proofs.Typing.Brackets
import TypeAhead.Proofs.Typing.Branches
import TypeAhead.Proofs.Typing.CommonType
import TypeAhead.Proofs.Typing.Confined
import TypeAhead.Proofs.Typing.Confinement
import TypeAhead.Proofs.Typing.Course
import TypeAhead.Proofs.Typing.Elements
import TypeAhead.Proofs.Typing.Enclosed
import TypeAhead.Proofs.Typing.Equivalent
import TypeAhead.Proofs.Typing.EveryRule
import TypeAhead.Proofs.Typing.FullName
import TypeAhead.Proofs.Typing.Hinges
import TypeAhead.Proofs.Typing.ImplicitIt
import TypeAhead.Proofs.Typing.Name
import TypeAhead.Proofs.Typing.Onward
import TypeAhead.Proofs.Typing.OperandOrder
import TypeAhead.Proofs.Typing.Outward
import TypeAhead.Proofs.Typing.Overloads
import TypeAhead.Proofs.Typing.Parenthesized
import TypeAhead.Proofs.Typing.Parts
import TypeAhead.Proofs.Typing.Progress
import TypeAhead.Proofs.Typing.SameType
import TypeAhead.Proofs.Typing.Scopes
import TypeAhead.Proofs.Typing.SequenceCall
import TypeAhead.Proofs.Typing.SequenceChain
import TypeAhead.Proofs.Typing.Spelled
import TypeAhead.Proofs.Typing.Steady
import TypeAhead.Proofs.Typing.Unresolved
import TypeAhead.Proofs.UnclosedLiterals
import TypeAhead.Proofs.Walk.Abreast
import TypeAhead.Proofs.Walk.Contract
import TypeAhead.Proofs.Walk.Enclosure
import TypeAhead.Proofs.Walk.Parentheses
import TypeAhead.Proofs.Walk.Progress
import TypeAhead.Proofs.Walk.Twins
import TypeAhead.Proofs.WordAtCaret
import TypeAhead.Resolution
import TypeAhead.Settings.Basic
import TypeAhead.Settings.Document
import TypeAhead.Settings.Environment
import TypeAhead.Settings.Load
import TypeAhead.Text.Alphabetic
import TypeAhead.Text.Blank
import TypeAhead.Text.Bytes
import TypeAhead.Text.Case
import TypeAhead.Text.Diagnostic
import TypeAhead.Text.Escaped
import TypeAhead.Text.Numeric
import TypeAhead.Text.Position
import TypeAhead.Text.Ranges
import TypeAhead.Token.Basic
import TypeAhead.Token.Cursor
import TypeAhead.Token.Scan
import TypeAhead.Types.Basic
import TypeAhead.Types.Hierarchy
import TypeAhead.Types.Load
import TypeAhead.Types.Member
import TypeAhead.Types.Model
import TypeAhead.Types.Predefined
import TypeAhead.Types.Registry
import TypeAhead.Typing.Compile
import TypeAhead.Typing.Grammar
import TypeAhead.Typing.Operand
import TypeAhead.Typing.Operation
import TypeAhead.Typing.Operator
import TypeAhead.Typing.Sequence
import TypeAhead.Walk
