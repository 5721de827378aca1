import Inyandiko.Binary64
import Inyandiko.Binary64.Decimal
import Inyandiko.Block
import Inyandiko.Command.Dependency
import Inyandiko.Command.Environment
import Inyandiko.Command.Network
import Inyandiko.Command.Validation
import Inyandiko.CommandLine
import Inyandiko.CommandLine.Arguments
import Inyandiko.Crash
import Inyandiko.Expression
import Inyandiko.Expression.Literal
import Inyandiko.Expression.Operator
import Inyandiko.Expression.Path
import Inyandiko.Fault
import Inyandiko.FileTree
import Inyandiko.Host
import Inyandiko.Host.Kit
import Inyandiko.Json
import Inyandiko.Json.Reader
import Inyandiko.Json.Writer
import Inyandiko.Machine
import Inyandiko.Machine.Level
import Inyandiko.Machine.Loop
import Inyandiko.Main
import Inyandiko.Number
import Inyandiko.Number.Numeral
import Inyandiko.Options
import Inyandiko.Runner
import Inyandiko.Scope
import Inyandiko.Scope.Mapping
import Inyandiko.Service
import Inyandiko.Service.ScriptPath
import Inyandiko.Service.Settings
import Inyandiko.Source
import Inyandiko.Statement
import Inyandiko.Statement.Call
import Inyandiko.Statement.Exchange
import Inyandiko.Statement.Header
import Inyandiko.Surface
import Inyandiko.Table
import Inyandiko.Text.Blank
import Inyandiko.Text.Digit
import Inyandiko.Text.Name
import Inyandiko.Text.Printable
import Inyandiko.Text.Quoted
import Inyandiko.Text.Unquoted
import Inyandiko.Text.Upper
import Inyandiko.Text.Utf8
import Inyandiko.Value
import Inyandiko.Value.Convert
import Inyandiko.Value.Datum
import Inyandiko.Value.Display
import Inyandiko.World
import Inyandiko.Proofs.Discipline
import Inyandiko.Proofs.Discipline.Command
import Inyandiko.Proofs.Discipline.Machine
import Inyandiko.Proofs.Discipline.Level
import Inyandiko.Proofs.Exec
import Inyandiko.Proofs.Table
import Inyandiko.Proofs.InStep
import Inyandiko.Proofs.InStep.Level
import Inyandiko.Proofs.BlockScoping
import Inyandiko.Proofs.Changes
import Inyandiko.Proofs.ValidationStop
import Inyandiko.Proofs.Nesting
import Inyandiko.Proofs.Expression
import Inyandiko.Proofs.Expression.Character
import Inyandiko.Proofs.Expression.Scan
import Inyandiko.Proofs.Expression.Search
import Inyandiko.Proofs.Expression.Simple
import Inyandiko.Proofs.Expression.Adequacy
import Inyandiko.Proofs.Constants
import Inyandiko.Proofs.Mirror
import Inyandiko.Proofs.Program
import Inyandiko.Proofs.Program.Line
import Inyandiko.Proofs.Program.Block
import Inyandiko.Proofs.Program.Call
import Inyandiko.Proofs.Program.Reading
import Inyandiko.Proofs.Program.Execution
import Inyandiko.Proofs.Likeness
import Inyandiko.Proofs.Likeness.Evaluation
import Inyandiko.Proofs.Likeness.Coupling
import Inyandiko.Proofs.PrivateAttributes
import Inyandiko.Proofs.ScriptErrors
import Inyandiko.Proofs.Termination.Size
import Inyandiko.Proofs.Termination.Recursion
import Inyandiko.Proofs.Termination.Depth
import Inyandiko.Proofs.Termination.Range
import Inyandiko.Proofs.Termination
import Inyandiko.Proofs.Documents
import Inyandiko.Proofs.Answers
import Inyandiko.Proofs.Malformed
import Inyandiko.Proofs.Lifecycle
import Inyandiko.Proofs.Tally
import Inyandiko.Proofs.CallDepth
import Inyandiko.Proofs.Confinement
import Inyandiko.Proofs.Isolation
import Inyandiko.Proofs.Accord
import Inyandiko.Proofs.Observation
import Inyandiko.Proofs.Batch
import Inyandiko.Proofs.Surface
import Inyandiko.Proofs.Surface.Session
import Inyandiko.Proofs.Pieces
import Inyandiko.Proofs.Trail
import Inyandiko.Proofs.BlockExtent
import Inyandiko.Proofs.LoopRounds
import Inyandiko.Proofs.JsonText
import Inyandiko.Proofs.TextLiteral
import Inyandiko.Proofs.Semicolon
import Inyandiko.Proofs.Semicolon.Reading
import Inyandiko.Proofs.Semicolon.Execution
import Inyandiko.Proofs.Rounding
import Inyandiko.Proofs.Rounding.Operation
import Inyandiko.Proofs.Remainder
import Inyandiko.Proofs.Headway
import Inyandiko.Proofs.HostCall
import Inyandiko.Proofs.Flattening
import Inyandiko.Proofs.Assignment
import Inyandiko.Proofs.CallText
import Inyandiko.Proofs.QuotedLiteral
import Inyandiko.Proofs.CallReading
import Inyandiko.Proofs.JsonDocument
import Inyandiko.Proofs.PrintedTables
import Inyandiko.Proofs.OptionMerging
import Inyandiko.Proofs.SourceLines
import Inyandiko.Proofs.Paths
import Inyandiko.Proofs.OperatorSearch
import Inyandiko.Proofs.AddressCheck
import Inyandiko.Proofs.ExchangeLists
import Inyandiko.Proofs.ScriptFiles
