import CommandLine.Alias
import CommandLine.Arity
import CommandLine.CommandTree
import CommandLine.CommandTree.Build
import CommandLine.CommandTree.Clash
import CommandLine.CommandTree.Edit
import CommandLine.CommandTree.Error
import CommandLine.Config
import CommandLine.Config.Reader
import CommandLine.Console
import CommandLine.Demo.Commands
import CommandLine.Demo.Output
import CommandLine.Demo.Program
import CommandLine.Demo.SampleApp
import CommandLine.Event
import CommandLine.Help
import CommandLine.Help.Action
import CommandLine.Invocation
import CommandLine.Json
import CommandLine.Json.Reader
import CommandLine.Line
import CommandLine.Main
import CommandLine.Number.Binary64
import CommandLine.Number.Decimal
import CommandLine.Number.Integer
import CommandLine.Reading
import CommandLine.Reading.Inline
import CommandLine.Report
import CommandLine.Report.Diagnosis
import CommandLine.Report.Origin
import CommandLine.Report.Problem
import CommandLine.Report.Selection
import CommandLine.Scope
import CommandLine.Suggestion
import CommandLine.Supply
import CommandLine.Symbol
import CommandLine.Symbol.Declaration
import CommandLine.Text.Blank
import CommandLine.Text.CaseTable
import CommandLine.Text.Distance
import CommandLine.Text.Lower
import CommandLine.Value
import CommandLine.Value.Conversion
import CommandLine.Value.Type
import CommandLine.Proofs.CommandTree.Editing
import CommandLine.Proofs.CommandTree.Forest
import CommandLine.Proofs.CommandTree.WellFormed
import CommandLine.Proofs.CommandTree.Ancestors
import CommandLine.Proofs.Reading.Step
import CommandLine.Proofs.Reading.Trace
import CommandLine.Proofs.Reading.Sighting
import CommandLine.Proofs.Scope.Entries
import CommandLine.Proofs.Reading.Path
import CommandLine.Proofs.Report.Bindings
import CommandLine.Proofs.Report.Accounting
import CommandLine.Proofs.Report.Isolation
import CommandLine.Proofs.Report.Symbols
import CommandLine.Proofs.Report.Violations
import CommandLine.Proofs.Report.Guarantees
import CommandLine.Proofs.CommandTree.Coherent
import CommandLine.Proofs.Scope.NearestFirst
import CommandLine.Proofs.Suggestion.Nearest
import CommandLine.Proofs.Scope.Enumeration
import CommandLine.Proofs.CommandTree.Growth
import CommandLine.Proofs.CommandTree.InPlace
import CommandLine.Proofs.CommandTree.Locality
import CommandLine.Proofs.Report.Growth
import CommandLine.Proofs.Report.Enumeration
import CommandLine.Proofs.CommandTree.Presentation
import CommandLine.Proofs.Report.Presentation
import CommandLine.Proofs.Reading.Descent
import CommandLine.Proofs.Report.Descent
import CommandLine.Proofs.CommandTree.Clash
import CommandLine.Proofs.Report.Acceptance
import CommandLine.Proofs.Report.Selection
import CommandLine.Proofs.Invocation.Pipeline
import CommandLine.Proofs.Invocation.Tolerance
import CommandLine.Proofs.Report.Supplied
import CommandLine.Proofs.Line.Quoting
import CommandLine.Proofs.Report.Continuation
import CommandLine.Proofs.Reading.Respelling
import CommandLine.Proofs.Report.Respelling
import CommandLine.Proofs.Report.Hints
import CommandLine.Proofs.Ledger.Access
import CommandLine.Proofs.Ledger.Cutting
import CommandLine.Proofs.Ledger.Walk
import CommandLine.Proofs.Ledger.Entry
import CommandLine.Proofs.Ledger.Faithful
import CommandLine.Proofs.Ledger.Loop
import CommandLine.Proofs.Ledger.Balance
import CommandLine.Proofs.Reading.Recognition
import CommandLine.Proofs.Reading.Run
import CommandLine.Proofs.Report.Consumption
import CommandLine.Proofs.Reading.Dealing
import CommandLine.Proofs.Report.Distribution
import CommandLine.Proofs.CommandTree.Building
import CommandLine.Proofs.Demo.Program
import CommandLine.Proofs.Demo.ExitCode
import CommandLine.Proofs.Demo.LineReport
import CommandLine.Proofs.Demo.Joining
import CommandLine.Proofs.Report.Structure
import CommandLine.Proofs.Report.Culprit
import CommandLine.Proofs.Report.Regrouping
import CommandLine.Proofs.Report.Swapping
import CommandLine.Proofs.Report.InlineValues
import CommandLine.Proofs.Value.Conversion
import CommandLine.Proofs.Value.Outcome
import CommandLine.Proofs.Text.Distance
import CommandLine.Proofs.Suggestion.Closest
import CommandLine.Proofs.Reading.Inlining
import CommandLine.Proofs.Report.Selecting
import CommandLine.Proofs.CommandTree.Validation
import CommandLine.Proofs.CommandTree.Naming
import CommandLine.Proofs.Line.Grammar
import CommandLine.Proofs.Line.Joining
import CommandLine.Proofs.Help.Page
import CommandLine.Proofs.Help.Aliases
import CommandLine.Proofs.Help.Usage
import CommandLine.Proofs.Help.Hidden
