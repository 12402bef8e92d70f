import TraceExport.Command.Arguments
import TraceExport.Command.Basic
import TraceExport.Decimal.Shortest
import TraceExport.Export.Basic
import TraceExport.Export.Error
import TraceExport.Export.Location
import TraceExport.Export.TestFile
import TraceExport.Files.Basic
import TraceExport.Files.Disk
import TraceExport.Json.Basic
import TraceExport.Json.Decode
import TraceExport.Json.Number
import TraceExport.Json.Parser
import TraceExport.Json.Printer
import TraceExport.Main
import TraceExport.Path.Basic
import TraceExport.Path.Normal
import TraceExport.Path.Segment
import TraceExport.Path.Shown
import TraceExport.Project.Config
import TraceExport.Project.Discovery
import TraceExport.Proofs.Bindings
import TraceExport.Proofs.Declaration
import TraceExport.Proofs.Declaring
import TraceExport.Proofs.Frame
import TraceExport.Proofs.Generated
import TraceExport.Proofs.Identifier
import TraceExport.Proofs.Lexeme
import TraceExport.Proofs.Line
import TraceExport.Proofs.Literal
import TraceExport.Proofs.Needs
import TraceExport.Proofs.Noninterference
import TraceExport.Proofs.Origin
import TraceExport.Proofs.Placeholder
import TraceExport.Proofs.Registry
import TraceExport.Proofs.Renaming
import TraceExport.Proofs.StepSources
import TraceExport.Proofs.Tally
import TraceExport.Proofs.Walk
import TraceExport.Replay.Action
import TraceExport.Replay.Comment
import TraceExport.Replay.Error
import TraceExport.Replay.Plan
import TraceExport.Report.Basic
import TraceExport.Report.Table
import TraceExport.Script.Expr
import TraceExport.Script.Literal
import TraceExport.Script.Name
import TraceExport.Script.Needs
import TraceExport.Script.Registry
import TraceExport.Script.Rename
import TraceExport.Script.Statement
import TraceExport.Spec.Basic
import TraceExport.Spec.Markdown
import TraceExport.Spec.Placeholder
import TraceExport.Spec.Wording
import TraceExport.Text.Basic
import TraceExport.Text.CaseTable
import TraceExport.Text.Class
import TraceExport.Text.EmojiTable
import TraceExport.Text.Joining
import TraceExport.Text.Lowercase
import TraceExport.Text.Phrase
import TraceExport.Text.Runs
import TraceExport.Text.Utf8
import TraceExport.Text.Width
import TraceExport.Text.WidthTable
import TraceExport.Trace.Codec
import TraceExport.Trace.Record
import TraceExport.Trace.Store
import TraceExport.Url.Basic
import TraceExport.Url.Host
import TraceExport.Url.Origin
import TraceExport.Url.Parser
import TraceExport.Url.Percent
import TraceExport.Url.Punycode
import TraceExport.Url.Redaction
import TraceExport.Proofs.Reference
import TraceExport.Proofs.TestFile
import TraceExport.Proofs.Disk
import TraceExport.Proofs.Path
import TraceExport.Proofs.Way
import TraceExport.Proofs.Writing
import TraceExport.Proofs.Failure
import TraceExport.Proofs.Checking
import TraceExport.Proofs.Printable
import TraceExport.Proofs.SingleLine
import TraceExport.Proofs.Comment
import TraceExport.Proofs.Location
import TraceExport.Proofs.Batch
import TraceExport.Proofs.Codec
import TraceExport.Proofs.Rebase
import TraceExport.Proofs.Destination
import TraceExport.Proofs.Detour
import TraceExport.Proofs.Quoted
import TraceExport.Proofs.Keyword
import TraceExport.Proofs.Segment
import TraceExport.Proofs.Normalization
import TraceExport.Proofs.Shown
import TraceExport.Proofs.HelperImport
import TraceExport.Proofs.RunName
import TraceExport.Proofs.Spelling
import TraceExport.Proofs.StepList
import TraceExport.Proofs.Appending
import TraceExport.Proofs.Redaction
import TraceExport.Proofs.LatestRun
import TraceExport.Proofs.Reversal
import TraceExport.Proofs.Readers
