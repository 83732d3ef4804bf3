import AliasReport.Main
import AliasReport.Files.Volume
import AliasReport.Proofs.Aliasing.Coverage
import AliasReport.Proofs.Aliasing.Order
import AliasReport.Proofs.Aliasing.Failure
import AliasReport.Proofs.Aliasing.Enclosure
import AliasReport.Proofs.Aliasing.Joining
import AliasReport.Proofs.Aliasing.Maximality
import AliasReport.Proofs.Report.Selection
import AliasReport.Proofs.Report.Entries
import AliasReport.Proofs.Breakdown.ResourceOrder
import AliasReport.Proofs.Report.Consistency
import AliasReport.Proofs.Report.Fault
import AliasReport.Proofs.Report.Reordering
import AliasReport.Proofs.Report.Hiding
import AliasReport.Proofs.Report.Legibility
import AliasReport.Proofs.Files.Resolution
import AliasReport.Proofs.Files.Limits
import AliasReport.Proofs.Command.Running
import AliasReport.Proofs.Command.Agreement
import AliasReport.Proofs.Json.Grammar
import AliasReport.Proofs.Json.Reading
import AliasReport.Proofs.Json.Decoding
import AliasReport.Proofs.Json.Printing
import AliasReport.Proofs.Json.RoundTrip
import AliasReport.Proofs.Document.Editing
import AliasReport.Proofs.Command.ReadBack
import AliasReport.Proofs.Command.AbsolutePath
import AliasReport.Proofs.Command.Loading
import AliasReport.Proofs.Command.Digest
import AliasReport.Proofs.Breakdown.FlagNames
import AliasReport.Proofs.Breakdown.Numbers
import AliasReport.Proofs.Aliasing.Rescaling
import AliasReport.Proofs.Aliasing.Points
import AliasReport.Proofs.Yaml.Queue
import AliasReport.Proofs.Yaml.OneLine
import AliasReport.Proofs.Yaml.Lexing
import AliasReport.Proofs.Yaml.Entries
import AliasReport.Proofs.Yaml.Decoding
import AliasReport.Proofs.Yaml.JsonText
