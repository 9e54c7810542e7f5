import EndpointCatalog.Main
import EndpointCatalog.Proofs.Store.Reachable
import EndpointCatalog.Proofs.Store.Lawful
import EndpointCatalog.Proofs.Store.Insertions
import EndpointCatalog.Proofs.Scan.Plan
import EndpointCatalog.Proofs.Scan.Enact
import EndpointCatalog.Proofs.Scan.Outcome
import EndpointCatalog.Proofs.Distinct
import EndpointCatalog.Proofs.Scan.FirstWriter
import EndpointCatalog.Proofs.Directive.Resolve
import EndpointCatalog.Proofs.Scan.EndToEnd
import EndpointCatalog.Proofs.Scan.Activity
import EndpointCatalog.Proofs.Scan.Rescan
import EndpointCatalog.Proofs.Pattern.Reads
import EndpointCatalog.Proofs.Extract.Calls
import EndpointCatalog.Proofs.Extract.Located
import EndpointCatalog.Proofs.Scan.Nearest
import EndpointCatalog.Proofs.Store.Agreement
import EndpointCatalog.Proofs.Scan.DryRun
import EndpointCatalog.Proofs.Pattern.Search
import EndpointCatalog.Proofs.Store.Invariant
import EndpointCatalog.Proofs.Extract.Mentions
import EndpointCatalog.Proofs.Extract.Quoted
import EndpointCatalog.Proofs.Files.Path
import EndpointCatalog.Proofs.Files.Lookup
import EndpointCatalog.Proofs.Files.Below
import EndpointCatalog.Proofs.Scan.Order
import EndpointCatalog.Proofs.Scan.Halt
import EndpointCatalog.Proofs.Scan.Pages
import EndpointCatalog.Proofs.Scan.Interrupted
import EndpointCatalog.Proofs.Scan.Recovery
import EndpointCatalog.Proofs.Scan.Discovered
import EndpointCatalog.Proofs.Scan.Spelling
import EndpointCatalog.Proofs.Scan.Accounting
import EndpointCatalog.Proofs.Scan.Recorded
import EndpointCatalog.Proofs.Menu.Script
import EndpointCatalog.Proofs.Files.Changes
import EndpointCatalog.Proofs.Files.Folders
import EndpointCatalog.Proofs.Files.Touched
import EndpointCatalog.Proofs.Store.Sqlite
import EndpointCatalog.Proofs.Store.Plain
import EndpointCatalog.Proofs.Execution.Connection
import EndpointCatalog.Proofs.Execution.Commands
import EndpointCatalog.Proofs.Execution.History
import EndpointCatalog.Proofs.Report.Csv
import EndpointCatalog.Proofs.Text.Trim
import EndpointCatalog.Proofs.Scan.Clean
import EndpointCatalog.Proofs.Toml.Strings
import EndpointCatalog.Proofs.Toml.Document
import EndpointCatalog.Proofs.Config.RoundTrip
import EndpointCatalog.Proofs.CommandLine.Matching
import EndpointCatalog.Proofs.CommandLine.Spelled
import EndpointCatalog.Proofs.Pattern.Decided
import EndpointCatalog.Proofs.Extract.StateCalls
import EndpointCatalog.Proofs.Extract.Literals
import EndpointCatalog.Proofs.Directive.References
import EndpointCatalog.Proofs.Directive.Account
import EndpointCatalog.Proofs.Scan.Unresolved
import EndpointCatalog.Proofs.Text.LineBreak
import EndpointCatalog.Proofs.Text.Lower
import EndpointCatalog.Proofs.Directive.LineByLine
import EndpointCatalog.Proofs.Directive.Normal
import EndpointCatalog.Proofs.Files.Alike
import EndpointCatalog.Proofs.Directive.Denoted
import EndpointCatalog.Proofs.Files.Walk
import EndpointCatalog.Proofs.Scan.Discovery
import EndpointCatalog.Proofs.Text.ByteOrder
import EndpointCatalog.Proofs.Report.Canonical
import EndpointCatalog.Proofs.Manual.Entries
import EndpointCatalog.Proofs.Manual.Names
import EndpointCatalog.Proofs.Report.Markdown
import EndpointCatalog.Proofs.Extract.Listing
import EndpointCatalog.Proofs.Directive.LowerCase
import EndpointCatalog.Proofs.Menu.Ending
import EndpointCatalog.Proofs.Files.Seat
import EndpointCatalog.Proofs.Files.NewFolders
import EndpointCatalog.Proofs.Execution.Forced
import EndpointCatalog.Proofs.Extract.Reconciled
import EndpointCatalog.Proofs.Directive.Joined
