import RepoInspector.Command.Invocation
import RepoInspector.Command.Line
import RepoInspector.Decimal.Nearest
import RepoInspector.Decimal.Shortest
import RepoInspector.Files.Disk
import RepoInspector.Files.Path
import RepoInspector.Json.Fault
import RepoInspector.Json.Feed
import RepoInspector.Json.Mismatch
import RepoInspector.Json.Numeral
import RepoInspector.Json.Reading
import RepoInspector.Json.Spelling
import RepoInspector.Json.Token
import RepoInspector.Json.Tree
import RepoInspector.Json.Value
import RepoInspector.Json.Writing
import RepoInspector.Main
import RepoInspector.Model.Account
import RepoInspector.Model.DetailedRepository
import RepoInspector.Model.MergeMethod
import RepoInspector.Model.Payload
import RepoInspector.Model.Repository
import RepoInspector.Model.Session
import RepoInspector.Program.Failure
import RepoInspector.Program.Help
import RepoInspector.Program.Run
import RepoInspector.Proofs.Command.Placement
import RepoInspector.Proofs.Command.Spellings
import RepoInspector.Proofs.Json.Changes
import RepoInspector.Proofs.Json.Checking
import RepoInspector.Proofs.Json.Contents
import RepoInspector.Proofs.Json.CutReading
import RepoInspector.Proofs.Json.CutTrees
import RepoInspector.Proofs.Json.Cuts
import RepoInspector.Proofs.Json.Decodability
import RepoInspector.Proofs.Json.Decoding
import RepoInspector.Proofs.Json.Documents
import RepoInspector.Proofs.Json.Entries
import RepoInspector.Proofs.Json.Failures
import RepoInspector.Proofs.Json.Faults
import RepoInspector.Proofs.Json.Feeds
import RepoInspector.Proofs.Json.Form
import RepoInspector.Proofs.Json.Fronts
import RepoInspector.Proofs.Json.Growth
import RepoInspector.Proofs.Json.Layout
import RepoInspector.Proofs.Json.NumeralScan
import RepoInspector.Proofs.Json.Places
import RepoInspector.Proofs.Json.ResumedReading
import RepoInspector.Proofs.Json.ResumedTrees
import RepoInspector.Proofs.Json.Resumption
import RepoInspector.Proofs.Json.Settling
import RepoInspector.Proofs.Json.TextSpellings
import RepoInspector.Proofs.Json.TextWriting
import RepoInspector.Proofs.Json.TokenScan
import RepoInspector.Proofs.Json.Tokens
import RepoInspector.Proofs.Json.Writing
import RepoInspector.Proofs.Model.Account
import RepoInspector.Proofs.Model.Arrays
import RepoInspector.Proofs.Model.Changes
import RepoInspector.Proofs.Model.Counts
import RepoInspector.Proofs.Model.DetailedRepository
import RepoInspector.Proofs.Model.Edits
import RepoInspector.Proofs.Model.Failures
import RepoInspector.Proofs.Model.Holders
import RepoInspector.Proofs.Model.Kinds
import RepoInspector.Proofs.Model.Layers
import RepoInspector.Proofs.Model.Media
import RepoInspector.Proofs.Model.Members
import RepoInspector.Proofs.Model.MergeMethod
import RepoInspector.Proofs.Model.Moments
import RepoInspector.Proofs.Model.Nulls
import RepoInspector.Proofs.Model.Outlines
import RepoInspector.Proofs.Model.Paths
import RepoInspector.Proofs.Model.Payload
import RepoInspector.Proofs.Model.Refusals
import RepoInspector.Proofs.Model.Repository
import RepoInspector.Proofs.Model.RoundTrip
import RepoInspector.Proofs.Model.Shapes
import RepoInspector.Proofs.Model.Sites
import RepoInspector.Proofs.Model.Texts
import RepoInspector.Proofs.Model.Truncation
import RepoInspector.Proofs.Model.Ways
import RepoInspector.Proofs.Program.Colour
import RepoInspector.Proofs.Program.Configuration
import RepoInspector.Proofs.Program.Documents
import RepoInspector.Proofs.Program.Inputs
import RepoInspector.Proofs.Program.Streams
import RepoInspector.Proofs.Record.Alike
import RepoInspector.Proofs.Record.Changes
import RepoInspector.Proofs.Record.Cuts
import RepoInspector.Proofs.Record.Faults
import RepoInspector.Proofs.Record.Laws
import RepoInspector.Proofs.Record.Meaning
import RepoInspector.Proofs.Record.Members
import RepoInspector.Proofs.Record.Nulls
import RepoInspector.Proofs.Record.Offences
import RepoInspector.Proofs.Record.Others
import RepoInspector.Proofs.Record.Outlines
import RepoInspector.Proofs.Record.Overlong
import RepoInspector.Proofs.Record.Reading
import RepoInspector.Proofs.Record.Resumption
import RepoInspector.Proofs.Record.Shapes
import RepoInspector.Proofs.Record.Unasked
import RepoInspector.Proofs.Record.Writing
import RepoInspector.Proofs.Settings.Config
import RepoInspector.Proofs.Settings.Directories
import RepoInspector.Proofs.Settings.Sources
import RepoInspector.Proofs.Text.Interspersed
import RepoInspector.Proofs.Time.Acceptance
import RepoInspector.Proofs.Time.Patterns
import RepoInspector.Proofs.Time.RoundTrip
import RepoInspector.Proofs.Time.Spellings
import RepoInspector.Proofs.View.Decoration
import RepoInspector.Proofs.View.Escapes
import RepoInspector.Proofs.View.Ink
import RepoInspector.Proofs.View.Moments
import RepoInspector.Proofs.View.Strokes
import RepoInspector.Proofs.View.Summary
import RepoInspector.Record.Codec
import RepoInspector.Record.Document
import RepoInspector.Record.Field
import RepoInspector.Record.Reading
import RepoInspector.Settings.Choice
import RepoInspector.Settings.Config
import RepoInspector.Settings.Datum
import RepoInspector.Settings.Fault
import RepoInspector.Settings.Surroundings
import RepoInspector.Settings.Variable
import RepoInspector.Text.Blank
import RepoInspector.Text.Quoted
import RepoInspector.Text.Visible
import RepoInspector.Time.Calendar
import RepoInspector.Time.Fault
import RepoInspector.Time.Instant
import RepoInspector.Time.Pattern
import RepoInspector.Time.Reading
import RepoInspector.Time.Writing
import RepoInspector.Toml.Document
import RepoInspector.Toml.Fault
import RepoInspector.Toml.Layout
import RepoInspector.Toml.Moment
import RepoInspector.Toml.Number
import RepoInspector.Toml.Reading
import RepoInspector.Toml.Table
import RepoInspector.Toml.Text
import RepoInspector.Toml.Value
import RepoInspector.View.Aspect
import RepoInspector.View.Ink
import RepoInspector.View.Lineage
import RepoInspector.View.Summary
