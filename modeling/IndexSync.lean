import IndexSync.Action
import IndexSync.Capture.Collapse
import IndexSync.Capture.Declaration
import IndexSync.Capture.Event
import IndexSync.Capture.Merge
import IndexSync.Capture.Model
import IndexSync.Capture.PageSource
import IndexSync.Catalog
import IndexSync.Cli.Arguments
import IndexSync.Cli.Printout
import IndexSync.Cli.Run
import IndexSync.Config.Complaint
import IndexSync.Config.File
import IndexSync.Config.Path
import IndexSync.Config.Settings
import IndexSync.Config.Tree
import IndexSync.Dispatch
import IndexSync.Dispatch.Trace
import IndexSync.Entity
import IndexSync.Entries
import IndexSync.Failure
import IndexSync.Json.Read
import IndexSync.Json.Write
import IndexSync.Notice
import IndexSync.Number.Binary64
import IndexSync.Number.Literal
import IndexSync.Number.Shortest
import IndexSync.Outage
import IndexSync.Poller.Access
import IndexSync.Poller.Lifecycle
import IndexSync.Poller.Tick
import IndexSync.Schedule.Agenda
import IndexSync.Schedule.Machine
import IndexSync.Schedule.Timed
import IndexSync.Search.Encoder
import IndexSync.Search.Index
import IndexSync.Search.Mapping
import IndexSync.Search.Transaction
import IndexSync.Shipped
import IndexSync.Site
import IndexSync.Store.Affinity
import IndexSync.Store.Capture
import IndexSync.Store.Database
import IndexSync.Store.Setup
import IndexSync.Store.Table
import IndexSync.Sync.Create
import IndexSync.Sync.Reader
import IndexSync.Sync.Use
import IndexSync.Text.Blank
import IndexSync.Text.Digit
import IndexSync.Text.Lower
import IndexSync.Text.Printable
import IndexSync.Text.Quoted
import IndexSync.Text.Split
import IndexSync.Text.Word
import IndexSync.Trigger.Plan
import IndexSync.Trigger.Recording
import IndexSync.Trigger.Resolution
import IndexSync.Trigger.Setup
import IndexSync.Trigger.Source
import IndexSync.Trigger.Statement
import IndexSync.Url.Bracketed
import IndexSync.Url.Engine
import IndexSync.Url.Masked
import IndexSync.Url.Normal
import IndexSync.Url.Parts
import IndexSync.Value
import IndexSync.Value.Conversion
import IndexSync.Value.Shown
import IndexSync.Yaml.Cursor
import IndexSync.Yaml.Document
import IndexSync.Yaml.Literal
import IndexSync.Yaml.Node
import IndexSync.Yaml.Property
import IndexSync.Yaml.Scalar
import IndexSync.Yaml.Tag
import IndexSync.Yaml.Token
import IndexSync.Yaml.TokenList
import IndexSync.Main
import IndexSync.Proofs.Merge.Ascending
import IndexSync.Proofs.Merge.PlainMerge
import IndexSync.Proofs.Merge.PagedMerge
import IndexSync.Proofs.Merge.Drain
import IndexSync.Proofs.Merge.Calls
import IndexSync.Proofs.Merge.Orderly
import IndexSync.Proofs.Merge.Stranded
import IndexSync.Proofs.Dispatch.Steps
import IndexSync.Proofs.Outcome
import IndexSync.Proofs.Search.Changes
import IndexSync.Proofs.Dispatch.Atomicity
import IndexSync.Proofs.Convergence.Agreement
import IndexSync.Proofs.Poller.Delivery
import IndexSync.Proofs.Poller.Acceptance
import IndexSync.Proofs.Search.Documents
import IndexSync.Proofs.Dispatch.Planned
import IndexSync.Proofs.Dispatch.Redelivery
import IndexSync.Proofs.Dispatch.Collapse
import IndexSync.Proofs.Dispatch.Reordering
import IndexSync.Proofs.Dispatch.Progress
import IndexSync.Proofs.Dispatch.Boundaries
import IndexSync.Proofs.Search.Encoding
import IndexSync.Proofs.Search.Decoding
import IndexSync.Proofs.Search.Keyed
import IndexSync.Proofs.Search.Sought
import IndexSync.Proofs.Dispatch.Undone
import IndexSync.Proofs.Search.Serial
import IndexSync.Proofs.Dispatch.Sessions
import IndexSync.Proofs.Schedule.Workers
import IndexSync.Proofs.Schedule.Lifecycle
import IndexSync.Proofs.Schedule.Plays
import IndexSync.Proofs.Store.Tables
import IndexSync.Proofs.Store.Firing
import IndexSync.Proofs.Trigger.Installed
import IndexSync.Proofs.Trigger.Completeness
import IndexSync.Proofs.Capture.Selection
import IndexSync.Proofs.Trigger.Reading
import IndexSync.Proofs.Trigger.ReadBack
import IndexSync.Proofs.Sync.Initialization
import IndexSync.Proofs.Config.Escaping
import IndexSync.Proofs.Cli.Faults
import IndexSync.Proofs.Merge.Onward
import IndexSync.Proofs.Merge.TakenOff
import IndexSync.Proofs.Store.CaptureRows
import IndexSync.Proofs.Poller.Gathered
import IndexSync.Proofs.Poller.WholeTick
import IndexSync.Proofs.Poller.TickByTick
import IndexSync.Proofs.Dispatch.Lasts
import IndexSync.Proofs.Dispatch.Recorded
import IndexSync.Proofs.Dispatch.Turns
import IndexSync.Proofs.Dispatch.Effect
import IndexSync.Proofs.Poller.InPlace
import IndexSync.Proofs.Dispatch.Observed
import IndexSync.Proofs.Dispatch.Scope
import IndexSync.Proofs.Trigger.Lexemes
import IndexSync.Proofs.Merge.Fetches
import IndexSync.Proofs.Schedule.Timeline
import IndexSync.Proofs.Schedule.LoneLoop
import IndexSync.Proofs.Schedule.Standing
import IndexSync.Proofs.Schedule.Visitors
import IndexSync.Proofs.Schedule.FixedDelay
import IndexSync.Proofs.Merge.Protocol
import IndexSync.Proofs.Trigger.Rebuilt
import IndexSync.Proofs.Trigger.Quoting
import IndexSync.Proofs.Poller.Refused
import IndexSync.Proofs.Text.Trim
import IndexSync.Proofs.Capture.Declared
import IndexSync.Proofs.Url.Hidden
import IndexSync.Proofs.Url.NormalForm
import IndexSync.Proofs.Cli.Connection
