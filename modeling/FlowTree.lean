import FlowTree.Authored.Loading
import FlowTree.Authored.Resolution
import FlowTree.Bindings
import FlowTree.CommandLine.Report
import FlowTree.Completion
import FlowTree.Event.Channel
import FlowTree.Event.Json
import FlowTree.FailureMode.Json
import FlowTree.Log
import FlowTree.Main
import FlowTree.Proofs.Aggregate
import FlowTree.Proofs.Arguments
import FlowTree.Proofs.Barriers
import FlowTree.Proofs.ByteOrder
import FlowTree.Proofs.Cancellation
import FlowTree.Proofs.CriticalPath
import FlowTree.Proofs.Deadline
import FlowTree.Proofs.Definitions
import FlowTree.Proofs.Draining
import FlowTree.Proofs.FailFast
import FlowTree.Proofs.Faithful
import FlowTree.Proofs.FirstObserved
import FlowTree.Proofs.Forestalled
import FlowTree.Proofs.Handles
import FlowTree.Proofs.Histories
import FlowTree.Proofs.Interchange
import FlowTree.Proofs.Json.Building
import FlowTree.Proofs.Json.Cursors
import FlowTree.Proofs.Json.Fields
import FlowTree.Proofs.Json.Forms
import FlowTree.Proofs.Json.Grammar
import FlowTree.Proofs.Json.Lexing
import FlowTree.Proofs.Json.Spelling
import FlowTree.Proofs.Json.Strictness
import FlowTree.Proofs.Json.Trees
import FlowTree.Proofs.Launching
import FlowTree.Proofs.Layers
import FlowTree.Proofs.Liveness
import FlowTree.Proofs.Maps
import FlowTree.Proofs.NormalForm
import FlowTree.Proofs.Observation
import FlowTree.Proofs.Quoting
import FlowTree.Proofs.Race
import FlowTree.Proofs.RaceFree
import FlowTree.Proofs.Registrations
import FlowTree.Proofs.Repetition
import FlowTree.Proofs.Replay
import FlowTree.Proofs.Resolution
import FlowTree.Proofs.Respelling
import FlowTree.Proofs.Results
import FlowTree.Proofs.Run.Causes
import FlowTree.Proofs.Run.Congruence
import FlowTree.Proofs.Run.Effects
import FlowTree.Proofs.Run.Elements
import FlowTree.Proofs.Run.Peace
import FlowTree.Proofs.Run.Records
import FlowTree.Proofs.Run.Reports
import FlowTree.Proofs.Run.Skips
import FlowTree.Proofs.Run.Timers
import FlowTree.Proofs.Run.Veil
import FlowTree.Proofs.Run.Waiting
import FlowTree.Proofs.Sleeping
import FlowTree.Proofs.Tally
import FlowTree.Proofs.Timeouts
import FlowTree.Proofs.Unread
import FlowTree.Proofs.Wrapping
import FlowTree.Registry
import FlowTree.Run.Schedule
import FlowTree.Statement.Json
