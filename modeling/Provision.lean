import Provision.Agent.Basic
import Provision.Agent.Job
import Provision.Backoff
import Provision.Broker
import Provision.Cluster.Basic
import Provision.Cluster.Control
import Provision.Cluster.Turns
import Provision.Config
import Provision.Console.Alias
import Provision.Console.Basic
import Provision.Console.View
import Provision.Error
import Provision.Event
import Provision.Fault
import Provision.Identifier
import Provision.Json.Access
import Provision.Json.Basic
import Provision.Json.Parser
import Provision.Json.Printer
import Provision.Json.Record
import Provision.Lease
import Provision.Log.Basic
import Provision.Log.Record
import Provision.Log.Writer
import Provision.Notification
import Provision.Organization
import Provision.Proofs.Run.Coupling
import Provision.Proofs.Run.History
import Provision.Proofs.Scheduler.Node
import Provision.Proofs.Scheduler.Repair
import Provision.Queue.Basic
import Provision.Queue.Recording
import Provision.Run.Basic
import Provision.Run.Phase
import Provision.Run.Record
import Provision.Run.Status
import Provision.Runner.Basic
import Provision.Runner.Engine
import Provision.Runner.Rehearsal
import Provision.Runner.Scripted
import Provision.Runner.Summary
import Provision.Scheduler
import Provision.Service
import Provision.Store
import Provision.Text.Blank
import Provision.Text.Lines
import Provision.Text.Numeral
import Provision.Text.Utf8
import Provision.Time.Date
import Provision.Time.Instant
import Provision.Time.Rfc3339
import Provision.Transport
import Provision.View
import Provision.Workspace
import Provision.Proofs.Ledger.Deed
import Provision.Proofs.Ledger.Lock
import Provision.Proofs.Scheduler.World
import Provision.Proofs.Scheduler.Journal
import Provision.Proofs.Agent.Course
import Provision.Proofs.Agent.Once
import Provision.Proofs.Agent.Underway
import Provision.Proofs.Scheduler.Calls
import Provision.Proofs.Agent.Site
import Provision.Proofs.Log.Tiles
import Provision.Proofs.Store.Chunks
import Provision.Proofs.Log.Session
import Provision.Proofs.Store.Rooted
import Provision.Proofs.Store.Operation
import Provision.Proofs.Store.Chronicle
import Provision.Proofs.Store.Record
import Provision.Proofs.Ledger.Announce
import Provision.Proofs.Queue.Tracking
import Provision.Proofs.Broker.Inbox
import Provision.Proofs.Broker.Hub
import Provision.Proofs.Broker.Stream
import Provision.Proofs.Broker.Mesh
import Provision.Proofs.Text.Digits
import Provision.Proofs.Json.Texts
import Provision.Proofs.Time.Rfc3339
import Provision.Proofs.Ledger.Later
import Provision.Proofs.Queue.Order
import Provision.Proofs.Queue.Twice
import Provision.Proofs.Queue.Late
import Provision.Proofs.Scheduler.Leader
import Provision.Proofs.Queue.Rest
import Provision.Proofs.Scheduler.Refusal
import Provision.Proofs.Scheduler.Gate
import Provision.Proofs.Queue.Bypass
import Provision.Proofs.Scheduler.Isolation
import Provision.Proofs.Scheduler.Exact
import Provision.Proofs.Run.Done
import Provision.Proofs.Run.Claims
import Provision.Proofs.Run.CoolOff
import Provision.Proofs.Agent.Watch
import Provision.Proofs.Ledger.Removal
import Provision.Proofs.Agent.Slots
import Provision.Proofs.Agent.Waiting
import Provision.Proofs.Agent.Signals
import Provision.Proofs.Log.Cover
import Provision.Proofs.Runner.Wording
import Provision.Proofs.Runner.Summary
import Provision.Proofs.Runner.Turn
import Provision.Proofs.Runner.Verdict
import Provision.Proofs.Backoff
import Provision.Proofs.Runner.Reason
import Provision.Proofs.Broker.Traffic
