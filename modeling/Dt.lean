import Dt.Lib.Machine
import Dt.Lib.Text
import Dt.Lib.Slot
import Dt.Lib.Newest
import Dt.Lib.Walk
import Dt.Lib.Lines
import Dt.Lib.LastLines
import Dt.Lib.Json
import Dt.Lib.JsonText
import Dt.Lib.Base64
import Dt.Lib.Keyset
import Dt.Lib.Fallible
import Dt.Lib.Pairs
import Dt.Lib.Shlex
import Dt.Layout.Renderings
import Dt.Layout.Stores
import Dt.Jobs.Entry
import Dt.Jobs.Row
import Dt.Jobs.Validate
import Dt.Jobs.Registry
import Dt.Jobs.ActiveIndex
import Dt.Jobs.IndexSystem
import Dt.Jobs.Status
import Dt.Jobs.Store
import Dt.Jobs.ReplicaIndex
import Dt.Jobs.ReplicaSystem
import Dt.Jobs.Valid
import Dt.Dispatch.Rows
import Dt.Dispatch.Lifecycle
import Dt.Dispatch.Queued
import Dt.Dispatch.Claims
import Dt.Dispatch.RemoteProof
import Dt.Dispatch.Launched
import Dt.Dispatch.Acceptance
import Dt.Dispatch.Coherent
import Dt.Dispatch.Placement
import Dt.Launch.Cancel
import Dt.Launch.Surface
import Dt.Launch.Completion
import Dt.Launch.Envelope
import Dt.Agent.Wake
import Dt.Scheduler.Admission
import Dt.Scheduler.Quota
import Dt.Scheduler.Snapshot
import Dt.Dispatch.Gates
import Dt.Agent.Tick
import Dt.Shell.Identity
import Dt.Shell.Scope
import Dt.Shell.Termination
import Dt.Dispatch.Failover
import Dt.Submission.Intent
import Dt.Submission.Replay
import Dt.Submission.Request
import Dt.Submission.Group
import Dt.Submission.Advice
import Dt.Submission.RunSpec
import Dt.Submission.QueuedSpec
import Dt.Submission.Retry
import Dt.Scheduler.Capacity
import Dt.Jobs.StatusBatch
import Dt.Jobs.ProbeCut
import Dt.Query.Cursor
import Dt.Query.Payload
import Dt.Query.Paging
import Dt.Query.Contract
import Dt.Query.Gather
import Dt.Query.FanOut
import Dt.Query.Delivered
import Dt.Query.LaptopPages
import Dt.Routes.Circuit
import Dt.Probe.Launcher
import Dt.Probe.Refresh
import Dt.Snapshot.Capture
import Dt.Topology.Planner
import Dt.Operations.Recovery
import Dt.Remote.Center
import Dt.Lib.Tally
import Dt.Query.Summaries
import Dt.Snapshot.Identity
import Dt.Query.Maximal
import Dt.Lib.Bisect
import Dt.Jobs.References
import Dt.Logs.Tail
import Dt.Logs.Progress
import Dt.Logs.ProgressLimits
import Dt.Dispatch.Reservations
import Dt.Lib.Grid
import Dt.Lib.SortedBy
import Dt.Matrix.Expansion
import Dt.Routes.Ladder
import Dt.Jobs.Codec
import Dt.Terminal.Follow
import Dt.Remote.OutputCapture
import Dt.Telemetry.Lines
import Dt.Maintenance.Environments
import Dt.Transfers.Census
import Dt.Transfers.Excludes
import Dt.Dispatch.Baselines
import Dt.Maintenance.CleanPlans
import Dt.Submission.Identifiers
import Dt.Lib.RegexAccepts
import Dt.Lib.Pieces
import Dt.Lib.Squeeze
import Dt.Remote.IpAddress
import Dt.Remote.Redaction
import Dt.Remote.Masking
import Dt.Remote.Candidates
import Dt.Remote.RedactionComplete
import Dt.Distribution.Calls
import Dt.Distribution.Executor
import Dt.Distribution.Locks
import Dt.Distribution.Verified
import Dt.Distribution.Publication
import Dt.Distribution.ColdUpload
import Dt.Distribution.Crossing
import Dt.Dispatch.ArtifactSync
