import Vingilot.Lib.Collections
import Vingilot.Lib.Json
import Vingilot.Lib.Keyset
import Vingilot.Lib.Machine
import Vingilot.Lib.Numbered
import Vingilot.Lib.OrdMap
import Vingilot.Lib.Plans
import Vingilot.Lib.Program
import Vingilot.Lib.Serial
import Vingilot.Lib.Transactions
import Vingilot.Core
import Vingilot.Lib.Chars
import Vingilot.Subscription.FanOut
import Vingilot.Subscription.Filter
import Vingilot.Subscription.Race
import Vingilot.Subscription.Registry
import Vingilot.Workflow.AtMostOnce
import Vingilot.Workflow.Coverage
import Vingilot.Workflow.Schedule
import Vingilot.Workflow.Scheduler
import Vingilot.Workflow.Spacing
import Vingilot.Fence.Handshake
import Vingilot.Fence.Rewind
import Vingilot.Fence.Ring
import Vingilot.Git.History
import Vingilot.Git.Hydrate
import Vingilot.Git.Manifest
import Vingilot.Git.FirstPush
import Vingilot.Git.Publish
import Vingilot.Git.Published
import Vingilot.Git.Pushers
import Vingilot.Git.Readable
import Vingilot.Git.Requests
import Vingilot.Git.Store
import Vingilot.Git.Turns
import Vingilot.Push.Accept
import Vingilot.Push.Acceptance
import Vingilot.Push.Expiry
import Vingilot.Push.Fencing
import Vingilot.Push.Gate
import Vingilot.Push.Lease
import Vingilot.Push.Outbox
import Vingilot.Push.Strand
import Vingilot.Push.Wake
import Vingilot.Query.Count
import Vingilot.Query.Delivery
import Vingilot.Query.Distinct
import Vingilot.Query.Events
import Vingilot.Query.Params
import Vingilot.Query.Pushdown
import Vingilot.Query.Req
import Vingilot.Events.Effects
import Vingilot.Events.Heads
import Vingilot.Events.Replay
import Vingilot.Events.Rows
import Vingilot.Events.Snapshots
import Vingilot.Events.Store
import Vingilot.Events.Watermarks
import Vingilot.Channels.Elevation
import Vingilot.Channels.Membership
import Vingilot.Channels.Owners
import Vingilot.Channels.Store
import Vingilot.Threads.Counters
import Vingilot.Threads.Coverage
import Vingilot.Threads.Forest
import Vingilot.Threads.Nip10
import Vingilot.Threads.Pages
import Vingilot.Threads.Reactions
import Vingilot.Threads.Replica
import Vingilot.Threads.Routing
import Vingilot.Threads.Store
import Vingilot.Coordinator.Calls
import Vingilot.Coordinator.Claim
import Vingilot.Coordinator.Compensate
import Vingilot.Coordinator.Domain
import Vingilot.Coordinator.Executor
import Vingilot.Coordinator.Fenced
import Vingilot.Coordinator.Leases
import Vingilot.Coordinator.Reconcile
import Vingilot.Coordinator.Resume
import Vingilot.Coordinator.Runs
import Vingilot.Coordinator.Saga
import Vingilot.Coordinator.Store
import Vingilot.Coordinator.Workspace
import Vingilot.Communities.Effects
import Vingilot.Communities.Ownership
import Vingilot.Communities.Store
import Vingilot.Communities.Transfer
import Vingilot.Deletion.Calls
import Vingilot.Deletion.Effects
import Vingilot.Deletion.Rules
import Vingilot.Deletion.Statements
import Vingilot.Deletion.Store
import Vingilot.Deletion.WriteFence
import Vingilot.Lib.Codes
import Vingilot.Coordinator.Evidence
import Vingilot.Coordinator.Interrupted
import Vingilot.Coordinator.Tolerance
import Vingilot.Acp.Queue
import Vingilot.Acp.Conservation
import Vingilot.Acp.Discipline
import Vingilot.Audit.Entry
import Vingilot.Audit.Preimage
import Vingilot.Audit.Service
import Vingilot.Audit.Chain
import Vingilot.Tunnel.Directory
import Vingilot.Tunnel.Fencing
import Vingilot.Huddle.Room
import Vingilot.Huddle.Connections
import Vingilot.Huddle.OneRoom
import Vingilot.Huddle.Mesh
import Vingilot.Huddle.Placement
import Vingilot.Huddle.Delivery
import Vingilot.Huddle.Copies
import Vingilot.Huddle.Owners
import Vingilot.Huddle.Watchers
import Vingilot.Huddle.Lifetimes
import Vingilot.Huddle.Client
import Vingilot.Huddle.Mirror
import Vingilot.Huddle.Revisions
import Vingilot.Huddle.Announce
import Vingilot.RelayMesh.Dialing
import Vingilot.RelayMesh.TieBreak
import Vingilot.RelayMesh.Membership
import Vingilot.RelayMesh.Hearsay
import Vingilot.RelayMesh.Convergence
import Vingilot.RelayMesh.Exchange
import Vingilot.Terminal.Rows
import Vingilot.Terminal.Damage
import Vingilot.Terminal.Frames
import Vingilot.Lib.Js
import Vingilot.Lib.Frontier
import Vingilot.ReadState.Snapshot
import Vingilot.ReadState.Manager
import Vingilot.ReadState.Convergence
import Vingilot.GitPerms.Rules
import Vingilot.GitPerms.Policy
import Vingilot.Lib.Search
import Vingilot.DevMcp.StrReplace
import Vingilot.Huddle.Admission
import Vingilot.Invites.Store
import Vingilot.Invites.Redemption
import Vingilot.Deletion.BucketIndex
import Vingilot.Deletion.KeyStreams
import Vingilot.Deletion.Abort
import Vingilot.Threads.Windows
import Vingilot.Push.Setwise
import Vingilot.Query.FastCount
import Vingilot.Channels.Discovery
import Vingilot.Pairing.Effects
import Vingilot.Terminal.Placement
import Vingilot.GitPerms.Patterns
import Vingilot.Acp.Readiness
import Vingilot.Acp.Fairness
import Vingilot.Subscription.Eviction
import Vingilot.Pairing.Atomic
import Vingilot.Coordinator.Polling
import Vingilot.Coordinator.DiffLines
import Vingilot.Coordinator.Tokens
import Vingilot.Lib.Lossy
import Vingilot.Coordinator.Output
import Vingilot.Pairing.Messages
import Vingilot.Pairing.Agreement
import Vingilot.Engram.Slugs
import Vingilot.Engram.Refs
import Vingilot.Engram.Body
import Vingilot.Engram.Head
import Vingilot.Git.Codec
import Vingilot.Lib.Regular
import Vingilot.Lib.Slices
import Vingilot.Lib.Ancestry
import Vingilot.Engram.Grammar
import Vingilot.Coordinator.DiffBound
import Vingilot.Coordinator.Depth
import Vingilot.Network.PrivateIp
import Vingilot.Acp.SlashCommand
import Vingilot.Lib.Percent
import Vingilot.Pairing.Qr
import Vingilot.Workflow.Template
import Vingilot.Pty.Reads
import Vingilot.Pty.Sweep
import Vingilot.ReadState.LiveMerge
import Vingilot.ReadState.Teardown
