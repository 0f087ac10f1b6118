import Vingilot.Core
import Vingilot.Lib.Chars
import Vingilot.Lib.Plans

/-!
# The tables of community deletion

The rows of `communities`, of the deletion control plane and of the tenant tables, as far as the
deletion store and the write fence read them. Times are in microseconds. A `None` of the source
and an SQL `NULL` are both `none`.
-/

namespace Vingilot.Deletion

open Transactions

/-! ## Stages -/

inductive DeletionStage where
  | submitted
  | inventoried
  | approved
  | fenced
  | drained
  | bindingsRemoved
  | postgresPurged
  | cachePurged
  | logicallyVerified
  | retentionPending
  | aborted
deriving DecidableEq

namespace DeletionStage

def next : DeletionStage → Option DeletionStage
  | submitted => some inventoried
  | inventoried => some approved
  | approved => some fenced
  | fenced => some drained
  | drained => some bindingsRemoved
  | bindingsRemoved => some postgresPurged
  | postgresPurged => some cachePurged
  | cachePurged => some logicallyVerified
  | logicallyVerified => some retentionPending
  | retentionPending => none
  | aborted => none

def runnable : DeletionStage → Bool
  | approved | fenced | drained | bindingsRemoved | postgresPurged | cachePurged
  | logicallyVerified => true
  | submitted | inventoried | retentionPending | aborted => false

def text : DeletionStage → String
  | submitted => "submitted"
  | inventoried => "inventoried"
  | approved => "approved"
  | fenced => "fenced"
  | drained => "drained"
  | bindingsRemoved => "bindings_removed"
  | postgresPurged => "postgres_purged"
  | cachePurged => "cache_purged"
  | logicallyVerified => "logically_verified"
  | retentionPending => "retention_pending"
  | aborted => "aborted"

end DeletionStage

/-! ## Manifests -/

structure PrefixManifest where
  keyPrefix : String
  objectCount : Nat
  totalBytes : Nat
  keysDigest : String
deriving DecidableEq

structure StorageManifest where
  version : Int
  prefixes : List PrefixManifest
deriving DecidableEq

structure SchemaManifest where
  scopedTables : List String
  rowCounts : List (String × Int)
  fencedTables : List String
deriving DecidableEq

structure FrozenInventory where
  schema : SchemaManifest
  storage : StorageManifest
deriving DecidableEq

abbrev Digest := List UInt8

/-- Code outside the repository: `lower` of PostgreSQL, SHA-256 of an inventory's JSON text, and
the hex SHA-256 of a text. -/
structure Env where
  lower : String → String
  inventoryDigest : FrozenInventory → Digest
  sha256Hex : String → String

/-! ## Rows -/

inductive CommunityState where
  | active
  | quiescing
  | fenced
  | tombstone
deriving DecidableEq

structure Community where
  host : String
  state : CommunityState
  generation : Nat
  archivedAt : Option Int
  deletedAt : Option Int
deriving DecidableEq

/-- A row of `community_deletion_requests`. The checks of the table make `blocked_at` and
`blocked_reason`, the three columns of an abort, and `inventory_frozen_at` and the digest null
together, so each group is one field. -/
structure Request where
  communityId : CommunityId
  communityHost : String
  stage : DeletionStage
  requestedBy : String
  reason : Option String
  inventory : Option FrozenInventory
  inventoryDigest : Option Digest
  destructiveManifest : Option StorageManifest
  destructiveFrozenAt : Option Int
  fenceGeneration : Option Nat
  leaseOwner : Option String
  leaseGeneration : Nat
  leaseUntil : Option Int
  retryCount : Nat
  retryStage : Option DeletionStage
  nextAttemptAt : Int
  blocked : Option (Int × String)
  preQuiesceArchivedAt : Option Int
  quiescingStartedAt : Option Int
  aborted : Option (String × String × Int)
  completedAt : Option Int
deriving DecidableEq

structure Approval where
  communityId : CommunityId
  inventoryDigest : Digest
  approvedBy : String
  note : Option String
deriving DecidableEq

/-- A row of `community_deletion_manifest_keys`. -/
structure Chunk where
  keyPrefix : String
  keys : List String
  deletedAt : Option Int
deriving DecidableEq

/-- A row of `community_serving_write_leases`. -/
structure ServingLease where
  communityId : CommunityId
  operation : String
  owner : String
  generation : Nat
  fenceGeneration : Nat
  leaseUntil : Int
deriving DecidableEq

/-- The tables that carry a `community_id`, apart from the control plane. -/
inductive TableName where
  | apiTokens
  | archivedIdentities
  | auditLog
  | channelMembers
  | channels
  | communityBans
  | deliveryLog
  | eventMentions
  | events
  | gitRepoNames
  | joinPolicyAcceptances
  | moderationActions
  | moderationReports
  | parameterizedEventWatermarks
  | productFeedback
  | pubkeyAllowlist
  | pushLeases
  | pushMatchQueue
  | pushWakeOutbox
  | rateLimitViolations
  | reactions
  | relayInvites
  | relayMembers
  | scheduledWorkflowFires
  | subscriptions
  | threadMetadata
  | users
  | workflowApprovals
  | workflowRuns
  | workflows
deriving DecidableEq

/-- `attach_community_write_fence`: every one of them but the two that keep operator evidence. -/
def TableName.fenced : TableName → Bool
  | productFeedback | rateLimitViolations => false
  | _ => true

def purgeScopedTables : List TableName :=
  [.workflowApprovals, .scheduledWorkflowFires, .workflowRuns, .pushWakeOutbox,
    .joinPolicyAcceptances, .moderationReports, .subscriptions, .apiTokens, .channelMembers,
    .threadMetadata, .moderationActions, .workflows, .eventMentions, .reactions, .pushMatchQueue,
    .pushLeases, .relayInvites, .deliveryLog, .events, .parameterizedEventWatermarks,
    .gitRepoNames, .archivedIdentities, .auditLog, .communityBans, .pubkeyAllowlist,
    .relayMembers, .users, .channels]

structure TenantRow where
  communityId : Option CommunityId
  content : String
deriving DecidableEq

abbrev RowKey := TableName × Uuid

structure Db where
  communities : Table CommunityId Community
  requests : Table Uuid Request
  approvals : Table Uuid Approval
  chunks : Table (Uuid × Int) Chunk
  leases : Table Uuid ServingLease
  tenants : Table RowKey TenantRow

/-! ## Tokens -/

structure LeaseToken where
  requestId : Uuid
  owner : String
  generation : Nat
  communityId : CommunityId
  fenceGeneration : Option Nat
deriving DecidableEq

structure ServingWriteLease where
  id : Uuid
  communityId : CommunityId
  operation : String
  owner : String
  generation : Nat
  fenceGeneration : Nat
  leaseUntil : Int
deriving DecidableEq

structure ManifestKeyChunk where
  chunkNo : Int
  keyPrefix : String
  keys : List String
deriving DecidableEq

/-! ## Errors -/

inductive DbError where
  | deletionSafety (text : String)
  | accessDenied (text : String)
  | notFound (text : String)
  | invalidData (text : String)
  | servingWritesNotDrained (communityId : CommunityId) (activeCount : Nat)
      (operations : List String)
  | sqlx (text : String)
deriving DecidableEq

/-- The `Debug` form of a string, with the escapes of quotes, backslashes and line ends. -/
def debugText (s : String) : String :=
  let escape (c : Char) : List Char :=
    match c with
    | '"' => ['\\', '"']
    | '\\' => ['\\', '\\']
    | '\n' => ['\\', 'n']
    | '\r' => ['\\', 'r']
    | '\t' => ['\\', 't']
    | c => [c]
  String.ofList ('"' :: s.toList.flatMap escape ++ ['"'])

/-- `bound_text`: the longest beginning of whole characters within `max` bytes. -/
def boundText (s : String) (max : Nat) : String :=
  if s.utf8ByteSize ≤ max then s
  else String.ofList <| (s.toList.inits.filter fun cs => (String.ofList cs).utf8ByteSize ≤ max)
    |>.getLastD []

def staleLeaseError (token : LeaseToken) : DbError :=
  .accessDenied s!"stale deletion lease {token.requestId.toText} owner {debugText token.owner} generation {token.generation}"

def staleServingLeaseError (lease : ServingWriteLease) : DbError :=
  .accessDenied s!"stale serving write lease {lease.id.toText}"

/-! ## Writes and locks -/

/-- A row after a write. `none` removes it. A tenant row is written with its `OLD` and its `NEW`
version. -/
inductive Write where
  | community (id : CommunityId) (row : Community)
  | request (id : Uuid) (row : Request)
  | approval (id : Uuid) (row : Approval)
  | chunk (id : Uuid) (no : Int) (row : Option Chunk)
  | lease (id : Uuid) (row : Option ServingLease)
  | tenant (key : RowKey) (old new : Option TenantRow)
deriving DecidableEq

/-- What can be locked: the advisory key of a community, an entry of the index of active
requests, and single rows. -/
inductive Lock where
  | advisory (community : CommunityId)
  | activeRequest (community : CommunityId)
  | communityRow (id : CommunityId)
  | requestRow (id : Uuid)
  | approvalRow (id : Uuid)
  | chunkRow (id : Uuid) (no : Int)
  | leaseRow (id : Uuid)
  | tenantRow (key : RowKey)
deriving DecidableEq

def Write.lock : Write → Lock
  | community id _ => .communityRow id
  | request id _ => .requestRow id
  | approval id _ => .approvalRow id
  | chunk id no _ => .chunkRow id no
  | lease id _ => .leaseRow id
  | tenant key _ _ => .tenantRow key

def Db.apply (db : Db) : Write → Db
  | .community id row => { db with communities := db.communities.set id row }
  | .request id row => { db with requests := db.requests.set id row }
  | .approval id row => { db with approvals := db.approvals.set id row }
  | .chunk id no row => { db with chunks := db.chunks.alter (id, no) fun _ => row }
  | .lease id row => { db with leases := db.leases.alter id fun _ => row }
  | .tenant key _ new => { db with tenants := db.tenants.alter key fun _ => new }

/-! ## What the queries ask of the rows -/

def Db.approved (db : Db) (id : Uuid) (r : Request) : Bool :=
  (db.approvals.get? id).any fun a =>
    a.communityId == r.communityId && r.inventoryDigest == some a.inventoryDigest

def LeaseToken.owns (token : LeaseToken) (r : Request) : Bool :=
  r.leaseOwner == some token.owner && r.leaseGeneration == token.generation

def LeaseToken.holds (token : LeaseToken) (now : Int) (r : Request) : Bool :=
  token.owns r && r.leaseUntil.any fun until_ => decide (now ≤ until_)

def verifyLease (db : Db) (now : Int) (token : LeaseToken) (stage : DeletionStage) : Bool :=
  (db.requests.get? token.requestId).any fun r =>
    r.communityId == token.communityId && r.stage == stage && token.holds now r &&
      r.blocked.isNone && db.approved token.requestId r

def fenceCurrent (db : Db) (token : LeaseToken) : Bool :=
  (db.requests.get? token.requestId).any fun r =>
    r.fenceGeneration == token.fenceGeneration && (db.communities.get? r.communityId).any fun c =>
      (c.state == .fenced || c.state == .tombstone) && token.fenceGeneration == some c.generation

def verifyLeaseAndFence (db : Db) (now : Int) (token : LeaseToken) (stage : DeletionStage) :
    Bool :=
  verifyLease db now token stage && fenceCurrent db token

def ServingWriteLease.names (lease : ServingWriteLease) (row : ServingLease) : Bool :=
  row.communityId == lease.communityId && row.owner == lease.owner &&
    row.generation == lease.generation && row.fenceGeneration == lease.fenceGeneration

def servingLeaseCurrent (db : Db) (now : Int) (lease : ServingWriteLease) : Bool :=
  (db.leases.get? lease.id).any fun row =>
    lease.names row && decide (now ≤ row.leaseUntil) &&
      (db.communities.get? row.communityId).any fun c =>
        c.deletedAt.isNone && (c.state == .active || c.state == .quiescing) &&
          c.generation == row.fenceGeneration

def activeServingLeases (db : Db) (now : Int) (community : CommunityId) : List ServingLease :=
  (db.leases.toList.map Prod.snd).filter fun row =>
    row.communityId == community && decide (now ≤ row.leaseUntil)

def Db.hasActiveRequest (db : Db) (community : CommunityId) : Bool :=
  db.requests.toList.any fun (_, r) => r.communityId == community && r.stage != .aborted

def Db.rowsOf (db : Db) (table : TableName) (community : CommunityId) : List Uuid :=
  (db.tenants.toList.filter fun (key, row) => key.1 == table && row.communityId == some community)
    |>.map fun (key, _) => key.2

def Db.chunksOf (db : Db) (id : Uuid) : List (Int × Chunk) :=
  ((db.chunks.toList.filter fun (key, _) => key.1 == id).map fun (key, row) => (key.2, row))
    |>.mergeSort fun x y => decide (x.1 ≤ y.1)

end Vingilot.Deletion
