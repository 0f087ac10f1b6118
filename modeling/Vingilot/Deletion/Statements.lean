import Vingilot.Deletion.Rules

/-!
# The statements of the deletion store

Each SQL statement of the store and of the fence triggers is one kind of statement, with the
locks it takes and what it does. An `UPDATE` and a `SELECT .. FOR UPDATE` lock the rows that meet
their condition when they run.
-/

namespace Vingilot.Deletion

open Transactions

def i64Max : Nat := 2 ^ 63 - 1

/-! ## Updates of requests -/

/-- The `UPDATE community_deletion_requests` statements. -/
inductive RequestUpdate where
  | freezeInventory (inventory : FrozenInventory)
  | approve
  | claimBlock (message : String)
  | claim (owner : String) (leaseSeconds : Nat)
  | heartbeat (token : LeaseToken) (leaseSeconds : Nat)
  | stop (token : LeaseToken)
  | noteQuiescing
  | advance (token : LeaseToken) (source target : DeletionStage) (fence : Generation)
  | retentionPending (token : LeaseToken)
  | retry (token : LeaseToken) (stage : DeletionStage) (error : String) (retrySeconds : Nat)
  | abort (abortedBy reason : String)
  | unblock
  | blockPreclaim (error : String)
  | block (token : LeaseToken) (error : String)
  | freezeManifest (token : LeaseToken) (manifest : StorageManifest)

namespace RequestUpdate

/-- The `WHERE` clause, apart from the id. -/
def applies (u : RequestUpdate) (db : Db) (now : Int) (v : Vars) (id : Uuid) (r : Request) : Bool :=
  match u with
  | freezeInventory _ => r.stage == .submitted && r.blocked.isNone
  | approve => r.stage == .inventoried && r.blocked.isNone
  | claimBlock _ => v.candidate == some id
  | claim _ _ => v.candidate == some id
  | heartbeat token _ =>
    token.holds now r && r.blocked.isNone && r.stage.runnable && db.approved id r
  | stop token => token.owns r
  | noteQuiescing => r.quiescingStartedAt.isNone
  | advance token source _ _ => r.stage == source && token.holds now r && r.blocked.isNone
  | retentionPending token =>
    r.stage == .logicallyVerified && token.holds now r && r.fenceGeneration == token.fenceGeneration
  | retry token _ _ _ => token.owns r
  | abort _ _ => true
  | unblock => r.blocked.isSome
  | blockPreclaim _ => true
  | block token _ => token.owns r
  | freezeManifest token manifest =>
    token.owns r && r.stage == .fenced &&
      r.destructiveManifest.all fun frozen => frozen == manifest

/-- The `retry_count` after one more failure at the stage. -/
def consecutiveRetries (v : Vars) (stage : DeletionStage) : Nat :=
  match v.request with
  | some r => if r.retryStage == some stage then min (r.retryCount + 1) (2 ^ 31 - 1) else 1
  | none => 1

/-- The `SET` clause. -/
def set (u : RequestUpdate) (env : Env) (now : Int) (v : Vars) (r : Request) : Request :=
  match u with
  | freezeInventory inventory =>
    { r with
      stage := .inventoried
      inventory := some inventory
      inventoryDigest := some (env.inventoryDigest inventory) }
  | approve => { r with stage := .approved, nextAttemptAt := now }
  | claimBlock message =>
    { r with
      blocked := some (now, boundText message 4096)
      leaseOwner := none
      leaseUntil := none }
  | claim owner leaseSeconds =>
    { r with
      leaseOwner := some owner
      leaseGeneration := r.leaseGeneration + 1
      leaseUntil := some (now + leaseSeconds * 1000000) }
  | heartbeat _ leaseSeconds => { r with leaseUntil := some (now + leaseSeconds * 1000000) }
  | stop _ => { r with leaseOwner := none, leaseUntil := none }
  | noteQuiescing =>
    { r with preQuiesceArchivedAt := v.archivedAt, quiescingStartedAt := some now }
  | advance _ _ target fence =>
    { r with
      stage := target
      fenceGeneration := (fence.of v).or r.fenceGeneration
      retryCount := 0
      retryStage := none }
  | retentionPending _ =>
    { r with
      stage := .retentionPending
      completedAt := some now
      leaseOwner := none
      leaseUntil := none
      retryCount := 0
      retryStage := none }
  | retry _ stage error retrySeconds =>
    let retries := consecutiveRetries v stage
    { r with
      retryCount := retries
      retryStage := some stage
      nextAttemptAt := if 8 ≤ retries then r.nextAttemptAt else now + retrySeconds * 1000000
      blocked := if 8 ≤ retries then some (now, boundText error 4096) else r.blocked
      leaseOwner := none
      leaseUntil := none }
  | abort abortedBy reason =>
    { r with
      stage := .aborted
      aborted := some (boundText abortedBy 512, boundText reason 4096, now)
      completedAt := some now
      fenceGeneration := some v.generation
      leaseOwner := none
      leaseUntil := none
      leaseGeneration := r.leaseGeneration + 1
      blocked := none
      retryCount := 0
      retryStage := none
      nextAttemptAt := now }
  | unblock =>
    { r with
      blocked := none
      retryCount := 0
      retryStage := none
      nextAttemptAt := now
      leaseOwner := none
      leaseUntil := none }
  | blockPreclaim error => { r with blocked := some (now, boundText error 4096) }
  | block _ error =>
    { r with
      blocked := some (now, boundText error 4096)
      leaseOwner := none
      leaseUntil := none }
  | freezeManifest _ manifest =>
    { r with
      destructiveManifest := r.destructiveManifest.or (some manifest)
      destructiveFrozenAt := r.destructiveFrozenAt.or (some now) }

end RequestUpdate

/-- `prevent_community_deletion_request_retargeting`. -/
def preventRetargeting (old new : Request) : Except DbError Unit := do
  require (new.communityId == old.communityId && new.communityHost == old.communityHost)
    (.sqlx "community deletion target identity is immutable")
  require (old.inventoryDigest.isNone ||
      (new.inventory == old.inventory && new.inventoryDigest == old.inventoryDigest))
    (.sqlx "frozen community deletion inventory is immutable")
  require (old.destructiveFrozenAt.isNone ||
      (new.destructiveManifest == old.destructiveManifest &&
        new.destructiveFrozenAt == old.destructiveFrozenAt))
    (.sqlx "frozen destructive storage manifest is immutable")

/-! ## Updates of communities -/

inductive CommunityUpdate where
  | quiesce
  | fence
  | tombstone (token : LeaseToken)
  | restore
  | archive
  | unarchive

namespace CommunityUpdate

def applies : CommunityUpdate → Community → Bool
  | quiesce, c => (c.state == .active || c.state == .quiescing) && c.deletedAt.isNone
  | fence, c => c.state == .quiescing
  | tombstone token, c => c.state == .fenced && token.fenceGeneration == some c.generation
  | restore, c =>
    (c.state == .active || c.state == .quiescing || c.state == .fenced) && c.deletedAt.isNone
  | archive, c | unarchive, c => c.state == .active && c.deletedAt.isNone

/-- What `archived_at` was before the community was quiesced, if it ever was. -/
def restoredArchivedAt (v : Vars) : Option Int :=
  match v.request with
  | some r => if r.quiescingStartedAt.isSome then r.preQuiesceArchivedAt else v.archivedAt
  | none => v.archivedAt

def set (u : CommunityUpdate) (now : Int) (v : Vars) (c : Community) : Community :=
  match u with
  | quiesce => { c with state := .quiescing, archivedAt := c.archivedAt.or (some now) }
  | fence =>
    { c with
      state := .fenced
      generation := v.generation
      archivedAt := c.archivedAt.or (some now) }
  | tombstone _ =>
    { c with
      state := .tombstone
      deletedAt := c.deletedAt.or (some now)
      archivedAt := c.archivedAt.or (some now) }
  | restore =>
    { c with state := .active, generation := v.generation, archivedAt := restoredArchivedAt v }
  | archive => { c with archivedAt := c.archivedAt.or (some now) }
  | unarchive => { c with archivedAt := none }

def missing (id : CommunityId) : CommunityUpdate → Option DbError
  | quiesce => some (.deletionSafety s!"community {id.toText} cannot enter quiescing")
  | fence => some (.deletionSafety s!"community {id.toText} is no longer quiescing while fencing")
  | tombstone _ =>
    some (.deletionSafety s!"community {id.toText} tombstone update affected 0 rows")
  | restore => some (.deletionSafety s!"community {id.toText} cannot be restored during abort")
  | archive | unarchive => none

end CommunityUpdate

/-! ## Checks -/

inductive Drain where
  | fence
  | markDrained
  | abort (requestId : Uuid)

def Drain.error (community : CommunityId) (active : List ServingLease) : Drain → DbError
  | fence =>
    .servingWritesNotDrained community active.length
      ((active.map ServingLease.operation).dedup.mergeSort fun x y => decide (x ≤ y))
  | markDrained => .deletionSafety "serving writes have not drained"
  | abort requestId =>
    .deletionSafety s!"deletion {requestId.toText} cannot abort while {active.length} serving write lease(s) remain active"

inductive Check where
  | requireFence (token : LeaseToken)
  | lease (token : LeaseToken) (stage : DeletionStage)
  | leaseAndFence (token : LeaseToken) (stage : DeletionStage)
  | drained (target : Target) (asker : Drain)
  | transition (source target : DeletionStage)
  | operator (error : DbError) (who reason : String)
  | catalog (error : Option DbError)
  | storageManifest (manifest : StorageManifest)
  | chunks (id : Uuid) (manifest : StorageManifest)
  | keysNotEmpty (keys : List String)
  | servingLease (handle : ServingWriteLease)
  | guardActive (community : CommunityId)
  | writeAllowed (community : CommunityId)

/-- `guard_transaction`, after its shared lock. -/
def guardActive (db : Db) (community : CommunityId) : Except DbError Unit :=
  match (db.communities.get? community).filter fun c => c.deletedAt.isNone with
  | some c =>
    if c.state = .active then .ok ()
    else
      let state := match c.state with
        | .active => "active"
        | .quiescing => "quiescing"
        | .fenced => "fenced"
        | .tombstone => "tombstone"
      .error (.accessDenied s!"community {community.toText} is write-fenced ({state})")
  | none => .error (.accessDenied s!"community {community.toText} is missing or tombstoned")

def Check.run (env : Env) (c : Check) (db : Db) (now : Int) (v : Vars) : Except DbError Unit :=
  match c with
  | requireFence token =>
    require token.fenceGeneration.isSome
      (.deletionSafety s!"deletion {token.requestId.toText} has no durable fence generation")
  | lease token stage => require (verifyLease db now token stage) (staleLeaseError token)
  | leaseAndFence token stage =>
    require (verifyLeaseAndFence db now token stage)
      (.accessDenied s!"stale lease or fencing generation for deletion {token.requestId.toText}")
  | drained target asker =>
    let active := activeServingLeases db now (target.of v)
    require active.isEmpty (asker.error (target.of v) active)
  | transition source target =>
    require (source.next == some target)
      (.deletionSafety s!"illegal deletion transition {source.text} -> {target.text}")
  | operator error who reason => require (!who.isEmpty && !reason.isEmpty) error
  | catalog error => match error with
    | none => .ok ()
    | some error => .error error
  | storageManifest manifest => validateStorageManifest manifest
  | chunks id manifest => validateManifestKeyChunks env manifest (db.chunksOf id)
  | keysNotEmpty keys =>
    require (!keys.isEmpty) (.deletionSafety "refusing to persist an empty manifest key chunk")
  | servingLease handle =>
    require (servingLeaseCurrent db now handle) (staleServingLeaseError handle)
  | guardActive community => Deletion.guardActive db community
  | writeAllowed community =>
    match assertCommunityWriteAllowed db now v community with
    | .ok () => .ok ()
    | .error _ =>
      .error (.accessDenied s!"community {community.toText} is write-fenced or missing")

/-! ## Reads -/

inductive RowOp where
  | insert (key : RowKey) (row : TenantRow)
  | update (key : RowKey) (row : TenantRow)
  | delete (key : RowKey)
deriving DecidableEq

def RowOp.change (op : RowOp) (db : Db) : Option RowChange :=
  match op with
  | insert key row => some ⟨key, none, some row⟩
  | update key row => (db.tenants.get? key).map fun old => ⟨key, some old, some row⟩
  | delete key => (db.tenants.get? key).map fun old => ⟨key, some old, none⟩

inductive Read where
  | requestCommunity (id : Uuid)
  | abortRow (id : Uuid)
  | approvalRow (id : Uuid)
  | claimCandidate (wanted : Option Uuid) (id : Uuid)
  | lockRequest (id : Uuid)
  | retryRow (id : Uuid)
  | blockedRow (id : Uuid) (appNow : Int)
  | preclaimRow (id : Uuid) (appNow : Int)
  /-- `checked_add` of one follows when the flag is set. -/
  | community (target : Target) (next : Bool)
  | oldRow (op : RowOp)
  | scanRows (table : TableName) (owner : CommunityId)
  | scanChunks (id : Uuid)
  | nextPending (id : Uuid)
  | submitTarget (host requestedBy : String)

def claimable (db : Db) (now : Int) (wanted : Option Uuid) (id : Uuid) (r : Request) : Bool :=
  wanted.all (· == id) && db.approved id r && r.stage.runnable && r.blocked.isNone &&
    decide (r.nextAttemptAt ≤ now) && r.leaseUntil.all fun until_ => decide (until_ < now)

def Read.finds (r : Read) (db : Db) (now : Int) (id : Uuid) (row : Request) : Bool :=
  match r with
  | approvalRow _ => row.stage == .inventoried && row.blocked.isNone
  | claimCandidate wanted _ => claimable db now wanted id row
  | blockedRow _ _ => row.blocked.isSome
  | _ => true

def Read.requestLocks (r : Read) (db : Db) (now : Int) (id : Uuid) : List (Lock × Mode) :=
  if (db.requests.get? id).any (r.finds db now id) then [(.requestRow id, .exclusive)] else []

def Read.locks (r : Read) (db : Db) (now : Int) (v : Vars) : List (Lock × Mode) :=
  match r with
  | abortRow id | approvalRow id | claimCandidate _ id | lockRequest id | retryRow id
  | blockedRow id _ | preclaimRow id _ => r.requestLocks db now id
  | community target _ => [(.communityRow (target.of v), .exclusive)]
  | oldRow op =>
    match op, op.change db with
    | .insert _ _, _ => []
    | _, some change => [(.tenantRow change.key, .exclusive)]
    | _, none => []
  | requestCommunity _ | scanRows _ _ | scanChunks _ | nextPending _ | submitTarget _ _ => []

def leaseLive (appNow : Int) (r : Request) : Bool :=
  r.leaseOwner.isSome && r.leaseUntil.any fun until_ => decide (appNow ≤ until_)

def terminal (stage : DeletionStage) : Bool := stage == .retentionPending || stage == .aborted

def Read.request (r : Read) (env : Env) (db : Db) (now : Int) (v : Vars) :
    Except DbError Vars :=
  match r with
  | requestCommunity id =>
    match db.requests.get? id with
    | some row => .ok { v with community := row.communityId }
    | none => .error (.notFound s!"community deletion {id.toText}")
  | abortRow id =>
    match db.requests.get? id with
    | none => .error (.notFound s!"community deletion {id.toText}")
    | some row =>
      if row.communityId ≠ v.community then
        .error (.deletionSafety s!"deletion {id.toText} changed community while abort waited for the community lock")
      else if row.stage = .approved ∨ row.stage = .fenced then .ok { v with request := some row }
      else
        .error (.deletionSafety s!"deletion {id.toText} at stage {row.stage.text} cannot be aborted")
  | approvalRow id =>
    match (db.requests.get? id).filter (r.finds db now id) with
    | none =>
      .error (.deletionSafety s!"deletion {id.toText} is not an unblocked inventoried request")
    | some row =>
      match row.inventory with
      | none => .error (.sqlx "unexpected null")
      | some inventory =>
        if row.inventoryDigest = some (env.inventoryDigest inventory) then
          .ok { v with request := some row }
        else
          .error (.deletionSafety s!"deletion {id.toText} frozen inventory digest does not match its manifest")
  | claimCandidate _ id =>
    match (db.requests.get? id).filter (r.finds db now id) with
    | none => .ok v
    | some row => .ok { v with request := some row, candidate := some id }
  | lockRequest id =>
    match db.requests.get? id with
    | none =>
      .error (.deletionSafety s!"deletion request {id.toText} disappeared before manifest freeze")
    | some _ => .ok v
  | retryRow id =>
    match db.requests.get? id with
    | none => .error (.sqlx "row not found")
    | some row => .ok { v with request := some row }
  | blockedRow id appNow =>
    match (db.requests.get? id).filter (r.finds db now id) with
    | none => .error (.deletionSafety s!"deletion {id.toText} is missing or is not blocked")
    | some row =>
      if terminal row.stage then
        .error (.deletionSafety s!"blocked deletion {id.toText} at terminal stage {row.stage.text} cannot resume")
      else if leaseLive appNow row then
        .error (.deletionSafety s!"blocked deletion {id.toText} still has a live executor lease")
      else .ok { v with request := some row }
  | preclaimRow id appNow =>
    match db.requests.get? id with
    | none => .error (.notFound s!"community deletion {id.toText}")
    | some row =>
      if terminal row.stage then
        .error (.deletionSafety s!"deletion {id.toText} at terminal stage {row.stage.text} cannot record a setup failure")
      else if leaseLive appNow row then
        .error (.deletionSafety s!"deletion {id.toText} is leased by another executor")
      else .ok { v with request := some row }
  | _ => .ok v

def Read.run (r : Read) (env : Env) (db : Db) (now : Int) (v : Vars) : Except DbError Vars :=
  match r with
  | community target next =>
    match db.communities.get? (target.of v) with
    | none => .error (.sqlx "row not found")
    | some c =>
      if next && decide (i64Max ≤ c.generation) then
        .error (.deletionSafety "community deletion fence generation overflow")
      else
        .ok { v with
          generation := if next then c.generation + 1 else c.generation
          archivedAt := c.archivedAt }
  | oldRow op =>
    let targets := match op.change db with
      | some change => if change.key.1.fenced then fenceTargets change.old change.new else []
      | none => []
    .ok { v with change := op.change db, targets }
  | scanRows table owner => .ok { v with scanned := db.rowsOf table owner }
  | scanChunks id => .ok { v with chunkNos := (db.chunksOf id).map Prod.fst }
  | nextPending id =>
    let pending := (db.chunksOf id).find? fun (_, chunk) => chunk.deletedAt.isNone
    .ok { v with chunk := pending.map fun (no, chunk) => ⟨no, chunk.keyPrefix, chunk.keys⟩ }
  | submitTarget host requestedBy =>
    let target := (db.communities.toList.find? fun (_, c) =>
      env.lower c.host == env.lower host && c.state == .active && c.deletedAt.isNone).map
        fun (id, c) => (id, c.host)
    let existing := (db.requests.toList.find? fun (_, r) =>
      target.any (fun t => t.1 == r.communityId) && r.stage == .submitted &&
        r.requestedBy == requestedBy).map Prod.snd
    .ok { v with target, existing }
  | _ => r.request env db now v

end Vingilot.Deletion
