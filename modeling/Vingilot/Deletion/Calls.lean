import Vingilot.Deletion.Statements

/-!
# The calls of the deletion store

Each method of the store, and each kind of transaction that meets its locks, as the list of its
statements.
-/

namespace Vingilot.Deletion

open Transactions

inductive Sql where
  | isolation (readCommitted : Bool)
  | lock (target : Target) (mode : Mode)
  | check (c : Check)
  | read (r : Read)
  /-- `set_executor_gucs`. -/
  | setExecutor (target : Target) (generation : Generation)
  | setServing (handle : ServingWriteLease)
  | assertTarget
  | writeRow
  | request (id : Uuid) (u : RequestUpdate) (missing : Option DbError)
  | community (target : Target) (u : CommunityUpdate)
  | insertRequest (id : Uuid) (host requestedBy : String) (reason : Option String)
  | insertApproval (id : Uuid) (approvedBy : String) (note : Option String)
  | insertLease (id : Uuid) (community : CommunityId) (operation owner : String)
      (leaseSeconds : Nat)
  | renewLease (handle : ServingWriteLease) (leaseSeconds : Nat)
  | releaseLease (handle : ServingWriteLease)
  | reapLeases (ids : List Uuid)
  | deleteRows (table : TableName) (community : CommunityId)
  | clearProvenance (table : TableName) (community : CommunityId)
  | insertChunk (id : Uuid) (no : Int) (keyPrefix : String) (keys : List String)
  | deleteChunks (id : Uuid)
  | stampChunk (id : Uuid) (no : Int) (error : DbError)

/-! ## Rows that a statement finds -/

def assertAll (db : Db) (now : Int) (v : Vars) : List CommunityId → Except DbError Unit
  | [] => .ok ()
  | c :: rest => do
    assertCommunityWriteAllowed db now v c
    assertAll db now v rest

def Vars.rowsLeft (v : Vars) (db : Db) (table : TableName) (community : CommunityId) :
    List (RowKey × TenantRow) :=
  v.scanned.filterMap fun id =>
    ((db.tenants.get? (table, id)).filter fun row => row.communityId == some community).map
      fun row => ((table, id), row)

def Vars.chunksLeft (v : Vars) (db : Db) (id : Uuid) : List Int :=
  v.chunkNos.filter fun no => (db.chunks.get? (id, no)).isSome

def leaseRow (db : Db) (handle : ServingWriteLease) (counts : ServingLease → Bool) :
    Option ServingLease :=
  (db.leases.get? handle.id).filter fun row => handle.names row && counts row

/-- What `renew_serving_write_lease` asks of the row. -/
def renewable (db : Db) (now : Int) (row : ServingLease) : Bool :=
  decide (now ≤ row.leaseUntil) && (db.communities.get? row.communityId).any fun c =>
    (c.state == .active || c.state == .quiescing) && c.deletedAt.isNone &&
      c.generation == row.fenceGeneration

def expiredLeases (db : Db) (now : Int) (ids : List Uuid) : List Uuid :=
  ids.filter fun id => (db.leases.get? id).any fun row => decide (row.leaseUntil < now)

def pendingChunk (db : Db) (id : Uuid) (no : Int) : Option Chunk :=
  (db.chunks.get? (id, no)).filter fun chunk => chunk.deletedAt.isNone

def submittedRow (now : Int) (community : CommunityId) (host requestedBy : String)
    (reason : Option String) : Request :=
  { communityId := community, communityHost := host, stage := .submitted, requestedBy, reason,
    inventory := none, inventoryDigest := none, destructiveManifest := none,
    destructiveFrozenAt := none, fenceGeneration := none, leaseOwner := none,
    leaseGeneration := 0, leaseUntil := none, retryCount := 0, retryStage := none,
    nextAttemptAt := now, blocked := none, preQuiesceArchivedAt := none,
    quiescingStartedAt := none, aborted := none, completedAt := none }

/-! ## Locks -/

def Sql.locks (stmt : Sql) (now : Int) (v : Vars) (db : Db) : List (Lock × Mode) :=
  match stmt with
  | lock target mode => [(.advisory (target.of v), mode)]
  | read r => r.locks db now v
  | assertTarget => v.targets.head?.toList.map fun c => (.advisory c, .shared)
  | writeRow =>
    v.targets.map (fun c => (.advisory c, .shared)) ++
      v.change.toList.map fun change => (.tenantRow change.key, .exclusive)
  | request id u _ =>
    match (db.requests.get? id).filter (u.applies db now v id) with
    | some r =>
      match u with
      -- The row leaves the index of active requests.
      | .abort _ _ => [(.requestRow id, .exclusive), (.activeRequest r.communityId, .exclusive)]
      | _ => [(.requestRow id, .exclusive)]
    | none => []
  | community target u =>
    if (db.communities.get? (target.of v)).any u.applies then
      [(.communityRow (target.of v), .exclusive)]
    else []
  | insertRequest id _ _ _ =>
    match v.target with
    | some (c, _) =>
      if db.hasActiveRequest c then []
      else [(.activeRequest c, .exclusive), (.requestRow id, .exclusive)]
    | none => []
  | insertApproval id _ _ => [(.approvalRow id, .exclusive)]
  | insertLease id _ _ _ _ => [(.leaseRow id, .exclusive)]
  | renewLease handle _ =>
    (leaseRow db handle (renewable db now)).toList.map fun _ => (.leaseRow handle.id, .exclusive)
  | releaseLease handle =>
    (leaseRow db handle fun _ => true).toList.map fun _ => (.leaseRow handle.id, .exclusive)
  | reapLeases ids => (expiredLeases db now ids).map fun id => (.leaseRow id, .exclusive)
  | deleteRows table c =>
    let rows := v.rowsLeft db table c
    rows.map (fun (key, _) => (.tenantRow key, .exclusive)) ++
      if rows.isEmpty then [] else [(.advisory c, .shared)]
  | clearProvenance table c =>
    (v.rowsLeft db table c).map fun (key, _) => (.tenantRow key, .exclusive)
  | insertChunk id no _ _ => [(.requestRow id, .exclusive), (.chunkRow id no, .exclusive)]
  | deleteChunks id =>
    let chunks := v.chunksLeft db id
    if chunks.isEmpty then []
    else (.requestRow id, .exclusive) :: chunks.map fun no => (.chunkRow id no, .exclusive)
  | stampChunk id no _ =>
    (pendingChunk db id no).toList.map fun _ => (.chunkRow id no, .exclusive)
  | isolation _ | check _ | setExecutor _ _ | setServing _ => []

/-! ## Effects -/

/-- `protect_community_deletion_manifest_keys` on an insert. -/
def mayInsertChunk (db : Db) (id : Uuid) : Bool :=
  (db.requests.get? id).any fun r => r.destructiveFrozenAt.isNone && r.stage == .fenced

/-- `protect_community_deletion_manifest_keys` on a delete. -/
def mayDeleteChunk (db : Db) (id : Uuid) : Bool :=
  (db.requests.get? id).all fun r =>
    r.destructiveFrozenAt.isNone || r.stage == .logicallyVerified || r.stage == .retentionPending

def submitError (host : String) : DbError :=
  .deletionSafety s!"community {debugText host} is missing, already requested, fenced, or tombstoned"

def duplicateKey : DbError := .sqlx "duplicate key value violates unique constraint"

def Sql.exec (env : Env) (stmt : Sql) (now : Int) (v : Vars) (db : Db) :
    Except DbError (Vars × List Write) :=
  match stmt with
  | isolation readCommitted => .ok ({ v with readCommitted }, [])
  | lock _ _ => .ok (v, [])
  | check c => do
    c.run env db now v
    return (v, [])
  | read r => return (← r.run env db now v, [])
  | setExecutor target generation =>
    .ok ({ v with executor := (generation.of v).map fun g => (target.of v, g) }, [])
  | setServing handle => .ok ({ v with serving := some handle }, [])
  | assertTarget => do
    assertAll db now v v.targets.head?.toList
    return ({ v with targets := v.targets.tail }, [])
  | writeRow => do
    assertAll db now v v.targets
    match v.change with
    | none => return ({ v with targets := [] }, [])
    | some change =>
      if change.old.isNone && (db.tenants.get? change.key).isSome then throw duplicateKey
      return ({ v with targets := [], change := none },
        [.tenant change.key change.old change.new])
  | request id u missing =>
    match (db.requests.get? id).filter (u.applies db now v id) with
    | some r => do
      let row := u.set env now v r
      preventRetargeting r row
      require (decide (row.leaseGeneration ≤ i64Max)) (.sqlx "bigint out of range")
      return ({ v with returned := some row }, [.request id row])
    | none =>
      match missing with
      | some error => .error error
      | none => .ok (v, [])
  | community target u =>
    match (db.communities.get? (target.of v)).filter u.applies with
    | some c => do
      let row := u.set now v c
      enforceCommunityTombstone v (target.of v) c row
      return (v, [.community (target.of v) row])
    | none =>
      match u.missing (target.of v) with
      | some error => .error error
      | none => .ok (v, [])
  | insertRequest id host requestedBy reason =>
    match v.target with
    | none => .error (submitError host)
    | some (c, communityHost) =>
      if db.hasActiveRequest c then
        match v.existing with
        | some row => .ok ({ v with returned := some row }, [])
        | none => .error (submitError host)
      else if (db.requests.get? id).isSome then .error duplicateKey
      else
        let row := submittedRow now c communityHost requestedBy reason
        .ok ({ v with returned := some row }, [.request id row])
  | insertApproval id approvedBy note =>
    match v.request, v.request.bind Request.inventoryDigest with
    | some r, some digest =>
      if (db.approvals.get? id).isSome then .error duplicateKey
      else .ok (v, [.approval id ⟨r.communityId, digest, approvedBy, note⟩])
    | _, _ => .error (.sqlx "null value violates not-null constraint")
  | insertLease id c operation owner leaseSeconds =>
    match (db.communities.get? c).filter fun c => c.state == .active && c.deletedAt.isNone with
    | none => .error (.accessDenied s!"community {c.toText} is write-fenced or missing")
    | some row =>
      if (db.leases.get? id).isSome then .error duplicateKey
      else
        let leaseUntil := now + leaseSeconds * 1000000
        .ok ({ v with lease := some ⟨id, c, operation, owner, 1, row.generation, leaseUntil⟩ },
          [.lease id (some ⟨c, operation, owner, 1, row.generation, leaseUntil⟩)])
  | renewLease handle leaseSeconds =>
    match leaseRow db handle (renewable db now) with
    | none => .error (staleServingLeaseError handle)
    | some row =>
      let leaseUntil := now + leaseSeconds * 1000000
      .ok ({ v with lease := some { handle with leaseUntil } },
        [.lease handle.id (some { row with leaseUntil })])
  | releaseLease handle =>
    match leaseRow db handle fun _ => true with
    | none => .ok (v, [])
    | some _ => .ok (v, [.lease handle.id none])
  | reapLeases ids => .ok (v, (expiredLeases db now ids).map fun id => .lease id none)
  | deleteRows table c => do
    let rows := v.rowsLeft db table c
    assertAll db now v (if rows.isEmpty || !table.fenced then [] else [c])
    return (v, rows.map fun (key, row) => .tenant key (some row) none)
  | clearProvenance table c =>
    .ok (v, (v.rowsLeft db table c).map fun (key, row) =>
      .tenant key (some row) (some { row with communityId := none }))
  | insertChunk id no keyPrefix keys =>
    if !mayInsertChunk db id then
      .error (.sqlx "community deletion manifest key chunks require an unfrozen fenced request")
    else if no < 0 then .error (.sqlx "new row violates check constraint")
    else if (db.chunks.get? (id, no)).isSome then .error duplicateKey
    else .ok (v, [.chunk id no (some ⟨keyPrefix, keys, none⟩)])
  | deleteChunks id =>
    let chunks := v.chunksLeft db id
    if chunks.isEmpty || mayDeleteChunk db id then
      .ok (v, chunks.map fun no => .chunk id no none)
    else
      .error (.sqlx "community deletion manifest key chunks cannot be removed mid-execution")
  | stampChunk id no error =>
    match pendingChunk db id no with
    | none => .error error
    | some chunk => .ok (v, [.chunk id no (some { chunk with deletedAt := some now })])

/-! ## Transactions -/

inductive TenantOp where
  | guardTransaction (community : CommunityId)
  | guardWithServingLease (handle : ServingWriteLease)
  | row (op : RowOp)
deriving DecidableEq

/-- `Utc::now()` of the caller is an argument, and so is what an operation picks at random: the id
of a new row, and for `FOR UPDATE SKIP LOCKED` the rows that it takes. The outcome of the catalog
validation is an argument too. -/
inductive Call where
  | submit (id : Uuid) (host requestedBy : String) (reason : Option String)
  | freezeInventory (requestId : Uuid) (inventory : FrozenInventory)
  | approve (requestId : Uuid) (approvedBy : String) (note : Option String)
  | claim (requestId : Option Uuid) (owner : String) (leaseSeconds : Nat) (pick : Option Uuid)
      (catalogError : Option String)
  | verifyExecutionToken (token : LeaseToken) (stage : DeletionStage)
  | heartbeat (token : LeaseToken) (leaseSeconds : Nat)
  | stopExecutor (token : Option LeaseToken)
  | beginQuiescing (token : LeaseToken)
  | fence (token : LeaseToken)
  | freezeDestructiveStorageManifest (token : LeaseToken) (manifest : StorageManifest)
  | clearManifestKeyChunks (token : LeaseToken)
  | appendManifestKeyChunk (token : LeaseToken) (chunkNo : Int) (keyPrefix : String)
      (keys : List String)
  | nextPendingManifestChunk (token : LeaseToken)
  | markManifestChunkDeleted (token : LeaseToken) (chunkNo : Int)
  | markDrained (token : LeaseToken)
  | markBindingsRemoved (token : LeaseToken)
  | purgePostgres (token : LeaseToken) (catalogError : Option DbError)
  | markCachePurged (token : LeaseToken)
  | markLogicallyVerified (token : LeaseToken)
  | markRetentionPending (token : LeaseToken)
  | recordRetry (token : LeaseToken) (stage : DeletionStage) (error : String) (retrySeconds : Nat)
  | abort (requestId : Uuid) (abortedBy reason : String)
  | unblock (requestId : Uuid) (unblockedBy reason : String) (appNow : Int)
  | blockPreclaimSetup (requestId : Uuid) (error : String) (appNow : Int)
  | block (token : LeaseToken) (stage : DeletionStage) (error : String)
  | acquireServingWriteLease (id : Uuid) (community : CommunityId) (operation owner : String)
      (leaseSeconds : Nat)
  | renewServingWriteLease (handle : ServingWriteLease) (leaseSeconds : Nat)
  | verifyServingWriteLease (handle : ServingWriteLease)
  | releaseServingWriteLease (handle : ServingWriteLease)
  | reapExpiredServingWriteLeases (picks : List Uuid)
  | archiveCommunityOwnedBy (community : CommunityId)
  | unarchiveCommunityOwnedBy (community : CommunityId)
  | serve (readCommitted : Bool) (ops : List TenantOp)
deriving DecidableEq

def trimText (s : String) : String := String.ofList (Text.trim s.toList)

/-- `advance_request_tx`. -/
def advanceRequestTx (token : LeaseToken) (source target : DeletionStage) (fence : Generation) :
    List Sql :=
  [.check (.transition source target),
    .request token.requestId (.advance token source target fence) (some (staleLeaseError token))]

/-- `advance_with_checkpoint`. -/
def advanceWithCheckpoint (token : LeaseToken) (source target : DeletionStage) : List Sql :=
  [Sql.check (.requireFence token), .check (.leaseAndFence token source)] ++
    advanceRequestTx token source target (.ofToken token)

def TenantOp.plan : TenantOp → List Sql
  | guardTransaction c => [.lock (.known c) .shared, .check (.guardActive c)]
  | guardWithServingLease handle =>
    [.lock (.known handle.communityId) .shared, .check (.servingLease handle), .setServing handle]
  | row op => [.read (.oldRow op), .assertTarget, .writeRow]

def claimPlan (requestId : Option Uuid) (owner : String) (leaseSeconds : Nat) (pick : Option Uuid)
    (catalogError : Option String) : List Sql :=
  match pick with
  | none => []
  | some id =>
    [.read (.claimCandidate requestId id),
      match catalogError with
      | some message => .request id (.claimBlock message) none
      | none => .request id (.claim owner leaseSeconds) none]

def purgePlan (token : LeaseToken) (catalogError : Option DbError) : List Sql :=
  [Sql.check (.requireFence token), .check (.catalog catalogError),
    .check (.leaseAndFence token .bindingsRemoved),
    .setExecutor (.known token.communityId) (.ofToken token)] ++
  ([TableName.productFeedback, .rateLimitViolations].flatMap fun table =>
    [Sql.read (.scanRows table token.communityId), .clearProvenance table token.communityId]) ++
  (purgeScopedTables.flatMap fun table =>
    [Sql.read (.scanRows table token.communityId), .deleteRows table token.communityId]) ++
  [Sql.community (.known token.communityId) (.tombstone token)] ++
  advanceRequestTx token .bindingsRemoved .postgresPurged (.ofToken token)

def abortPlan (requestId : Uuid) (abortedBy reason : String) : List Sql :=
  [.check (.operator (.deletionSafety "abort requires non-empty operator identity and reason")
      abortedBy reason),
    .read (.requestCommunity requestId),
    .lock .ofRequest .exclusive,
    .read (.abortRow requestId),
    .check (.drained .ofRequest (.abort requestId)),
    .read (.community .ofRequest true),
    .setExecutor .ofRequest .read,
    .community .ofRequest .restore,
    .request requestId (.abort abortedBy reason) (some (.sqlx "row not found"))]

def Call.plan : Call → List Sql
  | submit id host requestedBy reason =>
    [.read (.submitTarget host requestedBy), .insertRequest id host requestedBy reason]
  | freezeInventory id inventory =>
    [.check (.storageManifest inventory.storage),
      .request id (.freezeInventory inventory)
        (some (.deletionSafety s!"deletion {id.toText} is not an unblocked submitted request"))]
  | approve id approvedBy note =>
    [.read (.approvalRow id), .insertApproval id approvedBy note,
      .request id .approve
        (some (.deletionSafety s!"deletion {id.toText} changed before approval could be recorded"))]
  | claim requestId owner leaseSeconds pick catalogError =>
    claimPlan requestId owner leaseSeconds pick catalogError
  | verifyExecutionToken token stage =>
    match token.fenceGeneration with
    | some _ => [.check (.leaseAndFence token stage)]
    | none => [.check (.lease token stage)]
  | heartbeat token leaseSeconds =>
    [.request token.requestId (.heartbeat token leaseSeconds) (some (staleLeaseError token))]
  | stopExecutor token =>
    match token with
    | some token => [.request token.requestId (.stop token) none]
    | none => []
  | beginQuiescing token =>
    [.check (.lease token .approved),
      .lock (.known token.communityId) .exclusive,
      .check (.lease token .approved),
      .read (.community (.known token.communityId) false),
      .request token.requestId .noteQuiescing none,
      .setExecutor (.known token.communityId) .read,
      .community (.known token.communityId) .quiesce]
  | fence token =>
    [.check (.lease token .approved),
      .lock (.known token.communityId) .exclusive,
      .check (.lease token .approved),
      .check (.drained (.known token.communityId) .fence),
      .read (.community (.known token.communityId) true),
      .setExecutor (.known token.communityId) .read,
      .community (.known token.communityId) .fence] ++
    advanceRequestTx token .approved .fenced .read
  | freezeDestructiveStorageManifest token manifest =>
    [.check (.requireFence token),
      .read (.lockRequest token.requestId),
      .check (.leaseAndFence token .fenced),
      .check (.storageManifest manifest),
      .check (.chunks token.requestId manifest),
      .request token.requestId (.freezeManifest token manifest)
        (some (.deletionSafety s!"destructive storage manifest changed or deletion lease is stale for request {token.requestId.toText}"))]
  | clearManifestKeyChunks token =>
    [.check (.requireFence token), .check (.leaseAndFence token .fenced),
      .read (.scanChunks token.requestId), .deleteChunks token.requestId]
  | appendManifestKeyChunk token chunkNo keyPrefix keys =>
    [.check (.keysNotEmpty keys), .check (.requireFence token),
      .check (.leaseAndFence token .fenced),
      .insertChunk token.requestId chunkNo keyPrefix keys]
  | nextPendingManifestChunk token => [.read (.nextPending token.requestId)]
  | markManifestChunkDeleted token chunkNo =>
    [.check (.requireFence token), .check (.leaseAndFence token .drained),
      .stampChunk token.requestId chunkNo
        (.deletionSafety s!"manifest key chunk {chunkNo} is missing or already stamped for request {token.requestId.toText}")]
  | markDrained token =>
    [.check (.requireFence token), .check (.leaseAndFence token .fenced),
      .check (.drained (.known token.communityId) .markDrained)] ++
    advanceRequestTx token .fenced .drained (.ofToken token)
  | markBindingsRemoved token => advanceWithCheckpoint token .drained .bindingsRemoved
  | purgePostgres token catalogError => purgePlan token catalogError
  | markCachePurged token => advanceWithCheckpoint token .postgresPurged .cachePurged
  | markLogicallyVerified token =>
    advanceWithCheckpoint token .cachePurged .logicallyVerified ++
    [.read (.scanChunks token.requestId), .deleteChunks token.requestId]
  | markRetentionPending token =>
    [.check (.requireFence token), .check (.leaseAndFence token .logicallyVerified),
      .request token.requestId (.retentionPending token) (some (staleLeaseError token))]
  | recordRetry token stage error retrySeconds =>
    [.check (.lease token stage), .read (.retryRow token.requestId),
      .request token.requestId (.retry token stage error retrySeconds) none]
  | abort requestId abortedBy reason => abortPlan requestId (trimText abortedBy) (trimText reason)
  | unblock requestId unblockedBy reason appNow =>
    [.check (.operator
        (.invalidData "unblock requires non-empty operator identity and remediation reason")
        (trimText unblockedBy) (trimText reason)),
      .read (.blockedRow requestId appNow),
      .request requestId .unblock (some (.sqlx "row not found"))]
  | blockPreclaimSetup requestId error appNow =>
    [.read (.preclaimRow requestId appNow),
      .request requestId (.blockPreclaim error) (some (.sqlx "row not found"))]
  | block token stage error =>
    [.check (.lease token stage), .request token.requestId (.block token error) none]
  | acquireServingWriteLease id c operation owner leaseSeconds =>
    [.lock (.known c) .shared, .check (.writeAllowed c),
      .insertLease id c operation owner leaseSeconds]
  | renewServingWriteLease handle leaseSeconds =>
    [.lock (.known handle.communityId) .shared, .renewLease handle leaseSeconds]
  | verifyServingWriteLease handle =>
    [.lock (.known handle.communityId) .shared, .check (.servingLease handle)]
  | releaseServingWriteLease handle => [.releaseLease handle]
  | reapExpiredServingWriteLeases picks => [.reapLeases picks]
  | archiveCommunityOwnedBy c => [.community (.known c) .archive]
  | unarchiveCommunityOwnedBy c => [.community (.known c) .unarchive]
  | serve readCommitted ops => .isolation readCommitted :: ops.flatMap TenantOp.plan

def store (env : Env) : Planned Call Sql Db Lock Vars Write DbError where
  apply := Db.apply
  vars := .init
  plan := Call.plan
  locks := Sql.locks
  exec := Sql.exec env
  lockOf := Write.lock

structure Db.Fresh (db : Db) : Prop where
  requests : db.requests = ∅
  approvals : db.approvals = ∅
  chunks : db.chunks = ∅
  leases : db.leases = ∅

end Vingilot.Deletion
