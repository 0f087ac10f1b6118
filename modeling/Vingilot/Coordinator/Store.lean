import Vingilot.Lib.Numbered
import Vingilot.Lib.Json
import Vingilot.Coordinator.Domain

/-!
# The coordinator's tables and its calls (`run.rs`, `binding.rs`)

Each call is one transaction, so it is one function of the database. Times are microseconds, and
every call reads its own clock.
-/

namespace Vingilot.Coordinator

/-! ## Rows -/

structure Workspace where
  revision : Int
  state : Json.Value
  stateHash : String

structure WorkspaceEvent where
  prevRevision : Int
  mutations : List Json.Value
  stateHash : String

structure Run where
  workspaceId : Uuid
  parentRunId : Option Uuid
  objective : String
  mode : RunMode
  status : RunStatus
  wallLimitSecs : Option Int
  wallStartedAt : Option Int
deriving DecidableEq

structure RunTransition where
  fromStatus : RunStatus
  toStatus : RunStatus
  reason : String
  createdAt : Int
deriving DecidableEq

structure WorktreeBinding where
  repoId : String
  targetId : String
  role : String
  baseCommit : String
  branch : Option String
  lifecycle : Lifecycle
  ownerRunId : Option Uuid
  epoch : Int
  leaseExpiresAt : Option Int
  idempotencyKey : String

structure Db where
  workspaces : Table Uuid Workspace
  workspaceEvents : Table (Uuid × Int) WorkspaceEvent
  runs : Table Uuid Run
  runTransitions : Table (Uuid × Int) RunTransition
  worktreeBindings : Table Uuid WorktreeBinding
  runWorktreeGrants : Table (Uuid × Uuid) Access

def Db.empty : Db := ⟨∅, ∅, ∅, ∅, ∅, ∅⟩

/-- `INSERT INTO workspaces .. ON CONFLICT (id) DO NOTHING`. -/
def insertWorkspace (db : Db) (id : Uuid) (row : Workspace) : Db :=
  if (db.workspaces.get? id).isSome then db
  else { db with workspaces := db.workspaces.set id row }

/-! ## Runs -/

inductive RunError where
  | notFound (id : Uuid)
  | illegalTransition (fromStatus toStatus : RunStatus)
  | db
deriving DecidableEq

structure NewRun where
  workspaceId : Uuid
  parentRunId : Option Uuid
  objective : String
  mode : RunMode
  wallLimitSecs : Option Int

/-- `run::create`. The `id` is the one that `Uuid::new_v4` makes. -/
def Run.create (db : Db) (id : Uuid) (new : NewRun) : Except RunError Db :=
  if (db.runs.get? id).isSome || (db.workspaces.get? new.workspaceId).isNone ||
      new.parentRunId.any fun parent => parent ≠ id ∧ (db.runs.get? parent).isNone then
    .error .db
  else
    .ok { db with
      runs := db.runs.set id ⟨new.workspaceId, new.parentRunId, new.objective, new.mode, .draft,
        new.wallLimitSecs, none⟩ }

/-- The `UPDATE` of `run::transition`. The wall clock starts on the first entry to `Running`. -/
def Run.enter (row : Run) (toStatus : RunStatus) (now : Int) : Run :=
  if toStatus = .running then
    { row with status := toStatus, wallStartedAt := row.wallStartedAt.or (some now) }
  else { row with status := toStatus }

def Run.transition (db : Db) (runId : Uuid) (toStatus : RunStatus) (reason : String) (now : Int) :
    Except RunError Db :=
  match db.runs.get? runId with
  | none => .error (.notFound runId)
  | some row =>
    if row.status.canTransitionTo toStatus then
      .ok { db with
        runTransitions := db.runTransitions.set (runId, nextSeq db.runTransitions runId)
          ⟨row.status, toStatus, reason, now⟩
        runs := db.runs.set runId (row.enter toStatus now) }
    else .error (.illegalTransition row.status toStatus)

/-! ## Bindings and leases -/

inductive BindingError where
  | notFound (id : Uuid)
  | staleEpoch (bindingId : Uuid) (current presented : Int)
  | writableLimitExceeded
  | db

inductive OpDenied where
  | notFound (id : Uuid)
  | wrongRun (runId bindingId : Uuid)
  | notReady (bindingId : Uuid)
  | staleEpoch (bindingId : Uuid) (current presented : Int)
  | leaseExpired (bindingId : Uuid)
  | db
deriving DecidableEq

structure Lease where
  bindingId : Uuid
  epoch : Int
  expiresAt : Int

structure NewBinding where
  repoId : String
  targetId : String
  role : String
  baseCommit : String
  branch : Option String
  idempotencyKey : String

def NewBinding.row (new : NewBinding) (runId : Uuid) : WorktreeBinding where
  repoId := new.repoId
  targetId := new.targetId
  role := new.role
  baseCommit := new.baseCommit
  branch := new.branch
  lifecycle := .ready
  ownerRunId := some runId
  epoch := 0
  leaseExpiresAt := none
  idempotencyKey := new.idempotencyKey

def Db.bindingOfKey (db : Db) (key : String) : Option Uuid :=
  (db.worktreeBindings.toList.find? fun x => x.2.idempotencyKey = key).map Prod.fst

/-- `binding::create_binding`. A key that is taken gives the binding that has it. The `CHECK` on the
role comes before the index. -/
def createBinding (db : Db) (id runId : Uuid) (new : NewBinding) : Except BindingError (Db × Uuid) :=
  if new.role ≠ "primary" ∧ new.role ≠ "task" then .error .db
  else
    match db.bindingOfKey new.idempotencyKey with
    | some existing => .ok (db, existing)
    | none =>
      if (db.worktreeBindings.get? id).isSome || (db.runs.get? runId).isNone then .error .db
      else
        .ok ({ db with worktreeBindings := db.worktreeBindings.set id (new.row runId) }, id)

/-- `binding::grant`. The index `one_writable_per_run` allows one writable worktree. -/
def grant (db : Db) (runId bindingId : Uuid) (access : Access) : Except BindingError Db :=
  if access = .write ∧ db.runWorktreeGrants.toList.any fun x =>
      x.1.1 = runId ∧ x.1.2 ≠ bindingId ∧ x.2 = .write then
    .error .writableLimitExceeded
  else if (db.runs.get? runId).isNone || (db.worktreeBindings.get? bindingId).isNone then
    .error .db
  else
    .ok { db with runWorktreeGrants := db.runWorktreeGrants.set (runId, bindingId) access }

def secs (n : Int) : Int := n * 1000000

/-- The column `epoch` is a `BIGINT`. -/
def maxEpoch : Int := 2 ^ 63 - 1

/-- `binding::acquire_lease`. It asks neither who holds the lease nor whether it has expired. -/
def acquireLease (db : Db) (bindingId : Uuid) (ttlSecs now : Int) :
    Except BindingError (Db × Lease) :=
  match db.worktreeBindings.get? bindingId with
  | none => .error (.notFound bindingId)
  | some row =>
    if maxEpoch < row.epoch + 1 then .error .db
    else
      let lease : Lease := ⟨bindingId, row.epoch + 1, now + secs ttlSecs⟩
      .ok ({ db with
        worktreeBindings := db.worktreeBindings.set bindingId
          { row with epoch := lease.epoch, leaseExpiresAt := some lease.expiresAt } }, lease)

/-- `binding::renew_lease`. It does not ask for the lifecycle or for the old expiry. -/
def renewLease (db : Db) (bindingId : Uuid) (epoch ttlSecs now : Int) :
    Except BindingError (Db × Lease) :=
  match db.worktreeBindings.get? bindingId with
  | none => .error (.notFound bindingId)
  | some row =>
    if row.epoch ≠ epoch then .error (.staleEpoch bindingId row.epoch epoch)
    else
      .ok ({ db with
        worktreeBindings := db.worktreeBindings.set bindingId
          { row with leaseExpiresAt := some (now + secs ttlSecs) } },
        ⟨bindingId, epoch, now + secs ttlSecs⟩)

/-- `binding::validate_op`. The clock is read after the row, so `now` may be later. -/
def validateOp (db : Db) (runId bindingId : Uuid) (epoch now : Int) : Except OpDenied Unit :=
  match db.worktreeBindings.get? bindingId with
  | none => .error (.notFound bindingId)
  | some row =>
    if row.ownerRunId ≠ some runId then .error (.wrongRun runId bindingId)
    else if row.lifecycle ≠ .ready then .error (.notReady bindingId)
    else if row.epoch ≠ epoch then .error (.staleEpoch bindingId row.epoch epoch)
    else
      match row.leaseExpiresAt with
      | some expiresAt => if now < expiresAt then .ok () else .error (.leaseExpired bindingId)
      | none => .error (.leaseExpired bindingId)

/-! ## Statements of the saga and the reconciler -/

/-- `UPDATE worktree_bindings SET lifecycle = $2 .. WHERE id = $1`. -/
def setLifecycle (db : Db) (bindingId : Uuid) (lifecycle : Lifecycle) : Db :=
  match db.worktreeBindings.get? bindingId with
  | none => db
  | some row =>
    { db with
      worktreeBindings := db.worktreeBindings.set bindingId { row with lifecycle := lifecycle } }

/-- The same, `AND lifecycle = 'ready'`. -/
def quarantineReady (db : Db) (bindingId : Uuid) : Db :=
  match db.worktreeBindings.get? bindingId with
  | none => db
  | some row => if row.lifecycle = .ready then setLifecycle db bindingId .quarantined else db

/-- `DELETE FROM run_worktree_grants WHERE run_id = $1`. -/
def revokeGrants (db : Db) (runId : Uuid) : Db :=
  { db with runWorktreeGrants := db.runWorktreeGrants.removeWhere fun x => x.1.1 = runId }

end Vingilot.Coordinator
