import Vingilot.Coordinator.Calls

/-!
# The provisioning saga (`coordinator/src/saga.rs`)

`provision` and `compensate` are sequences of transactions. A call may stop after any of them, and
the same call may be made again.
-/

namespace Vingilot.Coordinator.Saga

open Machine

/-! ## The statements -/

structure WorktreeSpec where
  repoId : String
  targetId : String
  role : String
  baseCommit : String
  branch : Option String
  access : Access
  idempotencyKey : String

def WorktreeSpec.new (wt : WorktreeSpec) : NewBinding :=
  ⟨wt.repoId, wt.targetId, wt.role, wt.baseCommit, wt.branch, wt.idempotencyKey⟩

structure ProvisionSpec where
  runId : Uuid
  worktrees : List WorktreeSpec

inductive SagaError where
  | runNotFound (runId : Uuid)
  | unexpectedStatus (runId : Uuid) (status : RunStatus)
  | worktreeOwnedByAnotherRun (runId : Uuid) (key : String)
  | run (error : RunError)
  | binding (error : BindingError)
  | db

def provisionLeaseTtlSecs : Int := 3600

/-- The statement that comes next. From `revoke` on it is one of `compensate`, which keeps the error
that it is to return. -/
inductive Stage where
  | readStatus
  | enter
  | create (wt : WorktreeSpec) (todo : List WorktreeSpec)
  | owner (bindingId : Uuid) (wt : WorktreeSpec) (todo : List WorktreeSpec)
  | grant (bindingId : Uuid) (wt : WorktreeSpec) (todo : List WorktreeSpec)
  | hasActive (bindingId : Uuid) (wt : WorktreeSpec) (todo : List WorktreeSpec)
  | acquire (bindingId : Uuid) (wt : WorktreeSpec) (todo : List WorktreeSpec)
  | finish
  | revoke (error : SagaError)
  | listBindings (error : SagaError)
  | label (error : SagaError) (bindingId : Uuid) (lifecycle : Lifecycle)
      (todo : List (Uuid × Lifecycle))
  | readFailed (error : SagaError)
  | fail (error : SagaError)

inductive Next where
  | go (stage : Stage)
  | done (result : Except SagaError Unit)

def nextWorktree : List WorktreeSpec → Stage
  | [] => .finish
  | wt :: todo => .create wt todo

/-- The loop of `compensate`, and the status that is read after it. -/
def nextBinding (error : SagaError) : List (Uuid × Lifecycle) → Stage
  | [] => .readFailed error
  | (bindingId, lifecycle) :: todo => .label error bindingId lifecycle todo

/-- Where `compensate` puts a binding that it has read with this lifecycle. -/
def walkBack : Lifecycle → Lifecycle
  | .provisioning => .removed
  | .ready => .quarantined
  | other => other

/-- `SELECT id, lifecycle .. WHERE owner_run_id = $1`. -/
def ownedBindings (db : Db) (runId : Uuid) : List (Uuid × Lifecycle) :=
  (db.worktreeBindings.toList.filter fun x => x.2.ownerRunId = some runId).map
    fun x => (x.1, x.2.lifecycle)

theorem mem_ownedBindings {db : Db} {runId : Uuid} {x : Uuid × Lifecycle} :
    x ∈ ownedBindings db runId ↔ ∃ row, db.worktreeBindings.get? x.1 = some row ∧
      row.ownerRunId = some runId ∧ row.lifecycle = x.2 := by
  simp only [ownedBindings, List.mem_map, List.mem_filter, decide_eq_true_eq]
  constructor
  · rintro ⟨⟨b, row⟩, ⟨hmem, howner⟩, rfl⟩
    exact ⟨row, (Table.mem_toList ..).mp hmem, howner, rfl⟩
  · rintro ⟨row, hrow, howner, hlifecycle⟩
    exact ⟨(x.1, row), ⟨(Table.mem_toList ..).mpr hrow, howner⟩, Prod.ext rfl hlifecycle⟩

def leaseActive (row : WorktreeBinding) (now : Int) : Bool := row.leaseExpiresAt.any (now < ·)

/-- A statement that is answered. `id` is a fresh key for `create_binding`. -/
def Stage.exec (spec : ProvisionSpec) (db : Db) (now : Int) (id : Uuid) : Stage → Db × Next
  | .readStatus =>
    match db.runs.get? spec.runId with
    | none => (db, .done (.error (.runNotFound spec.runId)))
    | some row =>
      match row.status with
      | .ready => (db, .done (.ok ()))
      | .draft => (db, .go .enter)
      | .provisioning => (db, .go (nextWorktree spec.worktrees))
      | other => (db, .done (.error (.unexpectedStatus spec.runId other)))
  | .enter =>
    match Run.transition db spec.runId .provisioning "provisioning started" now with
    | .ok db => (db, .go (nextWorktree spec.worktrees))
    | .error error => (db, .done (.error (.run error)))
  | .create wt todo =>
    match createBinding db id spec.runId wt.new with
    | .ok (db, bindingId) => (db, .go (.owner bindingId wt todo))
    | .error error => (db, .go (.revoke (.binding error)))
  | .owner bindingId wt todo =>
    match db.worktreeBindings.get? bindingId with
    | none => (db, .go (.revoke .db))
    | some row =>
      if row.ownerRunId = some spec.runId then (db, .go (.grant bindingId wt todo))
      else (db, .go (.revoke (.worktreeOwnedByAnotherRun spec.runId wt.idempotencyKey)))
  | .grant bindingId wt todo =>
    match Coordinator.grant db spec.runId bindingId wt.access with
    | .ok db => (db, .go (.hasActive bindingId wt todo))
    | .error error => (db, .go (.revoke (.binding error)))
  | .hasActive bindingId wt todo =>
    match db.worktreeBindings.get? bindingId with
    | none => (db, .go (.revoke .db))
    | some row =>
      (db, .go (if leaseActive row now then nextWorktree todo else .acquire bindingId wt todo))
  | .acquire bindingId _ todo =>
    match acquireLease db bindingId provisionLeaseTtlSecs now with
    | .ok (db, _) => (db, .go (nextWorktree todo))
    | .error error => (db, .go (.revoke (.binding error)))
  | .finish =>
    match Run.transition db spec.runId .ready "provisioning complete" now with
    | .ok db => (db, .done (.ok ()))
    -- this error is returned as it is, without `compensate`
    | .error error => (db, .done (.error (.run error)))
  | .revoke error => (revokeGrants db spec.runId, .go (.listBindings error))
  | .listBindings error => (db, .go (nextBinding error (ownedBindings db spec.runId)))
  | .label error bindingId lifecycle todo =>
    (setLifecycle db bindingId (walkBack lifecycle), .go (nextBinding error todo))
  | .readFailed error =>
    match db.runs.get? spec.runId with
    | none => (db, .done (.error (.runNotFound spec.runId)))
    | some row => (db, if row.status = .failed then .done (.error error) else .go (.fail error))
  | .fail error =>
    match Run.transition db spec.runId .failed "provisioning saga compensated" now with
    | .ok db => (db, .done (.error error))
    | .error e => (db, .done (.error (.run e)))

def Stage.onFailure : Stage → Next
  | .readStatus => .done (.error .db)
  | .enter => .done (.error (.run .db))
  | .finish => .done (.error (.run .db))
  | .create _ _ => .go (.revoke (.binding .db))
  | .owner _ _ _ => .go (.revoke .db)
  | .grant _ _ _ => .go (.revoke (.binding .db))
  | .hasActive _ _ _ => .go (.revoke .db)
  | .acquire _ _ _ => .go (.revoke (.binding .db))
  | .fail _ => .done (.error (.run .db))
  | _ => .done (.error .db)

/-- The Run has been moved into `Provisioning`, by this call or before it. -/
def Stage.moved : Stage → Bool
  | .readStatus => false
  | .enter => false
  | _ => true

/-! ## Runs -/

/-- What a call has returned, and whether the Run had been moved into `Provisioning`. -/
structure Returned where
  result : Except SagaError Unit
  moved : Bool

structure World where
  db : Db
  clock : Int
  call : Option Stage
  returned : Option Returned

def World.init (db : Db) : World := ⟨db, 0, none, none⟩

inductive Action where
  | tick (micros : Nat)
  | transition (runId : Uuid) (toStatus : RunStatus) (reason : String)
  /-- `provision` is called when no call is in progress. -/
  | provision
  | exec (id : Uuid)
  /-- The next statement fails and has no effect. -/
  | failure
  | lost (id : Uuid)
  | crash

def World.goOn (w : World) (db : Db) (moved : Bool) : Next → World
  | .go stage => { w with db, call := some stage, returned := none }
  | .done result => { w with db, call := none, returned := some ⟨result, moved⟩ }

/-- The transition into `Provisioning` has been carried out. -/
def Stage.enters (stage : Stage) (next : Next) : Bool :=
  match stage, next with
  | .enter, .go _ => true
  | _, _ => false

def step (spec : ProvisionSpec) (w : World) : Action → Option World
  | .tick micros => some { w with clock := w.clock + micros, returned := none }
  | .transition runId toStatus reason =>
    let c : Call := .transition runId toStatus reason w.clock
    some { w with db := c.apply w.db, returned := none }
  | .provision =>
    match w.call with
    | none => some { w with call := some .readStatus, returned := none }
    | some _ => none
  | .exec id => do
    let stage ← w.call
    let (db, next) := stage.exec spec w.db w.clock id
    some (w.goOn db stage.moved next)
  | .failure => do
    let stage ← w.call
    some (w.goOn w.db stage.moved stage.onFailure)
  | .lost id => do
    let stage ← w.call
    let (db, next) := stage.exec spec w.db w.clock id
    some (w.goOn db (stage.moved || stage.enters next) stage.onFailure)
  | .crash => some { w with call := none, returned := none }

/-! ## Inversion -/

variable {spec : ProvisionSpec} {w w' : World}

theorem step_exec {id : Uuid} (hstep : step spec w (.exec id) = some w') :
    ∃ stage, w.call = some stage ∧
      w' = w.goOn (stage.exec spec w.db w.clock id).1 stage.moved
        (stage.exec spec w.db w.clock id).2 := by
  obtain ⟨stage, hcall, heq⟩ := Option.bind_eq_some_iff.mp hstep
  exact ⟨stage, hcall, (Option.some.inj heq).symm⟩

theorem step_failure (hstep : step spec w .failure = some w') : ∃ stage, w.call = some stage ∧
      w' = w.goOn w.db stage.moved stage.onFailure := by
  obtain ⟨stage, hcall, heq⟩ := Option.bind_eq_some_iff.mp hstep
  exact ⟨stage, hcall, (Option.some.inj heq).symm⟩

theorem step_lost {id : Uuid} (hstep : step spec w (.lost id) = some w') :
    ∃ stage, w.call = some stage ∧
      w' = w.goOn (stage.exec spec w.db w.clock id).1
        (stage.moved || stage.enters (stage.exec spec w.db w.clock id).2) stage.onFailure := by
  obtain ⟨stage, hcall, heq⟩ := Option.bind_eq_some_iff.mp hstep
  exact ⟨stage, hcall, (Option.some.inj heq).symm⟩

/-! ## A Run in `Draft` -/

def drafted : Db :=
  [Call.insertWorkspace 7 ⟨0, .obj [], ""⟩, .create 1 ⟨7, none, "fix it", .delegated, none⟩].foldl
    Call.apply .empty

def oneWorktree : ProvisionSpec := ⟨1, [⟨"buzz", "local", "task", "abc", none, .write, "key"⟩]⟩

def execs (id : Uuid) (n : Nat) : List Action := List.replicate n (.exec id)

end Vingilot.Coordinator.Saga
