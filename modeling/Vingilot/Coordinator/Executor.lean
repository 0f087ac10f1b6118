import Vingilot.Coordinator.Leases

/-!
# The executor (`executor/src/lib.rs`)

`execute_run` is a sequence of requests to the coordinator with local work between them. Other
parties call the coordinator at any moment, and any number of executors may work on one Run.
-/

namespace Vingilot.Coordinator.Execute

open Machine

/-! ## One executor -/

structure ExecutorConfig where
  /-- The keys of `repo_map`. -/
  repos : List String
  commandTemplate : List String

def leaseTtlSecs : Int := 90

inductive Outcome where
  | completed
  | failed (exitCode : Int)

inductive ClientError where
  | transport
  | run (error : RunError)
  | binding (error : BindingError)

inductive ExecError where
  | client (error : ClientError)
  | statusNotReady (status : RunStatus)
  | modeNotDelegated (mode : RunMode)
  | writeGrants (found : Nat)
  /-- Without a denial when the check itself got no answer. -/
  | fenced (step : String) (denied : Option OpDenied)
  | unknownRepo (repoId : String)
  | git
  | emptyCommand
  | io

structure Job where
  bindingId : Uuid
  objective : String

structure Held where
  bindingId : Uuid
  objective : String
  epoch : Int
  /-- How much had happened when the last fence was passed. Kept for the statements only. -/
  fencedAt : Nat

/-- What `execute_run` does next. -/
inductive Stage where
  | getRun
  | getGrants (row : Run)
  | claim (job : Job)
  | lease (job : Job)
  | fenceWorktree (held : Held)
  | worktree (held : Held)
  | gitFailed
  | fenceCommand (held : Held)
  | spawn (held : Held)
  | running (held : Held)
  | capture (held : Held) (exitCode : Int)
  | verifying (held : Held) (captureOk : Bool)
  | completed (held : Held) (captureOk : Bool)
  | failed (exitCode : Int) (captureOk : Bool)
  | note (outcome : Outcome) (captureOk : Bool)
  | returned (result : Except ExecError Outcome)

structure Executor where
  config : ExecutorConfig
  runId : Uuid
  stage : Stage

/-- The grants of `GET /v1/runs/{id}`, with the repository of each binding. -/
def grantEntries (db : Db) (runId : Uuid) : List (Uuid × Access × String) :=
  db.runWorktreeGrants.toList.filterMap fun x =>
    if x.1.1 = runId then
      (db.worktreeBindings.get? x.1.2).map fun row => (x.1.2, x.2, row.repoId)
    else none

/-- A Run must be `ready` and `delegated`, with one writable binding in a known repository. -/
def eligible (config : ExecutorConfig) (row : Run) (grants : List (Uuid × Access × String)) :
    Except ExecError Job :=
  if row.status ≠ .ready then .error (.statusNotReady row.status)
  else if row.mode ≠ .delegated then .error (.modeNotDelegated row.mode)
  else
    match grants.filter fun g => g.2.1 = .write with
    | [(bindingId, _, repoId)] =>
      if repoId ∈ config.repos then .ok ⟨bindingId, row.objective⟩ else .error (.unknownRepo repoId)
    | writeGrants => .error (.writeGrants writeGrants.length)

/-! ## What happens -/

inductive Event where
  | claimed (i : Nat) (runId : Uuid)
  | spawned (i : Nat) (runId : Uuid)
  | leased (bindingId : Uuid)
  /-- An executor takes the Run to `Completed`. It is fenced when its epoch is not the current one. -/
  | completed (i : Nat) (runId : Uuid) (fenced : Bool)
deriving DecidableEq

def isFenced (db : Db) (held : Held) : Bool :=
  (db.worktreeBindings.get? held.bindingId).any fun row => row.epoch ≠ held.epoch

structure Reply where
  db : Db
  stage : Stage
  events : List Event

def Reply.stop (db : Db) (error : ExecError) : Reply := ⟨db, .returned (.error error), []⟩

def fence (db : Db) (runId : Uuid) (held : Held) (now : Int) (name : String) (next : Stage) :
    Reply :=
  match validateOp db runId held.bindingId held.epoch now with
  | .ok () => ⟨db, next, []⟩
  | .error denied => .stop db (.fenced name (some denied))

def move (db : Db) (runId : Uuid) (toStatus : RunStatus) (reason : String) (now : Int)
    (next : Stage) (events : List Event) : Reply :=
  match Run.transition db runId toStatus reason now with
  | .ok db => ⟨db, next, events⟩
  | .error error => .stop db (.client (.run error))

/-- One request of executor `i`. `length` is how much has happened so far. -/
def Executor.request (e : Executor) (i : Nat) (db : Db) (length : Nat) (now : Int)
    (gitOk : Bool) : Option Reply :=
  match e.stage with
  | .getRun =>
    match db.runs.get? e.runId with
    | none => some (.stop db (.client (.run (.notFound e.runId))))
    | some row => some ⟨db, .getGrants row, []⟩
  | .getGrants row =>
    match eligible e.config row (grantEntries db e.runId) with
    | .ok job => some ⟨db, .claim job, []⟩
    | .error error => some (.stop db error)
  | .claim job =>
    some (move db e.runId .running "executor claimed" now (.lease job) [.claimed i e.runId])
  | .lease job =>
    match acquireLease db job.bindingId leaseTtlSecs now with
    | .ok (db, lease) =>
      some ⟨db, .fenceWorktree ⟨job.bindingId, job.objective, lease.epoch, 0⟩,
        [.leased job.bindingId]⟩
    | .error error => some (.stop db (.client (.binding error)))
  | .fenceWorktree held => some (fence db e.runId held now "git worktree add" (.worktree held))
  | .gitFailed =>
    -- the answer to this transition is ignored
    some (.stop (committed db (Run.transition db e.runId .failed "git worktree add failed" now)) .git)
  | .fenceCommand held =>
    some (fence db e.runId held now "run command" (.spawn { held with fencedAt := length }))
  | .capture held exitCode =>
    -- a denial here is written down as evidence, and the executor goes on
    let captureOk :=
      (validateOp db e.runId held.bindingId held.epoch now).toOption.isSome && gitOk
    some ⟨db, if exitCode = 0 then .verifying held captureOk else .failed exitCode captureOk, []⟩
  | .verifying held captureOk =>
    some (move db e.runId .verifying "command exit 0" now (.completed held captureOk) [])
  | .completed held captureOk =>
    some (move db e.runId .completed "executor v1 auto-verify" now (.note .completed captureOk)
      [.completed i e.runId (isFenced db held)])
  | .failed exitCode captureOk =>
    some (move db e.runId .failed s!"command exit {exitCode}" now (.note (.failed exitCode) captureOk)
      [])
  | .note outcome _ => some ⟨db, .returned (.ok outcome), []⟩
  | _ => none

/-! ## Runs -/

structure World where
  db : Db
  executors : Table Nat Executor
  started : Nat
  history : List Event

def World.init (db : Db) : World := ⟨db, ∅, 0, []⟩

inductive Action where
  | call (c : Call)
  | start (config : ExecutorConfig) (runId : Uuid)
  /-- An executor's request is answered. `gitOk` is the work of the capture step. -/
  | request (i : Nat) (now : Int) (gitOk : Bool)
  | lost (i : Nat) (now : Int)
  /-- `git worktree add` ends. -/
  | git (i : Nat) (ok : Bool)
  | spawn (i : Nat)
  | renew (i : Nat) (now : Int)
  | exit (i : Nat) (exitCode : Int)
  /-- A request is not sent, a file operation or an append of evidence fails, or the executor
  stops. -/
  | stop (i : Nat) (error : ExecError)

def leasedBy (db : Db) : Call → List Event
  | .acquireLease bindingId ttlSecs now =>
    match acquireLease db bindingId ttlSecs now with
    | .ok _ => [.leased bindingId]
    | .error _ => []
  | _ => []

def Event.unanswered : Event → Bool
  | .claimed _ _ => false
  | _ => true

def Stage.afterLost : Stage → Stage
  | .fenceWorktree _ => .returned (.error (.fenced "git worktree add" none))
  | .fenceCommand _ => .returned (.error (.fenced "run command" none))
  | .gitFailed => .returned (.error .git)
  | .capture held exitCode =>
    if exitCode = 0 then .verifying held false else .failed exitCode false
  | _ => .returned (.error (.client .transport))

def World.put (w : World) (i : Nat) (e : Executor) (stage : Stage) : World :=
  { w with executors := w.executors.set i { e with stage } }

def step (w : World) : Action → Option World
  | .call c => some { w with db := c.apply w.db, history := w.history ++ leasedBy w.db c }
  | .start config runId =>
    some { w with
      executors := w.executors.set w.started ⟨config, runId, .getRun⟩, started := w.started + 1 }
  | .request i now gitOk => do
    let e ← w.executors.get? i
    let reply ← e.request i w.db w.history.length now gitOk
    some { w.put i e reply.stage with db := reply.db, history := w.history ++ reply.events }
  | .lost i now => do
    let e ← w.executors.get? i
    let reply ← e.request i w.db w.history.length now false
    some { w.put i e e.stage.afterLost with
      db := reply.db, history := w.history ++ reply.events.filter Event.unanswered }
  | .git i ok => do
    let e ← w.executors.get? i
    match e.stage with
    | .worktree held => some (w.put i e (if ok then .fenceCommand held else .gitFailed))
    | _ => none
  | .spawn i => do
    let e ← w.executors.get? i
    match e.stage with
    | .spawn held =>
      if e.config.commandTemplate = [] then some (w.put i e (.returned (.error .emptyCommand)))
      else some { w.put i e (.running held) with history := w.history ++ [.spawned i e.runId] }
    | _ => none
  | .renew i now => do
    let e ← w.executors.get? i
    match e.stage with
    | .running held =>
      let c : Call := .renewLease held.bindingId held.epoch leaseTtlSecs now
      some { w with db := c.apply w.db }
    | _ => none
  | .exit i exitCode => do
    let e ← w.executors.get? i
    match e.stage with
    | .running held => some (w.put i e (.capture held exitCode))
    | _ => none
  | .stop i error => do
    let e ← w.executors.get? i
    match e.stage with
    | .returned _ => none
    | _ => some (w.put i e (.returned (.error error)))

/-! ## What a step does -/

def leasesOf (w : World) : Action → List Event
  | .call c => leasedBy w.db c
  | .request i now _ => leasesOfExecutor i now
  | .lost i now => leasesOfExecutor i now
  | _ => []
where
  leasesOfExecutor (i : Nat) (now : Int) : List Event :=
    match (w.executors.get? i).map Executor.stage with
    | some (.lease job) => leasedBy w.db (.acquireLease job.bindingId leaseTtlSecs now)
    | _ => []

/-- The way of one executor through `execute_run`, with what it adds to the history. -/
inductive Goes (w w' : World) (a : Action) (i : Nat) (runId : Uuid) :
    Stage → Stage → List Event → Prop where
  | getRun (row : Run) : Goes w w' a i runId .getRun (.getGrants row) []
  | getGrants (row : Run) (job : Job) : Goes w w' a i runId (.getGrants row) (.claim job) []
  | claim (job : Job) (now : Int) (gitOk : Bool) (row : Run) (ha : a = .request i now gitOk)
      (hrow : w.db.runs.get? runId = some row) (hlegal : row.status.canTransitionTo .running = true)
      (hrunning : ∃ row', w'.db.runs.get? runId = some row' ∧ row'.status = .running) :
      Goes w w' a i runId (.claim job) (.lease job) [.claimed i runId]
  | lease (job : Job) (held : Held) (ha : .leased job.bindingId ∈ leasesOf w a) :
      Goes w w' a i runId (.lease job) (.fenceWorktree held) [.leased job.bindingId]
  | lostLease (job : Job) (result : Except ExecError Outcome)
      (ha : .leased job.bindingId ∈ leasesOf w a) :
      Goes w w' a i runId (.lease job) (.returned result) [.leased job.bindingId]
  | fenceWorktree (held : Held) : Goes w w' a i runId (.fenceWorktree held) (.worktree held) []
  | git (held : Held) : Goes w w' a i runId (.worktree held) (.fenceCommand held) []
  | gitFailed (held : Held) : Goes w w' a i runId (.worktree held) .gitFailed []
  | fenceCommand (held : Held) (row : WorktreeBinding)
      (hrow : w.db.worktreeBindings.get? held.bindingId = some row)
      (hepoch : row.epoch = held.epoch) :
      Goes w w' a i runId (.fenceCommand held)
        (.spawn { held with fencedAt := w.history.length }) []
  | spawn (held : Held) : Goes w w' a i runId (.spawn held) (.running held) [.spawned i runId]
  | renew (held : Held) : Goes w w' a i runId (.running held) (.running held) []
  | exit (held : Held) (exitCode : Int) (ha : a = .exit i exitCode) :
      Goes w w' a i runId (.running held) (.capture held exitCode) []
  | capture (held : Held) (captureOk : Bool) :
      Goes w w' a i runId (.capture held 0) (.verifying held captureOk) []
  | captureFailed (held : Held) (exitCode : Int) (captureOk : Bool) :
      Goes w w' a i runId (.capture held exitCode) (.failed exitCode captureOk) []
  | verifying (held : Held) (captureOk : Bool) :
      Goes w w' a i runId (.verifying held captureOk) (.completed held captureOk) []
  | completed (held : Held) (captureOk : Bool) :
      Goes w w' a i runId (.completed held captureOk) (.note .completed captureOk)
        [.completed i runId (isFenced w.db held)]
  | lostCompleted (held : Held) (captureOk : Bool) (result : Except ExecError Outcome) :
      Goes w w' a i runId (.completed held captureOk) (.returned result)
        [.completed i runId (isFenced w.db held)]
  | failed (exitCode : Int) (captureOk : Bool) :
      Goes w w' a i runId (.failed exitCode captureOk) (.note (.failed exitCode) captureOk) []
  | returned (stage : Stage) (result : Except ExecError Outcome) :
      Goes w w' a i runId stage (.returned result) []

def Effect (db db' : Db) (events : List Event) : Prop :=
  db' = db ∨ ∃ c : Call, db' = c.apply db ∧ leasedBy db c ⊆ events

structure Moves (w w' : World) (a : Action) (i : Nat) (e : Executor) (stage : Stage)
    (events : List Event) : Prop where
  here : w.executors.get? i = some e
  executors : ∀ j, w'.executors.get? j = if j = i then some { e with stage } else w.executors.get? j
  started : w'.started = w.started
  history : w'.history = w.history ++ events
  effect : Effect w.db w'.db events
  goes : Goes w w' a i e.runId e.stage stage events

inductive Stepped (w : World) (a : Action) (w' : World) : Prop where
  | call (c : Call) (ha : a = .call c)
      (hw : w' = { w with db := c.apply w.db, history := w.history ++ leasedBy w.db c })
  | start (config : ExecutorConfig) (runId : Uuid)
      (hw : w' = { w with
        executors := w.executors.set w.started ⟨config, runId, .getRun⟩, started := w.started + 1 })
  | moves (i : Nat) (e : Executor) (stage : Stage) (events : List Event)
      (hmoves : Moves w w' a i e stage events)

theorem fence_cases (db : Db) (runId : Uuid) (held : Held) (now : Int) (name : String)
    (next : Stage) :
    (∃ row, db.worktreeBindings.get? held.bindingId = some row ∧ row.epoch = held.epoch ∧
      fence db runId held now name next = ⟨db, next, []⟩) ∨
    ∃ error, fence db runId held now name next = .stop db error := by
  unfold fence
  cases h : validateOp db runId held.bindingId held.epoch now with
  | ok =>
    obtain ⟨row, -, hrow, -, -, hepoch, -⟩ := (validateOp_ok_iff ..).mp h
    exact .inl ⟨row, hrow, hepoch, rfl⟩
  | error denied => exact .inr ⟨_, rfl⟩

theorem move_cases (db : Db) (runId : Uuid) (toStatus : RunStatus) (reason : String) (now : Int)
    (next : Stage) (events : List Event) :
    (∃ db', Run.transition db runId toStatus reason now = .ok db' ∧
      db' = (Call.transition runId toStatus reason now).apply db ∧
      move db runId toStatus reason now next events = ⟨db', next, events⟩) ∨
    ∃ error, move db runId toStatus reason now next events = .stop db error := by
  unfold move
  cases h : Run.transition db runId toStatus reason now with
  | ok db' =>
    refine .inl ⟨db', rfl, ?_, rfl⟩
    show db' = committed db _
    rw [h]
    rfl
  | error error => exact .inr ⟨_, rfl⟩

theorem leasedBy_eq (db : Db) (c : Call) : leasedBy db c = [] ∨ ∃ b, leasedBy db c = [.leased b] := by
  unfold leasedBy
  split
  · split
    · exact .inr ⟨_, rfl⟩
    · exact .inl rfl
  · exact .inl rfl

theorem effect_of_call {db db' : Db} (c : Call) (h : db' = c.apply db)
    (hquiet : leasedBy db c = []) {events : List Event} : Effect db db' events :=
  .inr ⟨c, h, by rw [hquiet]; exact List.nil_subset _⟩

structure Requested (w : World) (i : Nat) (e : Executor) (now : Int) (gitOk : Bool) (reply : Reply) :
    Prop where
  effect : Effect w.db reply.db reply.events
  lostEffect : Effect w.db reply.db (reply.events.filter Event.unanswered)
  goes : ∀ w' : World, w'.db = reply.db →
    Goes w w' (.request i now gitOk) i e.runId e.stage reply.stage reply.events
  lost : ∀ w' : World, Goes w w' (.lost i now) i e.runId e.stage e.stage.afterLost
    (reply.events.filter Event.unanswered)

variable {w : World}

theorem Requested.of_stop {i : Nat} {e : Executor} {now : Int} {gitOk : Bool} {db : Db}
    {error : ExecError} (heffect : Effect w.db db [])
    (hlost : ∃ result, e.stage.afterLost = .returned result) :
    Requested w i e now gitOk (.stop db error) := by
  obtain ⟨result, hresult⟩ := hlost
  refine ⟨heffect, heffect, fun w' _ => .returned _ _, fun w' => ?_⟩
  rw [hresult]
  exact .returned _ _

theorem Executor.request_spec {i : Nat} {e : Executor} {now : Int} {gitOk : Bool} {reply : Reply}
    (here : w.executors.get? i = some e)
    (h : e.request i w.db w.history.length now gitOk = some reply) :
    Requested w i e now gitOk reply := by
  obtain ⟨config, runId, stage⟩ := e
  cases stage with
  | getRun =>
    simp only [Executor.request] at h
    cases hrow : w.db.runs.get? runId with
    | none =>
      rw [hrow] at h
      cases h
      exact .of_stop (.inl rfl) ⟨_, rfl⟩
    | some row =>
      rw [hrow] at h
      cases h
      exact ⟨.inl rfl, .inl rfl, fun _ _ => .getRun row, fun _ => .returned _ _⟩
  | getGrants row =>
    simp only [Executor.request] at h
    cases hjob : eligible config row (grantEntries w.db runId) with
    | error error =>
      rw [hjob] at h
      cases h
      exact .of_stop (.inl rfl) ⟨_, rfl⟩
    | ok job =>
      rw [hjob] at h
      cases h
      exact ⟨.inl rfl, .inl rfl, fun _ _ => .getGrants row job, fun _ => .returned _ _⟩
  | claim job =>
    cases h
    rcases move_cases w.db runId .running "executor claimed" now (.lease job) [.claimed i runId] with
      ⟨db', hok, hcall, hmove⟩ | ⟨error, hmove⟩
    · rw [hmove]
      obtain ⟨row, hrow, hlegal, hdb⟩ := Run.transition_ok hok
      refine ⟨effect_of_call _ hcall rfl, effect_of_call _ hcall rfl, fun w' hw' => ?_,
        fun _ => .returned _ _⟩
      refine .claim job now gitOk row rfl hrow hlegal ⟨row.enter .running now, ?_, rfl⟩
      rw [hw', hdb, Table.get?_set, if_pos rfl]
    · rw [hmove]
      exact .of_stop (.inl rfl) ⟨_, rfl⟩
  | lease job =>
    simp only [Executor.request] at h
    cases hlease : acquireLease w.db job.bindingId leaseTtlSecs now with
    | error error =>
      rw [hlease] at h
      cases h
      exact .of_stop (.inl rfl) ⟨_, rfl⟩
    | ok p =>
      rw [hlease] at h
      cases h
      have hcall : p.1 = (Call.acquireLease job.bindingId leaseTtlSecs now).apply w.db := by
        show p.1 = committed w.db _
        rw [hlease]
        rfl
      have hleased : leasedBy w.db (.acquireLease job.bindingId leaseTtlSecs now) =
          [.leased job.bindingId] := by
        simp only [leasedBy, hlease]
      have hof : .leased job.bindingId ∈ leasesOf.leasesOfExecutor w i now := by
        simp [leasesOf.leasesOfExecutor, here, hleased]
      have heffect : Effect w.db p.1 [.leased job.bindingId] := .inr ⟨_, hcall, by rw [hleased]; simp⟩
      exact ⟨heffect, heffect, fun _ _ => .lease job _ hof, fun _ => .lostLease job _ hof⟩
  | fenceWorktree held =>
    cases h
    rcases fence_cases w.db runId held now "git worktree add" (.worktree held) with
      ⟨row, hrow, hepoch, hfence⟩ | ⟨error, hfence⟩
    · rw [hfence]
      exact ⟨.inl rfl, .inl rfl, fun _ _ => .fenceWorktree held, fun _ => .returned _ _⟩
    · rw [hfence]
      exact .of_stop (.inl rfl) ⟨_, rfl⟩
  | gitFailed =>
    cases h
    exact .of_stop
      (effect_of_call (.transition runId .failed "git worktree add failed" now) rfl rfl) ⟨_, rfl⟩
  | fenceCommand held =>
    cases h
    rcases fence_cases w.db runId held now "run command"
      (.spawn { held with fencedAt := w.history.length }) with
      ⟨row, hrow, hepoch, hfence⟩ | ⟨error, hfence⟩
    · rw [hfence]
      exact ⟨.inl rfl, .inl rfl, fun _ _ => .fenceCommand held row hrow hepoch,
        fun _ => .returned _ _⟩
    · rw [hfence]
      exact .of_stop (.inl rfl) ⟨_, rfl⟩
  | capture held exitCode =>
    cases h
    by_cases hcode : exitCode = 0
    · subst hcode
      exact ⟨.inl rfl, .inl rfl, fun _ _ => .capture held _, fun _ => .capture held _⟩
    · simp only [if_neg hcode]
      refine ⟨.inl rfl, .inl rfl, fun _ _ => .captureFailed held exitCode _, fun _ => ?_⟩
      simp only [Stage.afterLost, if_neg hcode]
      exact .captureFailed held exitCode _
  | verifying held captureOk =>
    cases h
    rcases move_cases w.db runId .verifying "command exit 0" now (.completed held captureOk) [] with
      ⟨db', hok, hcall, hmove⟩ | ⟨error, hmove⟩
    · rw [hmove]
      exact ⟨effect_of_call _ hcall rfl, effect_of_call _ hcall rfl,
        fun _ _ => .verifying held captureOk, fun _ => .returned _ _⟩
    · rw [hmove]
      exact .of_stop (.inl rfl) ⟨_, rfl⟩
  | completed held captureOk =>
    cases h
    rcases move_cases w.db runId .completed "executor v1 auto-verify" now
      (.note .completed captureOk) [.completed i runId (isFenced w.db held)] with
      ⟨db', hok, hcall, hmove⟩ | ⟨error, hmove⟩
    · rw [hmove]
      exact ⟨effect_of_call _ hcall rfl, effect_of_call _ hcall rfl,
        fun _ _ => .completed held captureOk, fun _ => .lostCompleted held captureOk _⟩
    · rw [hmove]
      exact .of_stop (.inl rfl) ⟨_, rfl⟩
  | failed exitCode captureOk =>
    cases h
    rcases move_cases w.db runId .failed s!"command exit {exitCode}" now
      (.note (.failed exitCode) captureOk) [] with ⟨db', hok, hcall, hmove⟩ | ⟨error, hmove⟩
    · rw [hmove]
      exact ⟨effect_of_call _ hcall rfl, effect_of_call _ hcall rfl,
        fun _ _ => .failed exitCode captureOk, fun _ => .returned _ _⟩
    · rw [hmove]
      exact .of_stop (.inl rfl) ⟨_, rfl⟩
  | note outcome captureOk =>
    cases h
    exact ⟨.inl rfl, .inl rfl, fun _ _ => .returned _ _, fun _ => .returned _ _⟩
  | worktree held => cases h
  | spawn held => cases h
  | running held => cases h
  | returned result => cases h

theorem step_stepped {w' : World} {a : Action} (h : step w a = some w') : Stepped w a w' := by
  have hput (i : Nat) (e : Executor) (stage : Stage) (j : Nat) :
      (w.put i e stage).executors.get? j =
        if j = i then some { e with stage } else w.executors.get? j := Table.get?_set ..
  cases a with
  | call c => cases h; exact .call c rfl rfl
  | start config runId => cases h; exact .start config runId rfl
  | request i now gitOk =>
    obtain ⟨e, he, h⟩ := Option.bind_eq_some_iff.mp h
    obtain ⟨reply, hreply, h⟩ := Option.bind_eq_some_iff.mp h
    cases h
    have hspec := e.request_spec he hreply
    exact .moves i e _ _ ⟨he, hput i e _, rfl, rfl, hspec.effect, hspec.goes _ rfl⟩
  | lost i now =>
    obtain ⟨e, he, h⟩ := Option.bind_eq_some_iff.mp h
    obtain ⟨reply, hreply, h⟩ := Option.bind_eq_some_iff.mp h
    cases h
    have hspec := e.request_spec he hreply
    exact .moves i e _ _ ⟨he, hput i e _, rfl, rfl, hspec.lostEffect, hspec.lost _⟩
  | git i ok =>
    obtain ⟨⟨config, runId, stage⟩, he, h⟩ := Option.bind_eq_some_iff.mp h
    cases stage with
    | worktree held =>
      cases h
      cases ok with
      | true => exact .moves i _ _ [] ⟨he, hput i _ _, rfl, by simp [World.put], .inl rfl, .git held⟩
      | false =>
        exact .moves i _ _ [] ⟨he, hput i _ _, rfl, by simp [World.put], .inl rfl, .gitFailed held⟩
    | _ => cases h
  | spawn i =>
    obtain ⟨⟨config, runId, stage⟩, he, h⟩ := Option.bind_eq_some_iff.mp h
    cases stage with
    | spawn held =>
      simp only at h
      split_ifs at h
      · cases h
        exact .moves i _ _ [] ⟨he, hput i _ _, rfl, by simp [World.put], .inl rfl, .returned _ _⟩
      · cases h
        exact .moves i _ _ _ ⟨he, hput i _ _, rfl, rfl, .inl rfl, .spawn held⟩
    | _ => cases h
  | renew i now =>
    obtain ⟨⟨config, runId, stage⟩, he, h⟩ := Option.bind_eq_some_iff.mp h
    cases stage with
    | running held =>
      cases h
      refine .moves i _ (.running held) [] ⟨he, fun j => ?_, rfl, by simp, ?_, .renew held⟩
      · by_cases hj : j = i
        · rw [if_pos hj, hj]; exact he
        · rw [if_neg hj]
      · exact effect_of_call (.renewLease held.bindingId held.epoch leaseTtlSecs now) rfl rfl
    | _ => cases h
  | exit i exitCode =>
    obtain ⟨⟨config, runId, stage⟩, he, h⟩ := Option.bind_eq_some_iff.mp h
    cases stage with
    | running held =>
      cases h
      exact .moves i _ _ [] ⟨he, hput i _ _, rfl, by simp [World.put], .inl rfl,
        .exit held exitCode rfl⟩
    | _ => cases h
  | stop i error =>
    obtain ⟨e, he, h⟩ := Option.bind_eq_some_iff.mp h
    have hstop : some (w.put i e (.returned (.error error))) = some w' := by
      revert h
      cases e.stage <;> intro h <;> first | exact h | cases h
    cases hstop
    exact .moves i _ _ [] ⟨he, hput i _ _, rfl, by simp [World.put], .inl rfl, .returned _ _⟩

/-! ## A Run to be executed -/

def seenReady : List Action :=
  [.call (.insertWorkspace 7 ⟨0, .obj [], ""⟩),
    .call (.create 1 ⟨7, none, "fix it", .delegated, none⟩),
    .call (.createBinding 5 1 ⟨"buzz", "local", "task", "abc", none, "key"⟩),
    .call (.grant 1 5 .write), .call (.transition 1 .provisioning "provisioning started" 1),
    .call (.transition 1 .ready "provisioning complete" 2), .start ⟨["buzz"], ["agent"]⟩ 1,
    .start ⟨["buzz"], ["agent"]⟩ 1, .request 0 3 true, .request 0 3 true, .request 1 3 true,
    .request 1 3 true]

def executes (i : Nat) (now : Int) : List Action :=
  [.request i now true, .request i now true, .request i now true, .git i true, .request i now true,
    .spawn i]

def finishes (i : Nat) (now : Int) : List Action :=
  [.exit i 0, .request i now true, .request i now true, .request i now true, .request i now true]

end Vingilot.Coordinator.Execute
