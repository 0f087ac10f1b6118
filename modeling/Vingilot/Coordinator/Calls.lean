import Vingilot.Lib.Machine
import Vingilot.Coordinator.Store

/-!
# What each call of the coordinator writes

One lemma says what a call does when it succeeds, and one for each pair of tables says what any call
does to them.
-/

namespace Vingilot.Coordinator

open Machine

/-- A request of any party, or one statement of the saga or the reconciler. A pause is a transition
to `Paused`. -/
inductive Call where
  | insertWorkspace (id : Uuid) (row : Workspace)
  | create (id : Uuid) (new : NewRun)
  | transition (runId : Uuid) (toStatus : RunStatus) (reason : String) (now : Int)
  | createBinding (id runId : Uuid) (new : NewBinding)
  | grant (runId bindingId : Uuid) (access : Access)
  | acquireLease (bindingId : Uuid) (ttlSecs now : Int)
  | renewLease (bindingId : Uuid) (epoch ttlSecs now : Int)
  | setLifecycle (bindingId : Uuid) (lifecycle : Lifecycle)
  | quarantineReady (bindingId : Uuid)
  | revokeGrants (runId : Uuid)

def committed {ε : Type} (db : Db) : Except ε Db → Db
  | .ok db' => db'
  | .error _ => db

def Call.apply (db : Db) : Call → Db
  | .insertWorkspace id row => Coordinator.insertWorkspace db id row
  | .create id new => committed db (Run.create db id new)
  | .transition runId toStatus reason now =>
    committed db (Run.transition db runId toStatus reason now)
  | .createBinding id runId new =>
    committed db ((Coordinator.createBinding db id runId new).map Prod.fst)
  | .grant runId bindingId access => committed db (Coordinator.grant db runId bindingId access)
  | .acquireLease bindingId ttlSecs now =>
    committed db ((Coordinator.acquireLease db bindingId ttlSecs now).map Prod.fst)
  | .renewLease bindingId epoch ttlSecs now =>
    committed db ((Coordinator.renewLease db bindingId epoch ttlSecs now).map Prod.fst)
  | .setLifecycle bindingId lifecycle => Coordinator.setLifecycle db bindingId lifecycle
  | .quarantineReady bindingId => Coordinator.quarantineReady db bindingId
  | .revokeGrants runId => Coordinator.revokeGrants db runId

def step (db : Db) (call : Call) : Option Db := some (call.apply db)

variable {ε : Type}

theorem eq_ok_of_toOption {α : Type} {r : Except ε α} {a : α} (h : r.toOption = some a) :
    r = .ok a := by
  cases r with
  | error e => cases h
  | ok b => cases h; rfl

/-! ## Calls that succeed -/

section Succeed

variable {db db' : Db} {runId bindingId : Uuid} {now ttlSecs : Int}

theorem Run.create_ok {id : Uuid} {new : NewRun} (h : Run.create db id new = .ok db') :
    db.runs.get? id = none ∧ ∃ row : Run, row.status = .draft ∧ row.wallStartedAt = none ∧
      db' = { db with runs := db.runs.set id row } := by
  unfold Run.create at h
  split_ifs at h with hfree
  cases h
  simp only [Bool.or_eq_true, not_or] at hfree
  exact ⟨Option.not_isSome_iff_eq_none.mp hfree.1.1, _, rfl, rfl, rfl⟩

theorem Run.transition_ok {toStatus : RunStatus} {reason : String}
    (h : Run.transition db runId toStatus reason now = .ok db') :
    ∃ row, db.runs.get? runId = some row ∧ row.status.canTransitionTo toStatus = true ∧
      db' = { db with
        runTransitions := db.runTransitions.set (runId, nextSeq db.runTransitions runId)
          ⟨row.status, toStatus, reason, now⟩
        runs := db.runs.set runId (row.enter toStatus now) } := by
  unfold Run.transition at h
  split at h
  · cases h
  · rename_i row hrow
    split_ifs at h with hlegal
    cases h
    exact ⟨row, hrow, hlegal, rfl⟩

theorem createBinding_ok {id id' : Uuid} {new : NewBinding}
    (h : createBinding db id runId new = .ok (db', id')) :
    (db.bindingOfKey new.idempotencyKey = some id' ∧ db' = db) ∨
    (db.bindingOfKey new.idempotencyKey = none ∧ db.worktreeBindings.get? id = none ∧ id' = id ∧
      db' = { db with worktreeBindings := db.worktreeBindings.set id (new.row runId) }) := by
  unfold createBinding at h
  cases hkey : db.bindingOfKey new.idempotencyKey with
  | some existing =>
    simp only [hkey] at h
    split_ifs at h
    cases h
    exact .inl ⟨rfl, rfl⟩
  | none =>
    simp only [hkey] at h
    split_ifs at h with hrole hfree
    cases h
    simp only [Bool.or_eq_true, not_or] at hfree
    exact .inr ⟨rfl, Option.not_isSome_iff_eq_none.mp hfree.1, rfl, rfl⟩

theorem grant_ok {access : Access} (h : grant db runId bindingId access = .ok db') :
    db' = { db with
      runWorktreeGrants := db.runWorktreeGrants.set (runId, bindingId) access } := by
  unfold grant at h
  split_ifs at h
  cases h
  rfl

theorem acquireLease_ok {lease : Lease}
    (h : acquireLease db bindingId ttlSecs now = .ok (db', lease)) :
    ∃ row, db.worktreeBindings.get? bindingId = some row ∧
      lease = ⟨bindingId, row.epoch + 1, now + secs ttlSecs⟩ ∧
      db' = { db with
        worktreeBindings := db.worktreeBindings.set bindingId
          { row with epoch := row.epoch + 1, leaseExpiresAt := some (now + secs ttlSecs) } } := by
  unfold acquireLease at h
  split at h
  · cases h
  · rename_i row hrow
    split_ifs at h
    cases h
    exact ⟨row, hrow, rfl, rfl⟩

theorem renewLease_ok {epoch : Int} {lease : Lease}
    (h : renewLease db bindingId epoch ttlSecs now = .ok (db', lease)) :
    ∃ row, db.worktreeBindings.get? bindingId = some row ∧ row.epoch = epoch ∧
      db' = { db with
        worktreeBindings := db.worktreeBindings.set bindingId
          { row with leaseExpiresAt := some (now + secs ttlSecs) } } := by
  unfold renewLease at h
  split at h
  · cases h
  · rename_i row hrow
    split_ifs at h with hepoch
    cases h
    exact ⟨row, hrow, not_not.mp hepoch, rfl⟩

theorem setLifecycle_cases (db : Db) (bindingId : Uuid) (lifecycle : Lifecycle) :
    (setLifecycle db bindingId lifecycle = db ∧ db.worktreeBindings.get? bindingId = none) ∨
    ∃ row, db.worktreeBindings.get? bindingId = some row ∧
      setLifecycle db bindingId lifecycle = { db with
        worktreeBindings :=
          db.worktreeBindings.set bindingId { row with lifecycle := lifecycle } } := by
  unfold setLifecycle
  cases hrow : db.worktreeBindings.get? bindingId with
  | none => exact .inl ⟨rfl, rfl⟩
  | some row => exact .inr ⟨row, rfl, rfl⟩

theorem quarantineReady_cases (db : Db) (bindingId : Uuid) :
    quarantineReady db bindingId = db ∨
    ∃ row, db.worktreeBindings.get? bindingId = some row ∧ row.lifecycle = .ready ∧
      quarantineReady db bindingId = { db with
        worktreeBindings :=
          db.worktreeBindings.set bindingId { row with lifecycle := .quarantined } } := by
  unfold quarantineReady setLifecycle
  cases hrow : db.worktreeBindings.get? bindingId with
  | none => exact .inl rfl
  | some row =>
    by_cases hready : row.lifecycle = .ready
    · exact .inr ⟨row, rfl, hready, by simp [hready]⟩
    · exact .inl (by simp [hready])

end Succeed

/-! ## The Runs and their log -/

theorem Run.enter_status (row : Run) (toStatus : RunStatus) (now : Int) :
    (row.enter toStatus now).status = toStatus := by
  unfold Run.enter
  split_ifs <;> rfl

inductive RunChange (db db' : Db) : Prop where
  | same (hruns : db'.runs = db.runs) (hlog : db'.runTransitions = db.runTransitions)
  | created (id : Uuid) (row : Run) (hnew : db.runs.get? id = none) (hstatus : row.status = .draft)
      (hwall : row.wallStartedAt = none) (hruns : db'.runs = db.runs.set id row)
      (hlog : db'.runTransitions = db.runTransitions)
  | moved (id : Uuid) (row : Run) (toStatus : RunStatus) (reason : String) (now : Int)
      (hrow : db.runs.get? id = some row) (hlegal : row.status.canTransitionTo toStatus = true)
      (hruns : db'.runs = db.runs.set id (row.enter toStatus now))
      (hlog : db'.runTransitions = db.runTransitions.set (id, nextSeq db.runTransitions id)
        ⟨row.status, toStatus, reason, now⟩)

theorem RunChange.stage_le {db db' : Db} (h : RunChange db db') {runId : Uuid} {row : Run}
    (hrow : db.runs.get? runId = some row) :
    ∃ row', db'.runs.get? runId = some row' ∧ row.status.stage ≤ row'.status.stage := by
  cases h with
  | same hruns hlog => exact ⟨row, by rw [hruns]; exact hrow, Nat.le_refl _⟩
  | created id new hnew hstatus hwall hruns hlog =>
    have hne : runId ≠ id := by
      rintro rfl
      rw [hnew] at hrow
      cases hrow
    exact ⟨row, by rw [hruns, Table.get?_set, if_neg hne]; exact hrow, Nat.le_refl _⟩
  | moved id old toStatus reason now hold hlegal hruns hlog =>
    rw [hruns, Table.get?_set]
    by_cases hsame : runId = id
    · subst hsame
      obtain rfl : old = row := Option.some.inj (hold.symm.trans hrow)
      refine ⟨_, if_pos rfl, ?_⟩
      rw [Run.enter_status]
      exact RunStatus.stage_le_of_legal hlegal
    · exact ⟨row, by rw [if_neg hsame]; exact hrow, Nat.le_refl _⟩

/-! ## The bindings -/

inductive BindingChange (db : Db) (call : Call) (db' : Db) : Prop where
  | same (hbindings : db'.worktreeBindings = db.worktreeBindings)
  | created (id runId : Uuid) (new : NewBinding) (hnew : db.worktreeBindings.get? id = none)
      (hkey : db.bindingOfKey new.idempotencyKey = none)
      (hbindings : db'.worktreeBindings = db.worktreeBindings.set id (new.row runId))
  | acquired (id : Uuid) (row : WorktreeBinding) (ttlSecs now : Int)
      (hcall : call = .acquireLease id ttlSecs now)
      (hok : ∃ p, acquireLease db id ttlSecs now = .ok p)
      (hrow : db.worktreeBindings.get? id = some row)
      (hbindings : db'.worktreeBindings = db.worktreeBindings.set id
        { row with epoch := row.epoch + 1, leaseExpiresAt := some (now + secs ttlSecs) })
  | renewed (id : Uuid) (row : WorktreeBinding) (ttlSecs now : Int)
      (hcall : call = .renewLease id row.epoch ttlSecs now)
      (hrow : db.worktreeBindings.get? id = some row)
      (hbindings : db'.worktreeBindings = db.worktreeBindings.set id
        { row with leaseExpiresAt := some (now + secs ttlSecs) })
  | labelled (id : Uuid) (row : WorktreeBinding) (lifecycle : Lifecycle)
      (hrow : db.worktreeBindings.get? id = some row)
      (hbindings : db'.worktreeBindings = db.worktreeBindings.set id
        { row with lifecycle := lifecycle })

structure Change (db : Db) (call : Call) (db' : Db) : Prop where
  runs : RunChange db db'
  bindings : BindingChange db call db'

theorem Change.refl (db : Db) (call : Call) : Change db call db := ⟨.same rfl rfl, .same rfl⟩

theorem Change.of_committed {db : Db} {call : Call} {r : Except ε Db}
    (h : ∀ db', r = .ok db' → Change db call db') : Change db call (committed db r) := by
  cases r with
  | error e => exact .refl db call
  | ok db' => exact h db' rfl

theorem Change.of_answered {α : Type} {db : Db} {call : Call} {r : Except ε (Db × α)}
    (h : ∀ db' a, r = .ok (db', a) → Change db call db') :
    Change db call (committed db (r.map Prod.fst)) := by
  cases r with
  | error e => exact .refl db call
  | ok p => exact h p.1 p.2 rfl

theorem Call.change (db : Db) (call : Call) : Change db call (call.apply db) := by
  cases call with
  | insertWorkspace id row =>
    show Change db _ (Coordinator.insertWorkspace db id row)
    unfold Coordinator.insertWorkspace
    split_ifs
    · exact .refl db _
    · exact ⟨.same rfl rfl, .same rfl⟩
  | create id new =>
    refine .of_committed fun db' h => ?_
    obtain ⟨hnew, row, hstatus, hwall, rfl⟩ := Run.create_ok h
    exact ⟨.created id row hnew hstatus hwall rfl rfl, .same rfl⟩
  | transition runId toStatus reason now =>
    refine .of_committed fun db' h => ?_
    obtain ⟨row, hrow, hlegal, rfl⟩ := Run.transition_ok h
    exact ⟨.moved runId row toStatus reason now hrow hlegal rfl rfl, .same rfl⟩
  | createBinding id runId new =>
    refine .of_answered fun db' id' h => ?_
    rcases createBinding_ok h with ⟨-, rfl⟩ | ⟨hkey, hnew, -, rfl⟩
    · exact .refl _ _
    · exact ⟨.same rfl rfl, .created id runId new hnew hkey rfl⟩
  | grant runId bindingId access =>
    refine .of_committed fun db' h => ?_
    obtain rfl := grant_ok h
    exact ⟨.same rfl rfl, .same rfl⟩
  | acquireLease bindingId ttlSecs now =>
    refine .of_answered fun db' lease h => ?_
    obtain ⟨row, hrow, -, rfl⟩ := acquireLease_ok h
    exact ⟨.same rfl rfl, .acquired bindingId row ttlSecs now rfl ⟨_, h⟩ hrow rfl⟩
  | renewLease bindingId epoch ttlSecs now =>
    refine .of_answered fun db' lease h => ?_
    obtain ⟨row, hrow, rfl, rfl⟩ := renewLease_ok h
    exact ⟨.same rfl rfl, .renewed bindingId row ttlSecs now rfl hrow rfl⟩
  | setLifecycle bindingId lifecycle =>
    show Change db _ (Coordinator.setLifecycle db bindingId lifecycle)
    rcases setLifecycle_cases db bindingId lifecycle with ⟨hsame, -⟩ | ⟨row, hrow, hset⟩
    · rw [hsame]; exact .refl db _
    · rw [hset]; exact ⟨.same rfl rfl, .labelled bindingId row lifecycle hrow rfl⟩
  | quarantineReady bindingId =>
    show Change db _ (Coordinator.quarantineReady db bindingId)
    rcases quarantineReady_cases db bindingId with hsame | ⟨row, hrow, -, hset⟩
    · rw [hsame]; exact .refl db _
    · rw [hset]; exact ⟨.same rfl rfl, .labelled bindingId row .quarantined hrow rfl⟩
  | revokeGrants runId => exact ⟨.same rfl rfl, .same rfl⟩

end Vingilot.Coordinator
