import Vingilot.Coordinator.Calls

/-!
# The reconciler's sweep (`coordinator/src/reconcile.rs`)

A sweep selects the expired leases in one statement and quarantines each binding in one of its own.
The second one asks again for the lifecycle, and not for the lease.
-/

namespace Vingilot.Coordinator.Reconcile

open Machine

/-! ## The sweep -/

structure SweepReport where
  leasesExpired : Nat
  runsPaused : Nat
  bindingsQuarantined : Nat
  runsWallExceeded : Nat
deriving DecidableEq

abbrev ExpiredLeaseRow := Uuid × Uuid

def leaseExpired (row : WorktreeBinding) (now : Int) : Bool := row.leaseExpiresAt.any (· < now)

def isRunning (db : Db) (runId : Uuid) : Bool := (db.runs.get? runId).any (·.status = .running)

/-- The `SELECT` of `sweep_expired_leases`. -/
def expiredLeases (db : Db) (now : Int) : List ExpiredLeaseRow :=
  db.worktreeBindings.toList.filterMap fun x =>
    match x.2.ownerRunId with
    | some runId =>
      if x.2.lifecycle = .ready ∧ leaseExpired x.2 now ∧ isRunning db runId then some (x.1, runId)
      else none
    | none => none

/-- The `SELECT` of `sweep_wall_clock`. -/
def exhaustedRuns (db : Db) (now : Int) : List Uuid :=
  (db.runs.toList.filter fun x => x.2.status = .running &&
    match x.2.wallStartedAt, x.2.wallLimitSecs with
    | some started, some limit => started + secs limit < now
    | _, _ => false).map Prod.fst

inductive Todo where
  | leases (rows : List ExpiredLeaseRow)
  | wall (runs : List Uuid)
deriving DecidableEq

def Todo.reason : Todo → String
  | .leases _ => "lease lost"
  | .wall _ => "wall clock budget exhausted"

inductive Stage where
  | selectExpired
  | selectExhausted
  | next (todo : Todo)
  /-- `pause_once` reads the status and then asks for the transition. -/
  | readStatus (runId : Uuid) (todo : Todo)
  | pause (runId : Uuid) (todo : Todo)
deriving DecidableEq

structure Sweep where
  stage : Stage
  alreadyPaused : List Uuid
  report : SweepReport

def Sweep.start : Sweep := ⟨.selectExpired, [], ⟨0, 0, 0, 0⟩⟩

/-- The start of `pause_once`. -/
def Sweep.pauseOnce (s : Sweep) (runId : Uuid) (todo : Todo) : Sweep :=
  if runId ∈ s.alreadyPaused then { s with stage := .next todo }
  else { s with stage := .readStatus runId todo, alreadyPaused := runId :: s.alreadyPaused }

def isReady (db : Db) (bindingId : Uuid) : Bool :=
  (db.worktreeBindings.get? bindingId).any (·.lifecycle = .ready)

/-- One statement of a sweep. `none` when the sweep returns, with its report or with an error. -/
def Sweep.advance (db : Db) (now : Int) (s : Sweep) : Db × Option Sweep :=
  match s.stage with
  | .selectExpired =>
    (db, some { s with stage := .next (.leases (expiredLeases db now)), alreadyPaused := [] })
  | .next (.leases []) => (db, some { s with stage := .selectExhausted })
  | .next (.leases ((bindingId, runId) :: rows)) =>
    let report := { s.report with
      leasesExpired := s.report.leasesExpired + 1
      bindingsQuarantined := s.report.bindingsQuarantined + if isReady db bindingId then 1 else 0 }
    (quarantineReady db bindingId, some (Sweep.pauseOnce { s with report } runId (.leases rows)))
  | .selectExhausted =>
    (db, some { s with stage := .next (.wall (exhaustedRuns db now)), alreadyPaused := [] })
  | .next (.wall []) => (db, none)
  | .next (.wall (runId :: runs)) =>
    let report := { s.report with runsWallExceeded := s.report.runsWallExceeded + 1 }
    (db, some (Sweep.pauseOnce { s with report } runId (.wall runs)))
  | .readStatus runId todo =>
    (db, some { s with
      stage := if isRunning db runId then .pause runId todo else .next todo })
  | .pause runId todo =>
    match Run.transition db runId .paused todo.reason now with
    | .ok db =>
      let report := { s.report with runsPaused := s.report.runsPaused + 1 }
      (db, some { s with stage := .next todo, report })
    -- another sweep has paused the Run
    | .error (.illegalTransition .paused _) => (db, some { s with stage := .next todo })
    | .error _ => (db, none)

def Sweep.quarantines (db : Db) (s : Sweep) : Option Uuid :=
  match s.stage with
  | .next (.leases ((bindingId, _) :: _)) => if isReady db bindingId then some bindingId else none
  | _ => none

/-! ## Runs -/

/-- A `ready` binding that a sweep has quarantined, with its lease in the row that was written. -/
structure Quarantine where
  bindingId : Uuid
  leaseExpiresAt : Option Int
  now : Int
deriving DecidableEq

structure World where
  db : Db
  clock : Int
  sweeps : Table Nat Sweep
  started : Nat
  /-- Kept for the statements only. -/
  quarantined : List Quarantine

def World.init (db : Db) : World := ⟨db, 0, ∅, 0, []⟩

inductive Action where
  | tick (micros : Nat)
  | call (c : Call)
  | sweep
  | advance (i : Nat)
  | stop (i : Nat)

def step (w : World) : Action → Option World
  | .tick micros => some { w with clock := w.clock + micros }
  | .call c => some { w with db := c.apply w.db }
  | .sweep =>
    some { w with sweeps := w.sweeps.set w.started .start, started := w.started + 1 }
  | .advance i => do
    let s ← w.sweeps.get? i
    let (db, s') := s.advance w.db w.clock
    let row := (s.quarantines w.db).bind w.db.worktreeBindings.get?
    some { w with
      db
      sweeps := w.sweeps.alter i fun _ => s'
      quarantined := w.quarantined ++
        (s.quarantines w.db).toList.map fun b => ⟨b, row.bind (·.leaseExpiresAt), w.clock⟩ }
  | .stop i => some { w with sweeps := w.sweeps.remove i }

/-! ## What a sweep has selected -/

def Todo.selected : Todo → List Uuid
  | .leases rows => rows.map Prod.fst
  | .wall _ => []

def Stage.selected : Stage → List Uuid
  | .selectExpired => []
  | .selectExhausted => []
  | .next todo => todo.selected
  | .readStatus _ todo => todo.selected
  | .pause _ todo => todo.selected

def World.selected (w : World) : List Uuid :=
  w.sweeps.toList.flatMap fun x => x.2.stage.selected

def leases (db : Db) : Call → Option (Uuid × Int)
  | .acquireLease bindingId ttlSecs now => some (bindingId, now + secs ttlSecs)
  | .renewLease bindingId epoch ttlSecs now =>
    if (db.worktreeBindings.get? bindingId).any (·.epoch = epoch) then
      some (bindingId, now + secs ttlSecs)
    else none
  | _ => none

def Spares (w : World) : Action → Prop
  | .call c => ∀ x ∈ leases w.db c, x.1 ∈ w.selected → x.2 < w.clock
  | _ => True

instance (w : World) (a : Action) : Decidable (Spares w a) :=
  match a with
  | .call c => inferInstanceAs (Decidable (∀ x ∈ leases w.db c, x.1 ∈ w.selected → x.2 < w.clock))
  | .tick _ => isTrue trivial
  | .sweep => isTrue trivial
  | .advance _ => isTrue trivial
  | .stop _ => isTrue trivial

/-! ## Leases of selected bindings -/

def Expired (db : Db) (now : Int) (bindingId : Uuid) : Prop :=
  ∃ row, db.worktreeBindings.get? bindingId = some row ∧ leaseExpired row now = true

variable {now : Int}

theorem leaseExpired_iff {row : WorktreeBinding} :
    leaseExpired row now = true ↔ ∃ t, row.leaseExpiresAt = some t ∧ t < now := by
  unfold leaseExpired
  cases row.leaseExpiresAt <;> simp

variable {db : Db} {b : Uuid}

theorem Expired.later {now' : Int} (h : Expired db now b) (hle : now ≤ now') :
    Expired db now' b := by
  obtain ⟨row, hrow, hexpired⟩ := h
  obtain ⟨t, ht, hlt⟩ := leaseExpired_iff.mp hexpired
  exact ⟨row, hrow, leaseExpired_iff.mpr ⟨t, ht, by omega⟩⟩

theorem Expired.of_set {db' : Db} {id : Uuid} {row row' : WorktreeBinding} (h : Expired db now b)
    (hrow : db.worktreeBindings.get? id = some row)
    (hbindings : db'.worktreeBindings = db.worktreeBindings.set id row')
    (hlease : id = b → row'.leaseExpiresAt = row.leaseExpiresAt ∨ leaseExpired row' now = true) :
    Expired db' now b := by
  obtain ⟨old, hold, hexpired⟩ := h
  unfold Expired
  rw [hbindings, Table.get?_set]
  by_cases hsame : b = id
  · subst hsame
    obtain rfl : row = old := Option.some.inj (hrow.symm.trans hold)
    refine ⟨row', if_pos rfl, ?_⟩
    rcases hlease rfl with hsame | hexpired'
    · unfold leaseExpired at hexpired ⊢
      rwa [hsame]
    · exact hexpired'
  · exact ⟨old, by rw [if_neg hsame]; exact hold, hexpired⟩

theorem Expired.quarantineReady (h : Expired db now b) (id : Uuid) :
    Expired (quarantineReady db id) now b := by
  rcases quarantineReady_cases db id with hsame | ⟨row, hrow, -, hset⟩
  · rw [hsame]; exact h
  · rw [hset]; exact h.of_set hrow rfl fun _ => .inl rfl

theorem Expired.transition {db' : Db} (h : Expired db now b) {runId : Uuid} {toStatus : RunStatus}
    {reason : String} {at_ : Int} (hok : Run.transition db runId toStatus reason at_ = .ok db') :
    Expired db' now b := by
  obtain ⟨row, -, -, rfl⟩ := Run.transition_ok hok
  exact h

theorem Expired.call (h : Expired db now b) (c : Call)
    (hspares : ∀ x ∈ leases db c, x.1 = b → x.2 < now) : Expired (c.apply db) now b := by
  cases (c.change db).bindings with
  | same hbindings =>
    unfold Expired
    rw [hbindings]
    exact h
  | created id runId new hnew hkey hbindings =>
    obtain ⟨row, hrow, hexpired⟩ := h
    have hne : b ≠ id := by
      rintro rfl
      rw [hnew] at hrow
      cases hrow
    refine ⟨row, ?_, hexpired⟩
    rw [hbindings, Table.get?_set, if_neg hne]
    exact hrow
  | acquired id row ttlSecs at_ hcall hok hrow hbindings =>
    subst hcall
    refine h.of_set hrow hbindings fun hsame => .inr (leaseExpired_iff.mpr ⟨_, rfl, ?_⟩)
    exact hspares _ rfl hsame
  | renewed id row ttlSecs at_ hcall hrow hbindings =>
    subst hcall
    refine h.of_set hrow hbindings fun hsame => .inr (leaseExpired_iff.mpr ⟨_, rfl, ?_⟩)
    refine hspares (id, at_ + secs ttlSecs) ?_ hsame
    simp [leases, hrow]
  | labelled id row lifecycle hrow hbindings => exact h.of_set hrow hbindings fun _ => .inl rfl

theorem expired_of_selected {x : ExpiredLeaseRow} (h : x ∈ expiredLeases db now) :
    Expired db now x.1 := by
  unfold expiredLeases at h
  obtain ⟨⟨id, row⟩, hmem, hrow⟩ := List.mem_filterMap.mp h
  split at hrow
  · split_ifs at hrow with hcond
    cases hrow
    exact ⟨row, (Table.mem_toList ..).mp hmem, hcond.2.1⟩
  · cases hrow

/-! ## One statement of a sweep -/

theorem Sweep.pauseOnce_selected (s : Sweep) (runId : Uuid) (todo : Todo) :
    (s.pauseOnce runId todo).stage.selected = todo.selected := by
  unfold Sweep.pauseOnce
  split_ifs <;> rfl

theorem Sweep.advance_keeps (db : Db) (now : Int) (s : Sweep) {at_ : Int} (h : Expired db at_ b) :
    Expired (s.advance db now).1 at_ b := by
  unfold Sweep.advance
  split <;> try exact h
  · exact h.quarantineReady _
  · split
    · rename_i hok; exact h.transition hok
    · exact h
    · exact h

variable {s : Sweep}

theorem Sweep.advance_selected {s' : Sweep} (h : (s.advance db now).2 = some s')
    (hb : b ∈ s'.stage.selected) : b ∈ s.stage.selected ∨ Expired db now b := by
  unfold Sweep.advance at h
  split at h
  · cases h
    obtain ⟨x, hx, rfl⟩ := List.mem_map.mp hb
    exact .inr (expired_of_selected hx)
  · cases h; cases hb
  · rename_i bindingId runId rows hstage
    cases h
    rw [Sweep.pauseOnce_selected] at hb
    rw [hstage]
    exact .inl (List.mem_cons_of_mem _ hb)
  · cases h; cases hb
  · cases h
  · cases h
    rw [Sweep.pauseOnce_selected] at hb
    cases hb
  · rename_i runId todo hstage
    cases h
    rw [hstage]
    split_ifs at hb <;> exact .inl hb
  · rename_i runId todo hstage
    rw [hstage]
    split at h
    · cases h; exact .inl hb
    · cases h; exact .inl hb
    · cases h

theorem Sweep.quarantines_selected (h : s.quarantines db = some b) : b ∈ s.stage.selected := by
  unfold Sweep.quarantines at h
  split at h
  · rename_i hstage
    split_ifs at h
    cases h
    rw [hstage]
    exact List.mem_cons_self
  · cases h

/-! ## What a run keeps -/

def Quarantine.Expired (q : Quarantine) : Prop := ∃ t, q.leaseExpiresAt = some t ∧ t < q.now

instance (q : Quarantine) : Decidable q.Expired :=
  decidable_of_iff (q.leaseExpiresAt.any (· < q.now) = true) (by
    unfold Quarantine.Expired
    cases q.leaseExpiresAt <;> simp)

structure Kept (w : World) : Prop where
  selected : ∀ i s, w.sweeps.get? i = some s → ∀ b ∈ s.stage.selected, Expired w.db w.clock b
  quarantined : ∀ q ∈ w.quarantined, q.Expired

theorem mem_selected {w : World} {i : Nat} (hs : w.sweeps.get? i = some s)
    (hb : b ∈ s.stage.selected) : b ∈ w.selected :=
  List.mem_flatMap.mpr ⟨(i, s), (Table.mem_toList ..).mpr hs, hb⟩

theorem Kept.step {w w' : World} {a : Action} (h : Kept w) (hspares : Spares w a)
    (hstep : step w a = some w') : Kept w' := by
  cases a with
  | tick micros =>
    cases hstep
    exact ⟨fun i s hs b hb => (h.selected i s hs b hb).later (by simp only; omega), h.quarantined⟩
  | call c =>
    cases hstep
    refine ⟨fun i s hs b hb => (h.selected i s hs b hb).call c ?_, h.quarantined⟩
    rintro x hx rfl
    exact hspares x hx (mem_selected hs hb)
  | sweep =>
    cases hstep
    refine ⟨fun i s hs b hb => ?_, h.quarantined⟩
    rw [Table.get?_set] at hs
    split_ifs at hs
    · cases hs; cases hb
    · exact h.selected i s hs b hb
  | advance i =>
    obtain ⟨s, hs, hstep⟩ := Option.bind_eq_some_iff.mp hstep
    cases hstep
    constructor
    · intro j t ht b hb
      simp only [Table.get?_alter] at ht
      refine s.advance_keeps w.db w.clock ?_
      split_ifs at ht with hj
      · rcases s.advance_selected ht hb with hold | hnew
        · exact h.selected i s hs b hold
        · exact hnew
      · exact h.selected j t ht b hb
    · intro q hq
      rcases List.mem_append.mp hq with hq | hq
      · exact h.quarantined q hq
      · obtain ⟨b, hb, rfl⟩ := List.mem_map.mp hq
        have hquarantines : s.quarantines w.db = some b := Option.mem_toList.mp hb
        obtain ⟨row, hrow, hexpired⟩ := h.selected i s hs b (s.quarantines_selected hquarantines)
        obtain ⟨t, ht, hlt⟩ := leaseExpired_iff.mp hexpired
        exact ⟨t, by simp [hquarantines, hrow, ht], hlt⟩
  | stop i =>
    cases hstep
    refine ⟨fun j s hs b hb => ?_, h.quarantined⟩
    rw [Table.get?_remove] at hs
    split_ifs at hs
    exact h.selected j s hs b hb

/-- A sweep quarantines expired leases only, in every run where nobody gives a running lease to a
binding between its selection and its quarantine. -/
theorem quarantined_expired {db : Db} {actions : List Action} {w : World}
    (hrun : run step (.init db) actions = some w) (hmeets : Meets step Spares (.init db) actions) :
    ∀ q ∈ w.quarantined, q.Expired := by
  have hinit : Kept (.init db) := ⟨fun _ _ h => (by cases h), fun _ h => (by cases h)⟩
  exact (run_invariant_of_meets Kept (fun _ _ _ hs hc h => hs.step hc h) hinit hmeets hrun).quarantined

def lapsed : List Action :=
  [.call (.insertWorkspace 7 ⟨0, .obj [], ""⟩),
    .call (.create 1 ⟨7, none, "fix it", .delegated, none⟩),
    .call (.createBinding 5 1 ⟨"buzz", "local", "task", "abc", none, "key"⟩),
    .call (.transition 1 .provisioning "provisioning started" 1),
    .call (.transition 1 .ready "provisioning complete" 2),
    .call (.transition 1 .running "executor claimed" 3), .call (.acquireLease 5 90 4),
    .tick 100000000, .sweep, .advance 0]

theorem quarantined_expired_lapsed : ∃ (w : World) (q : Quarantine),
    run step (.init .empty) (lapsed ++ [Action.advance 0, .advance 0, .advance 0]) = some w ∧
      q ∈ w.quarantined ∧ q.Expired ∧ (w.db.runs.get? 1).map (·.status) = some .paused := by
  have hdemo : ((run step (.init .empty) (lapsed ++ [Action.advance 0, .advance 0, .advance 0])).any
      fun w => w.quarantined == [⟨5, some 90000004, 100000000⟩] &&
        (w.db.runs.get? 1).map (·.status) == some .paused) = true := by decide +kernel
  have hmeets : Meets step Spares (.init .empty) (lapsed ++ [Action.advance 0, .advance 0, .advance 0]) := by
    decide +kernel
  obtain ⟨w, hrun, h⟩ := (Option.any_eq_true _ _).mp hdemo
  simp only [Bool.and_eq_true, beq_iff_eq] at h
  have hmem : ⟨5, some 90000004, 100000000⟩ ∈ w.quarantined := by
    rw [h.1]
    exact List.mem_singleton_self _
  exact ⟨w, _, hrun, hmem, quarantined_expired hrun hmeets _ hmem, h.2⟩

/-- The holder renews its lease between the selection and the quarantine. -/
theorem renewed_lease_quarantined :
    ¬ ∀ (actions : List Action) (w : World), run step (.init .empty) actions = some w →
      ∀ q ∈ w.quarantined, q.Expired := by
  have hdemo : ((run step (.init .empty)
      (lapsed ++ [Action.call (.renewLease 5 1 90 100000000), .advance 0])).any fun w =>
        w.quarantined == [⟨5, some 190000000, 100000000⟩]) = true := by decide +kernel
  obtain ⟨w, hrun, h⟩ := (Option.any_eq_true _ _).mp hdemo
  intro hall
  obtain ⟨t, ht, hlt⟩ := hall _ w hrun ⟨5, some 190000000, 100000000⟩ (by
    rw [eq_of_beq h]
    exact List.mem_singleton_self _)
  cases ht
  exact absurd hlt (by decide)

end Vingilot.Coordinator.Reconcile
